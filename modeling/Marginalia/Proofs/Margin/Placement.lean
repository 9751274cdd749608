import Mathlib.Algebra.Order.BigOperators.Group.List
import Marginalia.Proofs.Margin.Numbers

/-! # The least placement

Placed in their order, each as close to its target as the one before it allows, items lie no lower
than in any other placement without collisions in which none lies above its target. What happens to
a placement when items change follows from that: a placement for larger items has room for smaller
ones, and with everything behind it moved along there is room for an item that has grown.
-/

namespace Marginalia

namespace Item

/-- Tops for items in their order: none lies above its target, and each begins at least `gap` below
    where the one before ends. -/
inductive CollisionFree (gap : Rat) : List (Item Rat) → List Rat → Prop where
  | none : CollisionFree gap [] []
  | one {i : Item Rat} {top : Rat} : i.target ≤ top → CollisionFree gap [i] [top]
  | more {i j : Item Rat} {top next : Rat} {items : List (Item Rat)} {tops : List Rat} :
      i.target ≤ top → top + i.height + gap ≤ next → CollisionFree gap (j :: items) (next :: tops) →
      CollisionFree gap (i :: j :: items) (top :: next :: tops)

namespace CollisionFree

variable {gap d : Rat} {i : Item Rat} {items larger : List (Item Rat)} {top : Rat} {tops : List Rat}

theorem length_eq (h : CollisionFree gap items tops) : tops.length = items.length := by
  induction h with
  | none | one => rfl
  | more target below h ih => rw [List.length_cons, ih, ← List.length_cons]

theorem target_le (h : CollisionFree gap (i :: items) (top :: tops)) : i.target ≤ top := by
  cases h with
  | one target | more target => exact target

theorem of_le (h : CollisionFree gap larger tops)
    (le : List.Forall₂ (fun i j => i.target ≤ j.target ∧ i.height ≤ j.height) items larger) :
    CollisionFree gap items tops := by
  induction h generalizing items with
  | none =>
      cases le
      exact .none
  | one target =>
      cases le with
      | cons first le =>
          cases le
          exact .one (first.1.trans target)
  | more target below h ih =>
      cases le with
      | cons first le =>
          have rest := ih le
          cases le with
          | cons second le => exact .more (first.1.trans target) (by linarith [first.2]) rest

theorem lower (h : CollisionFree gap items tops) (down : 0 ≤ d) :
    CollisionFree gap items (tops.map (· + d)) := by
  induction h with
  | none => exact .none
  | one target => exact .one (by linarith)
  | more target below h ih => exact .more (by linarith) (by linarith) ih

end CollisionFree

/-- What placing items comes to. -/
structure Placed (gap : Rat) (items : List (Item Rat)) (tops : List Rat) : Prop where
  made : place (.finite gap) (items.map exact) = tops.map .finite
  free : CollisionFree gap items tops
  least : ∀ others, CollisionFree gap items others → List.Forall₂ (· ≤ ·) tops others

/-- Below an item that has its place the others find theirs, and they lie the lower the lower it
    lies. -/
theorem exists_placeBelow (gap : Rat) {i : Item Rat} {top : Rat} (target : i.target ≤ top)
    (items : List (Item Rat)) :
    ∃ tops : List Rat,
      placeBelow (.finite gap) (.finite (top + i.height)) (items.map exact) = tops.map .finite ∧
      CollisionFree gap (i :: items) (top :: tops) ∧
      ∀ top' others, top ≤ top' → CollisionFree gap (i :: items) (top' :: others) →
        List.Forall₂ (· ≤ ·) tops others := by
  -- Leastness is carried from any place at `top` or below, where others may have put `i`.
  induction items generalizing i top with
  | nil =>
      refine ⟨[], rfl, .one target, fun top' others le free => ?_⟩
      cases free
      exact .nil
  | cons j items ih =>
      let next := max j.target (top + i.height + gap)
      obtain ⟨tops, made, free, least⟩ := ih (le_max_left j.target (top + i.height + gap))
      refine ⟨next :: tops, ?_, .more target (le_max_right _ _) free,
        fun top' others le free' => ?_⟩
      · have first : Coord.larger j.exact.target (.finite (top + i.height) + .finite gap) =
            .finite next := Exact.larger_finite j.target (top + i.height + gap)
        rw [List.map_cons, placeBelow, first, List.map_cons, ← made]
        rfl
      · cases free' with
        | more target' below' free' =>
            have lower : next ≤ _ := max_le free'.target_le (by linarith)
            exact .cons lower (least _ _ lower free')

theorem exists_placed (gap : Rat) (items : List (Item Rat)) : ∃ tops, Placed gap items tops := by
  cases items with
  | nil =>
      refine ⟨[], rfl, .none, fun others free => ?_⟩
      cases free
      exact .nil
  | cons i items =>
      -- Nothing lies above the first item, so it goes to its target.
      obtain ⟨tops, made, free, least⟩ := exists_placeBelow gap (le_refl i.target) items
      refine ⟨i.target :: tops, ?_, free, fun others free' => ?_⟩
      · have rest : place (.finite gap) ((i :: items).map exact) = .finite i.target ::
            placeBelow (.finite gap) (.finite (i.target + i.height)) (items.map exact) := rfl
        rw [rest, made, List.map_cons]
      · cases others with
        | nil => cases free'
        | cons top' others => exact .cons free'.target_le (least top' others free'.target_le free')

/-- How far tops lie below the targets. -/
def displacements (items : List (Item Rat)) (tops : List Rat) : List Rat :=
  List.zipWith (fun i top => top - i.target) items tops

theorem displacements_mono (items : List (Item Rat)) {tops others : List Rat}
    (le : List.Forall₂ (· ≤ ·) tops others) :
    List.Forall₂ (· ≤ ·) (displacements items tops) (displacements items others) := by
  induction le generalizing items with
  | nil => cases items <;> exact .nil
  | cons first le ih =>
      cases items with
      | nil => exact .nil
      | cons i items => exact .cons (sub_le_sub_right first i.target) (ih items)

/-- Placed items have a top each, none above its target and each at least `gap` below the end of the
    one before. No other tops of that kind lie above these anywhere, so each item is moved down as
    little as can be, and so are all of them taken together. -/
theorem place_least (gap : Rat) (items : List (Item Rat)) :
    ∃ tops : List Rat, place (.finite gap) (items.map exact) = tops.map .finite ∧
      tops.length = items.length ∧ CollisionFree gap items tops ∧
      ∀ others, CollisionFree gap items others →
        List.Forall₂ (· ≤ ·) tops others ∧
        List.Forall₂ (· ≤ ·) (displacements items tops) (displacements items others) ∧
        (displacements items tops).sum ≤ (displacements items others).sum := by
  obtain ⟨tops, placed⟩ := exists_placed gap items
  refine ⟨tops, placed.made, placed.free.length_eq, placed.free, fun others free => ?_⟩
  have displaced := displacements_mono items (placed.least others free)
  exact ⟨placed.least others free, displaced, displaced.sum_le_sum⟩

/-- The second item wants to lie above the first, the third is of negative height. -/
theorem place_least_of_unsorted :
    let items : List (Item Rat) := [⟨10, 20⟩, ⟨0, 5⟩, ⟨40, -3⟩, ⟨30, 1⟩]
    let others : List Rat := [10, 33, 50, 49]
    place (.finite 2) (items.map exact) = ([10, 32, 40, 39] : List Rat).map .finite ∧
      CollisionFree 2 items others ∧
      List.Forall₂ (· ≤ ·) [10, 32, 40, 39] others ∧
      (displacements items [10, 32, 40, 39]).sum ≤ (displacements items others).sum := by
  intro items others
  have free : CollisionFree 2 items others :=
    .more (by norm_num) (by norm_num) (.more (by norm_num) (by norm_num)
      (.more (by norm_num) (by norm_num) (.one (by norm_num))))
  have tops : place (.finite 2) (items.map exact) = ([10, 32, 40, 39] : List Rat).map .finite := by
    decide +kernel
  obtain ⟨found, made, -, -, least⟩ := place_least 2 items
  obtain rfl : [10, 32, 40, 39] = found := Exact.map_finite_injective (tops.symm.trans made)
  obtain ⟨least, -, total⟩ := least others free
  exact ⟨tops, free, least, total⟩

/-- The item made taller by `d`. -/
def grow (d : Rat) (i : Item Rat) : Item Rat := { i with height := i.height + d }

/-- Tops with those behind number `k` moved down by `d`. -/
def lowerBehind (d : Rat) : List Rat → Nat → List Rat
  | [], _ => []
  | top :: tops, 0 => top :: tops.map (· + d)
  | top :: tops, k + 1 => top :: lowerBehind d tops k

section Grow

variable {gap d : Rat} {items larger : List (Item Rat)} {tops after : List Rat}

/-- Moving everything behind an item along makes room for it to grow. -/
theorem CollisionFree.grow (h : CollisionFree gap items tops) (grows : 0 ≤ d) (k : Nat) :
    CollisionFree gap (items.modify k (Item.grow d)) (lowerBehind d tops k) := by
  induction h generalizing k with
  | none => cases k <;> exact .none
  | one target =>
      cases k with
      | zero => exact .one target
      | succ k =>
          rw [List.modify_succ_cons, List.modify_nil]
          exact .one target
  | @more i j top next items tops target below h ih =>
      cases k with
      | zero =>
          have room : top + (i.height + d) + gap ≤ next + d := by linarith
          exact .more target room (h.lower grows)
      | succ k =>
          have rest := ih k
          cases k <;> exact .more target below rest

theorem forall₂_modify_grow (grows : 0 ≤ d) (items : List (Item Rat)) (k : Nat) :
    List.Forall₂ (fun i j => i.target ≤ j.target ∧ i.height ≤ j.height) items
      (items.modify k (grow d)) := by
  have same (items : List (Item Rat)) :
      List.Forall₂ (fun i j => i.target ≤ j.target ∧ i.height ≤ j.height) items items :=
    List.forall₂_same.mpr fun i _ => ⟨le_rfl, le_rfl⟩
  induction items generalizing k with
  | nil => cases k <;> exact .nil
  | cons i items ih =>
      cases k with
      | zero => exact .cons ⟨le_rfl, le_add_of_nonneg_right grows⟩ (same items)
      | succ k => exact .cons ⟨le_rfl, le_rfl⟩ (ih k)

/-- What lies between tops and the same with those behind number `k` moved down. -/
theorem between_lowerBehind (grows : 0 ≤ d) {k : Nat} (le : List.Forall₂ (· ≤ ·) tops after)
    (ge : List.Forall₂ (· ≤ ·) after (lowerBehind d tops k)) :
    after.take (k + 1) = tops.take (k + 1) ∧
      List.Forall₂ (fun top top' => top ≤ top' ∧ top' ≤ top + d) tops after := by
  -- Up to number `k` both bounds are the same tops, behind it they are `d` apart.
  induction le generalizing k with
  | nil => exact ⟨rfl, .nil⟩
  | @cons top top' tops after first le ih =>
      cases k with
      | zero =>
          cases ge with
          | cons first' ge =>
              obtain rfl := le_antisymm first first'
              have bound : List.Forall₂ (fun top top' => top' ≤ top + d) tops after :=
                (List.forall₂_map_right_iff.mp ge).flip
              exact ⟨rfl, .cons ⟨le_rfl, le_add_of_nonneg_right grows⟩
                (le.mp (fun _ _ above below => ⟨above, below⟩) bound)⟩
      | succ k =>
          cases ge with
          | cons first' ge =>
              obtain rfl := le_antisymm first first'
              obtain ⟨same, moved⟩ := ih ge
              rw [List.take_succ_cons, List.take_succ_cons, same]
              exact ⟨rfl, .cons ⟨le_rfl, le_add_of_nonneg_right grows⟩ moved⟩

theorem Placed.mono (h : Placed gap items tops) (h' : Placed gap larger after)
    (le : List.Forall₂ (fun i j => i.target ≤ j.target ∧ i.height ≤ j.height) items larger) :
    List.Forall₂ (· ≤ ·) tops after :=
  h.least after (h'.free.of_le le)

theorem Placed.grow (h : Placed gap items tops) (grows : 0 ≤ d) {k : Nat}
    (h' : Placed gap (items.modify k (Item.grow d)) after) :
    after.take (k + 1) = tops.take (k + 1) ∧
      List.Forall₂ (fun top top' => top ≤ top' ∧ top' ≤ top + d) tops after :=
  between_lowerBehind grows (h.mono h' (forall₂_modify_grow grows items k))
    (h'.least _ (h.free.grow grows k))

end Grow

/-- An item that grows leaves itself and those above it where they are and moves those below it
    down, none of them further than it has grown. If no item gets a higher target or a lesser
    height, none comes to lie higher than it did. -/
theorem place_grow_and_mono (gap : Rat) (items : List (Item Rat)) :
    ∃ tops : List Rat, place (.finite gap) (items.map exact) = tops.map .finite ∧
      (∀ (k : Nat) (d : Rat), 0 ≤ d → ∃ after : List Rat,
        place (.finite gap) ((items.modify k (grow d)).map exact) = after.map .finite ∧
        after.take (k + 1) = tops.take (k + 1) ∧
        List.Forall₂ (fun top top' => top ≤ top' ∧ top' ≤ top + d) tops after) ∧
      ∀ larger : List (Item Rat),
        List.Forall₂ (fun i j => i.target ≤ j.target ∧ i.height ≤ j.height) items larger →
        ∃ after : List Rat, place (.finite gap) (larger.map exact) = after.map .finite ∧
          List.Forall₂ (· ≤ ·) tops after := by
  obtain ⟨tops, placed⟩ := exists_placed gap items
  refine ⟨tops, placed.made, fun k d grows => ?_, fun larger le => ?_⟩
  · obtain ⟨after, placed'⟩ := exists_placed gap (items.modify k (grow d))
    exact ⟨after, placed'.made, placed.grow grows placed'⟩
  · obtain ⟨after, placed'⟩ := exists_placed gap larger
    exact ⟨after, placed'.made, placed.mono placed' le⟩

/-- Room above the third item takes up what is left of a growth by eight. -/
theorem place_grow_and_mono_absorbed :
    let items : List (Item Rat) := [⟨0, 10⟩, ⟨15, 5⟩, ⟨100, 5⟩, ⟨101, 1⟩]
    let larger : List (Item Rat) := [⟨3, 10⟩, ⟨15, 6⟩, ⟨100, 5⟩, ⟨101, 1⟩]
    let tops : List Rat := [0, 15, 100, 107]
    place (.finite 2) (items.map exact) = tops.map .finite ∧
      place (.finite 2) ((items.modify 0 (grow 8)).map exact) =
        ([0, 20, 100, 107] : List Rat).map .finite ∧
      List.Forall₂ (fun top top' => top ≤ top' ∧ top' ≤ top + 8) tops [0, 20, 100, 107] ∧
      place (.finite 2) (larger.map exact) = ([3, 15, 100, 107] : List Rat).map .finite ∧
      List.Forall₂ (· ≤ ·) tops [3, 15, 100, 107] := by
  intro items larger tops
  have made : place (.finite 2) (items.map exact) = tops.map .finite := by decide +kernel
  have grown : place (.finite 2) ((items.modify 0 (grow 8)).map exact) =
      ([0, 20, 100, 107] : List Rat).map .finite := by decide +kernel
  have moved : place (.finite 2) (larger.map exact) =
      ([3, 15, 100, 107] : List Rat).map .finite := by decide +kernel
  have le : List.Forall₂ (fun i j => i.target ≤ j.target ∧ i.height ≤ j.height) items larger := by
    norm_num [items, larger]
  obtain ⟨found, made', grows, mono⟩ := place_grow_and_mono 2 items
  obtain rfl : tops = found := Exact.map_finite_injective (made.symm.trans made')
  obtain ⟨after, grown', -, between⟩ := grows 0 8 (by norm_num)
  obtain rfl : [0, 20, 100, 107] = after := Exact.map_finite_injective (grown.symm.trans grown')
  obtain ⟨after, moved', below⟩ := mono larger le
  obtain rfl : [3, 15, 100, 107] = after := Exact.map_finite_injective (moved.symm.trans moved')
  exact ⟨made, grown, between, moved, below⟩

end Item

end Marginalia
