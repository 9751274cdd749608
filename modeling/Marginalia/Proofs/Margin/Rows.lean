import Marginalia.Proofs.Margin.Numbers

/-! # Margins counted in rows

If lines, heights and the gap are counts of rows, then so are the places of the cards: each card takes
whole rows, from its line on or from below the card before it.
-/

namespace Marginalia

namespace Exact

theorem le_finite (p q : Rat) : Coord.le (finite p : Exact) (finite q) = decide (p ≤ q) := by
  change (decide (p < q) || decide (finite p = finite q)) = _
  simp [le_iff_lt_or_eq]

theorem sub_finite (p q : Rat) : (finite p - finite q : Exact) = finite (p - q) :=
  congrArg finite (sub_eq_add_neg p q).symm

section Counts

variable (a b : Nat)

theorem lt_ofNat : Coord.lt (Coord.ofNat a : Exact) (Coord.ofNat b) = decide (a < b) := by
  change decide ((a : Rat) < b) = _
  simp

theorem le_ofNat : Coord.le (Coord.ofNat a : Exact) (Coord.ofNat b) = decide (a ≤ b) := by
  refine (le_finite a b).trans ?_
  simp

theorem add_ofNat : (Coord.ofNat a + Coord.ofNat b : Exact) = Coord.ofNat (a + b) := by
  change finite ((a : Rat) + b) = finite (a + b : Nat)
  simp

theorem larger_ofNat :
    Coord.larger (Coord.ofNat a) (Coord.ofNat b) = (Coord.ofNat (max a b) : Exact) := by
  refine (larger_finite a b).trans ?_
  change finite (max (a : Rat) b) = finite (max a b : Nat)
  simp

theorem smaller_ofNat :
    Coord.smaller (Coord.ofNat a) (Coord.ofNat b) = (Coord.ofNat (min a b) : Exact) := by
  have real : Coord.isNaN (Coord.ofNat a : Exact) = false := rfl
  rw [Coord.smaller, real, lt_ofNat]
  by_cases less : b < a
  · simp [less, Nat.min_eq_right less.le]
  · simp [less, Nat.min_eq_left (Nat.not_lt.mp less)]

theorem truncate_ofNat : Coord.truncate (Coord.ofNat a : Exact) = min a Coord.countLimit := by
  change min (a : Rat).floor.toNat Coord.countLimit = _
  simp [Rat.floor]

theorem le_zero_sub :
    Coord.le (Coord.zero : Exact) (Coord.ofNat a - Coord.ofNat b) = decide (b ≤ a) := by
  refine (congrArg (Coord.le _) (sub_finite a b)).trans ((le_finite _ _).trans ?_)
  simp

theorem lt_sub_zero :
    Coord.lt (Coord.ofNat a - Coord.ofNat b : Exact) Coord.zero = decide (a < b) := by
  refine (congrArg (Coord.lt · Coord.zero) (sub_finite a b)).trans ?_
  change decide ((a : Rat) - b < (0 : Nat)) = _
  simp

variable {a b}

theorem sub_ofNat (le : b ≤ a) : (Coord.ofNat a - Coord.ofNat b : Exact) = Coord.ofNat (a - b) := by
  refine (sub_finite a b).trans ?_
  change finite ((a : Rat) - b) = finite (a - b : Nat)
  rw [Nat.cast_sub le]

theorem zero_sub_sub (le : a ≤ b) :
    (Coord.zero - (Coord.ofNat a - Coord.ofNat b) : Exact) = Coord.ofNat (b - a) := by
  rw [← sub_ofNat le]
  refine (congrArg (Coord.zero - ·) (sub_finite a b)).trans ((sub_finite _ _).trans ?_)
  refine Eq.trans ?_ (sub_finite b a).symm
  simp

theorem larger_sub_zero (a b : Nat) :
    Coord.larger (Coord.ofNat a - Coord.ofNat b) Coord.zero = (Coord.ofNat (a - b) : Exact) := by
  have real : Coord.isNaN (Coord.ofNat a - Coord.ofNat b : Exact) = false := rfl
  rw [Coord.larger, real, lt_sub_zero]
  by_cases less : a < b
  · simp [less, Nat.sub_eq_zero_of_le less.le, Coord.zero]
  · simp [less, sub_ofNat (Nat.not_lt.mp less)]

end Counts

end Exact

/-- A card that takes whole rows. -/
structure RowCard where
  thread : Thread
  line : Nat
  top : Nat
  height : Nat

namespace RowCard

/-- The row below the card. -/
def stop (c : RowCard) : Nat := c.top + c.height

/-- The same card in exact coordinates. -/
def card (c : RowCard) : Card Exact :=
  ⟨c.thread.start, Coord.ofNat c.line, Coord.ofNat c.top, Coord.ofNat c.height⟩

theorem bottom_card (c : RowCard) : c.card.bottom = Coord.ofNat c.stop :=
  Exact.add_ofNat c.top c.height

/-- Cards for threads, each at its line or below the one before it, and none above `floor`. -/
def stack (gap : Nat) (line height : Thread → Nat) : Nat → List Thread → List RowCard
  | _, [] => []
  | floor, t :: rest =>
    let top := max (line t) floor
    ⟨t, line t, top, height t⟩ :: stack gap line height (top + height t + gap) rest

section Stack

variable {gap floor : Nat} {line height : Thread → Nat} {threads : List Thread}

theorem map_thread_stack : (stack gap line height floor threads).map thread = threads := by
  induction threads generalizing floor with
  | nil => rfl
  | cons t threads ih => exact congrArg (t :: ·) ih

theorem of_mem_stack {c : RowCard} (mem : c ∈ stack gap line height floor threads) :
    c.line = line c.thread ∧ c.height = height c.thread ∧ floor ≤ c.top := by
  induction threads generalizing floor with
  | nil => cases mem
  | cons t threads ih =>
      rcases List.mem_cons.mp mem with rfl | later
      · exact ⟨rfl, rfl, le_max_right _ _⟩
      · obtain ⟨line, height, below⟩ := ih later
        exact ⟨line, height, by omega⟩

theorem pairwise_stack :
    (stack gap line height floor threads).Pairwise fun a b => a.stop + gap ≤ b.top := by
  induction threads generalizing floor with
  | nil => exact .nil
  | cons t threads ih => exact .cons (fun c mem => (of_mem_stack mem).2.2) ih

theorem placeBelow_stack (bottom : Nat) :
    Item.placeBelow (Coord.ofNat gap) (Coord.ofNat bottom)
        (threads.map fun t => (⟨Coord.ofNat (line t), Coord.ofNat (height t)⟩ : Item Exact)) =
      (stack gap line height (bottom + gap) threads).map fun c => Coord.ofNat c.top := by
  induction threads generalizing bottom with
  | nil => rfl
  | cons t threads ih =>
      simp only [List.map_cons, Item.placeBelow, stack, Exact.add_ofNat, Exact.larger_ofNat, ih]

theorem place_stack :
    Item.place (Coord.ofNat gap)
        (threads.map fun t => (⟨Coord.ofNat (line t), Coord.ofNat (height t)⟩ : Item Exact)) =
      (stack gap line height 0 threads).map fun c => Coord.ofNat c.top := by
  cases threads with
  | nil => rfl
  | cons t threads =>
      -- Nothing lies above the first card, so it goes to its line.
      have first : Coord.larger (Coord.ofNat (line t)) (Coord.negInf + Coord.ofNat gap) =
          (Coord.ofNat (line t) : Exact) := rfl
      simp only [List.map_cons, Item.place, Item.placeBelow, first, stack, Exact.add_ofNat,
        placeBelow_stack, Nat.max_eq_left (Nat.zero_le (line t))]

end Stack

end RowCard

/-- Laid out for threads whose lines and heights are counts, a margin with a counted gap has a card in
    rows for each. -/
theorem Layout.cards_ofThreads_rows {threads : List Thread} {mapper : Nat → Exact}
    {heights : Heights Exact} {spacing : Spacing Exact} {gap : Nat} {line height : Thread → Nat}
    (spaced : spacing.gap = Coord.ofNat gap)
    (lines : ∀ t ∈ threads, mapper t.start = Coord.ofNat (line t))
    (measured : ∀ t ∈ threads, heights.get? t.start = some (Coord.ofNat (height t)))
    (host : Exact) :
    (ofThreads threads mapper heights spacing host).cards =
      (RowCard.stack gap line height 0 threads).map RowCard.card := by
  let placed := RowCard.stack gap line height 0 threads
  have items : threads.map (itemOf mapper heights spacing) =
      threads.map fun t => ⟨Coord.ofNat (line t), Coord.ofNat (height t)⟩ := by
    refine List.map_congr_left fun t mem => ?_
    rw [itemOf, Heights.getD, lines t mem, measured t mem, Option.getD_some]
  have same : threads = placed.map RowCard.thread := RowCard.map_thread_stack.symm
  have tops : Item.place spacing.gap (threads.map (itemOf mapper heights spacing)) =
      placed.map fun c => Coord.ofNat c.top := by
    rw [items, spaced, RowCard.place_stack]
  calc
    (ofThreads threads mapper heights spacing host).cards =
        (threads.zip ((threads.map (itemOf mapper heights spacing)).zip
          (placed.map fun c => Coord.ofNat c.top))).map
            fun p => ⟨p.1.start, p.2.1.target, p.2.2, p.2.1.height⟩ := by
      rw [← tops]
      rfl
    _ = placed.map fun c => ⟨c.thread.start, Coord.ofNat (line c.thread), Coord.ofNat c.top,
          Coord.ofNat (height c.thread)⟩ := by
      rw [items, same, List.map_map, List.zip_map', List.zip_map', List.map_map]
      rfl
    _ = placed.map RowCard.card := by
      refine List.map_congr_left fun c mem => ?_
      obtain ⟨line, height, -⟩ := RowCard.of_mem_stack mem
      rw [RowCard.card, line, height]

end Marginalia
