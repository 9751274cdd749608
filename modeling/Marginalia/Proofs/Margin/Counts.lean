import Mathlib.Algebra.Order.Ring.Rat
import Mathlib.Tactic.Linarith
import Marginalia.Margin.Exact
import Marginalia.Margin.Heights

/-! # Heights that are counts

A host that measures in lines reports counts. Counts that differ do so by more than what passes for
jitter, so of such reports none is lost: what is remembered for a root is what was reported last.
-/

namespace Marginalia

/-- Coordinates in which counts are heights and stay apart, however sums are rounded. -/
class Coord.Discrete (α : Type) [Coord α] : Prop where
  larger_zero (n : Nat) : Coord.larger (Coord.ofNat n) Coord.zero = (Coord.ofNat n : α)
  eq_of_same {m n : Nat} :
    Coord.same (Coord.ofNat m : α) (Coord.ofNat n) → (Coord.ofNat m : α) = Coord.ofNat n
  isHeight (n : Nat) : Heights.isHeight (Coord.ofNat n : α)
  eq_of_close {m n : Nat} :
    Heights.close (Coord.ofNat m : α) (Coord.ofNat n) → (Coord.ofNat m : α) = Coord.ofNat n

namespace Exact

theorem ofNat_lt_zero (n : Nat) : Coord.lt (Coord.ofNat n : Exact) Coord.zero = false := by
  change decide ((n : Rat) < (0 : Nat)) = false
  rw [decide_eq_false_iff_not, not_lt]
  exact Nat.cast_le.mpr n.zero_le

theorem magnitude_sub_finite (a b : Rat) :
    Coord.magnitude (.finite a - .finite b : Exact) = .finite |a - b| := by
  change (if decide (a + -b < (0 : Nat)) then finite ((0 : Nat) + -(a + -b)) else finite (a + -b)) = _
  rw [← sub_eq_add_neg, Nat.cast_zero, zero_add]
  by_cases below : a - b < 0
  · rw [if_pos (decide_eq_true below), abs_of_neg below]
  · rw [if_neg (by simpa using below), abs_of_nonneg (not_lt.mp below)]

theorem close_finite_iff {a b : Rat} :
    Heights.close (.finite a : Exact) (.finite b) ↔ |a - b| ≤ 1 / 2 := by
  rw [Heights.close, magnitude_sub_finite]
  change (decide (|a - b| < 1 / 2) || decide (finite |a - b| = .finite (1 / 2))) ↔ _
  rw [Bool.or_eq_true, decide_eq_true_eq, decide_eq_true_eq, finite.injEq, le_iff_lt_or_eq]

theorem one_le_abs_sub {m n : Nat} (ne : m ≠ n) : 1 ≤ |(m : Rat) - n| := by
  have apart : 1 ≤ |(m : Int) - n| := Int.one_le_abs (sub_ne_zero.mpr (Nat.cast_injective.ne ne))
  exact_mod_cast apart

instance : Coord.Discrete Exact where
  larger_zero n := by
    have real : Coord.isNaN (Coord.ofNat n : Exact) = false := rfl
    rw [Coord.larger, real, ofNat_lt_zero]
    rfl
  eq_of_same same := of_decide_eq_true same
  isHeight n := by
    have finite : Coord.isFinite (Coord.ofNat n : Exact) = true := rfl
    rw [Heights.isHeight, finite, ofNat_lt_zero]
    rfl
  eq_of_close {m n} close := by
    have near : |(m : Rat) - n| ≤ 1 / 2 := close_finite_iff.mp close
    by_cases eq : m = n
    · rw [eq]
    · have apart := one_le_abs_sub eq
      linarith

end Exact

namespace Heights

variable {α : Type} {h : Heights α} {root other : Nat}

theorem get?_filter (p : Nat → Bool) (kept : p root) :
    (⟨h.entries.filter fun e => p e.1⟩ : Heights α).get? root = h.get? root := by
  simp only [get?]
  induction h.entries with
  | nil => rfl
  | cons e rest ih =>
      obtain ⟨key, height⟩ := e
      by_cases here : root = key
      · subst here
        rw [List.filter_cons_of_pos (by exact kept), List.lookup_cons_self, List.lookup_cons_self]
      · have passed : (root == key) = false := beq_false_of_ne here
        cases hp : p key with
        | true => rw [List.filter_cons_of_pos (by exact hp), List.lookup_cons, List.lookup_cons, passed, ih]
        | false => rw [List.filter_cons_of_neg (by simp [hp]), List.lookup_cons, passed, ih]

theorem get?_insert_self (root : Nat) (height : α) (h : Heights α) :
    (h.insert root height).get? root = some height := List.lookup_cons_self

theorem get?_insert_of_ne (ne : other ≠ root) (height : α) :
    (h.insert root height).get? other = h.get? other := by
  have passed : (other == root) = false := beq_false_of_ne ne
  rw [get?, insert, List.lookup_cons, passed]
  exact get?_filter (· ≠ root) (decide_eq_true ne)

theorem get?_retain {live : List Nat} (mem : root ∈ live) :
    (h.retain live).2.get? root = h.get? root :=
  get?_filter live.contains (List.contains_iff_mem.mpr mem)

theorem mem_entries_of_get? {height : α} (found : h.get? root = some height) :
    (root, height) ∈ h.entries := by
  obtain ⟨front, rest, same, -⟩ := List.lookup_eq_some_iff.mp found
  rw [same]
  exact List.mem_append_cons_self

section Record

variable [Coord α]

theorem record_cases (root : Nat) (height : α) (h : Heights α) :
    (h.record root height).2 = h ∨ (h.record root height).2 = h.insert root height := by
  unfold record
  split
  · exact .inl rfl
  · split
    · exact .inl rfl
    · exact .inr rfl

theorem get?_record_of_ne (ne : other ≠ root) (height : α) :
    (h.record root height).2.get? other = h.get? other := by
  rcases record_cases root height h with kept | inserted
  · rw [kept]
  · rw [inserted, get?_insert_of_ne ne]

/-- Every height that is remembered is a count. -/
def Counted (h : Heights α) : Prop := ∀ e ∈ h.entries, ∃ n, e.2 = Coord.ofNat n

theorem counted_empty : ({} : Heights α).Counted := by
  intro e mem
  cases mem

theorem Counted.record (counted : h.Counted) (root n : Nat) :
    (h.record root (Coord.ofNat n)).2.Counted := by
  rcases record_cases root (Coord.ofNat n) h with kept | inserted
  · rw [kept]
    exact counted
  · rw [inserted]
    intro e mem
    rcases List.mem_cons.mp mem with rfl | older
    · exact ⟨n, rfl⟩
    · exact counted e (List.mem_filter.mp older).1

theorem Counted.retain (counted : h.Counted) (live : List Nat) : (h.retain live).2.Counted := by
  intro e mem
  exact counted e (List.mem_filter.mp mem).1

/-- Takes reports of counts, one after the other. -/
def recordAll (h : Heights α) (reports : List (Nat × Nat)) : Heights α :=
  reports.foldl (fun h r => (h.record r.1 (Coord.ofNat r.2)).2) h

theorem Counted.recordAll (counted : h.Counted) (reports : List (Nat × Nat)) :
    (h.recordAll reports).Counted := by
  induction reports generalizing h with
  | nil => exact counted
  | cons r rest ih => exact ih (counted.record r.1 r.2)

variable [Coord.Discrete α]

/-- A count is remembered as reported: what passes for the same is the same. -/
theorem Counted.get?_record_self (counted : h.Counted) (root n : Nat) :
    (h.record root (Coord.ofNat n)).2.get? root = some (Coord.ofNat n) := by
  rw [Heights.record, Coord.Discrete.isHeight, Bool.not_true, if_neg Bool.false_ne_true]
  split
  · next near =>
      cases found : h.get? root with
      | none => simp [found] at near
      | some old =>
          rw [found, Option.any_some] at near
          obtain ⟨m, rfl⟩ := counted _ (mem_entries_of_get? found)
          rw [Coord.Discrete.eq_of_close near]
  · exact get?_insert_self root _ h

/-- What all reports for a root agree on is remembered, if there are any or it was known before. -/
theorem Counted.get?_recordAll (counted : h.Counted) {reports : List (Nat × Nat)} {n : Nat}
    (agreed : ∀ r ∈ reports, r.1 = root → r.2 = n)
    (known : h.get? root = some (Coord.ofNat n) ∨ ∃ r ∈ reports, r.1 = root) :
    (h.recordAll reports).get? root = some (Coord.ofNat n) := by
  induction reports generalizing h with
  | nil =>
      rcases known with known | ⟨r, mem, -⟩
      · exact known
      · cases mem
  | cons r rest ih =>
      refine ih (counted.record r.1 r.2) (fun r mem => agreed r (List.mem_cons_of_mem _ mem)) ?_
      by_cases here : r.1 = root
      · obtain rfl := here
        obtain rfl := agreed r List.mem_cons_self rfl
        exact .inl (counted.get?_record_self r.1 r.2)
      · rw [get?_record_of_ne (Ne.symm here)]
        rcases known with known | ⟨other, mem, same⟩
        · exact .inl known
        · rcases List.mem_cons.mp mem with rfl | later
          · exact absurd same here
          · exact .inr ⟨other, later, same⟩

end Record

end Heights

end Marginalia
