import Mathlib.Order.Bounds.Defs
import Marginalia.Proofs.Text.Boundary

/-! # Clamping step by step

The greatest boundary not beyond an offset is found by going down, from the offset or from the end
of a text that is shorter. The start of a text is a boundary, so the way down never leads below it,
and a span can be clamped wherever its ends are. Clamped spans are canonical, and canonical spans
stay as they are, so a span clamped again is the one clamped once.
-/

namespace Marginalia

namespace Text

/-- The first boundary on the way down from `offset`; nothing if none is met before the way leads
    below zero. -/
def seekDown? (t : Text) : Nat → Option Nat
  | 0 => if t.isBoundary 0 then some 0 else none
  | offset + 1 => if t.isBoundary (offset + 1) then some (offset + 1) else seekDown? t offset

/-- The greatest boundary not beyond `offset`, looked for from inside the text. -/
def floorBoundary? (t : Text) (offset : Nat) : Option Nat := t.seekDown? (min offset t.byteLength)

variable {t : Text} {place offset : Nat}

theorem isBoundary_floorBoundary (t : Text) (offset : Nat) :
    t.isBoundary (t.floorBoundary offset) :=
  isBoundary_iff.mpr ⟨t.takeWithin offset, t.dropWithin offset,
    (takeWithin_append_dropWithin offset t).symm, byteLength_takeWithin t offset⟩

/-- No boundary between is passed over. -/
theorem le_floorBoundary (boundary : t.isBoundary place) (le : place ≤ offset) :
    place ≤ t.floorBoundary offset := by
  obtain ⟨front, rest, rfl, rfl⟩ := isBoundary_iff.mp boundary
  obtain ⟨beyond, rfl⟩ := Nat.exists_eq_add_of_le le
  rw [floorBoundary_append_add]
  exact Nat.le_add_right _ _

theorem floorBoundary_eq_self (boundary : t.isBoundary offset) : t.floorBoundary offset = offset :=
  beq_iff_eq.mp boundary

theorem floorBoundary_succ (inside : ¬ t.isBoundary (offset + 1)) :
    t.floorBoundary (offset + 1) = t.floorBoundary offset := by
  have boundary := isBoundary_floorBoundary t (offset + 1)
  apply Nat.le_antisymm
  · have ne : t.floorBoundary (offset + 1) ≠ offset + 1 := fun eq => inside (eq ▸ boundary)
    have le := floorBoundary_le t (offset + 1)
    exact le_floorBoundary boundary (by omega)
  · exact le_floorBoundary (isBoundary_floorBoundary t offset)
      (Nat.le_succ_of_le (floorBoundary_le t offset))

theorem floorBoundary_min (t : Text) (offset : Nat) :
    t.floorBoundary (min offset t.byteLength) = t.floorBoundary offset := by
  have below := floorBoundary_le t (min offset t.byteLength)
  apply Nat.le_antisymm
  · exact le_floorBoundary (isBoundary_floorBoundary t _) (by omega)
  · have boundary := isBoundary_floorBoundary t offset
    exact le_floorBoundary boundary
      (Nat.le_min.mpr ⟨floorBoundary_le t offset, le_byteLength_of_isBoundary boundary⟩)

theorem seekDown?_eq_some (t : Text) (offset : Nat) :
    t.seekDown? offset = some (t.floorBoundary offset) := by
  induction offset with
  | zero =>
      have boundary : t.isBoundary 0 := isBoundary_append [] t
      rw [seekDown?, if_pos boundary, floorBoundary_zero]
  | succ offset ih =>
      rw [seekDown?]
      split
      · next boundary => rw [floorBoundary_eq_self boundary]
      · next inside => rw [ih, floorBoundary_succ inside]

theorem floorBoundary?_eq_some (t : Text) (offset : Nat) :
    t.floorBoundary? offset = some (t.floorBoundary offset) := by
  rw [floorBoundary?, seekDown?_eq_some, floorBoundary_min]

/-- The byte offsets between two characters of the text, its two ends among them. -/
def boundaries (t : Text) : Set Nat :=
  {place | ∃ front rest, t = front ++ rest ∧ front.byteLength = place}

theorem mem_boundaries_iff : place ∈ t.boundaries ↔ t.isBoundary place := isBoundary_iff.symm

theorem isGreatest_floorBoundary (t : Text) (offset : Nat) :
    IsGreatest {place ∈ t.boundaries | place ≤ min offset t.byteLength}
      (t.floorBoundary offset) := by
  have boundary := isBoundary_floorBoundary t offset
  constructor
  · have within := le_byteLength_of_isBoundary boundary
    exact ⟨mem_boundaries_iff.mpr boundary, Nat.le_min.mpr ⟨floorBoundary_le t offset, within⟩⟩
  · intro place found
    have le := Nat.le_trans found.2 (Nat.min_le_left offset t.byteLength)
    exact le_floorBoundary (mem_boundaries_iff.mp found.1) le

theorem floorBoundary_eq_self_iff : t.floorBoundary offset = offset ↔ offset ∈ t.boundaries := by
  rw [mem_boundaries_iff, isBoundary, beq_iff_eq]

end Text

/-- Both ends brought to the boundaries that the way down from them leads to, if it leads to one. -/
def Span.clamp? (t : Text) (s : Span) : Option Span := do
  let stop ← t.floorBoundary? s.stop
  let start ← t.floorBoundary? s.start
  return ⟨min start stop, stop⟩

/-- Any span can be clamped. -/
theorem Span.clamp?_eq_some (t : Text) (s : Span) : s.clamp? t = some (s.clamp t) := by
  simp only [clamp?, Text.floorBoundary?_eq_some]
  rfl

/-- The span lies in the text, its ends in order and between characters. -/
structure Span.Canonical (s : Span) (t : Text) : Prop where
  ordered : s.start ≤ s.stop
  within : s.stop ≤ t.byteLength
  start_mem : s.start ∈ t.boundaries
  stop_mem : s.stop ∈ t.boundaries

namespace Span

theorem canonical_clamp (t : Text) (s : Span) : (s.clamp t).Canonical t := by
  obtain ⟨front, inside, rest, cut⟩ := exists_cuts_clamp t s
  exact ⟨cut.start_le_stop, cut.stop_le_byteLength, Text.mem_boundaries_iff.mpr cut.isBoundary.1,
    Text.mem_boundaries_iff.mpr cut.isBoundary.2⟩

theorem clamp_eq_self_iff {t : Text} {s : Span} : s.clamp t = s ↔ s.Canonical t := by
  constructor
  · exact fun same => same ▸ canonical_clamp t s
  · intro h
    have start := Text.floorBoundary_eq_self_iff.mpr h.start_mem
    have stop := Text.floorBoundary_eq_self_iff.mpr h.stop_mem
    simp only [clamp, start, stop, Nat.min_eq_left h.ordered]

@[simp] theorem clamp_clamp (t : Text) (s : Span) : (s.clamp t).clamp t = s.clamp t :=
  clamp_eq_self_iff.mpr (canonical_clamp t s)

theorem start_clamp_le (t : Text) (s : Span) : (s.clamp t).start ≤ s.start :=
  Nat.le_trans (Nat.min_le_left _ _) (Text.floorBoundary_le t s.start)

theorem stop_clamp_le (t : Text) (s : Span) : (s.clamp t).stop ≤ s.stop :=
  Text.floorBoundary_le t s.stop

end Span

end Marginalia
