import Marginalia.Text.Span
import Marginalia.Proofs.Text.Occurrence

/-! # Boundaries

A boundary is where a text falls into two. The functions that cut at an offset do so exactly there,
and a span lies between two boundaries when the text falls into three.
-/

namespace Marginalia

namespace Text

theorem byteLength_append_of_eq {front : Text} {start : Nat} (here : front.byteLength = start)
    (more : Text) : (front ++ more).byteLength = start + more.byteLength := by
  rw [byteLength_append, here]

theorem floorBoundary_append_add (a b : Text) (offset : Nat) :
    floorBoundary (a ++ b) (a.byteLength + offset) = a.byteLength + floorBoundary b offset := by
  induction a with
  | nil => simp
  | cons c a ih =>
      have rest : c.utf8Size + byteLength a + offset - c.utf8Size = byteLength a + offset := by
        omega
      rw [List.cons_append, floorBoundary, byteLength_cons, if_pos (by omega), rest, ih,
        Nat.add_assoc]

@[simp] theorem floorBoundary_zero (t : Text) : floorBoundary t 0 = 0 :=
  Nat.le_zero.mp (floorBoundary_le t 0)

theorem floorBoundary_append (a b : Text) : floorBoundary (a ++ b) a.byteLength = a.byteLength := by
  simpa using floorBoundary_append_add a b 0

theorem takeWithin_append (a b : Text) : takeWithin a.byteLength (a ++ b) = a := by
  have parts := takeWithin_append_dropWithin a.byteLength (a ++ b)
  exact (append_inj_of_byteLength parts
    ((byteLength_takeWithin _ _).trans (floorBoundary_append a b))).1

theorem dropWithin_append (a b : Text) : dropWithin a.byteLength (a ++ b) = b := by
  have parts := takeWithin_append_dropWithin a.byteLength (a ++ b)
  exact (append_inj_of_byteLength parts
    ((byteLength_takeWithin _ _).trans (floorBoundary_append a b))).2

theorem cut?_eq_some_iff {t before after : Text} {offset : Nat} :
    t.cut? offset = some (before, after) ↔ t = before ++ after ∧ before.byteLength = offset := by
  constructor
  · intro h
    unfold cut? at h
    split at h
    · next boundary =>
        obtain ⟨rfl, rfl⟩ := Prod.mk.inj (Option.some.inj h)
        exact ⟨(takeWithin_append_dropWithin offset t).symm,
          (byteLength_takeWithin t offset).trans boundary⟩
    · cases h
  · intro h
    obtain ⟨rfl, rfl⟩ := h
    rw [cut?, if_pos (floorBoundary_append before after), takeWithin_append, dropWithin_append]

theorem isBoundary_append (a b : Text) : (a ++ b).isBoundary a.byteLength := by
  rw [isBoundary, floorBoundary_append, beq_self_eq_true]

/-- What stands between two boundaries gives way, the rest is kept. -/
theorem splice_append (before inside after new : Text) :
    (before ++ inside ++ after).splice
        ⟨before.byteLength, before.byteLength + inside.byteLength⟩ new =
      before ++ new ++ after := by
  have last : before.byteLength + inside.byteLength = (before ++ inside).byteLength := by
    rw [byteLength_append]
  rw [splice, last, dropWithin_append, List.append_assoc before inside, takeWithin_append]

/-- The text under a span is what stands between its two ends. -/
theorem slice?_eq_some_iff {t inside : Text} {s : Span} :
    t.slice? s = some inside ↔
      ∃ before after, t = before ++ inside ++ after ∧ before.byteLength = s.start ∧
        s.start + inside.byteLength = s.stop := by
  constructor
  · intro h
    unfold slice? at h
    split at h
    · next ordered =>
        cases hfirst : t.cut? s.start with
        | none => simp [hfirst] at h
        | some first =>
            obtain ⟨before, beyond⟩ := first
            cases hsecond : beyond.cut? (s.stop - s.start) with
            | none => simp [hfirst, hsecond] at h
            | some second =>
                obtain ⟨inside', after⟩ := second
                obtain rfl : inside' = inside := by simpa [hfirst, hsecond] using h
                obtain ⟨rfl, starts⟩ := cut?_eq_some_iff.mp hfirst
                obtain ⟨rfl, stops⟩ := cut?_eq_some_iff.mp hsecond
                exact ⟨before, after, by simp, starts, by omega⟩
    · cases h
  · intro h
    obtain ⟨before, after, rfl, starts, stops⟩ := h
    rw [List.append_assoc]
    have first : (before ++ (inside ++ after)).cut? s.start = some (before, inside ++ after) :=
      cut?_eq_some_iff.mpr ⟨rfl, starts⟩
    have second : (inside ++ after).cut? (s.stop - s.start) = some (inside, after) :=
      cut?_eq_some_iff.mpr ⟨rfl, by omega⟩
    simp [slice?, first, second, show s.start ≤ s.stop by omega]

theorem isBoundary_of_slice? {t inside : Text} {s : Span} (h : t.slice? s = some inside) :
    t.isBoundary s.start ∧ t.isBoundary s.stop := by
  obtain ⟨before, after, rfl, starts, stops⟩ := slice?_eq_some_iff.mp h
  constructor
  · rw [← starts, List.append_assoc]
    exact isBoundary_append before (inside ++ after)
  · rw [← stops, ← starts, ← byteLength_append]
    exact isBoundary_append (before ++ inside) after

section Offsets

variable {t : Text} {offset : Nat}

theorem isBoundary_iff :
    t.isBoundary offset ↔ ∃ front rest, t = front ++ rest ∧ front.byteLength = offset := by
  constructor
  · intro h
    rw [isBoundary, beq_iff_eq] at h
    exact ⟨t.takeWithin offset, t.dropWithin offset, (takeWithin_append_dropWithin offset t).symm,
      (byteLength_takeWithin t offset).trans h⟩
  · intro h
    obtain ⟨front, rest, rfl, rfl⟩ := h
    exact isBoundary_append front rest

theorem le_byteLength_of_isBoundary (h : t.isBoundary offset) : offset ≤ t.byteLength := by
  obtain ⟨front, rest, rfl, rfl⟩ := isBoundary_iff.mp h
  rw [byteLength_append]
  exact Nat.le_add_right _ _

theorem isBoundary_of_append {u v : Text} (h : (u ++ v).isBoundary offset)
    (le : offset ≤ u.byteLength) : u.isBoundary offset := by
  obtain ⟨front, rest, same, rfl⟩ := isBoundary_iff.mp h
  obtain ⟨w, rfl, -⟩ := exists_between same.symm le
  exact isBoundary_append front w

theorem isBoundary_sub_of_append {u v : Text} (h : (u ++ v).isBoundary offset) :
    v.isBoundary (offset - u.byteLength) := by
  obtain ⟨front, rest, same, rfl⟩ := isBoundary_iff.mp h
  rcases Nat.le_total front.byteLength u.byteLength with le | le
  · -- A boundary within `u` counts as the start of `v`.
    rw [Nat.sub_eq_zero_of_le le]
    exact isBoundary_append [] v
  · obtain ⟨w, rfl, rfl⟩ := exists_between same le
    rw [byteLength_append, Nat.add_sub_cancel_left]
    exact isBoundary_append w rest

theorem isBoundary_append_left {u : Text} (h : u.isBoundary offset) (v : Text) :
    (u ++ v).isBoundary offset := by
  obtain ⟨front, rest, rfl, rfl⟩ := isBoundary_iff.mp h
  rw [List.append_assoc]
  exact isBoundary_append front (rest ++ v)

theorem isBoundary_append_right (u : Text) {v : Text} (h : v.isBoundary offset) :
    (u ++ v).isBoundary (u.byteLength + offset) := by
  obtain ⟨front, rest, rfl, rfl⟩ := isBoundary_iff.mp h
  rw [← List.append_assoc, ← byteLength_append]
  exact isBoundary_append (u ++ front) rest

end Offsets

end Text

/-- The span is where `inside` stands in the text. -/
structure Span.Cuts (s : Span) (t front inside rest : Text) : Prop where
  parts : t = front ++ inside ++ rest
  starts : front.byteLength = s.start
  stops : s.start + inside.byteLength = s.stop

namespace Span.Cuts

variable {s : Span} {t front inside rest : Text}

theorem eq_mk (h : s.Cuts t front inside rest) :
    s = ⟨front.byteLength, front.byteLength + inside.byteLength⟩ := by
  rw [h.starts, h.stops]

theorem start_le_stop (h : s.Cuts t front inside rest) : s.start ≤ s.stop :=
  h.stops ▸ Nat.le_add_right _ _

theorem stop_le_byteLength (h : s.Cuts t front inside rest) : s.stop ≤ t.byteLength := by
  rw [← h.stops, ← h.starts, h.parts, Text.byteLength_append, Text.byteLength_append]
  exact Nat.le_add_right _ _

theorem slice?_eq (h : s.Cuts t front inside rest) : t.slice? s = some inside :=
  Text.slice?_eq_some_iff.mpr ⟨front, rest, h.parts, h.starts, h.stops⟩

theorem isBoundary (h : s.Cuts t front inside rest) :
    t.isBoundary s.start ∧ t.isBoundary s.stop :=
  Text.isBoundary_of_slice? h.slice?_eq

theorem clamp_eq (h : s.Cuts t front inside rest) : s.clamp t = s := by
  obtain ⟨start, stop⟩ := h.isBoundary
  rw [Text.isBoundary, beq_iff_eq] at start stop
  simp only [clamp, start, stop, Nat.min_eq_left h.start_le_stop]

theorem takeWithin_dropWithin (h : s.Cuts t front inside rest) :
    Text.takeWithin (s.stop - s.start) (Text.dropWithin s.start t) = inside := by
  rw [← h.stops, ← h.starts, h.parts, List.append_assoc, Text.dropWithin_append,
    Nat.add_sub_cancel_left, Text.takeWithin_append]

theorem under_eq_of_clamp (h : (s.clamp t).Cuts t front inside rest) : t.under s = inside :=
  h.takeWithin_dropWithin

theorem under_eq (h : s.Cuts t front inside rest) : t.under s = inside :=
  under_eq_of_clamp (h.clamp_eq.symm ▸ h)

theorem extract?_eq (h : s.Cuts t front inside rest) : t.extract? s = some inside := by
  rw [Text.extract?, Nat.min_eq_left h.stop_le_byteLength, Nat.min_eq_left h.start_le_stop]
  split
  · next same =>
      have stops := h.stops
      rw [same, Nat.add_eq_left] at stops
      rw [Text.byteLength_eq_zero stops]
  · exact h.slice?_eq

end Span.Cuts

/-- Wherever its ends were, a clamped span lies in the text. -/
theorem Span.exists_cuts_clamp (t : Text) (s : Span) :
    ∃ front inside rest, (s.clamp t).Cuts t front inside rest := by
  have first := Text.takeWithin_append_dropWithin s.start t
  have second := Text.takeWithin_append_dropWithin s.stop t
  have start := Text.byteLength_takeWithin t s.start
  have stop := Text.byteLength_takeWithin t s.stop
  rcases Nat.le_total (t.floorBoundary s.start) (t.floorBoundary s.stop) with ordered | reversed
  · obtain ⟨inside, ends, -⟩ :=
      Text.exists_between (first.trans second.symm) (by rw [start, stop]; exact ordered)
    have total := congrArg Text.byteLength ends
    rw [Text.byteLength_append, start, stop] at total
    refine ⟨t.takeWithin s.start, inside, t.dropWithin s.stop, ?_, ?_, ?_⟩
    · rw [← ends, second]
    · rw [start, clamp, Nat.min_eq_left ordered]
    · simp only [clamp, Nat.min_eq_left ordered]
      exact total.symm
  · refine ⟨t.takeWithin s.stop, [], t.dropWithin s.stop, ?_, ?_, ?_⟩
    · rw [List.append_nil, second]
    · rw [stop, clamp, Nat.min_eq_right reversed]
    · simp only [clamp, Nat.min_eq_right reversed, Text.byteLength_nil, Nat.add_zero]

end Marginalia
