import Marginalia.Document.Basic
import Marginalia.Proofs.Text.Boundary

/-! # Replacements in a text

What ascending replacements leave of a text: the same text between them, the new texts in place of
the old. It comes out whether they are made one after the other from the last to the first or all at
once as a delta.
-/

namespace Marginalia

/-- Where the new texts lie once the replacements are made: `done` bytes of the text have been dealt
    with and `made` bytes come of them. -/
def Replacement.places (done made : Nat) : List Replacement → List Span
  | [] => []
  | r :: more =>
    let start := made + (r.span.start - done)
    ⟨start, start + r.text.byteLength⟩ ::
      places r.span.stop (start + r.text.byteLength) more

/-- The text `t`, which begins at byte `start`, becomes `result` when the replacements are made and
    everything between them is kept. -/
inductive Exchange : (start : Nat) → (t : Text) → List Replacement → (result : Text) → Prop where
  /-- Behind the last replacement everything is kept. -/
  | kept {start : Nat} (rest : Text) : Exchange start rest [] rest
  /-- A gap is kept, `old` gives way to `new`. -/
  | replaced {start : Nat} (gap old new : Text) {rest result : Text} {more : List Replacement} :
      Exchange (start + gap.byteLength + old.byteLength) rest more result →
      Exchange start (gap ++ old ++ rest)
        (⟨⟨start + gap.byteLength, start + gap.byteLength + old.byteLength⟩, new⟩ :: more)
        (gap ++ new ++ result)

namespace Exchange

variable {start : Nat} {t result : Text} {rs : List Replacement}

theorem single (front old new rest : Text) :
    Exchange 0 (front ++ old ++ rest)
      [⟨⟨front.byteLength, front.byteLength + old.byteLength⟩, new⟩] (front ++ new ++ rest) := by
  rw [← Nat.zero_add front.byteLength]
  exact .replaced front old new (.kept rest)

theorem behind_gap (gap : Text) (h : Exchange (start + gap.byteLength) t rs result) :
    Exchange start (gap ++ t) rs (gap ++ result) := by
  -- The start is an index of the relation, so the case split needs a variable there.
  generalize here : start + gap.byteLength = place at h
  cases h with
  | kept => exact .kept (gap ++ t)
  | replaced further old new h =>
      have place : start + (gap ++ further).byteLength = place + further.byteLength := by
        rw [Text.byteLength_append, ← here, Nat.add_assoc]
      rw [← place] at h ⊢
      simpa only [List.append_assoc] using Exchange.replaced (gap ++ further) old new h

theorem start_le (h : Exchange start t rs result) : ∀ r ∈ rs, start ≤ r.span.start := by
  induction h with
  | kept rest => simp
  | replaced gap old new h ih =>
      refine List.forall_mem_cons.mpr ⟨Nat.le_add_right _ _, fun r hr => ?_⟩
      have := ih r hr
      omega

theorem start_le_stop (h : Exchange start t rs result) :
    ∀ r ∈ rs, r.span.start ≤ r.span.stop := by
  induction h with
  | kept rest => simp
  | replaced gap old new h ih => exact List.forall_mem_cons.mpr ⟨Nat.le_add_right _ _, ih⟩

theorem ascending (h : Exchange start t rs result) :
    rs.Pairwise fun a b => a.span.stop ≤ b.span.start := by
  induction h with
  | kept rest => exact .nil
  | replaced gap old new h ih => exact List.pairwise_cons.mpr ⟨h.start_le, ih⟩

/-- Both ends of every replacement are boundaries of the text. -/
theorem floorBoundary_eq (h : Exchange start t rs result) (front : Text)
    (here : front.byteLength = start) :
    ∀ r ∈ rs, (front ++ t).floorBoundary r.span.start = r.span.start ∧
      (front ++ t).floorBoundary r.span.stop = r.span.stop := by
  induction h generalizing front with
  | kept rest => simp
  | @replaced start gap old new rest result more h ih =>
      have first := Text.byteLength_append_of_eq here gap
      have last := Text.byteLength_append_of_eq first old
      have further := ih (front ++ gap ++ old) last
      have shape : front ++ (gap ++ old ++ rest) = front ++ gap ++ old ++ rest := by simp
      rw [shape]
      refine List.forall_mem_cons.mpr ⟨⟨?_, ?_⟩, further⟩
      · rw [← first, List.append_assoc (front ++ gap)]
        exact Text.floorBoundary_append _ _
      · rw [← last]
        exact Text.floorBoundary_append _ _

/-- Made from the last to the first, the replacements leave the result. -/
theorem foldr_splice (h : Exchange start t rs result) (front : Text)
    (here : front.byteLength = start) :
    rs.foldr (fun r t => t.splice r.span r.text) (front ++ t) = front ++ result := by
  induction h generalizing front with
  | kept rest => rfl
  | @replaced start gap old new rest result more h ih =>
      have first := Text.byteLength_append_of_eq here gap
      have last := Text.byteLength_append_of_eq first old
      have shape : front ++ (gap ++ old ++ rest) = front ++ gap ++ old ++ rest := by simp
      rw [List.foldr_cons, shape, ih _ last, ← first, Text.splice_append]
      simp only [List.append_assoc]

end Exchange

namespace Delta

variable {t : Text} {start stop : Nat}

theorem apply_append (d e : Delta) (t : Text) : (d ++ e).apply t = d.apply t ++ e.apply t :=
  List.flatMap_append

theorem apply_inserting (token t : Text) : (inserting token).apply t = token := by
  unfold inserting
  split
  · next empty => simp [apply, List.isEmpty_iff.mp empty]
  · simp [apply]

theorem apply_copying (le : start ≤ stop) :
    (copying start stop).apply t = Text.takeWithin (stop - start) (Text.dropWithin start t) := by
  unfold copying
  split
  · simp [apply]
  · have none : stop - start = 0 := by omega
    rw [none]
    exact (Text.takeWithin_append [] _).symm

theorem apply_copying_append (before inside after : Text) :
    (copying before.byteLength (before.byteLength + inside.byteLength)).apply
        (before ++ (inside ++ after)) = inside := by
  rw [apply_copying (Nat.le_add_right _ _), Text.dropWithin_append, Nat.add_sub_cancel_left,
    Text.takeWithin_append]

/-- The delta of what an exchange replaces first, and of the rest. -/
theorem ofReplacements_replaced (start : Nat) (gap old new rest : Text) (more : List Replacement) :
    ofReplacements (start + (gap ++ old ++ rest).byteLength) start
        (⟨⟨start + gap.byteLength, start + gap.byteLength + old.byteLength⟩, new⟩ :: more) =
      copying start (start + gap.byteLength) ++ (inserting new ++
        ofReplacements (start + gap.byteLength + old.byteLength + rest.byteLength)
          (start + gap.byteLength + old.byteLength) more) := by
  rw [ofReplacements, List.append_assoc, Text.byteLength_append, Text.byteLength_append,
    ← Nat.add_assoc, ← Nat.add_assoc]

/-- The delta of replacements makes them. -/
theorem apply_ofReplacements {result : Text} {rs : List Replacement}
    (h : Exchange start t rs result) (front : Text) (here : front.byteLength = start) :
    (ofReplacements (front ++ t).byteLength start rs).apply (front ++ t) = result := by
  induction h generalizing front with
  | kept rest =>
      rw [ofReplacements, Text.byteLength_append, ← here]
      simpa using apply_copying_append front rest []
  | @replaced start gap old new rest result more h ih =>
      have last := Text.byteLength_append_of_eq (Text.byteLength_append_of_eq here gap) old
      have copied := apply_copying_append front gap (old ++ rest)
      have further := ih (front ++ gap ++ old) last
      have shape : front ++ gap ++ old ++ rest = front ++ (gap ++ (old ++ rest)) := by simp
      rw [shape] at further
      rw [here] at copied
      simp only [ofReplacements, apply_append, apply_inserting, List.append_assoc, copied, further]

end Delta

theorem Edit.withoutOverlaps_of_ascending {rs : List Replacement} {lastStop : Nat}
    (ascending : rs.Pairwise fun a b => a.span.stop ≤ b.span.start)
    (behind : ∀ r ∈ rs, lastStop ≤ r.span.start) : withoutOverlaps lastStop rs = rs := by
  induction rs generalizing lastStop with
  | nil => rfl
  | cons r rs ih =>
      obtain ⟨first, later⟩ := List.pairwise_cons.mp ascending
      have le := behind r List.mem_cons_self
      rw [withoutOverlaps, if_neg (Nat.not_lt.mpr le), ih later first]

/-- Replacements that lie side by side in the text are made as they are asked for. -/
theorem Edit.replacements_of_exchange {e : Edit} {t result : Text}
    (h : Exchange 0 t e.requested result) : e.replacements t = e.requested := by
  have clamped : e.requested.map (fun r => { r with span := r.span.clamp t }) = e.requested := by
    apply (List.map_congr_left fun r hr => ?_).trans (List.map_id _)
    obtain ⟨start, stop⟩ := h.floorBoundary_eq [] rfl r hr
    have le := h.start_le_stop r hr
    rw [List.nil_append] at start stop
    simp only [Span.clamp, start, stop, Nat.min_eq_left le, id]
  have sorted : e.requested.Pairwise fun a b => inOrder a b := by
    refine h.ascending.imp_of_mem fun {a b} ha hb le => ?_
    have first := h.start_le_stop a ha
    have second := h.start_le_stop b hb
    simp only [inOrder, Span.precedes]
    grind
  rw [replacements, clamped, List.mergeSort_of_pairwise sorted]
  exact withoutOverlaps_of_ascending h.ascending (fun _ _ => Nat.zero_le _)

/-- Of replacements that lie in the text, in any order and however they overlap, those are made that
    begin no earlier than the last one made ends. -/
theorem Edit.exists_exchange_withoutOverlaps {rs : List Replacement} {front t : Text}
    {lastStop : Nat} (here : front.byteLength = lastStop)
    (lie : ∀ r ∈ rs, ∃ before old after, r.span.Cuts (front ++ t) before old after) :
    ∃ result, Exchange lastStop t (withoutOverlaps lastStop rs) result := by
  induction rs generalizing front t lastStop with
  | nil => exact ⟨t, .kept t⟩
  | cons r rs ih =>
      obtain ⟨first, later⟩ := List.forall_mem_cons.mp lie
      rw [withoutOverlaps]
      split
      · exact ih here later
      · next le =>
          -- The text is cut where the replacement lies, and the rest is what lies behind that.
          obtain ⟨before, old, rest, cut⟩ := first
          have starts := cut.starts
          have parts := cut.parts
          rw [List.append_assoc] at parts
          obtain ⟨gap, rfl, rfl⟩ := Text.exists_between parts (by omega)
          rw [Text.byteLength_append_of_eq here] at starts
          have stops := cut.stops
          have shape : front ++ (gap ++ (old ++ rest)) = front ++ gap ++ old ++ rest := by simp
          rw [shape] at later
          have last : (front ++ gap ++ old).byteLength = r.span.stop := by
            rw [Text.byteLength_append, Text.byteLength_append, ← stops, ← starts, here]
          obtain ⟨result, made⟩ := ih last later
          obtain ⟨⟨start, stop⟩, new⟩ := r
          obtain rfl : start = lastStop + gap.byteLength := starts.symm
          obtain rfl : stop = lastStop + gap.byteLength + old.byteLength := stops.symm
          refine ⟨gap ++ new ++ result, ?_⟩
          rw [← List.append_assoc]
          exact .replaced gap old new made

/-- What an edit makes in a text, wherever its offsets were. -/
theorem Edit.exists_exchange (t : Text) (e : Edit) :
    ∃ result, Exchange 0 t (e.replacements t) result := by
  apply exists_exchange_withoutOverlaps Text.byteLength_nil
  intro r mem
  obtain ⟨asked, -, rfl⟩ := List.mem_map.mp (List.mem_mergeSort.mp mem)
  exact Span.exists_cuts_clamp t asked.span

theorem Document.text_apply_of_replacements {d : Document} {e : Edit} {result : Text}
    (h : Exchange 0 d.text (e.replacements d.text) result) : (d.apply e).1.text = result := by
  have made := Delta.apply_ofReplacements h [] rfl
  rwa [List.nil_append] at made

theorem Document.text_apply_of_exchange {d : Document} {e : Edit} {result : Text}
    (h : Exchange 0 d.text e.requested result) : (d.apply e).1.text = result :=
  text_apply_of_replacements (Edit.replacements_of_exchange h ▸ h)

theorem Document.text_apply_replace {d : Document} {front old rest : Text}
    (cut : d.text = front ++ old ++ rest) (new : Text) :
    (d.apply (.replace ⟨front.byteLength, front.byteLength + old.byteLength⟩ new)).1.text =
      front ++ new ++ rest :=
  text_apply_of_exchange (cut ▸ Exchange.single front old new rest)

theorem Document.text_apply_insert {d : Document} {front rest : Text} (cut : d.text = front ++ rest)
    (token : Text) :
    (d.apply (.insert front.byteLength token)).1.text = front ++ token ++ rest := by
  have made := Exchange.single front [] token rest
  rw [List.append_nil, ← cut] at made
  exact text_apply_of_exchange made

end Marginalia
