import Mathlib.Data.Nat.Basic
import Mathlib.Order.Monotone.Defs
import Marginalia.Proofs.Document.History
import Marginalia.Proofs.Document.Splice
import Marginalia.Proofs.Text.Bytes
import Marginalia.Proofs.Text.Lines

/-! # Clamping once is enough

What is selected or edited is clamped on the way in, and every edit clamps its spans again before it
is made. Both come to the same spans: what was read at a span is just what is exchanged there.
-/

namespace Marginalia

theorem Text.under_clamp (t : Text) (s : Span) : t.under (s.clamp t) = t.under s := by
  rw [under, Span.clamp_clamp, under]

namespace Edit

/-- The edit with its offsets clamped into `t` beforehand. -/
def clamp (t : Text) : Edit → Edit
  | .insert offset text => .insert (t.floorBoundary offset) text
  | .delete range => .delete (range.clamp t)
  | .replace range text => .replace (range.clamp t) text
  | .replaceMany edits => .replaceMany (edits.map fun (range, text) => (range.clamp t, text))

theorem requested_clamp (t : Text) (e : Edit) :
    (e.clamp t).requested = e.requested.map fun r => { r with span := r.span.clamp t } := by
  cases e with
  | insert offset text => simp [clamp, requested, Span.clamp]
  | delete | replace => rfl
  | replaceMany edits => simp [clamp, requested, Function.comp_def]

theorem replacements_clamp (t : Text) (e : Edit) :
    (e.clamp t).replacements t = e.replacements t := by
  simp only [replacements, requested_clamp, List.map_map, Function.comp_def, Span.clamp_clamp]

end Edit

namespace Document

/-- To clamp an edit first changes nothing of what it does. -/
theorem apply_clamp (d : Document) (e : Edit) : d.apply (e.clamp d.text) = d.apply e := by
  simp only [apply, Delta.ofEdit, Edit.replacements_clamp]

theorem editWith_eq_apply (policy : Text → Text → Text) (range : Span) (new : Text)
    (d : Document) :
    d.editWith policy range new = d.apply (.replace range (policy (d.slice range) new)) := by
  rw [editWith, slice, Text.under_clamp]
  exact d.apply_clamp (.replace range _)

theorem commentOnSelection_select (range : Span) (author : Text) (timestamp : Int)
    (content : Text) (d : Document) :
    (d.select range).commentOnSelection author timestamp content =
      (d.select range).apply (Draft.commentSelection range (d.slice range)
        (Draft.comment author timestamp content)) := by
  have beforehand (selected token : Text) :
      Draft.commentSelection (range.clamp d.text) selected token =
        (Draft.commentSelection range selected token).clamp d.text := by
    unfold Draft.commentSelection
    split <;> rfl
  rw [commentOnSelection, select, slice, Text.under_clamp, beforehand]
  exact apply_clamp _ _

/-- Any offset is brought down to the greatest boundary that is not beyond it nor beyond the text, and
    the way down meets that. Any span becomes canonical, its ends no larger, and a canonical one
    stays as it is. So an edit is the same with its offsets clamped beforehand: what is edited or
    selected and commented on by whatever span is what a single clamping of that span cuts out. -/
theorem canonical_clamp_and_apply (d : Document) (s : Span) :
    let t := d.text
    let clamped := s.clamp t
    ((∀ place, (place ∈ t.boundaries ↔ Text.ByteBoundary t.encode place) ∧
        (t.isBoundary place ↔ place ∈ t.boundaries)) ∧
      (∀ offset, t.floorBoundary? offset = some (t.floorBoundary offset) ∧
        IsGreatest {place ∈ t.boundaries | place ≤ min offset t.byteLength}
          (t.floorBoundary offset) ∧
        (t.floorBoundary offset = offset ↔ offset ∈ t.boundaries)) ∧
      Monotone t.floorBoundary) ∧
    (s.clamp? t = some clamped ∧ clamped.Canonical t ∧
      (clamped.start ≤ s.start ∧ clamped.stop ≤ s.stop) ∧
      (clamped = s ↔ s.Canonical t) ∧ clamped.clamp t = clamped) ∧
    (∀ e : Edit, d.apply (e.clamp t) = d.apply e) ∧
    ∃ front inside rest, clamped.Cuts t front inside rest ∧
      (d.slice? s = some inside ∧ d.slice? clamped = some inside) ∧
      (∀ policy new,
        d.editWith policy s new = d.apply (.replace s (policy inside new)) ∧
        (d.editWith policy s new).1.text = front ++ policy inside new ++ rest) ∧
      ∀ author timestamp content,
        let e := Draft.commentSelection s inside (Draft.comment author timestamp content)
        (d.select s).commentOnSelection author timestamp content = (d.select s).apply e ∧
        ∃ written, e = .replace s written ∧
          ((d.select s).apply e).1.text = front ++ written ++ rest := by
  intro t clamped
  obtain ⟨front, inside, rest, cut⟩ := Span.exists_cuts_clamp t s
  have beneath : d.slice s = inside := cut.under_eq_of_clamp
  have sliced := d.slice?_eq_some s
  have slicedAgain : d.slice? clamped = d.slice? s := by
    rw [slice?, slice?, Span.clamp_clamp]
  rw [beneath] at sliced
  refine ⟨⟨?boundaries, ?floor, fun _ _ => t.floorBoundary_mono⟩, ?span, d.apply_clamp,
    front, inside, rest, cut, ⟨sliced, slicedAgain.trans sliced⟩, ?edit, ?comment⟩
  case boundaries =>
    intro place
    rw [Text.mem_boundaries_iff, Text.isBoundary_iff_byteBoundary]
    exact ⟨Iff.rfl, Iff.rfl⟩
  case floor =>
    exact fun offset => ⟨t.floorBoundary?_eq_some offset, t.isGreatest_floorBoundary offset,
      Text.floorBoundary_eq_self_iff⟩
  case span =>
    exact ⟨s.clamp?_eq_some t, s.canonical_clamp t, ⟨s.start_clamp_le t, s.stop_clamp_le t⟩,
      Span.clamp_eq_self_iff, s.clamp_clamp t⟩
  case edit =>
    intro policy new
    rw [editWith_eq_apply, beneath]
    exact ⟨rfl, text_apply_replace_of_cuts cut _⟩
  case comment =>
    intro author timestamp content e
    have once := d.commentOnSelection_select s author timestamp content
    rw [beneath] at once
    obtain ⟨written, replaces⟩ : ∃ written, e = .replace s written := by
      simp only [e, Draft.commentSelection]
      split <;> exact ⟨_, rfl⟩
    refine ⟨once, written, replaces, ?_⟩
    rw [replaces]
    exact text_apply_replace_of_cuts cut written

/-- A span from inside a character to beyond the text. -/
theorem canonical_clamp_and_apply_inside_accent :
    let d := ofText "aéb".toList
    let s : Span := ⟨2, 100⟩
    s.clamp? d.text = some ⟨1, 4⟩ ∧ (Span.mk 1 4).Canonical d.text ∧
      d.slice? s = some "éb".toList ∧
      (d.editWith (Draft.compose true) s ['x']).1.text = "a\x7b~~éb~>x~~\x7d".toList := by
  intro d s
  obtain ⟨-, ⟨clamped, canonical, -⟩, -, front, inside, rest, -, ⟨sliced, -⟩, edited, -⟩ :=
    canonical_clamp_and_apply d s
  have same : s.clamp d.text = ⟨1, 4⟩ := by decide +kernel
  have read : d.slice? s = some "éb".toList := by decide +kernel
  obtain rfl := Option.some.inj (sliced.symm.trans read)
  rw [same] at clamped canonical
  refine ⟨clamped, canonical, sliced, ?_⟩
  rw [(edited _ _).1]
  decide +kernel

end Document

end Marginalia
