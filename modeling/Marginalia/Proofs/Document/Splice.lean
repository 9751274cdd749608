import Marginalia.Proofs.Document.Patch
import Marginalia.Proofs.Text.Clamping

/-! # A token resolved wherever its span lies

A token is resolved in a text by cutting it at both ends of the token's span and joining the outer
pieces around what is left of the token. In a document the same is one edit. Both clamp the span
into the text first, so it may come from any text and its ends may be in any order, and both leave
the same text.
-/

namespace Marginalia

namespace Text

/-- Bytes set aside for the text with the part under `s` exchanged for `new`; nothing if that part
    is longer than the text. -/
def room? (t : Text) (s : Span) (new : Text) : Option Nat :=
  if s.length ≤ t.byteLength then some (t.byteLength - s.length + new.byteLength) else none

/-- The part under `s` exchanged for `new` step by step: once there is room, the text is cut at both
    ends of the span, which have to be boundaries. -/
def splice? (t : Text) (s : Span) (new : Text) : Option Text := do
  let _ ← t.room? s new
  let (front, _) ← t.cut? s.start
  let (_, rest) ← t.cut? s.stop
  return front ++ new ++ rest

/-- One token resolved step by step. -/
def resolve? (t : Text) (m : Markup) (outcome : Outcome) : Option Text := do
  let s ← m.full.clamp? t
  t.splice? s (m.replacement outcome)

theorem encode_append (a b : Text) : (a ++ b).encode = a.encode ++ b.encode := List.flatMap_append

end Text

namespace Span.Cuts

variable {s : Span} {t front old rest : Text}

theorem splice_eq (h : s.Cuts t front old rest) (new : Text) :
    t.splice s new = front ++ new ++ rest := by
  rw [h.parts, h.eq_mk, Text.splice_append]

/-- The room set aside is what the outcome takes up. -/
theorem room?_eq (h : s.Cuts t front old rest) (new : Text) :
    t.room? s new = some (front ++ new ++ rest).byteLength := by
  have total : t.byteLength = front.byteLength + old.byteLength + rest.byteLength := by
    rw [h.parts, Text.byteLength_append, Text.byteLength_append]
  have length : s.length = old.byteLength := by
    rw [h.eq_mk, length, Nat.add_sub_cancel_left]
  rw [Text.room?, if_pos (by omega), Text.byteLength_append, Text.byteLength_append]
  congr 1
  omega

theorem splice?_eq (h : s.Cuts t front old rest) (new : Text) :
    t.splice? s new = some (front ++ new ++ rest) := by
  have first : t.cut? s.start = some (front, old ++ rest) :=
    Text.cut?_eq_some_iff.mpr ⟨by rw [h.parts, List.append_assoc], h.starts⟩
  have last : t.cut? s.stop = some (front ++ old, rest) :=
    Text.cut?_eq_some_iff.mpr ⟨h.parts, by rw [Text.byteLength_append, h.starts, h.stops]⟩
  simp only [Text.splice?, h.room?_eq new, first, last]
  rfl

theorem take_encode (h : s.Cuts t front old rest) : t.encode.take s.start = front.encode := by
  have here : front.encode.length = s.start :=
    (Text.length_flatMap_utf8EncodeChar front).trans h.starts
  rw [h.parts, List.append_assoc, Text.encode_append, ← here, List.take_left]

theorem drop_encode (h : s.Cuts t front old rest) : t.encode.drop s.stop = rest.encode := by
  have here : (front ++ old).encode.length = s.stop := by
    rw [Text.encode, Text.length_flatMap_utf8EncodeChar, Text.byteLength_append, h.starts, h.stops]
  rw [h.parts, Text.encode_append, ← here, List.drop_left]

end Span.Cuts

namespace Document

/-- A replacement is made where its span lies once clamped. -/
theorem text_apply_replace_of_cuts {d : Document} {range : Span} {front old rest : Text}
    (cut : (range.clamp d.text).Cuts d.text front old rest) (new : Text) :
    (d.apply (.replace range new)).1.text = front ++ new ++ rest := by
  apply text_apply_of_replacements
  rw [Edit.replacements_of_clamped_singleton (r := ⟨range.clamp d.text, new⟩) rfl, cut.eq_mk]
  have made := Exchange.single front old new rest
  rwa [← cut.parts] at made

/-- Any token, from whatever text, can be resolved in a text and in a document that has it, and both
    come to the same: what lies in front of its clamped span and behind it is kept, byte for byte,
    around what is left of the token. -/
theorem text_resolve_eq (d : Document) (m : Markup) (outcome : Outcome) :
    let s := m.full.clamp d.text
    let new := m.replacement outcome
    let result := d.text.resolve m outcome
    (d.text.resolve? m outcome = some result ∧ d.text.room? s new = some result.byteLength) ∧
    (m.full.clamp? d.text = some s ∧
      d.commit? (.replace m.full new) = some (d.resolve m outcome)) ∧
    (d.resolve m outcome).1.text = result ∧
    (∃ front old rest, s.Cuts d.text front old rest ∧ result = front ++ new ++ rest) ∧
    result.encode = d.text.encode.take s.start ++ new.encode ++ d.text.encode.drop s.stop := by
  intro s new result
  obtain ⟨front, old, rest, cut⟩ := Span.exists_cuts_clamp d.text m.full
  have clamped := Span.clamp?_eq_some d.text m.full
  have spliced : result = front ++ new ++ rest := cut.splice_eq new
  refine ⟨⟨?inText, ?room⟩, ⟨clamped, commit?_eq_some _ d⟩, ?same, ⟨front, old, rest, cut, spliced⟩,
    ?bytes⟩
  case inText =>
    rw [Text.resolve?, clamped, Option.bind_eq_bind, Option.bind_some, cut.splice?_eq, spliced]
  case room => rw [cut.room?_eq, spliced]
  case same => rw [resolve, text_apply_replace_of_cuts cut, spliced]
  case bytes =>
    rw [spliced, Text.encode_append, Text.encode_append, cut.take_encode, cut.drop_encode]

end Document

end Marginalia
