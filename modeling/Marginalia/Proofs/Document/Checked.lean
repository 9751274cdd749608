import Marginalia.Proofs.Document.Exchange
import Marginalia.Proofs.Markup.Bytewise

/-! # Edits step by step

The steps of an edit with what each demands. A delta is built from replacements that come in order
and inside the text, stretches are copied and slices taken only between boundaries, markup is read
byte by byte. Offsets are clamped before any of that, so no demand is ever missed, whatever they
were.
-/

namespace Marginalia

namespace Delta

/-- Builds the delta of replacements, each of which has to begin behind the last and end behind its
    own start. None may reach beyond the text. -/
def build? (length done : Nat) : List Replacement → Option Delta
  | [] => if done ≤ length then some (copying done length) else none
  | r :: rest =>
    if done ≤ r.span.start ∧ r.span.start ≤ r.span.stop then
      (build? length r.span.stop rest).map (copying done r.span.start ++ inserting r.text ++ ·)
    else none

/-- The new text, if every stretch copied lies between boundaries of the old one. -/
def text? (t : Text) : Delta → Option Text
  | [] => some []
  | .copy start stop :: rest => do
    let kept ← t.slice? ⟨start, stop⟩
    return kept ++ (← text? t rest)
  | .insert text :: rest => (text? t rest).map (text ++ ·)

theorem build?_of_exchange {start : Nat} {t result : Text} {rs : List Replacement}
    (h : Exchange start t rs result) :
    build? (start + t.byteLength) start rs =
      some (ofReplacements (start + t.byteLength) start rs) := by
  induction h with
  | kept rest => rw [build?, if_pos (Nat.le_add_right _ _), ofReplacements]
  | @replaced start gap old new rest result more h ih =>
      have total : start + (gap ++ old ++ rest).byteLength =
          start + gap.byteLength + old.byteLength + rest.byteLength := by
        simp only [Text.byteLength_append, Nat.add_assoc]
      rw [build?, if_pos ⟨Nat.le_add_right _ _, Nat.le_add_right _ _⟩, total, ih, Option.map_some,
        ofReplacements]

theorem mem_copying {start stop : Nat} {s : Stretch} (mem : s ∈ copying start stop) :
    s = .copy start stop := by
  unfold copying at mem
  split at mem
  · exact List.mem_singleton.mp mem
  · cases mem

theorem mem_inserting {text : Text} {s : Stretch} (mem : s ∈ inserting text) :
    s = .insert text := by
  unfold inserting at mem
  split at mem
  · cases mem
  · exact List.mem_singleton.mp mem

/-- A delta copies only what stands in the text. -/
theorem exists_cuts_of_copy_mem {start first last : Nat} {t result : Text} {rs : List Replacement}
    (h : Exchange start t rs result) (front : Text) (here : front.byteLength = start)
    (mem : .copy first last ∈ ofReplacements (start + t.byteLength) start rs) :
    ∃ before inside after, (Span.mk first last).Cuts (front ++ t) before inside after := by
  induction h generalizing front with
  | kept rest =>
      obtain ⟨rfl, rfl⟩ := Stretch.copy.inj (mem_copying mem)
      exact ⟨front, rest, [], by simp, here, rfl⟩
  | @replaced start gap old new rest result more h ih =>
      rw [ofReplacements_replaced] at mem
      rcases List.mem_append.mp mem with copied | mem
      · obtain ⟨rfl, rfl⟩ := Stretch.copy.inj (mem_copying copied)
        exact ⟨front, gap, old ++ rest, by simp, here, rfl⟩
      rcases List.mem_append.mp mem with inserted | further
      · cases mem_inserting inserted
      · have last := Text.byteLength_append_of_eq (Text.byteLength_append_of_eq here gap) old
        simpa only [List.append_assoc] using ih (front ++ gap ++ old) last further

theorem text?_eq_some {t : Text} {delta : Delta}
    (copies : ∀ first last, .copy first last ∈ delta →
      ∃ before inside after, (Span.mk first last).Cuts t before inside after) :
    text? t delta = some (delta.apply t) := by
  induction delta with
  | nil => rfl
  | cons s delta ih =>
      have rest := ih fun first last mem => copies first last (List.mem_cons_of_mem s mem)
      cases s with
      | copy first last =>
          obtain ⟨before, inside, after, cut⟩ := copies first last List.mem_cons_self
          rw [text?, cut.slice?_eq, rest, ← cut.takeWithin_dropWithin]
          rfl
      | insert text =>
          rw [text?, rest]
          rfl

theorem build?_replacements (t : Text) (e : Edit) :
    build? t.byteLength 0 (e.replacements t) = some (ofEdit t e) := by
  obtain ⟨result, made⟩ := e.exists_exchange t
  have built := build?_of_exchange made
  rwa [Nat.zero_add] at built

theorem text?_ofEdit (t : Text) (e : Edit) : (ofEdit t e).text? t = some ((ofEdit t e).apply t) := by
  obtain ⟨result, made⟩ := e.exists_exchange t
  apply text?_eq_some
  intro first last mem
  rw [ofEdit, ← Nat.zero_add t.byteLength] at mem
  exact exists_cuts_of_copy_mem made [] rfl mem

end Delta

namespace Document

/-- The text under a span, if it lies between boundaries once clamped. -/
def slice? (range : Span) (d : Document) : Option Text := d.text.extract? (range.clamp d.text)

/-- The markup read byte by byte. -/
def markup? (d : Document) : Option (List Markup) := Cursor.markup? {} ⟨d.text, 0, 0⟩

/-- An edit made step by step. -/
def commit? (e : Edit) (d : Document) : Option (Document × Patch) := do
  let delta ← Delta.build? d.length 0 (e.replacements d.text)
  let text ← delta.text? d.text
  let start := delta.carry d.selection.start 0
  let stop := delta.carry d.selection.stop 0
  let next : Document := ⟨text, ⟨start, max start stop⟩, d.version + 1⟩
  return (next, ⟨delta.insertedSpans 0, next.selection, next.version⟩)

theorem slice?_eq_some (range : Span) (d : Document) : d.slice? range = some (d.slice range) := by
  obtain ⟨front, inside, rest, cut⟩ := Span.exists_cuts_clamp d.text range
  rw [slice?, cut.extract?_eq, slice, cut.under_eq_of_clamp]

theorem markup?_eq_some (d : Document) : d.markup? = some d.markup :=
  Markup.markup?_eq_parse d.text

/-- No edit misses a demand. -/
theorem commit?_eq_some (e : Edit) (d : Document) : d.commit? e = some (d.apply e) := by
  rw [commit?, length, Delta.build?_replacements, Option.bind_eq_bind, Option.bind_some,
    Delta.text?_ofEdit]
  rfl

end Document

end Marginalia
