import Marginalia.Thread

/-! # Edits

An edit names places in a text and what to put there. Against a given text it comes down to
replacements: spans clamped into the text, in ascending order, none overlapping the one before.
-/

namespace Marginalia

/-- A change to a text, at offsets that may be stale. -/
inductive Edit where
  | insert (offset : Nat) (text : Text)
  | delete (range : Span)
  | replace (range : Span) (text : Text)
  /-- Several replacements as one edit. -/
  | replaceMany (edits : List (Span × Text))
  deriving Repr

/-- One span of a text and what takes its place. -/
structure Replacement where
  span : Span
  text : Text
  deriving Repr, DecidableEq

namespace Edit

/-- The replacements an edit asks for, as they were given. -/
def requested : Edit → List Replacement
  | .insert offset text => [⟨⟨offset, offset⟩, text⟩]
  | .delete range => [⟨range, []⟩]
  | .replace range text => [⟨range, text⟩]
  | .replaceMany edits => edits.map fun (range, text) => ⟨range, text⟩

/-- Order by start, then by stop. -/
def inOrder (a b : Replacement) : Bool := !b.span.precedes a.span

/-- Drops every replacement that starts before the stop of the last one kept. -/
def withoutOverlaps (lastStop : Nat) : List Replacement → List Replacement
  | [] => []
  | r :: rest =>
    if r.span.start < lastStop then withoutOverlaps lastStop rest
    else r :: withoutOverlaps r.span.stop rest

/-- The replacements an edit makes in `t`. Of several at one place the order given is kept. -/
def replacements (t : Text) (e : Edit) : List Replacement :=
  let clamped := e.requested.map fun r => { r with span := r.span.clamp t }
  withoutOverlaps 0 (clamped.mergeSort inOrder)

end Edit

end Marginalia
