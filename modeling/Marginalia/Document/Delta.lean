import Marginalia.Document.Edit

/-! # Deltas

A delta describes the new text from front to back: stretches copied from the old text and pieces
inserted between them. It changes a text, carries offsets across, and knows where in the new text
its insertions lie.
-/

namespace Marginalia

/-- One stretch of a new text. -/
inductive Stretch where
  /-- Bytes `[start, stop)` of the old text. -/
  | copy (start stop : Nat)
  | insert (text : Text)
  deriving Repr, DecidableEq

/-- A new text in terms of an old one. -/
abbrev Delta := List Stretch

namespace Delta

/-- A stretch copied from `start` to `stop`, left out when there is nothing in it. -/
def copying (start stop : Nat) : Delta := if start < stop then [.copy start stop] else []

/-- A piece inserted, left out when empty. -/
def inserting (text : Text) : Delta := if text.isEmpty then [] else [.insert text]

/-- The delta of ascending replacements in a text of `length` bytes, of which the first `done` are
dealt with. -/
def ofReplacements (length : Nat) (done : Nat) : List Replacement → Delta
  | [] => copying done length
  | r :: rest =>
    copying done r.span.start ++ inserting r.text ++ ofReplacements length r.span.stop rest

/-- The new text. -/
def apply (d : Delta) (t : Text) : Text :=
  d.flatMap fun
    | .copy start stop => Text.takeWithin (stop - start) (Text.dropWithin start t)
    | .insert text => text

/-- Where the insertions lie in the new text, of which `done` bytes come before. -/
def insertedSpans (done : Nat) : Delta → List Span
  | [] => []
  | .copy start stop :: rest => insertedSpans (done + (stop - start)) rest
  | .insert text :: rest =>
    ⟨done, done + text.byteLength⟩ :: insertedSpans (done + text.byteLength) rest

/-- Where an old offset comes to lie: behind whatever is inserted at it, and at the front of what
was removed around it. `done` bytes of the new text come before. -/
def carry (offset : Nat) (done : Nat) : Delta → Nat
  | [] => done
  | .copy start stop :: rest =>
    if offset ≤ start then done
    else if offset < stop then done + offset - start
    else carry offset (done + (stop - start)) rest
  | .insert text :: rest => carry offset (done + text.byteLength) rest

/-- The delta of an edit to `t`. -/
def ofEdit (t : Text) (e : Edit) : Delta := ofReplacements t.byteLength 0 (e.replacements t)

end Delta

end Marginalia
