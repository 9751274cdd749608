import Marginalia.Text.Span
import Marginalia.Text.Search

/-! # A byte cursor

Walks over the UTF-8 form of a text one byte at a time. Positions are absolute: the text begins at
`base` in a larger document.
-/

namespace Marginalia

/-- A text, where it begins, and how many of its bytes have been passed. -/
structure Cursor where
  text : Text
  base : Nat
  passed : Nat := 0

namespace Cursor

/-- The bytes from the cursor on. -/
def ahead (c : Cursor) : List UInt8 := (c.text.flatMap String.utf8EncodeChar).drop c.passed

/-- Absolute position. -/
def position (c : Cursor) : Nat := c.base + c.passed

def atEnd (c : Cursor) : Bool := c.text.byteLength ≤ c.passed

/-- Whether the bytes ahead begin with those of `pattern`; never past the end. -/
def startsWith (c : Cursor) (pattern : Text) : Bool :=
  c.passed ≤ c.text.byteLength && (pattern.flatMap String.utf8EncodeChar).isPrefixOf c.ahead

/-- Passes one byte and shows it; stays at the end. -/
def bump (c : Cursor) : Option UInt8 × Cursor :=
  match c.ahead with
  | [] => (none, c)
  | b :: _ => (some b, { c with passed := c.passed + 1 })

/-- Passes `n` bytes without looking. -/
def skip (n : Nat) (c : Cursor) : Cursor := { c with passed := c.passed + n }

/-- The text under an absolute span. -/
def textUnder? (c : Cursor) (s : Span) : Option Text :=
  if c.base ≤ s.start ∧ c.base ≤ s.stop then c.text.slice? ⟨s.start - c.base, s.stop - c.base⟩
  else none

end Cursor

end Marginalia
