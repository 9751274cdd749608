import Marginalia.Text.Basic

/-! # The UTF-8 form of text

Reading bytes gives the text they encode, or says where the first fault lies: the offset of the
sequence that fails and how many of its bytes were taken before it failed, or that the bytes end
inside a sequence.
-/

namespace Marginalia

/-- The first fault in a byte string. -/
inductive Utf8Fault where
  /-- The sequence at `index` fails after `length` bytes. -/
  | invalid (index length : Nat)
  /-- The bytes end within the sequence at `index`. -/
  | incomplete (index : Nat)
  deriving Repr, DecidableEq

/-- Wording of a fault. -/
def Utf8Fault.message : Utf8Fault → String
  | .invalid index length => s!"invalid utf-8 sequence of {length} bytes from index {index}"
  | .incomplete index => s!"incomplete utf-8 byte sequence from index {index}"

namespace Text

/-- The UTF-8 form. -/
def encode (t : Text) : List UInt8 := t.flatMap String.utf8EncodeChar

/-- How many bytes a first byte announces, and the bounds of the byte after it; nothing when no
sequence begins so. -/
private def leading (b : Nat) : Option (Nat × Nat × Nat) :=
  if b < 0x80 then some (0, 0, 0)
  else if b < 0xC2 then none
  else if b < 0xE0 then some (1, 0x80, 0xBF)
  else if b = 0xE0 then some (2, 0xA0, 0xBF)
  else if b = 0xED then some (2, 0x80, 0x9F)
  else if b < 0xF0 then some (2, 0x80, 0xBF)
  else if b = 0xF0 then some (3, 0x90, 0xBF)
  else if b < 0xF4 then some (3, 0x80, 0xBF)
  else if b = 0xF4 then some (3, 0x80, 0x8F)
  else none

/-- The payload bits of a first byte that announces `more` further bytes. -/
private def leadingBits (b more : Nat) : Nat :=
  match more with
  | 0 => b
  | 1 => b % 0x20
  | 2 => b % 0x10
  | _ => b % 0x08

/-- Where the reader stands within the sequence that began at `start`: `taken` bytes read, `owed` to
come, the next one between `low` and `high`. -/
private structure Pending where
  start : Nat
  taken : Nat
  owed : Nat
  low : Nat
  high : Nat
  bits : Nat

/-- Reads on from `index`, inside a sequence or between two. -/
private def decodeFrom (index : Nat) : Option Pending → List UInt8 → Except Utf8Fault Text
  | none, [] => .ok []
  | some p, [] => .error (.incomplete p.start)
  | none, b :: rest =>
    match leading b.toNat with
    | none => .error (.invalid index 1)
    | some (0, _, _) => (Char.ofNat b.toNat :: ·) <$> decodeFrom (index + 1) none rest
    | some (owed, low, high) =>
      decodeFrom (index + 1) (some ⟨index, 1, owed, low, high, leadingBits b.toNat owed⟩) rest
  | some p, b :: rest =>
    if p.low ≤ b.toNat ∧ b.toNat ≤ p.high then
      let bits := p.bits * 0x40 + b.toNat % 0x40
      if p.owed ≤ 1 then (Char.ofNat bits :: ·) <$> decodeFrom (index + 1) none rest
      else decodeFrom (index + 1) (some ⟨p.start, p.taken + 1, p.owed - 1, 0x80, 0xBF, bits⟩) rest
    else .error (.invalid p.start p.taken)

/-- The text that the bytes encode. -/
def decode (bytes : List UInt8) : Except Utf8Fault Text := decodeFrom 0 none bytes

end Text

end Marginalia
