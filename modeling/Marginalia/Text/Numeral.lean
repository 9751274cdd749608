import Marginalia.Text.Basic

/-! # Numbers in decimal digits -/

namespace Marginalia.Numeral

/-- Value of an ASCII digit. -/
def digit? (c : Char) : Option Nat :=
  if '0' ≤ c ∧ c ≤ '9' then some (c.toNat - '0'.toNat) else none

/-- Value of an ASCII digit in either case, up to base sixteen. -/
def hexDigit? (c : Char) : Option Nat :=
  if '0' ≤ c ∧ c ≤ '9' then some (c.toNat - '0'.toNat)
  else if 'a' ≤ c ∧ c ≤ 'f' then some (c.toNat - 'a'.toNat + 10)
  else if 'A' ≤ c ∧ c ≤ 'F' then some (c.toNat - 'A'.toNat + 10)
  else none

/-- Whether a character is an ASCII digit. -/
def isDigit (c : Char) : Bool := (digit? c).isSome

/-- The number that digits of a base write, most significant first; characters that are no digits
count as zero. -/
def valueIn (base : Nat) (digits : Text) : Nat :=
  digits.foldl (fun n c => n * base + (hexDigit? c).getD 0) 0

/-- Decimal digits of a natural number. -/
def ofNat (n : Nat) : Text := Nat.toDigits 10 n

/-- Decimal digits of an integer, with a minus sign below zero. -/
def ofInt : Int → Text
  | .ofNat n => ofNat n
  | .negSucc n => '-' :: ofNat (n + 1)

/-- A hex numeral of at least so many digits. -/
def hexOf (width : Nat) (upper : Bool) (n : Nat) : Text :=
  let digits := Nat.toDigits 16 n
  let cased := if upper then digits.map Char.toUpper else digits
  List.replicate (width - digits.length) '0' ++ cased

/-- Why a text is not an unsigned 64-bit number. -/
inductive Fault where
  /-- There is nothing to read. -/
  | empty
  /-- A character is not a digit. -/
  | badDigit
  /-- The number passes the greatest one that fits. -/
  | tooLarge
  deriving Repr, DecidableEq

/-- Wording of a fault. -/
def Fault.message : Fault → String
  | .empty => "cannot parse integer from empty string"
  | .badDigit => "invalid digit found in string"
  | .tooLarge => "number too large to fit in target type"

/-- The greatest unsigned 64-bit number. -/
def largest : Nat := 0xFFFFFFFFFFFFFFFF

/-- Reads digits from the left; of a bad digit and an overflow the one met first is reported. -/
def unsignedFrom (value : Nat) : Text → Except Fault Nat
  | [] => .ok value
  | c :: rest =>
    match digit? c with
    | none => .error .badDigit
    | some d =>
      if largest < value * 10 + d then .error .tooLarge else unsignedFrom (value * 10 + d) rest

/-- An unsigned 64-bit number in decimal, a plus sign allowed before it. -/
def unsigned : Text → Except Fault Nat
  | [] => .error .empty
  | ['+'] => .error .badDigit
  | '+' :: rest => unsignedFrom 0 rest
  | t => unsignedFrom 0 t

end Marginalia.Numeral
