/-! # Rounding to doubles

A non-negative ratio of natural numbers is rounded to the nearest double, ties to the even
neighbour, in exact arithmetic. The result is the double's bit pattern.
-/

namespace Marginalia.Binary64

/-- The least exponent of a double's last bit. -/
def leastExponent : Int := -1074

/-- The leading bit of a mantissa, which patterns leave out. -/
def hiddenBit : Nat := 0x10000000000000

/-- The bit that stands for a minus sign. -/
def signBit : Nat := 0x8000000000000000

/-- Bits of positive infinity. -/
def infinityBits : Nat := 0x7FF0000000000000

/-- Bits of a value that is no number. -/
def nanBits : Nat := 0x7FF8000000000000

/-- `numerator / denominator` rounded to a natural number, ties to even. -/
def roundDiv (numerator denominator : Nat) : Nat :=
  let q := numerator / denominator
  let r := numerator % denominator
  if denominator < 2 * r ∨ (2 * r = denominator ∧ q % 2 = 1) then q + 1 else q

/-- `numerator / denominator` times `2 ^ (-e)` as a ratio. -/
def scaled (numerator denominator : Nat) (e : Int) : Nat × Nat :=
  (numerator * Nat.pow 2 (-e).toNat, denominator * Nat.pow 2 e.toNat)

/-- The exponent of the last bit of the double next to a positive ratio. -/
def exponentOf (numerator denominator : Nat) : Int :=
  let estimate : Int := (numerator.log2 : Int) - (denominator.log2 : Int)
  let (n, d) := scaled numerator denominator estimate
  max (if d ≤ n then estimate - 52 else estimate - 53) leastExponent

/-- Bits of the double nearest to a ratio with a positive denominator. -/
def ofRatio (numerator denominator : Nat) : Nat :=
  if numerator = 0 then 0
  else
    let e := exponentOf numerator denominator
    let (n, d) := scaled numerator denominator e
    min ((e - leastExponent).toNat * hiddenBit + roundDiv n d) infinityBits

/-- The double with given bits of magnitude and a sign. -/
def signed (negative : Bool) (bits : Nat) : Float :=
  Float.ofBits ((if negative then bits + signBit else bits).toUInt64)

/-- Mantissa and exponent of a finite double without its sign. -/
def parts (bits : Nat) : Nat × Int :=
  let fraction : Nat := bits % hiddenBit
  let biased : Nat := bits / hiddenBit % 0x800
  if biased = 0 then (fraction, leastExponent)
  else (hiddenBit + fraction, (biased : Int) + leastExponent - 1)

end Marginalia.Binary64
