import Marginalia.Decimal.Binary64
import Marginalia.Text.Numeral

/-! # Decimal numbers

Decimal text and doubles. Reading rounds correctly. Writing uses the fewest digits that read back,
and of those the nearest to the value, always in positional notation.
-/

namespace Marginalia

/-- A number `coefficient * 10 ^ exponent`, with a sign of its own. -/
structure Decimal where
  negative : Bool
  coefficient : Nat
  exponent : Int
  deriving Repr, DecidableEq

namespace Decimal

/-- Bits of the double nearest to a decimal's magnitude. Far beyond either end of the doubles
nothing is computed. -/
def magnitudeBits (d : Decimal) : Nat :=
  let size := d.exponent + (Numeral.ofNat d.coefficient).length
  if d.coefficient = 0 ∨ size < -400 then 0
  else if 400 < size then Binary64.infinityBits
  else
    Binary64.ofRatio (d.coefficient * Nat.pow 10 d.exponent.toNat) (Nat.pow 10 (-d.exponent).toNat)

/-- Whether a decimal lies beyond the greatest double. -/
def overflows (d : Decimal) : Bool := Binary64.infinityBits ≤ d.magnitudeBits

/-- The double nearest to a decimal. -/
def toFloat (d : Decimal) : Float := Binary64.signed d.negative d.magnitudeBits

/-- The double nearest to an integer. -/
def floatOfInt (n : Int) : Float := toFloat ⟨n < 0, n.natAbs, 0⟩

/-- Reads a sign. -/
def readSign : Text → Bool × Text
  | '-' :: rest => (true, rest)
  | '+' :: rest => (false, rest)
  | t => (false, t)

/-- Reads an exponent after its mark: a sign and one digit or more, to the end. -/
def readExponent? (t : Text) : Option Int :=
  let (negative, digits) := readSign t
  if digits.isEmpty ∨ !digits.all Numeral.isDigit then none
  else
    let n : Int := Numeral.valueIn 10 digits
    some (if negative then -n else n)

/-- Reads decimal notation: digits, perhaps a point and more digits, perhaps an exponent. -/
def read? (t : Text) : Option Decimal := do
  let (negative, t) := readSign t
  let whole := t.takeWhile Numeral.isDigit
  let t := t.dropWhile Numeral.isDigit
  let (part, t) := match t with
    | '.' :: rest => (rest.takeWhile Numeral.isDigit, rest.dropWhile Numeral.isDigit)
    | _ => ([], t)
  let exponent ← match t with
    | [] => some 0
    | c :: rest => if c = 'e' ∨ c = 'E' then readExponent? rest else none
  if whole.isEmpty ∧ part.isEmpty then none
  else some ⟨negative, Numeral.valueIn 10 (whole ++ part), exponent - part.length⟩

/-- Reads decimal notation, `inf` and `nan` in any case, as a double. -/
def readFloat? (t : Text) : Option Float :=
  let (negative, word) := readSign t
  let word := word.map Char.toLower
  if word = "inf".toList then some (Binary64.signed negative Binary64.infinityBits)
  else if word = "nan".toList then some (Binary64.signed false Binary64.nanBits)
  else (read? t).map toFloat

/-- The doubles that round to one bit pattern fill an interval: its ends and its middle, in units of
`2 ^ exponent`. The ends belong to it when the pattern is even. -/
structure Neighbourhood where
  low : Nat
  middle : Nat
  high : Nat
  closed : Bool
  exponent : Int

/-- The neighbourhood of a finite positive double. Below a power of two neighbours are half as far
apart. -/
def Neighbourhood.ofBits (bits : Nat) : Neighbourhood :=
  let (m, e) := Binary64.parts bits
  let narrow := m = Binary64.hiddenBit ∧ Binary64.leastExponent < e
  ⟨if narrow then 4 * m - 1 else 4 * m - 2, 4 * m, 4 * m + 2, bits % 2 = 0, e - 2⟩

namespace Neighbourhood

/-- Compares `n * 10 ^ k` with an end or the middle: both brought to whole numbers. -/
def scales (b : Neighbourhood) (k : Int) : Nat × Nat :=
  (Nat.pow 10 k.toNat * Nat.pow 2 (-b.exponent).toNat,
    Nat.pow 10 (-k).toNat * Nat.pow 2 b.exponent.toNat)

/-- Whether `n * 10 ^ k` lies in the neighbourhood. -/
def holds (b : Neighbourhood) (n : Nat) (k : Int) : Bool :=
  let (grid, unit) := b.scales k
  if b.closed then b.low * unit ≤ n * grid && n * grid ≤ b.high * unit
  else b.low * unit < n * grid && n * grid < b.high * unit

/-- The multiple of `10 ^ k` in the neighbourhood that is nearest to its middle; of two as near the
greater. -/
def nearest? (b : Neighbourhood) (k : Int) : Option Nat :=
  let (grid, unit) := b.scales k
  let below := b.middle * unit / grid
  let above := below + 1
  match 0 < below && b.holds below k, b.holds above k with
  | true, true =>
    some (if b.middle * unit - below * grid < above * grid - b.middle * unit then below else above)
  | true, false => some below
  | false, true => some above
  | false, false => none

/-- Searches ever finer grids, from `10 ^ k` down. -/
def search (b : Neighbourhood) (k : Int) : Nat → Nat × Int
  | 0 => (0, 0)
  | fuel + 1 =>
    match b.nearest? k with
    | some n => (n, k)
    | none => b.search (k - 1) fuel

end Neighbourhood

/-- The fewest digits that read back as a finite positive double, and the power of ten of the last
one. Doubles lie between `10 ^ (-324)` and `10 ^ 309`, and no more than 17 digits are ever needed.
-/
def shortest (bits : Nat) : Nat × Int := (Neighbourhood.ofBits bits).search 310 660

/-- `digits * 10 ^ exponent` in positional notation, with one decimal at least. -/
def positional (digits : Nat) (exponent : Int) : Text :=
  let ds := Numeral.ofNat digits
  match exponent with
  | .ofNat n => ds ++ List.replicate n '0' ++ ['.', '0']
  | .negSucc n =>
    let padded := List.replicate (n + 2 - ds.length) '0' ++ ds
    padded.take (padded.length - (n + 1)) ++ ['.'] ++ padded.drop (padded.length - (n + 1))

/-- A double in decimal notation. -/
def render (x : Float) : Text :=
  let bits := x.toBits.toNat % Binary64.signBit
  let sign : Text := if Binary64.signBit ≤ x.toBits.toNat then ['-'] else []
  if Binary64.infinityBits < bits then "nan".toList
  else if bits = Binary64.infinityBits then sign ++ "inf".toList
  else if bits = 0 then sign ++ "0.0".toList
  else
    let (digits, exponent) := shortest bits
    sign ++ positional digits exponent

end Decimal

end Marginalia
