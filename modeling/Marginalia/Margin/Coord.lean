/-! # Coordinates

Vertical positions and heights. Layout is written once for any type of coordinate: machine floats
when it runs, exact numbers when it is reasoned about. A coordinate may be infinite, or no number at
all; then every comparison with it is false.
-/

namespace Marginalia

/-- What layout asks of a number. -/
class Coord (α : Type) extends Add α, Sub α where
  ofNat : Nat → α
  /-- One half. -/
  half : α
  /-- Below every number. -/
  negInf : α
  lt : α → α → Bool
  le : α → α → Bool
  same : α → α → Bool
  isNaN : α → Bool
  isFinite : α → Bool
  /-- Rounded towards zero; zero below zero and for what is no number, and never above `2 ^ 64 - 1`.
  -/
  truncate : α → Nat

namespace Coord

variable {α : Type} [Coord α]

def zero : α := ofNat 0

/-- The larger of two; what is no number is passed over. -/
def larger (a b : α) : α := if isNaN a then b else if lt a b then b else a

/-- The smaller of two; what is no number is passed over. -/
def smaller (a b : α) : α := if isNaN a then b else if lt b a then b else a

/-- Distance from zero. -/
def magnitude (a : α) : α := if lt a zero then zero - a else a

/-- The greatest count that fits a machine word. -/
def countLimit : Nat := 0xFFFFFFFFFFFFFFFF

/-- Rounded up to a count; zero below zero and for what is no number. -/
def ceiling (a : α) : Nat :=
  let n : Nat := truncate a
  if lt (ofNat n) a then min (n + 1) countLimit else n

end Coord

instance : Coord Float where
  ofNat n := n.toUInt64.toFloat
  half := 0.5
  negInf := -1.0 / 0.0
  lt a b := a < b
  le a b := a ≤ b
  same a b := a == b
  isNaN := Float.isNaN
  isFinite := Float.isFinite
  truncate a := a.toUInt64.toNat

end Marginalia
