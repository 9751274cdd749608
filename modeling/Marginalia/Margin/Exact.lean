import Marginalia.Margin.Coord

/-! # Exact coordinates

Rational numbers with both infinities and a value that is no number. Sums are exact; infinities of
opposite sign have none.
-/

namespace Marginalia

/-- A coordinate without rounding. -/
inductive Exact where
  /-- No number. -/
  | nan
  /-- Below every number. -/
  | negInf
  /-- Above every number. -/
  | posInf
  | finite (q : Rat)
  deriving DecidableEq

namespace Exact

def neg : Exact → Exact
  | .nan => .nan
  | .negInf => .posInf
  | .posInf => .negInf
  | .finite q => .finite (-q)

def add : Exact → Exact → Exact
  | .nan, _ => .nan
  | _, .nan => .nan
  | .negInf, .posInf => .nan
  | .posInf, .negInf => .nan
  | .negInf, _ => .negInf
  | _, .negInf => .negInf
  | .posInf, _ => .posInf
  | _, .posInf => .posInf
  | .finite a, .finite b => .finite (a + b)

def lt : Exact → Exact → Bool
  | .nan, _ => false
  | _, .nan => false
  | .negInf, .negInf => false
  | .negInf, _ => true
  | _, .negInf => false
  | .posInf, _ => false
  | _, .posInf => true
  | .finite a, .finite b => a < b

/-- Equal as numbers; what is no number equals nothing. -/
def same : Exact → Exact → Bool
  | .nan, _ => false
  | a, b => a = b

instance : Coord Exact where
  add := Exact.add
  sub a b := Exact.add a (Exact.neg b)
  ofNat n := .finite n
  half := .finite (1 / 2)
  negInf := .negInf
  lt := Exact.lt
  le a b := Exact.lt a b || Exact.same a b
  same := Exact.same
  isNaN a := a = .nan
  isFinite
    | .finite _ => true
    | _ => false
  truncate
    | .finite q => min q.floor.toNat Coord.countLimit
    | .posInf => Coord.countLimit
    | _ => 0

end Exact

end Marginalia
