import Marginalia.Margin.Coord

/-! # Remembered card heights

One height per root. A report close to the remembered height changes nothing, so that jitter in
measurements does not move cards about.
-/

namespace Marginalia

/-- Heights by the root they belong to, each root once. -/
structure Heights (α : Type) where
  entries : List (Nat × α) := []

namespace Heights

variable {α : Type} [Coord α]

def size (h : Heights α) : Nat := h.entries.length

/-- The height remembered for a root. -/
def get? (h : Heights α) (root : Nat) : Option α := h.entries.lookup root

/-- The height of a root, or a height to assume. -/
def getD (h : Heights α) (root : Nat) (default : α) : α := (h.get? root).getD default

/-- Remembers a height, in place of an older one. -/
def insert (root : Nat) (height : α) (h : Heights α) : Heights α :=
  ⟨(root, height) :: h.entries.filter (·.1 ≠ root)⟩

/-- Whether a report is a height at all: finite and not below zero. -/
def isHeight (height : α) : Bool := Coord.isFinite height && !Coord.lt height Coord.zero

/-- Whether a report is as good as what is remembered: no more than one half away. -/
def close (old new : α) : Bool := Coord.le (Coord.magnitude (old - new)) Coord.half

/-- Takes a report, and tells whether it was remembered. -/
def record (root : Nat) (height : α) (h : Heights α) : Bool × Heights α :=
  if !isHeight height then (false, h)
  else if (h.get? root).any (close · height) then (false, h)
  else (true, h.insert root height)

/-- Forgets every root. -/
def clear (_ : Heights α) : Heights α := {}

/-- Forgets every root that is not `live`, and tells how many there were. -/
def retain (live : List Nat) (h : Heights α) : Nat × Heights α :=
  let kept := h.entries.filter fun e => live.contains e.1
  (h.size - kept.length, ⟨kept⟩)

end Heights

end Marginalia
