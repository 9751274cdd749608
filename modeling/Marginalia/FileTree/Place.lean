import Marginalia.Text.Basic

/-! # Paths and places

A path is text with names between slashes. Followed from where it starts it leads to a place, which
is a chain of names without dots.
-/

namespace Marginalia

/-- Where a chain of names starts. -/
inductive Anchor where
  /-- The directory above all others. -/
  | root
  /-- So many levels above the working directory, which is none above itself. -/
  | above (levels : Nat)
  deriving Repr, DecidableEq

/-- A place for a file or a directory. -/
structure Place where
  anchor : Anchor
  /-- Each is a name in the directory of the one before. -/
  names : List Text
  deriving Repr, DecidableEq

namespace Place

/-- The directory that a place is in. Above all others there is none but itself. -/
def parent (p : Place) : Place :=
  match p.anchor, p.names with
  | .root, [] => p
  | .above levels, [] => ⟨.above (levels + 1), []⟩
  | anchor, names => ⟨anchor, names.dropLast⟩

/-- The place of a name in a directory. -/
def child (p : Place) (name : Text) : Place := { p with names := p.names ++ [name] }

/-- Whether a place lies below the first name that `top` has. -/
def isBelow (p top : Place) : Bool :=
  p.anchor = top.anchor && p.names.head?.isSome && p.names.head? = top.names.head?

theorem parent_child (p : Place) (name : Text) : (p.child name).parent = p := by
  obtain ⟨anchor, names⟩ := p
  cases anchor <;> cases names <;> simp [child, parent, List.dropLast]

end Place

namespace Path

/-- The names of a path, separated by slashes. -/
def names : Text → List Text
  | [] => [[]]
  | c :: rest =>
    if c = '/' then [] :: names rest
    else match names rest with
      | [] => [[c]]
      | name :: more => (c :: name) :: more

/-- Where a path starts: above all others if a slash does, else in the working directory. -/
def start (path : Text) : Place := if path.head? = some '/' then ⟨.root, []⟩ else ⟨.above 0, []⟩

/-- Whether a name leads back to the directory it is in. -/
def isIdle (name : Text) : Bool := name = [] || name = ['.']

/-- The names of a path that lead somewhere. -/
def steps (path : Text) : List Text := (names path).filter (!isIdle ·)

/-- How many bytes a name may have. -/
def nameLimit : Nat := 255

/-- How many bytes a path may have. -/
def lengthLimit : Nat := 4095

end Path

end Marginalia
