import Marginalia.FileTree.Fault
import Marginalia.FileTree.Place

/-! # Files by path

A small tree of files and directories around a working directory. Reading and writing fail as they
would on a disk, and say why.
-/

namespace Marginalia

/-- What a path leads to. -/
inductive FileNode where
  | file (bytes : List UInt8)
  | directory
  deriving DecidableEq

/-- The files and directories that there are, by place. The directories above the working directory
are always there. -/
structure FileTree where
  nodes : List (Place × FileNode) := []

namespace FileTree

/-- The node at a place. -/
def node? (t : FileTree) (place : Place) : Option FileNode :=
  if place.names.isEmpty then some .directory else t.nodes.lookup place

/-- Follows one name from a place, which has to be a directory. An idle name stays there, two dots
go up. -/
def step (t : FileTree) (place : Place) (name : Text) : Except FileFault Place :=
  match t.node? place with
  | none => .error .missing
  | some (.file _) => .error .notADirectory
  | some .directory =>
    if Path.isIdle name then .ok place
    else if name = ['.', '.'] then .ok place.parent
    else if Path.nameLimit < name.byteLength then .error .nameTooLong
    else .ok (place.child name)

/-- Where a path leads. All but the last of its names lead to directories that are there. -/
def locate (t : FileTree) (path : Text) : Except FileFault Place :=
  if path.contains '\x00' then .error .zeroInPath
  else if path.isEmpty then .error .missing
  else if Path.lengthLimit < path.byteLength then .error .nameTooLong
  else (Path.names path).foldlM t.step (Path.start path)

/-- The bytes of the file at a path. -/
def read (t : FileTree) (path : Text) : Except FileFault (List UInt8) := do
  match t.node? (← t.locate path) with
  | some (.file bytes) => .ok bytes
  | some .directory => .error .isADirectory
  | none => .error .missing

/-- Sets the node at a place. -/
def put (place : Place) (node : FileNode) (t : FileTree) : FileTree :=
  ⟨(place, node) :: t.nodes.filter (·.1 ≠ place)⟩

/-- Writes a file, in a directory that is there. -/
def write (path : Text) (bytes : List UInt8) (t : FileTree) : Except FileFault FileTree := do
  let place ← t.locate path
  match t.node? place with
  | some .directory => .error .isADirectory
  | _ => .ok (t.put place (.file bytes))

/-- Makes the directories that names lead to from a place, where there are none. -/
def ensureFrom (place : Place) : List Text → FileTree → Except FileFault FileTree
  | [], t => .ok t
  | name :: rest, t => do
    let next ← t.step place name
    match t.node? next with
    | none => ensureFrom next rest (t.put next .directory)
    | some .directory => ensureFrom next rest t
    | some (.file _) => .error .notADirectory

/-- Makes the directory at a path, and those it goes through. -/
def ensureDirectory (path : Text) (t : FileTree) : Except FileFault FileTree :=
  t.ensureFrom (Path.start path) (Path.steps path)

/-- Makes every directory that the path of a file goes through. -/
def ensureParents (path : Text) (t : FileTree) : Except FileFault FileTree :=
  t.ensureFrom (Path.start path) (Path.steps path).dropLast

/-- Writes a file after making the directories it goes through. -/
def install (path : Text) (bytes : List UInt8) (t : FileTree) : Except FileFault FileTree := do
  (← t.ensureParents path).write path bytes

/-- Removes what the first name of a path leads to, with everything below it. -/
def removeTop (path : Text) (t : FileTree) : FileTree :=
  let top : Place := ⟨(Path.start path).anchor, (Path.steps path).take 1⟩
  ⟨t.nodes.filter fun entry => !entry.1.isBelow top⟩

end FileTree

end Marginalia
