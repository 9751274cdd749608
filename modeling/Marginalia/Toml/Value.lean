import Marginalia.Text.Basic

/-! # TOML tables

Values of a TOML document, and how its statements build up the tables. A table remembers how it came
about, for that decides what may still be added to it.
-/

namespace Marginalia.Toml

/-- How a table came about. -/
inductive Origin where
  /-- Written in braces; complete. -/
  | inline
  /-- By a header of its own. -/
  | header
  /-- On the way to a longer header. -/
  | implied
  /-- By a dotted key. -/
  | dotted
  deriving Repr, DecidableEq

/-- A value. A number may be written so that it has no value: with digits of another base, with none
at all, or too large for any machine form. That is a fault only where the number is used. -/
inductive Value where
  | string (text : Text)
  | integer (n : Option Int)
  | float (x : Option Float)
  | boolean (b : Bool)
  /-- A date, a time or both. -/
  | moment
  | array (items : List Value)
  | table (origin : Origin) (entries : List (Text × Value))
  /-- An array of tables made by headers. -/
  | tables (elements : List (List (Text × Value)))

/-- The entries of a table, each key once. -/
abbrev Table := List (Text × Value)

mutual

/-- Whether every number in a value has a value of its own. -/
def Value.isSound : Value → Bool
  | .integer n => n.isSome
  | .float x => x.isSome
  | .array items => Value.areSound items
  | .table _ entries => Table.isSound entries
  | .tables elements => Table.areSound elements
  | _ => true

/-- Whether every number in some values has a value of its own. -/
def Value.areSound : List Value → Bool
  | [] => true
  | v :: rest => v.isSound && Value.areSound rest

/-- Whether every number in a table has a value of its own. -/
def Table.isSound : List (Text × Value) → Bool
  | [] => true
  | (_, v) :: rest => v.isSound && Table.isSound rest

/-- Whether every number in some tables has a value of its own. -/
def Table.areSound : List (List (Text × Value)) → Bool
  | [] => true
  | t :: rest => Table.isSound t && Table.areSound rest

end

/-- One statement of a document. -/
inductive Statement where
  /-- `key = value`, the key perhaps dotted. -/
  | assign (key : List Text) (value : Value)
  /-- `[path]` -/
  | openTable (path : List Text)
  /-- `[[path]]` -/
  | openElement (path : List Text)

namespace Table

/-- Replaces the value of a key by what `f` makes of it, nothing standing for an absent key. -/
def alter (f : Option Value → Option Value) (key : Text) : Table → Option Table
  | [] => (f none).map fun v => [(key, v)]
  | (k, v) :: rest =>
    if k = key then (f (some v)).map fun v => (k, v) :: rest
    else (alter f key rest).map ((k, v) :: ·)

/-- Applies `f` to the last of some tables. -/
def atLast (f : Table → Option Table) : List Table → Option (List Table)
  | [] => none
  | [t] => (f t).map fun t => [t]
  | t :: rest => (atLast f rest).map (t :: ·)

/-- Puts a value under a dotted key. Tables on the way are made, or were made by dotted keys; one on
the way to a header will do, save for the last, and so will the last element of an array of tables.
-/
def assign (value : Value) : List Text → Table → Option Table
  | [], _ => none
  | [key], t => t.alter (fun old => if old.isSome then none else some value) key
  | key :: next :: rest, t =>
    t.alter (fun
      | none => (assign value (next :: rest) []).map (.table .dotted)
      | some (.table .dotted entries) => (assign value (next :: rest) entries).map (.table .dotted)
      | some (.table .implied entries) =>
        if rest.isEmpty then none else (assign value (next :: rest) entries).map (.table .implied)
      | some (.tables elements) =>
        if rest.isEmpty then none
        else (atLast (assign value (next :: rest)) elements).map .tables
      | some _ => none) key

/-- Follows a header's path, making the tables it lacks, and applies `f` where it ends. -/
def descend (f : Text → Table → Option Table) : List Text → Table → Option Table
  | [], _ => none
  | [key], t => f key t
  | key :: next :: rest, t =>
    t.alter (fun
      | none => (descend f (next :: rest) []).map (.table .implied)
      | some (.table .inline _) => none
      | some (.table origin entries) => (descend f (next :: rest) entries).map (.table origin)
      | some (.tables elements) => (atLast (descend f (next :: rest)) elements).map .tables
      | some _ => none) key

/-- Opens a table by its header: a new one, or one that was only on the way so far. -/
def openTable : List Text → Table → Option Table :=
  descend fun key t => t.alter (fun
    | none => some (.table .header [])
    | some (.table .implied entries) => some (.table .header entries)
    | some _ => none) key

/-- Opens the next element of an array of tables. -/
def openElement : List Text → Table → Option Table :=
  descend fun key t => t.alter (fun
    | none => some (.tables [[]])
    | some (.tables elements) => some (.tables (elements ++ [[]]))
    | some _ => none) key

/-- Applies `f` to the table that a header opened. -/
def within (f : Table → Option Table) : List Text → Table → Option Table
  | [], t => f t
  | key :: rest, t =>
    t.alter (fun
      | some (.table origin entries) => (within f rest entries).map (.table origin)
      | some (.tables elements) => (atLast (within f rest) elements).map .tables
      | _ => none) key

/-- Carries out statements, with `path` the header that was opened last. -/
def run (path : List Text) : List Statement → Table → Option Table
  | [], t => some t
  | .assign key value :: rest, t => (within (assign value key) path t).bind (run path rest)
  | .openTable path :: rest, t => (openTable path t).bind (run path rest)
  | .openElement path :: rest, t => (openElement path t).bind (run path rest)

/-- The value of a key. -/
def get? (t : Table) (key : Text) : Option Value := t.lookup key

end Table

end Marginalia.Toml
