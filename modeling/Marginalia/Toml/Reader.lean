import Marginalia.Toml.Scalar

/-! # Reading TOML

A document is a list of statements, one a line, with blanks and comments between them. Each reader
takes the text from where it stands and gives what it read with the text that follows; nothing means
a syntax error.
-/

namespace Marginalia.Toml

/-- Whether every carriage return stands before a line feed. -/
def pairsReturns : Text → Bool
  | [] => true
  | '\r' :: '\n' :: rest => pairsReturns rest
  | c :: rest => c != '\r' && pairsReturns rest

/-- Blanks within a line. A carriage return counts as one, for a line feed follows it. -/
def isSpace (c : Char) : Bool := c == ' ' || c == '\t' || c == '\r'

def skipSpace (t : Text) : Text := t.dropWhile isSpace

/-- What follows a comment, if there is one: its line end, or nothing. -/
def skipComment? : Text → Option Text
  | '#' :: rest =>
    if (rest.takeWhile (· != '\n')).any fun c => isControl c && c != '\r' then none
    else some (rest.dropWhile (· != '\n'))
  | t => some t

/-- What follows blanks, line ends and comments. -/
def skipBetween? : Nat → Text → Option Text
  | 0, t => some t
  | fuel + 1, t => do
    match ← skipComment? (skipSpace t) with
    | '\n' :: rest => skipBetween? fuel rest
    | rest => some rest

/-- What follows the end of a statement: blanks, perhaps a comment, and a line end or the end of the
document. -/
def skipLineEnd? (t : Text) : Option Text := do
  match ← skipComment? (skipSpace t) with
  | [] => some []
  | '\n' :: rest => some rest
  | _ => none

/-- The character written by so many hex digits; surrogates and what lies beyond the last character
are none. -/
def hexEscape? (width : Nat) (t : Text) : Option (Char × Text) :=
  let ds := t.take width
  let n := Numeral.valueIn 16 ds
  if ds.length = width ∧ ds.all (isDigitIn 16) ∧ n.isValidChar then some (Char.ofNat n, t.drop width)
  else none

/-- The character an escape writes, after its backslash. -/
def escape? : Text → Option (Char × Text)
  | 'b' :: rest => some ('\x08', rest)
  | 't' :: rest => some ('\t', rest)
  | 'n' :: rest => some ('\n', rest)
  | 'f' :: rest => some ('\x0c', rest)
  | 'r' :: rest => some ('\r', rest)
  | 'e' :: rest => some ('\x1b', rest)
  | '"' :: rest => some ('"', rest)
  | '\\' :: rest => some ('\\', rest)
  | 'x' :: rest => hexEscape? 2 rest
  | 'u' :: rest => hexEscape? 4 rest
  | 'U' :: rest => hexEscape? 8 rest
  | _ => none

/-- A basic string after its quote. -/
def basicString? : Nat → Text → Option (Text × Text)
  | 0, _ => none
  | fuel + 1, t =>
    match t with
    | [] => none
    | '"' :: rest => some ([], rest)
    | '\\' :: rest => do
      let (c, rest) ← escape? rest
      let (more, rest) ← basicString? fuel rest
      return (c :: more, rest)
    | c :: rest =>
      if isControl c ∨ c = '\n' then none
      else (basicString? fuel rest).map fun (more, rest) => (c :: more, rest)

/-- A literal string after its quote. -/
def literalString? (t : Text) : Option (Text × Text) :=
  let content := t.takeWhile (· != '\'')
  if content.any fun c => isControl c || c == '\n' then none
  else (expect? '\'' (t.dropWhile (· != '\''))).map (content, ·)

/-- Three quotes end a string over several lines; up to two more before them belong to it. Says how
many do, and what follows. -/
def longEnd? (quote : Char) (t : Text) : Option (Nat × Text) :=
  let run := min (t.takeWhile (· == quote)).length 5
  if run < 3 then none else some (run - 3, t.drop run)

/-- Whether a backslash stands at the end of its line, so that it joins what follows. -/
def atLineEnd (t : Text) : Bool := (skipSpace t).head? == some '\n'

/-- A string over several lines after its quotes, with or without escapes. -/
def longString? (quote : Char) (escapes : Bool) : Nat → Text → Option (Text × Text)
  | 0, _ => none
  | fuel + 1, t =>
    match longEnd? quote t with
    | some (extra, rest) => some (List.replicate extra quote, rest)
    | none =>
      match t with
      | [] => none
      | c :: rest =>
        if isControl c ∧ c ≠ '\r' then none
        else if escapes ∧ c = '\\' then
          if atLineEnd rest then
            longString? quote escapes fuel (rest.dropWhile fun c => isSpace c || c == '\n')
          else do
            let (c, rest) ← escape? rest
            let (more, rest) ← longString? quote escapes fuel rest
            return (c :: more, rest)
        else (longString? quote escapes fuel rest).map fun (more, rest) => (c :: more, rest)

/-- A line end right after the opening quotes is no part of a string. -/
def dropFirstLineEnd : Text → Text
  | '\r' :: '\n' :: rest => rest
  | '\n' :: rest => rest
  | t => t

/-- A string of any form. -/
def string? (t : Text) : Option (Text × Text) :=
  match t with
  | '"' :: '"' :: '"' :: rest => longString? '"' true t.length (dropFirstLineEnd rest)
  | '\'' :: '\'' :: '\'' :: rest => longString? '\'' false t.length (dropFirstLineEnd rest)
  | '"' :: rest => basicString? t.length rest
  | '\'' :: rest => literalString? rest
  | _ => none

/-- One part of a key: bare, or a string on one line. -/
def simpleKey? (t : Text) : Option (Text × Text) :=
  match t with
  | '"' :: rest => basicString? t.length rest
  | '\'' :: rest => literalString? rest
  | _ =>
    match t.takeWhile isBare with
    | [] => none
    | key => some (key, t.dropWhile isBare)

/-- A key, its parts separated by dots, of at most so many parts. -/
def keyWithin? : Nat → Text → Option (List Text × Text)
  | 0, _ => none
  | limit + 1, t => do
    let (part, rest) ← simpleKey? (skipSpace t)
    match skipSpace rest with
    | '.' :: rest =>
      let (more, rest) ← keyWithin? limit rest
      return (part :: more, rest)
    | rest => return ([part], rest)

/-- How deep tables and arrays may be nested, by one key or by brackets and braces. -/
def nestingLimit : Nat := 80

/-- A key. -/
def key? (t : Text) : Option (List Text × Text) := keyWithin? nestingLimit t

mutual

/-- A value, with `depth` levels of brackets and braces still allowed. -/
def value? : Nat → Nat → Text → Option (Value × Text)
  | 0, _, _ => none
  | fuel + 1, depth, t =>
    match t with
    | '"' :: _ => (string? t).map fun (s, rest) => (.string s, rest)
    | '\'' :: _ => (string? t).map fun (s, rest) => (.string s, rest)
    | '[' :: rest =>
      if depth = 0 then none
      else (items? fuel (depth - 1) rest).map fun (items, rest) => (.array items, rest)
    | '{' :: rest =>
      if depth = 0 then none
      else
        (members? fuel (depth - 1) [] rest).map fun (entries, rest) =>
          (.table .inline entries, rest)
    | _ =>
      let (scalar, rest) := takeScalar t
      (scalar? scalar).map (·, rest)

/-- The values of an array up to its closing bracket; a comma may follow the last. -/
def items? : Nat → Nat → Text → Option (List Value × Text)
  | 0, _, _ => none
  | fuel + 1, depth, t => do
    match ← skipBetween? t.length t with
    | ']' :: rest => some ([], rest)
    | rest =>
      let (v, rest) ← value? fuel depth rest
      match ← skipBetween? rest.length rest with
      | ',' :: rest =>
        let (more, rest) ← items? fuel depth rest
        return (v :: more, rest)
      | ']' :: rest => some ([v], rest)
      | _ => none

/-- The members of an inline table up to its closing brace, added to those so far; a comma may
follow the last. -/
def members? : Nat → Nat → Table → Text → Option (Table × Text)
  | 0, _, _, _ => none
  | fuel + 1, depth, entries, t => do
    match ← skipBetween? t.length t with
    | '}' :: rest => some (entries, rest)
    | rest =>
      let (key, rest) ← key? rest
      let rest ← expect? '=' (← skipBetween? rest.length rest)
      let (v, rest) ← value? fuel depth (← skipBetween? rest.length rest)
      let entries ← Table.assign v key entries
      match ← skipBetween? rest.length rest with
      | ',' :: rest => members? fuel depth entries rest
      | '}' :: rest => some (entries, rest)
      | _ => none

end

/-- A statement up to its last sign. -/
def statement? (t : Text) : Option (Statement × Text) :=
  match t with
  | '[' :: '[' :: rest => do
    let (path, rest) ← key? rest
    return (.openElement path, ← expect? ']' (← expect? ']' rest))
  | '[' :: rest => do
    let (path, rest) ← key? rest
    return (.openTable path, ← expect? ']' rest)
  | _ => do
    let (key, rest) ← key? t
    let rest ← expect? '=' rest
    let (v, rest) ← value? (2 * rest.length + 2) nestingLimit (skipSpace rest)
    return (.assign key v, rest)

/-- The statements of a document. -/
def statements? : Nat → Text → Option (List Statement)
  | 0, _ => none
  | fuel + 1, t => do
    match ← skipBetween? t.length t with
    | [] => some []
    | rest =>
      let (s, rest) ← statement? rest
      let more ← statements? fuel (← skipLineEnd? rest)
      return s :: more

/-- A byte order mark at the front is no part of a document. -/
def dropByteOrderMark : Text → Text
  | '\ufeff' :: rest => rest
  | t => t

/-- The table a document writes. -/
def document? (t : Text) : Option Table := do
  let t := dropByteOrderMark t
  if !pairsReturns t then none
  Table.run [] (← statements? (t.length + 1) t) []

end Marginalia.Toml
