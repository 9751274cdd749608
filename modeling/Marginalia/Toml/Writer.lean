import Marginalia.Toml.Scalar

/-! # Writing TOML

A string is written the plainest way that can hold it: on one line with or without escapes, else
over several lines, and with escapes where nothing else will do.
-/

namespace Marginalia.Toml

/-- The ways to write a string. -/
inductive Quoting where
  /-- One line in double quotes. -/
  | basic
  /-- One line in single quotes, without escapes. -/
  | literal
  /-- Several lines in double quotes. -/
  | longBasic
  /-- Several lines in single quotes, without escapes. -/
  | longLiteral
  deriving Repr, DecidableEq

/-- Length of the longest run of a character, of which `current` stand before. -/
def longestRun (q : Char) (current : Nat) : Text → Nat
  | [] => current
  | c :: rest =>
    if c = q then longestRun q (current + 1) rest else max current (longestRun q 0 rest)

namespace Quoting

/-- The delimiter at either end. -/
def delimiter : Quoting → Text
  | .basic => ['"']
  | .literal => ['\'']
  | .longBasic => ['"', '"', '"']
  | .longLiteral => ['\'', '\'', '\'']

def isLong : Quoting → Bool
  | .longBasic | .longLiteral => true
  | _ => false

def escapes : Quoting → Bool
  | .basic | .longBasic => true
  | _ => false

/-- The way to write a text: the first that needs no escape, or else one with escapes. -/
def choose (t : Text) : Quoting :=
  let controls := t.any isControl
  let newline := t.contains '\n'
  let backslash := t.contains '\\'
  let double := longestRun '"' 0 t
  let single := longestRun '\'' 0 t
  if !controls && !newline && !backslash && double = 0 then .basic
  else if !controls && !newline && single = 0 then .literal
  else if !controls && !backslash && double ≤ 2 then .longBasic
  else if !controls && single ≤ 2 then .longLiteral
  else if newline then .longBasic
  else .basic

end Quoting

/-- A character as an escape. -/
def escapeOf (c : Char) : Text :=
  match c with
  | '\x08' => ['\\', 'b']
  | '\t' => ['\\', 't']
  | '\n' => ['\\', 'n']
  | '\x0c' => ['\\', 'f']
  | '\r' => ['\\', 'r']
  | '"' => ['\\', '"']
  | '\\' => ['\\', '\\']
  | c => ['\\', 'u'] ++ Numeral.hexOf 4 true c.toNat

/-- The inside of a double-quoted string. Over several lines a line end stands for itself, and so do
quotes as long as there are not three in a row; `quotes` stand before. -/
def escapeAll (long : Bool) (quotes : Nat) : Text → Text
  | [] => []
  | c :: rest =>
    if c = '"' ∧ long ∧ quotes < 2 then c :: escapeAll long (quotes + 1) rest
    else if c = '"' ∨ c = '\\' ∨ c = '\t' ∨ isControl c ∨ (c = '\n' ∧ !long) then
      escapeOf c ++ escapeAll long 0 rest
    else c :: escapeAll long 0 rest

/-- A string with its delimiters. One of several lines begins on a line of its own. -/
def quote (t : Text) : Text :=
  let q := Quoting.choose t
  let lead : Text := if q.isLong ∧ t.contains '\n' then ['\n'] else []
  q.delimiter ++ lead ++ (if q.escapes then escapeAll q.isLong 0 t else t) ++ q.delimiter

/-- A line that sets a key. -/
def assignment (key : String) (value : Text) : Text :=
  key.toList ++ [' ', '=', ' '] ++ value ++ ['\n']

/-- A line that opens a table. -/
def header (key : String) : Text := ['['] ++ key.toList ++ [']', '\n']

end Marginalia.Toml
