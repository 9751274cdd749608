import Marginalia.Text.Numeral

/-! # Writing JSON -/

namespace Marginalia.Json

/-- A character inside a string: quote, backslash and the controls below the space are escaped, all
else stands as it is. -/
def escape (c : Char) : Text :=
  match c with
  | '"' => ['\\', '"']
  | '\\' => ['\\', '\\']
  | '\x08' => ['\\', 'b']
  | '\x0c' => ['\\', 'f']
  | '\n' => ['\\', 'n']
  | '\r' => ['\\', 'r']
  | '\t' => ['\\', 't']
  | c => if c.toNat < 0x20 then ['\\', 'u'] ++ Numeral.hexOf 4 false c.toNat else [c]

/-- A string with its quotes. -/
def quote (t : Text) : Text := '"' :: (t.flatMap escape ++ ['"'])

end Marginalia.Json
