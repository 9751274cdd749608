import Marginalia.Text.Numeral

/-! # Reading JSON

Pieces of a strict JSON reader. Each takes the text from where it stands and gives what it read with
the text that follows; nothing means a syntax error. `skipValue?` checks a value of any depth
without keeping it.
-/

namespace Marginalia.Json

/-- Characters allowed between tokens. -/
def isBlank (c : Char) : Bool := c == ' ' || c == '\t' || c == '\n' || c == '\r'

def skipBlank (t : Text) : Text := t.dropWhile isBlank

/-- Four hex digits. -/
def hexFour? : Text → Option (Nat × Text)
  | a :: b :: c :: d :: rest => do
    let a ← Numeral.hexDigit? a
    let b ← Numeral.hexDigit? b
    let c ← Numeral.hexDigit? c
    let d ← Numeral.hexDigit? d
    return (((a * 16 + b) * 16 + c) * 16 + d, rest)
  | _ => none

/-- What a one-letter escape stands for. -/
def simpleEscape? : Char → Option Char
  | '"' => some '"'
  | '\\' => some '\\'
  | '/' => some '/'
  | 'b' => some '\x08'
  | 'f' => some '\x0c'
  | 'n' => some '\n'
  | 'r' => some '\r'
  | 't' => some '\t'
  | _ => none

/-- The character a `\u` escape writes, after the `u`: a leading surrogate has to be followed by a
trailing one. -/
def unicodeEscape? (t : Text) : Option (Char × Text) := do
  let (n, rest) ← hexFour? t
  if n < 0xD800 ∨ 0xDFFF < n then return (Char.ofNat n, rest)
  if 0xDC00 ≤ n then none
  match rest with
  | '\\' :: 'u' :: rest =>
    let (m, rest) ← hexFour? rest
    if 0xDC00 ≤ m ∧ m ≤ 0xDFFF then
      return (Char.ofNat ((n - 0xD800) * 0x400 + (m - 0xDC00) + 0x10000), rest)
    else none
  | _ => none

/-- One character of a string, escaped or not. -/
def character? : Text → Option (Char × Text)
  | [] => none
  | '\\' :: 'u' :: rest => unicodeEscape? rest
  | '\\' :: c :: rest => (simpleEscape? c).map (·, rest)
  | c :: rest => if c.toNat < 0x20 ∨ c = '\\' then none else some (c, rest)

/-- A string after its opening quote, of at most `fuel` characters. -/
def stringWithin? : Nat → Text → Option (Text × Text)
  | _, '"' :: rest => some ([], rest)
  | 0, _ => none
  | fuel + 1, t => do
    let (c, rest) ← character? t
    let (more, rest) ← stringWithin? fuel rest
    return (c :: more, rest)

/-- A string after its opening quote. No string is longer than its text. -/
def string? (t : Text) : Option (Text × Text) := stringWithin? t.length t

/-- One character of a string that is not kept: surrogates need not be paired. -/
def skipCharacter? : Text → Option Text
  | [] => none
  | '\\' :: 'u' :: rest => (hexFour? rest).map (·.2)
  | '\\' :: c :: rest => (simpleEscape? c).map fun _ => rest
  | c :: rest => if c.toNat < 0x20 ∨ c = '\\' then none else some rest

/-- A string that is not kept, after its opening quote, of at most `fuel` characters. -/
def skipStringWithin? : Nat → Text → Option Text
  | _, '"' :: rest => some rest
  | 0, _ => none
  | fuel + 1, t => do skipStringWithin? fuel (← skipCharacter? t)

/-- A string that is not kept, after its opening quote. -/
def skipString? (t : Text) : Option Text := skipStringWithin? t.length t

/-- Decimal digits without a leading zero, and what follows them. -/
def digits? (t : Text) : Option (Text × Text) :=
  match t with
  | '0' :: c :: rest => if Numeral.isDigit c then none else some (['0'], c :: rest)
  | _ =>
    match t.takeWhile Numeral.isDigit with
    | [] => none
    | ds => some (ds, t.dropWhile Numeral.isDigit)

/-- One digit or more, and what follows them. -/
def skipDigits? (t : Text) : Option Text :=
  if (t.takeWhile Numeral.isDigit).isEmpty then none else some (t.dropWhile Numeral.isDigit)

/-- The part of a number after its point, if there is one. -/
def skipFraction? : Text → Option Text
  | '.' :: rest => skipDigits? rest
  | t => some t

/-- The exponent of a number, if there is one. -/
def skipExponent? : Text → Option Text
  | c :: rest =>
    if c = 'e' ∨ c = 'E' then
      match rest with
      | '+' :: rest => skipDigits? rest
      | '-' :: rest => skipDigits? rest
      | _ => skipDigits? rest
    else some (c :: rest)
  | [] => some []

/-- A number without its sign. -/
def skipNumber? (t : Text) : Option Text := do
  let (_, rest) ← digits? t
  skipExponent? (← skipFraction? rest)

/-- The word `null`, `true` or `false`, or a number. -/
def skipScalar? : Text → Option Text
  | 'n' :: 'u' :: 'l' :: 'l' :: rest => some rest
  | 't' :: 'r' :: 'u' :: 'e' :: rest => some rest
  | 'f' :: 'a' :: 'l' :: 's' :: 'e' :: rest => some rest
  | '-' :: rest => skipNumber? rest
  | t => skipNumber? t

mutual

/-- A value that is checked and not kept. -/
def skipValueWithin? : Nat → Text → Option Text
  | 0, _ => none
  | fuel + 1, t =>
    match skipBlank t with
    | '"' :: rest => skipString? rest
    | '[' :: rest =>
      match skipBlank rest with
      | ']' :: rest => some rest
      | rest => skipElements? fuel rest
    | '{' :: rest =>
      match skipBlank rest with
      | '}' :: rest => some rest
      | rest => skipMembers? fuel rest
    | t => skipScalar? t

/-- The elements of an array, one at least, and its closing bracket. -/
def skipElements? : Nat → Text → Option Text
  | 0, _ => none
  | fuel + 1, t => do
    match skipBlank (← skipValueWithin? fuel t) with
    | ',' :: rest => skipElements? fuel rest
    | ']' :: rest => some rest
    | _ => none

/-- The members of an object, one at least, and its closing brace. -/
def skipMembers? : Nat → Text → Option Text
  | 0, _ => none
  | fuel + 1, t =>
    match skipBlank t with
    | '"' :: rest => do
      match skipBlank (← skipString? rest) with
      | ':' :: rest =>
        match skipBlank (← skipValueWithin? fuel rest) with
        | ',' :: rest => skipMembers? fuel rest
        | '}' :: rest => some rest
        | _ => none
      | _ => none
    | _ => none

end

/-- A value that is checked and not kept. Two steps per character are always enough. -/
def skipValue? (t : Text) : Option Text := skipValueWithin? (2 * t.length + 2) t

/-- The least and greatest signed 64-bit numbers. -/
def inSigned64 (n : Int) : Bool := -0x8000000000000000 ≤ n && n < 0x8000000000000000

/-- A signed 64-bit number in plain digits: no point, no exponent, no minus before zero. -/
def integer? (t : Text) : Option (Int × Text) := do
  let (negative, t) := match t with
    | '-' :: rest => (true, rest)
    | _ => (false, t)
  let (ds, rest) ← digits? t
  let n := Numeral.valueIn 10 ds
  let value : Int := if negative then -(n : Int) else n
  match rest with
  | '.' :: _ => none
  | 'e' :: _ => none
  | 'E' :: _ => none
  | _ => if inSigned64 value ∧ ¬(negative ∧ n = 0) then some (value, rest) else none

end Marginalia.Json
