import Marginalia.Toml.Value
import Marginalia.Decimal.Basic

/-! # TOML scalars

Numbers, booleans, dates and times. A scalar goes on over words and the blanks between them and is
read as a whole, so that a date takes the time behind a blank with it.
-/

namespace Marginalia.Toml

/-- Characters that stand nowhere in a document, the line feed and the tab apart. -/
def isControl (c : Char) : Bool := (c.toNat < 0x20 && c != '\t' && c != '\n') || c.toNat == 0x7F

/-- Characters of bare keys. -/
def isBare (c : Char) : Bool := c.isAlphanum || c == '_' || c == '-'

/-- Characters that end a word. -/
def endsWord (c : Char) : Bool :=
  c ∈ [' ', '\t', '\r', '\n', '#', ',', '=', '[', ']', '\x7b', '\x7d']

/-- Whether a character is a digit of a base up to sixteen. -/
def isDigitIn (base : Nat) (c : Char) : Bool := (Numeral.hexDigit? c).any (· < base)

/-- Drops underscores. Each has to stand before a digit and behind one; `after` says whether one
stands before the text. -/
def dropBreaks? (isDigit : Char → Bool) (after : Bool) : Text → Option Text
  | [] => some []
  | ['_'] => none
  | '_' :: c :: rest =>
    if after ∧ isDigit c then (dropBreaks? isDigit true rest).map (c :: ·) else none
  | c :: rest => (dropBreaks? isDigit (isDigit c) rest).map (c :: ·)

/-- What follows a run of digits and underscores with one digit at least. A zero goes first before
others only if `padded` allows it. -/
def afterDigits? (padded : Bool) (t : Text) : Option Text :=
  let run := t.takeWhile fun c => Numeral.isDigit c || c == '_'
  if !run.any Numeral.isDigit ∨ (!padded ∧ 1 < run.length ∧ run.head? = some '0') then none
  else some (t.drop run.length)

/-- The integers that have a machine form. -/
def hasMachineForm (n : Int) : Bool := -(Nat.pow 2 127 : Nat) ≤ n && n < (Nat.pow 2 128 : Nat)

/-- The integer that digits of a base write, if they write one with a machine form. -/
def integerIn? (base : Nat) (negative : Bool) (ds : Text) : Option Int :=
  let n : Int := Numeral.valueIn base ds
  let n := if negative then -n else n
  if ds ≠ [] ∧ ds.all (isDigitIn base) ∧ hasMachineForm n then some n else none

/-- An integer in decimal without its sign. Behind its first underscore it may hold anything that
does not make it a float, and then has no value. -/
def decimalInteger? (negative : Bool) (t : Text) : Option Value := do
  let _ ← afterDigits? false t
  let ds ← dropBreaks? (isDigitIn 16) false t
  return .integer (integerIn? 10 negative ds)

/-- An integer in hex, octal or binary after the mark of its base; there may be no digits at all. -/
def markedInteger? (base : Nat) (t : Text) : Option Value :=
  if t.all fun c => isDigitIn base c || c == '_' then
    (dropBreaks? (isDigitIn base) false t).map fun ds => .integer (integerIn? base false ds)
  else none

/-- What follows the decimals of a float, if it has any. -/
def afterFraction? : Text → Option Text
  | '.' :: rest => afterDigits? true rest
  | t => some t

/-- What follows the exponent of a float, if it has one. -/
def afterExponent? : Text → Option Text
  | c :: rest =>
    if c = 'e' ∨ c = 'E' then afterDigits? true (Decimal.readSign rest).2 else some (c :: rest)
  | [] => some []

/-- A float without its sign: decimals or an exponent or both after a whole number. -/
def decimalFloat? (negative : Bool) (t : Text) : Option Value := do
  let rest ← afterDigits? false t
  let rest ← afterFraction? rest
  let rest ← afterExponent? rest
  if !rest.isEmpty then none
  let d ← Decimal.read? (← dropBreaks? Numeral.isDigit false t)
  return .float (if d.overflows then none else some ({ d with negative } : Decimal).toFloat)

/-- A number of exactly so many digits, with the text after it. -/
def fixed? (width : Nat) (t : Text) : Option (Nat × Text) :=
  let ds := t.take width
  if ds.length = width ∧ ds.all Numeral.isDigit then some (Numeral.valueIn 10 ds, t.drop width)
  else none

/-- One given character, with the text after it. -/
def expect? (c : Char) : Text → Option Text
  | [] => none
  | d :: rest => if c = d then some rest else none

def isLeapYear (year : Nat) : Bool := year % 4 = 0 && (year % 100 ≠ 0 || year % 400 = 0)

def daysIn (year month : Nat) : Nat :=
  if month = 2 then (if isLeapYear year then 29 else 28)
  else if month = 4 ∨ month = 6 ∨ month = 9 ∨ month = 11 then 30
  else 31

/-- What follows a date. -/
def afterDate? (t : Text) : Option Text := do
  let (year, t) ← fixed? 4 t
  let t ← expect? '-' t
  let (month, t) ← fixed? 2 t
  let t ← expect? '-' t
  let (day, t) ← fixed? 2 t
  if 1 ≤ month ∧ month ≤ 12 ∧ 1 ≤ day ∧ day ≤ daysIn year month then some t else none

/-- What follows the decimals of a second. -/
def afterDecimals? : Text → Option Text
  | '.' :: rest =>
    if (rest.takeWhile Numeral.isDigit).isEmpty then none else some (rest.dropWhile Numeral.isDigit)
  | t => some t

/-- What follows the seconds of a time, which may be left out. -/
def afterSeconds? : Text → Option Text
  | ':' :: rest => do
    let (second, rest) ← fixed? 2 rest
    if second ≤ 60 then afterDecimals? rest else none
  | t => some t

/-- What follows a time of day. -/
def afterTime? (t : Text) : Option Text := do
  let (hour, t) ← fixed? 2 t
  let t ← expect? ':' t
  let (minute, t) ← fixed? 2 t
  if hour ≤ 23 ∧ minute ≤ 59 then afterSeconds? t else none

/-- Whether a text is nothing or a time zone. -/
def isZone (t : Text) : Bool :=
  let offset (t : Text) : Bool := (do
    let (hour, t) ← fixed? 2 t
    let t ← expect? ':' t
    let (minute, t) ← fixed? 2 t
    return hour ≤ 23 ∧ minute ≤ 59 ∧ t.isEmpty) = some true
  match t with
  | [] => true
  | ['Z'] => true
  | ['z'] => true
  | '+' :: rest => offset rest
  | '-' :: rest => offset rest
  | _ => false

/-- Whether a text is a date, a time, or a date with a time and perhaps a zone. -/
def isMoment (t : Text) : Bool :=
  match afterDate? t with
  | some [] => true
  | some (c :: rest) =>
    (c == 'T' || c == 't' || c == ' ') && (afterTime? rest).any isZone
  | none => (afterTime? t).any List.isEmpty

/-- The value of what begins with a decimal digit, perhaps behind a sign: what follows its first
digits tells what it is. -/
def decimal? (signed negative : Bool) (t : Text) : Option Value :=
  match t.dropWhile Numeral.isDigit with
  | [] => decimalInteger? negative t
  | c :: rest =>
    if c = '-' ∨ c = ':' ∨ ' ' ∈ c :: rest then
      if !signed ∧ isMoment t then some .moment else none
    else if (c :: rest).any fun c => c == '.' || c == 'e' || c == 'E' then
      decimalFloat? negative t
    else if c = '_' then decimalInteger? negative t
    else none

/-- The value of a number, a date or a time. -/
def number? (t : Text) : Option Value :=
  let signed := t.head? = some '+' ∨ t.head? = some '-'
  let (negative, size) := Decimal.readSign t
  if size = "inf".toList ∨ size = "nan".toList then some (.float (Decimal.readFloat? t))
  else match decide signed, size with
    | false, '0' :: 'x' :: ds => markedInteger? 16 ds
    | false, '0' :: 'o' :: ds => markedInteger? 8 ds
    | false, '0' :: 'b' :: ds => markedInteger? 2 ds
    | signed, size => decimal? signed negative size

/-- The value that a scalar writes. -/
def scalar? (t : Text) : Option Value :=
  if t = "true".toList then some (.boolean true)
  else if t = "false".toList then some (.boolean false)
  else number? t

/-- Blanks that may stand between the words of a scalar. -/
def isBlank (c : Char) : Bool := c == ' ' || c == '\t'

/-- Whether a word starts here: a quote starts a string, and a dot only goes on with a word. -/
def startsWord (t : Text) : Bool :=
  t.head?.any fun c => !endsWord c && c != '.' && c != '"' && c != '\''

/-- Takes the scalar at the front: its words, and the blanks between one and the next. -/
def takeScalar : Text → Text × Text
  | [] => ([], [])
  | c :: rest =>
    if !endsWord c ∨ (isBlank c ∧ startsWord (rest.dropWhile isBlank)) then
      let (more, rest) := takeScalar rest
      (c :: more, rest)
    else ([], c :: rest)

end Marginalia.Toml
