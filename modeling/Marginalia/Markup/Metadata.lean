import Marginalia.Json.Reader
import Marginalia.Json.Writer

/-! # Comment metadata

Author and time of a comment, written before its body as a JSON object. Reading also takes the array
`[author, timestamp]`, and an object with further keys, whose values are checked and dropped.
-/

namespace Marginalia

/-- Who wrote a comment, and when. -/
structure Metadata where
  author : Text
  /-- Milliseconds since 1970, a signed 64-bit number. -/
  timestamp : Int
  deriving Repr, DecidableEq

namespace Metadata

open Json

/-- The object form without blanks. -/
def render (m : Metadata) : Text :=
  "\x7b\"author\":".toList ++ quote m.author ++ ",\"timestamp\":".toList ++
    Numeral.ofInt m.timestamp ++ ['}']

/-- What has been seen of an object's known keys. -/
structure Partial where
  author : Option Text := none
  timestamp : Option Int := none

/-- The value that belongs to `key`, after its colon; a known key may come once only. -/
def Partial.readValue? (seen : Partial) (key : Text) (t : Text) : Option (Partial × Text) :=
  if key = "author".toList then
    match seen.author, skipBlank t with
    | none, '"' :: rest =>
      (string? rest).map fun (s, rest) => ({ seen with author := some s }, rest)
    | _, _ => none
  else if key = "timestamp".toList then
    match seen.timestamp with
    | none =>
      (integer? (skipBlank t)).map fun (n, rest) => ({ seen with timestamp := some n }, rest)
    | some _ => none
  else (skipValue? t).map (seen, ·)

/-- Members of the object, one at least, up to its closing brace. -/
def Partial.readMembers? : Nat → Partial → Text → Option (Partial × Text)
  | 0, _, _ => none
  | fuel + 1, seen, t =>
    match skipBlank t with
    | '"' :: rest => do
      let (key, rest) ← string? rest
      match skipBlank rest with
      | ':' :: rest =>
        let (seen, rest) ← seen.readValue? key rest
        match skipBlank rest with
        | ',' :: rest => readMembers? fuel seen rest
        | '}' :: rest => some (seen, rest)
        | _ => none
      | _ => none
    | _ => none

/-- Both keys, if both were seen. -/
def Partial.complete? (seen : Partial) : Option Metadata := do
  return ⟨← seen.author, ← seen.timestamp⟩

/-- The array form after its bracket: author, then timestamp, and no more. -/
def readPair? (t : Text) : Option (Metadata × Text) :=
  match skipBlank t with
  | '"' :: rest => do
    let (author, rest) ← string? rest
    match skipBlank rest with
    | ',' :: rest =>
      let (timestamp, rest) ← integer? (skipBlank rest)
      match skipBlank rest with
      | ']' :: rest => some (⟨author, timestamp⟩, rest)
      | _ => none
    | _ => none
  | _ => none

/-- The object form after its brace. -/
def readObject? (t : Text) : Option (Metadata × Text) := do
  let (seen, rest) ← Partial.readMembers? t.length {} t
  let m ← seen.complete?
  return (m, rest)

/-- Either form. -/
def readEither? : Text → Option (Metadata × Text)
  | '[' :: rest => readPair? rest
  | '{' :: rest => readObject? rest
  | _ => none

/-- The metadata that the whole text writes. -/
def read? (t : Text) : Option Metadata := do
  let (m, rest) ← readEither? (skipBlank t)
  if (skipBlank rest).isEmpty then some m else none

end Metadata

end Marginalia
