import Marginalia.Text.Alphanumeric
import Marginalia.Text.Search

/-! # Variables in settings

Text may name environment variables, as `$NAME`, `${NAME}` or `${NAME:-fallback}`, and a leading `~`
names the home directory. It is read into pieces first and these are filled in from left to right;
one that cannot be filled spoils the whole.
-/

namespace Marginalia

/-- The variables that are set: each a name and a value with an equals sign between. -/
structure Environment where
  entries : List Text

namespace Environment

/-- Variables given by name and value; of several of one name the first counts. -/
def ofBindings (bindings : List (Text × Text)) : Environment :=
  ⟨bindings.map fun (name, value) => name ++ '=' :: value⟩

/-- The value of a variable: what follows its name and an equals sign in the first entry that begins
with them. So a name with an equals sign of its own reaches into the value of a shorter one. -/
def get? (env : Environment) (name : Text) : Option Text :=
  if name.isEmpty then none else env.entries.findSome? (Text.dropPrefix? (name ++ ['=']))

/-- The home directory. -/
def home? (env : Environment) : Option Text :=
  match env.get? "HOME".toList with
  | some [] => none
  | home => home

/-- The text with a leading `~` exchanged for the home directory. A name right behind it is left
alone. -/
def expandHome (env : Environment) (t : Text) : Text :=
  match env.home?, t with
  | some home, ['~'] => home
  | some home, '~' :: '/' :: rest => home ++ '/' :: rest
  | _, t => t

end Environment

/-- One piece of a text with variables in it. -/
inductive Piece where
  | literal (text : Text)
  /-- A variable, with what stands for it when it is not set. -/
  | variable (name : Text) (fallback : Option Text)
  deriving Repr, DecidableEq

namespace Piece

/-- Characters of a name without braces. -/
def isNameChar (c : Char) : Bool := isAlphanumeric c || c == '_'

/-- The variable that braces enclose: a name and perhaps, behind the first `:-`, a fallback. -/
def ofBraces (inside : Text) : Piece :=
  match Text.splitOnce? [':', '-'] inside with
  | some (c :: name, fallback) => .variable (c :: name) (some fallback)
  | _ => .variable inside none

/-- The piece that begins with a dollar sign, and the text after it. A brace that is never closed,
and a sign that introduces nothing, stand for themselves. -/
def afterDollar : Text → Piece × Text
  | '$' :: rest => (.literal ['$'], rest)
  | '{' :: rest =>
    match Text.splitOnce? ['}'] rest with
    | some (inside, after) => (ofBraces inside, after)
    | none => (.literal ['$', '{'], rest)
  | c :: rest =>
    if isNameChar c then
      (.variable (c :: rest.takeWhile isNameChar) none, rest.dropWhile isNameChar)
    else (.literal ['$'], c :: rest)
  | [] => (.literal ['$'], [])

/-- The pieces of a text, at most `fuel` of them. -/
def read : Nat → Text → List Piece
  | 0, _ => []
  | _ + 1, [] => []
  | fuel + 1, '$' :: rest =>
    let (piece, after) := afterDollar rest
    piece :: read fuel after
  | fuel + 1, c :: rest => .literal [c] :: read fuel rest

/-- The pieces of a text, each of which takes a character or more. -/
def ofText (t : Text) : List Piece := read t.length t

/-- What a piece comes to; nothing for a variable that is not set and has no fallback. -/
def fill? (env : Environment) : Piece → Option Text
  | .literal text => some text
  | .variable name fallback => env.get? name <|> fallback

end Piece

namespace Environment

/-- The text with its variables filled in, then with a home directory at its front if it began with
one as written; nothing if a variable cannot be filled in. -/
def expand? (env : Environment) (t : Text) : Option Text := do
  let filled := (← (Piece.ofText t).mapM (Piece.fill? env)).flatten
  return if t.head? = some '~' then env.expandHome filled else filled

end Environment

end Marginalia
