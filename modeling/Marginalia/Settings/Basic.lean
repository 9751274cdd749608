import Marginalia.Settings.Expansion
import Marginalia.Toml.Reader
import Marginalia.Toml.Writer
import Marginalia.Margin.Layout

/-! # Settings

The reviewer's name and the spacing of the margin, kept in a TOML file. Keys that are missing have
defaults, unknown ones are passed over, and a value of the wrong kind spoils the file.
-/

namespace Marginalia

/-- What a reviewer can set. -/
structure Settings where
  /-- Name written into new comments; may hold variables until it is loaded. -/
  author : Text
  /-- Spacing of the margin, in lines. -/
  spacing : Spacing Float

namespace Settings

/-- The user's name as the environment has it. -/
def defaultAuthor : Text := "$USER".toList

/-- Spacing for a host that counts in lines. -/
def defaultSpacing : Spacing Float := ⟨1, 2, 3⟩

def default : Settings := ⟨defaultAuthor, defaultSpacing⟩

/-- Where the settings are kept. -/
def path (env : Environment) : Text :=
  env.expandHome "~/.config/critic-margin".toList ++ "/config.toml".toList

/-- A number, whole ones included. -/
def number? : Toml.Value → Option Float
  | .float x => x
  | .integer (some n) =>
    if -0x8000000000000000 ≤ n ∧ n ≤ 0xFFFFFFFFFFFFFFFF then some (Decimal.floatOfInt n) else none
  | _ => none

/-- A number that may be missing. -/
def numberOr? (default : Float) : Option Toml.Value → Option Float
  | none => some default
  | some v => number? v

/-- Spacing by key in a table, or by position in an array; what an array lacks at its end is as if
missing, and what it has beyond is never looked at. A date or time counts as a table that lacks all
keys. -/
def spacing? : Toml.Value → Option (Spacing Float)
  | .table _ entries => do
    if !Toml.Table.isSound entries then none
    let gap ← numberOr? defaultSpacing.gap (entries.lookup "gap".toList)
    let padding ← numberOr? defaultSpacing.padding (entries.lookup "padding".toList)
    let height ←
      numberOr? defaultSpacing.defaultHeight (entries.lookup "default_card_height".toList)
    return ⟨gap, padding, height⟩
  | .array items => do
    let gap ← numberOr? defaultSpacing.gap items[0]?
    let padding ← numberOr? defaultSpacing.padding items[1]?
    let height ← numberOr? defaultSpacing.defaultHeight items[2]?
    return ⟨gap, padding, height⟩
  | .moment => some defaultSpacing
  | _ => none

/-- The author in a table. -/
def author? (t : Toml.Table) : Option Text :=
  match t.get? "author".toList with
  | none => some defaultAuthor
  | some (.string author) => some author
  | some _ => none

/-- The key of the spacing. -/
def spacingKey : Text := "layout".toList

/-- The settings that a table holds. -/
def ofTable? (t : Toml.Table) : Option Settings := do
  if !Toml.Table.isSound (t.filter (·.1 ≠ spacingKey)) then none
  let author ← author? t
  let spacing ← match t.get? spacingKey with
    | none => some defaultSpacing
    | some v => spacing? v
  return ⟨author, spacing⟩

/-- The settings that a TOML document holds. -/
def read? (t : Text) : Option Settings := (Toml.document? t).bind ofTable?

/-- The settings as a TOML document. -/
def render (s : Settings) : Text :=
  Toml.assignment "author" (Toml.quote s.author) ++ ['\n'] ++ Toml.header "layout" ++
    Toml.assignment "gap" (Decimal.render s.spacing.gap) ++
    Toml.assignment "padding" (Decimal.render s.spacing.padding) ++
    Toml.assignment "default_card_height" (Decimal.render s.spacing.defaultHeight)

/-- The settings with variables in the author's name filled in; one that is not set leaves the name
as it was. -/
def expand (env : Environment) (s : Settings) : Settings :=
  { s with author := (env.expand? s.author).getD s.author }

end Settings

end Marginalia
