import Marginalia.Text.Basic

/-! # Finding fixed sequences in text -/

namespace Marginalia.Text

/-- What follows `pattern` when the text begins with it. -/
def dropPrefix? : Text → Text → Option Text
  | [], t => some t
  | _ :: _, [] => none
  | p :: pattern, c :: t => if p = c then dropPrefix? pattern t else none

/-- Whether the text begins with `pattern`. -/
def startsWith (t pattern : Text) : Bool := (dropPrefix? pattern t).isSome

/-- The text before and after the first `pattern` in it. -/
def splitOnce? (pattern : Text) : Text → Option (Text × Text)
  | [] => (dropPrefix? pattern []).map fun after => ([], after)
  | c :: rest =>
    match dropPrefix? pattern (c :: rest) with
    | some after => some ([], after)
    | none => (splitOnce? pattern rest).map fun (before, after) => (c :: before, after)

/-- Whether `pattern` stands anywhere in the text. -/
def holds (pattern : Text) (t : Text) : Bool := (splitOnce? pattern t).isSome

/-- A text of at most `limit` bytes as it is, a longer one cut at a boundary and marked as cut. -/
def preview (limit : Nat) (t : Text) : Text :=
  if byteLength t ≤ limit then t else takeWithin limit t ++ ['.', '.', '.']

theorem dropPrefix?_eq_some_iff {pattern t after : Text} :
    dropPrefix? pattern t = some after ↔ t = pattern ++ after := by
  induction pattern generalizing t with
  | nil => simp [dropPrefix?]
  | cons p pattern ih =>
    cases t with
    | nil => simp [dropPrefix?]
    | cons c t =>
      by_cases h : p = c
      · simp [dropPrefix?, h, ih]
      · simp [dropPrefix?, h, Ne.symm h]

theorem startsWith_iff {pattern t : Text} :
    t.startsWith pattern ↔ ∃ after, t = pattern ++ after := by
  simp [startsWith, Option.isSome_iff_exists, dropPrefix?_eq_some_iff]

end Marginalia.Text
