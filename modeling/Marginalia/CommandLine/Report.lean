import Marginalia.Text.Basic

/-! # Reports of what went wrong -/

namespace Marginalia

/-- What could not be done, and perhaps why. -/
structure Report where
  what : Text
  cause : Option Text := none
  deriving Repr, DecidableEq

namespace Report

/-- A report on one line. -/
def brief (r : Report) : Text :=
  match r.cause with
  | none => r.what
  | some cause => r.what ++ [':', ' '] ++ cause

/-- A report with its cause in a paragraph of its own. -/
def full (r : Report) : Text :=
  match r.cause with
  | none => r.what
  | some cause => r.what ++ "\n\nCaused by:\n    ".toList ++ cause

end Report

end Marginalia
