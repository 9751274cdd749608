import Marginalia.Markup.Kind

/-! # Styled text

How markup looks on the screen, and text made of stretches of one style each.
-/

namespace Marginalia

/-- Colours of the screen. -/
inductive Color where
  | black
  | red
  | green
  | yellow
  | cyan
  | darkGray
  deriving Repr, DecidableEq

/-- How characters look. -/
structure Style where
  foreground : Option Color := none
  background : Option Color := none
  bold : Bool := false
  dim : Bool := false
  crossedOut : Bool := false
  deriving Repr, DecidableEq

/-- A style laid over another, which shows where the first says nothing. -/
def Style.covering (top bottom : Style) : Style where
  foreground := top.foreground <|> bottom.foreground
  background := top.background <|> bottom.background
  bold := top.bold || bottom.bold
  dim := top.dim || bottom.dim
  crossedOut := top.crossedOut || bottom.crossedOut

/-- Look of each kind of markup. -/
def Kind.style : Kind → Style
  | .addition => { foreground := some .green }
  | .deletion => { foreground := some .red, crossedOut := true }
  | .substitution => { foreground := some .yellow }
  | .highlight => { foreground := some .black, background := some .yellow }
  | .comment => { foreground := some .cyan, dim := true }

theorem Kind.style_ne_plain (k : Kind) : k.style ≠ {} := by cases k <;> decide

/-- Kinds are told apart by their looks. -/
theorem Kind.style_injective {j k : Kind} (same : j.style = k.style) : j = k := by
  revert same
  cases j <;> cases k <;> decide

/-- A stretch of text in one style. -/
structure Styled where
  text : Text
  style : Style := {}
  deriving Repr, DecidableEq

end Marginalia
