import Marginalia.Thread

/-! # Accepting and rejecting

A resolved token gives way to what its kind and the outcome leave of it. Comments leave nothing and
highlights their content, whatever the outcome.
-/

namespace Marginalia

/-- What a reviewer decides about a token. -/
inductive Outcome where
  | accept
  | reject
  deriving Repr, DecidableEq

/-- Name in status lines. -/
def Outcome.name : Outcome → String
  | .accept => "Accept"
  | .reject => "Reject"

/-- What stands in place of a resolved token. -/
def Markup.replacement (m : Markup) (outcome : Outcome) : Text :=
  match m.detail, outcome with
  | .addition, .accept => m.content
  | .addition, .reject => []
  | .deletion, .accept => []
  | .deletion, .reject => m.content
  | .substitution _ new, .accept => new
  | .substitution old _, .reject => old
  | .highlight, _ => m.content
  | .comment _, _ => []

namespace Text

/-- The text with one token resolved; a stale token is clamped first. -/
def resolve (t : Text) (m : Markup) (outcome : Outcome) : Text :=
  t.splice (m.full.clamp t) (m.replacement outcome)

/-- The text with every token resolved alike, from the last to the first so that offsets stay valid.
-/
def resolveAll (t : Text) (outcome : Outcome) : Text :=
  (Markup.parse t).foldr (fun m t => t.splice m.full (m.replacement outcome)) t

end Text

end Marginalia
