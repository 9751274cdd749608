import Marginalia.Thread

/-! # Digest of a reading

A reading boiled down to short, stable facts: kinds, spans and previews.
-/

namespace Marginalia

/-- What a digest tells of one token. -/
structure MarkupDigest where
  kind : Kind
  span : Span
  inner : Span
  text : Text
  /-- Named parts: the halves of a substitution, the author of a comment. -/
  parts : List (String × Text)

/-- What a digest tells of one thread. -/
structure ThreadDigest where
  span : Span
  comments : Nat

/-- Named parts of a token. -/
def Detail.parts : Detail → List (String × Text)
  | .substitution old new => [("old", old.preview 40), ("new", new.preview 40)]
  | .comment (some m) => [("author", m.author)]
  | _ => []

def Markup.digest (m : Markup) : MarkupDigest :=
  ⟨m.kind, m.full, m.inner, m.content.preview 60, m.detail.parts⟩

def Thread.digest (t : Thread) : ThreadDigest := ⟨t.span, t.size⟩

end Marginalia
