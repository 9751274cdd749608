import Marginalia.Thread
import Marginalia.Viewer.Highlight

/-! # Text of a card

A card shows each comment of its thread: the author on a line of its own, then what was said,
wrapped by characters.
-/

namespace Marginalia

namespace Text

/-- Puts a character before the first of some lines. -/
def consFirst (c : Char) : List Text → List Text
  | [] => [[c]]
  | line :: rest => (c :: line) :: rest

/-- Lines of `width` characters, the first of them with room for `room`. -/
def fill (width : Nat) : Nat → Text → List Text
  | _, [] => [[]]
  | 0, c :: rest => [] :: consFirst c (fill width (width - 1) rest)
  | room + 1, c :: rest => consFirst c (fill width room rest)

/-- The text in lines of at most `width` characters, one at least; its own line ends stay. -/
def wrap (width : Nat) (t : Text) : List Text :=
  let width := max width 1
  t.lines.flatMap fun line => fill width width line

end Text

/-- Name shown for a comment. -/
def Markup.authorName (m : Markup) : Text :=
  match m.metadata? with
  | some d => d.author
  | none => "anonymous".toList

/-- A line of plain text; an empty one has no stretches. -/
def Styled.line (t : Text) : List Styled := if t.isEmpty then [] else [Styled.plain t]

/-- The lines of one comment. -/
def Markup.cardLines (width : Nat) (m : Markup) : List (List Styled) :=
  [{ text := m.authorName, style := { bold := true } }] :: (m.content.wrap width).map Styled.line

/-- The lines of a thread's card. -/
def Thread.cardLines (width : Nat) (t : Thread) : List (List Styled) :=
  t.comments.flatMap (Markup.cardLines width)

end Marginalia
