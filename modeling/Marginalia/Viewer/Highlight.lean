import Marginalia.Markup.Basic
import Marginalia.Viewer.Style

/-! # Highlighting a line

A line of a document in stretches: plain text, and the parts of tokens that lie on the line. A token
may begin before the line and end behind it.
-/

namespace Marginalia

/-- A stretch of plain text. -/
def Styled.plain (t : Text) : Styled := { text := t }

namespace Markup

/-- Whether part of the token lies on a line that takes the bytes of `range`. -/
def touchesLine (range : Span) (m : Markup) : Bool :=
  m.full.start < range.stop && range.start < m.full.stop

/-- The stretches of a line from byte `done` on, the line taking the bytes of `range`. Nothing, if a
token begins or ends within one of its characters. -/
def highlightFrom? (line : Text) (range : Span) (done : Nat) : List Markup → Option (List Styled)
  | [] =>
    if done < range.stop then
      (line.slice? ⟨done - range.start, range.stop - range.start⟩).map fun t => [Styled.plain t]
    else some []
  | m :: rest =>
    if m.touchesLine range then do
      let first := max m.full.start range.start
      let last := min m.full.stop range.stop
      let before ←
        if done < first then
          (line.slice? ⟨done - range.start, first - range.start⟩).map fun t => [Styled.plain t]
        else some []
      let own ← line.slice? ⟨first - range.start, last - range.start⟩
      let after ← highlightFrom? line range last rest
      return before ++ ⟨own, m.kind.style⟩ :: after
    else highlightFrom? line range done rest

/-- The stretches of a line that begins at byte `start`, with the tokens of the document. -/
def highlight? (line : Text) (start : Nat) (markup : List Markup) : Option (List Styled) :=
  highlightFrom? line ⟨start, start + line.byteLength⟩ start markup

end Markup

end Marginalia
