import Marginalia.Viewer.Basic
import Marginalia.Viewer.CardText
import Marginalia.Viewer.Screen

/-! # Drawing the viewer

The document stands in a pane at the left, the cards of its threads in a pane at the right, and a
status line below. Drawing first brings the viewer up to date with the size of the screen: the cards
are measured at the width they get and laid out if that changed anything. Then the visible parts of
document and cards are put into their panes.
-/

namespace Marginalia

/-- How a screen is divided. -/
structure Panes where
  document : Frame
  margin : Frame
  status : Rect

namespace Panes

/-- The panes of a screen: one row for the status line, and 65 of 100 columns for the document, a
half rounded up. -/
def ofSize (width height : Nat) : Panes :=
  let main := height - min height 1
  let left := (65 * width + 50) / 100
  { document := { area := ⟨0, 0, left, main⟩ }
    margin := { area := ⟨left, 0, width - left, main⟩ }
    status := ⟨0, main, width, height - main⟩ }

/-- Width of the text on a card. -/
def cardWidth (p : Panes) : Nat := p.margin.inner.width - 2

end Panes

/-- The style behind the cursor line. -/
def cursorStyle : Style := { background := some .darkGray }

/-- What the keys do. -/
def keyHelp : Text :=
  "q: Quit | ↑/↓ PgUp/PgDn: Scroll | a: Accept | r: Reject | w: Save".toList

variable {α : Type} [Coord α]

/-- Rounded towards zero, and no more than fits a row number. -/
def rowCount (a : α) : Nat := min (Coord.truncate a) 65535

/-- The layers of a card with its text, in a pane of the margin that shows what lies below `scroll`.
Of a card cut off above, the border and the first lines are missing. -/
def Card.layers (g : Typography) (pane : Rect) (scroll : α) (lines : List (List Styled))
    (c : Card α) : List Layer :=
  let viewport : α := Coord.ofNat pane.height
  let top := c.top - scroll
  let bottom := c.bottom - scroll
  let first := Coord.larger top Coord.zero
  let last := Coord.smaller bottom viewport
  if Coord.le last first then []
  else
    let frame : Frame :=
      { area := ⟨pane.left, pane.top + rowCount first, pane.width, rowCount (last - first)⟩
        above := Coord.le Coord.zero top
        below := Coord.le bottom viewport }
    let hidden := if Coord.lt top Coord.zero then rowCount (Coord.zero - top - Coord.ofNat 1) else 0
    let rows := (lines.drop hidden).take frame.inner.height
    let set (line : List Styled) := g.setLine frame.inner.width { stretches := line }
    [frame.layer, Layer.rows frame.inner (rows.map set)]

namespace Viewer

/-- Reports the heights of the cards to the margin: a row for each line, and two for the border. -/
def measure (width : Nat) (v : Viewer α) : Viewer α :=
  { v with
    margin :=
      v.document.threads.foldl
        (fun m t => (m.resizeCard t.start (Coord.ofNat ((t.cardLines width).length + 2))).2)
        v.margin }

/-- The viewer as it is after being drawn on a screen of some size. -/
def fit (width height : Nat) (v : Viewer α) : Viewer α :=
  let panes := Panes.ofSize width height
  let v := (v.setViewportHeight panes.document.inner.height).measure panes.cardWidth
  { v with margin := (v.margin.relayoutIfDirty v.document.threads v.document.mapper).2 }

/-- The scroll position as the document's pane takes it, which counts rows in 16 bits. -/
def paneScroll (v : Viewer α) : Nat := v.scroll % 65536

/-- The lines of the document from its `first` on, `count` at most, to be set. -/
def documentLines (first count : Nat) (v : Viewer α) : List StyledLine :=
  let t := v.document.text
  let markup := v.document.markup
  let lines := (t.lines.zip t.lineSpans).zipIdx
  ((lines.drop first).take count).map fun ((line, range), number) =>
    { stretches := (Markup.highlight? line range.start markup).getD []
      under := if number = v.cursorLine then cursorStyle else {} }

/-- The title of the document's pane. -/
def title (v : Viewer α) : Text := v.path ++ if v.modified then " [+]".toList else []

/-- The layers of the document's pane. -/
def documentLayers (g : Typography) (f : Frame) (v : Viewer α) : List Layer :=
  let lines := v.documentLines v.paneScroll f.inner.height
  [f.layer, f.title g v.title, Layer.rows f.inner (lines.map (g.setLine f.inner.width))]

/-- The layers of the margin's pane: its frame, and every visible card. -/
def marginLayers (g : Typography) (f : Frame) (cardWidth : Nat) (v : Viewer α) : List Layer :=
  let threads := v.document.threads
  let cards := (v.margin.visibleCards (Coord.ofNat f.inner.height)).flatMap fun c =>
    match threads.find? (·.start == c.root) with
    | none => []
    | some t => c.layers g f.inner v.margin.scrollTop (t.cardLines cardWidth)
  [f.layer, f.title g "Comments".toList] ++ cards

/-- The status line. -/
def statusLine (v : Viewer α) : Text :=
  if v.status.isEmpty then keyHelp else v.status ++ " | ".toList ++ keyHelp

/-- The layer of the status line. -/
def statusLayer (g : Typography) (r : Rect) (v : Viewer α) : Layer :=
  Layer.rows r [g.setLine r.width { stretches := [Styled.plain v.statusLine] }]

/-- What a screen of some size shows of a viewer that fits it. -/
def screen (width height : Nat) (v : Viewer α) : Screen :=
  let panes := Panes.ofSize width height
  { width
    height
    drawn := fun g => Layer.stack <|
      v.documentLayers g panes.document ++ v.marginLayers g panes.margin panes.cardWidth ++
        [v.statusLayer g panes.status] }

/-- Draws the viewer: the screen, and the viewer fitted to it. -/
def draw (width height : Nat) (v : Viewer α) : Screen × Viewer α :=
  let v := v.fit width height
  (v.screen width height, v)

end Viewer

end Marginalia
