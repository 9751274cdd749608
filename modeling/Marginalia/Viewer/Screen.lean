import Marginalia.Viewer.Style
import Marginalia.Viewer.Typography

/-! # Screens

A screen is a grid of cells, and a line of text is set into a row of it glyph by glyph, each in as
many cells as it takes columns. What is drawn is described by layers: a layer says, for some places,
which cell stands there; of several layers the topmost one that says something counts.
-/

namespace Marginalia

/-- One column of a row of a screen. -/
structure Cell where
  /-- What stands there; nothing, if it is covered by a symbol that begins further left. -/
  symbol : Text
  style : Style := {}
  deriving Repr, DecidableEq

def Cell.blank : Cell := { symbol := [' '] }

/-- A cluster that can be seen, with a style of its own. -/
structure Glyph where
  symbol : Text
  style : Style
  deriving Repr, DecidableEq

/-- A line to be set, and the style that it is set over. -/
structure StyledLine where
  stretches : List Styled
  under : Style := {}

namespace Typography

variable (g : Typography)

/-- Whether a cluster can be seen: it takes columns, and no control is in it. -/
def isVisible (cluster : Text) : Bool := 0 < g.columns cluster && !cluster.any isControl

/-- What can be seen of some stretches. Each is cut into clusters by itself. -/
def glyphs (stretches : List Styled) : List Glyph :=
  stretches.flatMap fun s =>
    ((g.clusters s.text).filter g.isVisible).map fun cluster => ⟨cluster, s.style⟩

/-- What can be seen in a row of some width: a glyph that is wider than the whole row is left out. -/
def glyphsWithin (width : Nat) (stretches : List Styled) : List Glyph :=
  (g.glyphs stretches).filter fun x => g.columns x.symbol ≤ width

/-- The glyphs from the first on as far as there is room. -/
def fitting : (room : Nat) → List Glyph → List Glyph
  | _, [] => []
  | room, x :: rest =>
    if g.columns x.symbol ≤ room then x :: fitting (room - g.columns x.symbol) rest else []

/-- The cells of a glyph over a style. The symbol stands in the first and covers the others. -/
def cells (under : Style) (x : Glyph) : List Cell :=
  ⟨x.symbol, x.style.covering under⟩ ::
    List.replicate (g.columns x.symbol - 1) ⟨[], x.style.covering under⟩

/-- The cells of a line in a row of some width. -/
def setLine (width : Nat) (line : StyledLine) : List Cell :=
  (g.fitting width (g.glyphsWithin width line.stretches)).flatMap (g.cells line.under)

/-- The cells of a title, which ends in front of a glyph that is too wide. -/
def setTitle (width : Nat) (title : Text) : List Cell :=
  (g.fitting width (g.glyphs [{ text := title }])).flatMap (g.cells {})

end Typography

/-- Part of a screen. -/
structure Rect where
  left : Nat
  top : Nat
  width : Nat
  height : Nat
  deriving Repr, DecidableEq

namespace Rect

/-- Whether a place, column and row, lies in the rectangle. -/
def contains (r : Rect) (x y : Nat) : Bool :=
  r.left ≤ x && x < r.left + r.width && r.top ≤ y && y < r.top + r.height

end Rect

/-- What is drawn at places given by column and row. -/
structure Layer where
  cell? : Nat → Nat → Option Cell

namespace Layer

def empty : Layer := ⟨fun _ _ => none⟩

/-- One layer on top of another. -/
def covering (top bottom : Layer) : Layer := ⟨fun x y => top.cell? x y <|> bottom.cell? x y⟩

/-- Layers in the order in which they are drawn. -/
def stack (layers : List Layer) : Layer := layers.foldl (fun drawn l => l.covering drawn) empty

/-- Rows of cells at the left and top of a rectangle, cut to it. -/
def rows (r : Rect) (lines : List (List Cell)) : Layer :=
  ⟨fun x y => if r.contains x y then (lines[y - r.top]?).bind (·[x - r.left]?) else none⟩

end Layer

/-- A box: a rectangle with a line at either side, and perhaps above and below. -/
structure Frame where
  area : Rect
  above : Bool := true
  below : Bool := true
  deriving Repr, DecidableEq

namespace Frame

/-- The character at a place on the frame. Where the frame is one column wide a corner at the left
wins, and where it is one row high a corner above. -/
def char? (f : Frame) (x y : Nat) : Option Char :=
  let r := f.area
  let left := x = r.left
  let right := x + 1 = r.left + r.width
  let above := f.above && y = r.top
  let below := f.below && y + 1 = r.top + r.height
  if left ∧ above then some '┌'
  else if left ∧ below then some '└'
  else if right ∧ above then some '┐'
  else if right ∧ below then some '┘'
  else if left ∨ right then some '│'
  else if above ∨ below then some '─'
  else none

/-- The frame as drawn. -/
def layer (f : Frame) : Layer :=
  ⟨fun x y => if f.area.contains x y then (f.char? x y).map fun c => { symbol := [c] } else none⟩

/-- What the frame encloses. -/
def inner (f : Frame) : Rect where
  left := f.area.left + 1
  top := f.area.top + f.above.toNat
  width := f.area.width - 2
  height := f.area.height - f.above.toNat - f.below.toNat

/-- A title on the upper edge, cut before the right corner. -/
def title (g : Typography) (f : Frame) (t : Text) : Layer :=
  Layer.rows ⟨f.area.left + 1, f.area.top, f.area.width - 2, min f.area.height 1⟩
    [g.setTitle (f.area.width - 2) t]

end Frame

/-- A drawn screen. What it shows depends on how text is set. -/
structure Screen where
  width : Nat
  height : Nat
  drawn : Typography → Layer

namespace Screen

/-- The cell at a place. -/
def cell (g : Typography) (s : Screen) (x y : Nat) : Cell :=
  ((s.drawn g).cell? x y).getD Cell.blank

/-- The symbols of the screen, row by row. -/
def rows (s : Screen) (g : Typography := .standard) : List Text :=
  let drawn := s.drawn g
  (List.range s.height).map fun y =>
    (List.range s.width).flatMap fun x => ((drawn.cell? x y).getD Cell.blank).symbol

end Screen

end Marginalia
