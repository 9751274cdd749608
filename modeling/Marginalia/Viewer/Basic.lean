import Marginalia.CommandLine.Report
import Marginalia.Document.Basic
import Marginalia.FileTree.Basic
import Marginalia.Margin.Basic

/-! # The viewer

A document with a cursor line, a scroll position and the margin beside it. The margin is told of
every scrolling, counts in lines and takes the number of lines for the height of its host.
-/

namespace Marginalia

namespace Text

/-- Bytes that each of some lines takes, the first of them from `start` on; a line end takes one
more. -/
def spansFrom (start : Nat) : List Text → List Span
  | [] => []
  | line :: rest => ⟨start, start + line.byteLength⟩ :: spansFrom (start + line.byteLength + 1) rest

/-- Bytes that each line takes, without its line end. -/
def lineSpans (t : Text) : List Span := spansFrom 0 t.lines

end Text

/-- Height of an offset in lines; the top for an offset that has none. -/
def Document.mapper {α : Type} [Coord α] (d : Document) (offset : Nat) : α :=
  Coord.ofNat ((d.lineOf? offset).getD 0)

/-- The state of a viewer. -/
structure Viewer (α : Type) where
  path : Text
  document : Document
  margin : Margin α
  cursorLine : Nat
  /-- The first line on the screen. -/
  scroll : Nat
  /-- How many lines the screen shows. -/
  viewportHeight : Nat
  /-- Whether the document differs from what was read or saved. -/
  modified : Bool
  /-- What is told on the status line. -/
  status : Text

namespace Viewer

variable {α : Type} [Coord α]

def lineCount (v : Viewer α) : Nat := v.document.lineCount

/-- The last position to scroll to, with the room that the margin asks for below the document. -/
def maxScroll (v : Viewer α) : Nat :=
  v.lineCount + Coord.ceiling v.margin.layout.hostPadding - v.viewportHeight

/-- Tells the margin where the document is scrolled to. -/
def syncScroll (v : Viewer α) : Viewer α :=
  { v with margin := v.margin.scroll (Coord.ofNat v.scroll) (Coord.ofNat v.lineCount) }

/-- A viewer of a document read from `path`. -/
def ofDocument (path : Text) (d : Document) (spacing : Spacing α) : Viewer α :=
  syncScroll
    { path, document := d, margin := Margin.new spacing, cursorLine := 0, scroll := 0,
      viewportHeight := 0, modified := false, status := [] }

/-- A viewer of the file at `path`, given what reading it came to. -/
def ofFile (path : Text) (content : Except FileFault (List UInt8)) (spacing : Spacing α) :
    Except Report (Viewer α) :=
  match content with
  | .error fault =>
    .error { what := "reading ".toList ++ path, cause := some fault.message.toList }
  | .ok bytes =>
    match Document.ofBytes bytes with
    | .error fault =>
      let fault := fault.message.toList
      .error { what := "Document is not valid UTF-8: ".toList ++ fault, cause := some fault }
    | .ok d => .ok (ofDocument path d spacing)

/-- Scrolls as little as it takes to have the cursor line on the screen. -/
def keepCursorVisible (v : Viewer α) : Viewer α :=
  let scroll :=
    if v.cursorLine < v.scroll then v.cursorLine
    else if 0 < v.viewportHeight ∧ v.scroll + v.viewportHeight ≤ v.cursorLine then
      v.cursorLine + 1 - v.viewportHeight
    else v.scroll
  syncScroll { v with scroll }

/-- Takes another height of the screen. -/
def setViewportHeight (height : Nat) (v : Viewer α) : Viewer α :=
  keepCursorVisible { v with viewportHeight := height }

/-- A count moved by `delta`, not below zero. -/
def moved (n : Nat) (delta : Int) : Nat := (n + delta).toNat

/-- Moves the cursor within the document. -/
def moveCursor (delta : Int) (v : Viewer α) : Viewer α :=
  keepCursorVisible { v with cursorLine := min (moved v.cursorLine delta) (v.lineCount - 1) }

/-- Scrolls, and pulls the cursor along onto the screen. -/
def scrollBy (delta : Int) (v : Viewer α) : Viewer α :=
  let scroll := min (moved v.scroll delta) v.maxScroll
  let last := v.lineCount - 1
  let bottom := min (scroll + max v.viewportHeight 1 - 1) last
  syncScroll { v with scroll, cursorLine := min (max v.cursorLine (min scroll last)) bottom }

/-- Scrolls by so many screens. -/
def page (screens : Int) (v : Viewer α) : Viewer α := v.scrollBy (max v.viewportHeight 1 * screens)

/-- Bytes of the cursor line, without its line end. -/
def cursorSpan (v : Viewer α) : Span :=
  (v.document.text.lineSpans[v.cursorLine]?).getD ⟨v.document.length, v.document.length⟩

/-- The first token on the cursor line; one that begins at its very end counts. -/
def markupUnderCursor? (v : Viewer α) : Option Markup :=
  let line := v.cursorSpan
  v.document.markup.find? fun m => m.full.start ≤ line.stop && line.start < m.full.stop

/-- Accepts or rejects the token on the cursor line. -/
def resolveAtCursor (outcome : Outcome) (v : Viewer α) : Viewer α :=
  match v.markupUnderCursor? with
  | none => { v with status := "No markup on this line".toList }
  | some m =>
    moveCursor 0
      { v with
        document := (v.document.resolve m outcome).1
        modified := true
        status := (outcome.name ++ "ed " ++ m.kind.name).toList
        margin := v.margin.invalidate }

/-- Writes the document to its file. If that fails nothing changes. -/
def save (files : FileTree) (v : Viewer α) : Except Report (Viewer α × FileTree) :=
  match files.write v.path v.document.toBytes with
  | .error fault =>
    .error { what := "writing ".toList ++ v.path, cause := some fault.message.toList }
  | .ok files => .ok ({ v with modified := false, status := "Saved ".toList ++ v.path }, files)

end Viewer

end Marginalia
