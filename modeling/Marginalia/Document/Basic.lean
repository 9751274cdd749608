import Marginalia.Document.Delta
import Marginalia.Review.Resolution
import Marginalia.Review.Draft
import Marginalia.Text.Utf8

/-! # Documents

A document is a text with a selection and a count of the edits made to it. Whatever is read off the
text is read afresh each time. Every change goes through `apply`, which tells where text was put and
where the selection went.
-/

namespace Marginalia

/-- A text under review. -/
structure Document where
  text : Text
  selection : Span
  /-- Number of edits so far. -/
  version : Nat
  deriving Repr, DecidableEq

/-- What an edit did. -/
structure Patch where
  /-- Where inserted text lies now. -/
  changed : List Span
  selection : Span
  version : Nat
  deriving Repr, DecidableEq

namespace Document

/-- A document never edited, its selection at the end. -/
def ofText (t : Text) : Document := ⟨t, ⟨t.byteLength, t.byteLength⟩, 0⟩

/-- A document from the bytes of a file. -/
def ofBytes (bytes : List UInt8) : Except Utf8Fault Document := ofText <$> Text.decode bytes

def toBytes (d : Document) : List UInt8 := d.text.encode

/-- Length in bytes. -/
def length (d : Document) : Nat := d.text.byteLength

def isEmpty (d : Document) : Bool := d.text.isEmpty

/-- The same text after as many edits; the selection does not matter. -/
def sameAs (d other : Document) : Bool := d.text = other.text && d.version = other.version

/-- Selects a span, clamped into the text. -/
def select (range : Span) (d : Document) : Document := { d with selection := range.clamp d.text }

/-- The text under a span, clamped into the text. -/
def slice (d : Document) (range : Span) : Text := d.text.under range

def reading (d : Document) : Reading := Reading.ofText d.text

def markup (d : Document) : List Markup := d.reading.markup

def threads (d : Document) : List Thread := d.reading.threads

/-- The token that covers an offset. -/
def markupAt? (d : Document) (offset : Nat) : Option Markup := d.markup.find? (·.covers offset)

/-- Makes an edit: changes the text, carries the selection along and counts. -/
def apply (e : Edit) (d : Document) : Document × Patch :=
  let delta := Delta.ofEdit d.text e
  let start := delta.carry d.selection.start 0
  let stop := delta.carry d.selection.stop 0
  let next : Document := ⟨delta.apply d.text, ⟨start, max start stop⟩, d.version + 1⟩
  (next, ⟨delta.insertedSpans 0, next.selection, next.version⟩)

/-- Accepts or rejects one token of the current text. -/
def resolve (m : Markup) (outcome : Outcome) (d : Document) : Document × Patch :=
  d.apply (.replace m.full (m.replacement outcome))

/-- Accepts or rejects every token as one edit. -/
def resolveAll (outcome : Outcome) (d : Document) : Document × Patch :=
  d.apply (.replaceMany (d.markup.map fun m => (m.full, m.replacement outcome)))

/-- Puts a new comment at an offset. -/
def addComment (offset : Nat) (author : Text) (timestamp : Int) (content : Text) (d : Document) :
    Document × Patch :=
  d.apply (Draft.insertComment offset (Draft.comment author timestamp content))

/-- Highlights the selection and comments on it. -/
def commentOnSelection (author : Text) (timestamp : Int) (content : Text) (d : Document) :
    Document × Patch :=
  d.apply (Draft.commentSelection d.selection (d.slice d.selection)
    (Draft.comment author timestamp content))

/-- Adds a reply to a thread. -/
def reply (thread : Thread) (author : Text) (timestamp : Int) (content : Text) (d : Document) :
    Document × Patch :=
  d.apply (Draft.insertReply thread (Draft.comment author timestamp content))

/-- Replaces the text under a span, as a suggestion when edits are `tracked`. -/
def edit (range : Span) (new : Text) (tracked : Bool) (d : Document) : Document × Patch :=
  let range := range.clamp d.text
  d.apply (.replace range (Draft.compose tracked (d.slice range) new))

/-- The line of an offset, counted from zero; past the end the last line, inside a character none.
-/
def lineOf? (d : Document) (offset : Nat) : Option Nat := d.text.lineOf? (min offset d.length)

/-- How many lines there are. -/
def lineCount (d : Document) : Nat := d.text.newlines + 1

theorem markup_eq (d : Document) : d.markup = Markup.parse d.text := rfl

end Document

end Marginalia
