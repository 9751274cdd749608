import Marginalia.Thread

/-! # What a reading has to satisfy

Checks markup and threads against a text: spans within bounds and within each other, contents equal
to the text beneath them, tokens in ascending order without overlap, threads made of touching
comments and apart from each other. The first flaw is reported.
-/

namespace Marginalia

/-- A way in which a reading is unsound. -/
inductive Flaw where
  /-- A token's span is reversed or ends past the text. -/
  | outOfBounds (full : Span) (length : Nat)
  /-- A payload's span is not within its token's. -/
  | payloadOutside (inner full : Span)
  /-- A payload's span cuts a character. -/
  | splitCharacter (inner : Span)
  /-- The content is not the text beneath. -/
  | otherContent (inner : Span)
  /-- A token begins before the one in front of it has ended. -/
  | outOfOrder (first second : Span)
  | emptyThread
  /-- A thread has a member that is no comment. -/
  | notAComment (start : Nat)
  /-- Two comments of a thread do not touch. -/
  | gap (first second : Span)
  /-- Two threads are not apart. -/
  | threadsTouch (first second : Span)
  deriving Repr, DecidableEq

/-- Wording of a flaw. -/
def Flaw.message : Flaw → String
  | .outOfBounds full length => s!"range span out of bounds: {full.describe} (text len: {length})"
  | .payloadOutside inner full =>
    s!"inner span not contained in range span: inner {inner.describe}, full {full.describe}"
  | .splitCharacter inner => s!"inner span {inner.describe} splits a character"
  | .otherContent inner =>
    "assertion `left == right` failed: content does not match text under inner span " ++
      inner.describe
  | .outOfOrder a b => s!"ranges overlap or are out of order: {a.describe} then {b.describe}"
  | .emptyThread => "empty thread"
  | .notAComment start => s!"non-comment in thread at {start}"
  | .gap a b => s!"gap inside thread: {a.describe} then {b.describe}"
  | .threadsTouch a b => s!"threads touch or overlap: {a.describe} then {b.describe}"

namespace Flaw

/-- Checks every pair of neighbours. -/
def eachPair {α : Type} (check : α → α → Except Flaw Unit) : List α → Except Flaw Unit
  | [] => .ok ()
  | [_] => .ok ()
  | a :: b :: rest => do
    check a b
    eachPair check (b :: rest)

def ensure (holds : Bool) (flaw : Flaw) : Except Flaw Unit := if holds then .ok () else .error flaw

/-- One token against the text. -/
def checkMarkup (t : Text) (m : Markup) : Except Flaw Unit := do
  ensure (m.full.start ≤ m.full.stop && m.full.stop ≤ t.byteLength)
    (.outOfBounds m.full t.byteLength)
  ensure
    (m.full.start ≤ m.inner.start && m.inner.start ≤ m.inner.stop && m.inner.stop ≤ m.full.stop)
    (.payloadOutside m.inner m.full)
  match t.slice? m.inner with
  | none => .error (.splitCharacter m.inner)
  | some beneath => ensure (beneath = m.content) (.otherContent m.inner)

/-- Start of the first and stop of the last of some comments. -/
def spanOf : List Markup → Span
  | [] => ⟨0, 0⟩
  | m :: rest => Thread.span ⟨m, rest⟩

/-- One thread, given by its comments. -/
def checkThread (comments : List Markup) : Except Flaw Unit := do
  ensure (!comments.isEmpty) .emptyThread
  ensure (comments.all Markup.isComment) (.notAComment (spanOf comments).start)
  eachPair (fun a b => ensure (a.full.touches b.full) (.gap a.full b.full)) comments

/-- The first flaw of a reading, threads given by their comments. -/
def check (t : Text) (markup : List Markup) (threads : List (List Markup)) : Except Flaw Unit := do
  markup.forM (checkMarkup t)
  eachPair (fun a b => ensure (a.full.stop ≤ b.full.start) (.outOfOrder a.full b.full)) markup
  threads.forM checkThread
  eachPair
    (fun a b => ensure ((spanOf a).stop < (spanOf b).start) (.threadsTouch (spanOf a) (spanOf b)))
    threads

end Flaw

end Marginalia
