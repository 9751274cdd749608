import Marginalia.Markup.Scan

/-! # Comment threads

Comments with nothing between them form a thread: a root and its replies, in document order. A
comment belongs to a thread by its place alone.
-/

namespace Marginalia

/-- A root comment and the replies that follow it. -/
structure Thread where
  root : Markup
  replies : List Markup
  deriving Repr, DecidableEq

namespace Thread

/-- Root and replies. -/
def comments (t : Thread) : List Markup := t.root :: t.replies

/-- Start of the root; what a card is known by. -/
def start (t : Thread) : Nat := t.root.full.start

/-- Stop of the last comment, where a reply goes. -/
def stop (t : Thread) : Nat := (t.replies.getLastD t.root).full.stop

def span (t : Thread) : Span := ⟨t.start, t.stop⟩

/-- How many comments there are. -/
def size (t : Thread) : Nat := t.comments.length

/-- Threads of the comments among `ms`: a comment joins the one before it unless it starts beyond
that one's stop. -/
def group : List Markup → List Thread
  | [] => []
  | m :: rest =>
    if m.isComment then
      match group rest with
      | [] => [⟨m, []⟩]
      | t :: more =>
        if t.start ≤ m.full.stop then ⟨m, t.comments⟩ :: more else ⟨m, []⟩ :: t :: more
    else group rest

/-- Grouping keeps every comment, once and in order. -/
theorem flatMap_comments_group (ms : List Markup) :
    (group ms).flatMap comments = ms.filter Markup.isComment := by
  induction ms with
  | nil => rfl
  | cons m ms ih =>
    unfold group
    by_cases h : m.isComment
    · rw [if_pos h, List.filter_cons_of_pos h, ← ih]
      cases hg : group ms with
      | nil => simp [comments]
      | cons t more =>
        simp only
        split <;> simp [comments]
    · rw [if_neg h, List.filter_cons_of_neg h, ih]

end Thread

/-- Everything read off one text. -/
structure Reading where
  markup : List Markup
  threads : List Thread
  deriving Repr, DecidableEq

/-- The markup of a text and its threads. -/
def Reading.ofText (t : Text) : Reading :=
  let markup := Markup.parse t
  ⟨markup, Thread.group markup⟩

end Marginalia
