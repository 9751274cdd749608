import Marginalia.Viewer.Drawing
import Marginalia.Proofs.Margin.Counts

/-! # What a viewer goes through

The document is moved about in, scrolled, changed, saved and drawn. Whatever is done, the cursor is on
a line of the document and on the screen, as far as the screen shows any of its lines, and the margin
knows where the document is scrolled to and how many lines it has.
-/

namespace Marginalia

namespace Margin

variable {α : Type} [Coord α]

theorem scrollTop_scroll (top host : α) (m : Margin α) :
    (m.scroll top host).scrollTop = Coord.larger top Coord.zero := by
  simp only [scroll]
  split <;> rfl

theorem hostHeight_scroll [Coord.Discrete α] {m : Margin α} {n : Nat}
    (counted : m.hostHeight = Coord.ofNat n) (top : α) (host : Nat) :
    (m.scroll top (Coord.ofNat host)).hostHeight = Coord.ofNat host := by
  simp only [scroll]
  split
  · next same =>
      rw [counted] at same
      exact counted.trans (Coord.Discrete.eq_of_same same).symm
  · rfl

theorem scrollTop_relayoutIfDirty (threads : List Thread) (mapper : Nat → α) (m : Margin α) :
    (m.relayoutIfDirty threads mapper).2.scrollTop = m.scrollTop := by
  unfold relayoutIfDirty
  split <;> rfl

theorem hostHeight_relayoutIfDirty (threads : List Thread) (mapper : Nat → α) (m : Margin α) :
    (m.relayoutIfDirty threads mapper).2.hostHeight = m.hostHeight := by
  unfold relayoutIfDirty
  split <;> rfl

def resizeCards (reports : List (Nat × Nat)) (m : Margin α) : Margin α :=
  reports.foldl (fun m r => (m.resizeCard r.1 (Coord.ofNat r.2)).2) m

theorem exists_resizeCards (reports : List (Nat × Nat)) (m : Margin α) :
    ∃ dirty, m.resizeCards reports =
      { m with heights := m.heights.recordAll reports, dirty } := by
  induction reports generalizing m with
  | nil => exact ⟨m.dirty, rfl⟩
  | cons r rest ih => exact ih (m.resizeCard r.1 (Coord.ofNat r.2)).2

end Margin

namespace Thread

/-- Rows that a thread's card takes, its border included. -/
def cardHeight (width : Nat) (t : Thread) : Nat := (t.cardLines width).length + 2

/-- The height of each card by the start of its thread. -/
def reports (width : Nat) (threads : List Thread) : List (Nat × Nat) :=
  threads.map fun t => (t.start, t.cardHeight width)

end Thread

namespace Viewer

section Actions

variable {α : Type}

theorem lineCount_pos (v : Viewer α) : 0 < v.lineCount := Nat.succ_pos _

/-- Writes the document to its file, or leaves all as it is. -/
def saved (files : FileTree) (v : Viewer α) : Viewer α :=
  match v.save files with
  | .ok (v, _) => v
  | .error _ => v

theorem saved_cases (files : FileTree) (v : Viewer α) :
    v.saved files = v ∨ ∃ status, v.saved files = { v with modified := false, status } := by
  unfold saved save
  cases files.write v.path v.document.toBytes with
  | error fault => exact .inl rfl
  | ok files => exact .inr ⟨_, rfl⟩

/-- What can be done to a viewer. -/
inductive Action where
  | move (delta : Int)
  | scroll (delta : Int)
  | page (screens : Int)
  /-- The screen gets another height. -/
  | resize (height : Nat)
  | resolve (outcome : Outcome)
  /-- Saving among some files, which may fail. -/
  | save (files : FileTree)
  | draw (width height : Nat)

namespace Action

variable [Coord α]

def perform (v : Viewer α) : Action → Viewer α
  | .move delta => v.moveCursor delta
  | .scroll delta => v.scrollBy delta
  | .page screens => v.page screens
  | .resize height => v.setViewportHeight height
  | .resolve outcome => v.resolveAtCursor outcome
  | .save files => v.saved files
  | .draw width height => (v.draw width height).2

def run (v : Viewer α) : List Action → Viewer α
  | [] => v
  | a :: more => run (a.perform v) more

theorem run_of_perform {P : Viewer α → Prop} (step : ∀ {v}, P v → ∀ a : Action, P (a.perform v))
    {v : Viewer α} (h : P v) (actions : List Action) : P (run v actions) := by
  induction actions generalizing v with
  | nil => exact h
  | cons a more ih => exact ih (step h a)

end Action

theorem exists_eq_ofDocument [Coord α] {path : Text} {content : Except FileFault (List UInt8)}
    {spacing : Spacing α} {v : Viewer α} (opened : ofFile path content spacing = .ok v) :
    ∃ d, v = ofDocument path d spacing := by
  unfold ofFile at opened
  split at opened
  · cases opened
  · split at opened
    · cases opened
    · next d _ => exact ⟨d, (Except.ok.inj opened).symm⟩

end Actions

variable {α : Type} [Coord α]

/-- A count kept between two bounds, which have to be in order. -/
def clamp? (low high n : Nat) : Option Nat :=
  if low ≤ high then some (min (max n low) high) else none

/-- Scrolls, if the bounds that the cursor is kept between are in order. -/
def scrollBy? (delta : Int) (v : Viewer α) : Option (Viewer α) := do
  let scroll := min (moved v.scroll delta) v.maxScroll
  let last := v.lineCount - 1
  let bottom := min (scroll + max v.viewportHeight 1 - 1) last
  let cursorLine ← clamp? (min scroll last) bottom v.cursorLine
  return syncScroll { v with scroll, cursorLine }

theorem first_le_bottom (scroll rows last : Nat) :
    min scroll last ≤ min (scroll + max rows 1 - 1) last := by omega

theorem scrollBy?_eq_some (delta : Int) (v : Viewer α) :
    v.scrollBy? delta = some (v.scrollBy delta) := by
  rw [scrollBy?, clamp?, if_pos (first_le_bottom _ _ _)]
  rfl

theorem cursorLine_scrollBy (delta : Int) (v : Viewer α) :
    min (v.scrollBy delta).scroll (v.lineCount - 1) ≤ (v.scrollBy delta).cursorLine ∧
      (v.scrollBy delta).cursorLine ≤
        min ((v.scrollBy delta).scroll + max v.viewportHeight 1 - 1) (v.lineCount - 1) :=
  ⟨le_min (le_max_right _ _) (first_le_bottom _ _ _), min_le_right _ _⟩

theorem cursorLine_scrollBy_lt (delta : Int) (v : Viewer α) (rows : 0 < v.viewportHeight) :
    (v.scrollBy delta).cursorLine < (v.scrollBy delta).scroll + v.viewportHeight := by
  have below := (v.cursorLine_scrollBy delta).2
  omega

section KeepCursorVisible

variable (v : Viewer α)

theorem scroll_keepCursorVisible :
    v.keepCursorVisible.scroll =
      if v.cursorLine < v.scroll then v.cursorLine
      else if 0 < v.viewportHeight ∧ v.scroll + v.viewportHeight ≤ v.cursorLine then
        v.cursorLine + 1 - v.viewportHeight
      else v.scroll := rfl

theorem scroll_keepCursorVisible_le : v.keepCursorVisible.scroll ≤ v.cursorLine := by
  rw [scroll_keepCursorVisible]
  split
  · exact Nat.le_refl _
  · split <;> omega

theorem cursorLine_lt_of_rows (rows : 0 < v.viewportHeight) :
    v.cursorLine < v.keepCursorVisible.scroll + v.viewportHeight := by
  rw [scroll_keepCursorVisible]
  split
  · exact Nat.lt_add_of_pos_right rows
  · split <;> omega

/-- With the cursor not below the screen, only a cursor above it makes the document scroll. -/
theorem scroll_keepCursorVisible_of_lt
    (below : 0 < v.viewportHeight → v.cursorLine < v.scroll + v.viewportHeight) :
    v.keepCursorVisible.scroll = min v.scroll v.cursorLine := by
  rw [scroll_keepCursorVisible]
  split
  · next above => exact (Nat.min_eq_right (Nat.le_of_lt above)).symm
  · next shown =>
      have inside : ¬ (0 < v.viewportHeight ∧ v.scroll + v.viewportHeight ≤ v.cursorLine) := by omega
      rw [if_neg inside]
      exact (Nat.min_eq_left (Nat.not_lt.mp shown)).symm

end KeepCursorVisible

theorem margin_measure (width : Nat) (v : Viewer α) :
    (v.measure width).margin = v.margin.resizeCards (Thread.reports width v.document.threads) := by
  rw [Margin.resizeCards, Thread.reports, List.foldl_map]
  rfl

theorem exists_margin_measure (width : Nat) (v : Viewer α) :
    ∃ dirty, (v.measure width).margin =
      { v.margin with
        heights := v.margin.heights.recordAll (Thread.reports width v.document.threads), dirty } := by
  rw [margin_measure]
  exact v.margin.exists_resizeCards _

/-- The invariant: the cursor is on a line of the document; it is not above the first line shown, or
    is on the last line where nothing but room below the document is shown; it is not below the
    screen; and the margin is where the viewer is. -/
structure Steady (v : Viewer α) : Prop where
  cursorLine_lt : v.cursorLine < v.lineCount
  scrollTop : v.margin.scrollTop = Coord.ofNat v.scroll
  hostHeight : v.margin.hostHeight = Coord.ofNat v.lineCount
  le_cursorLine : min v.scroll (v.lineCount - 1) ≤ v.cursorLine
  cursorLine_shown : 0 < v.viewportHeight → v.cursorLine < v.scroll + v.viewportHeight

section Steady

variable {v : Viewer α}

theorem Steady.saved (h : v.Steady) (files : FileTree) : (v.saved files).Steady := by
  rcases saved_cases files v with same | ⟨status, same⟩
  · rw [same]
    exact h
  · rw [same]
    exact ⟨h.cursorLine_lt, h.scrollTop, h.hostHeight, h.le_cursorLine, h.cursorLine_shown⟩

theorem Steady.measure (h : v.Steady) (width : Nat) : (v.measure width).Steady := by
  obtain ⟨dirty, told⟩ := v.exists_margin_measure width
  refine ⟨h.cursorLine_lt, ?_, ?_, h.le_cursorLine, h.cursorLine_shown⟩
  · rw [told]
    exact h.scrollTop
  · rw [told]
    exact h.hostHeight

variable [Coord.Discrete α] {n : Nat}

theorem steady_syncScroll (host : v.margin.hostHeight = Coord.ofNat n)
    (within : v.cursorLine < v.lineCount) (above : min v.scroll (v.lineCount - 1) ≤ v.cursorLine)
    (below : 0 < v.viewportHeight → v.cursorLine < v.scroll + v.viewportHeight) :
    v.syncScroll.Steady where
  cursorLine_lt := within
  scrollTop := (Margin.scrollTop_scroll _ _ _).trans (Coord.Discrete.larger_zero v.scroll)
  hostHeight := Margin.hostHeight_scroll host _ _
  le_cursorLine := above
  cursorLine_shown := below

theorem steady_keepCursorVisible (host : v.margin.hostHeight = Coord.ofNat n)
    (within : v.cursorLine < v.lineCount) : v.keepCursorVisible.Steady :=
  steady_syncScroll host within ((Nat.min_le_left _ _).trans v.scroll_keepCursorVisible_le)
    v.cursorLine_lt_of_rows

theorem steady_moveCursor (host : v.margin.hostHeight = Coord.ofNat n) (delta : Int) :
    (v.moveCursor delta).Steady := by
  refine steady_keepCursorVisible host ?_
  have lines := v.lineCount_pos
  change min _ (v.lineCount - 1) < v.lineCount
  omega

theorem steady_scrollBy (host : v.margin.hostHeight = Coord.ofNat n) (delta : Int) :
    (v.scrollBy delta).Steady := by
  obtain ⟨above, below⟩ := v.cursorLine_scrollBy delta
  refine steady_syncScroll host ?_ above ?_
  · have lines := v.lineCount_pos
    change (v.scrollBy delta).cursorLine < v.lineCount
    omega
  · exact cursorLine_scrollBy_lt delta v

theorem steady_ofDocument (path : Text) (d : Document) (spacing : Spacing α) :
    (ofDocument path d spacing).Steady := by
  refine steady_syncScroll (n := 0) rfl (Nat.succ_pos _) (Nat.min_le_left _ _) ?_
  intro rows
  exact absurd rows (Nat.lt_irrefl 0)

theorem Steady.resolveAtCursor (h : v.Steady) (outcome : Outcome) :
    (v.resolveAtCursor outcome).Steady := by
  unfold Viewer.resolveAtCursor
  split
  · exact ⟨h.cursorLine_lt, h.scrollTop, h.hostHeight, h.le_cursorLine, h.cursorLine_shown⟩
  · -- The document may have lost lines; the cursor is moved to the last one that is left.
    refine steady_moveCursor (n := v.lineCount) ?_ 0
    exact h.hostHeight

theorem Steady.fit (h : v.Steady) (width height : Nat) : (v.fit width height).Steady := by
  have sized : (v.setViewportHeight (Panes.ofSize width height).document.inner.height).Steady :=
    steady_keepCursorVisible h.hostHeight h.cursorLine_lt
  obtain ⟨within, scrollTop, hostHeight, above, below⟩ :=
    sized.measure (Panes.ofSize width height).cardWidth
  refine ⟨within, ?_, ?_, above, below⟩
  · exact (Margin.scrollTop_relayoutIfDirty _ _ _).trans scrollTop
  · exact (Margin.hostHeight_relayoutIfDirty _ _ _).trans hostHeight

theorem Steady.perform (h : v.Steady) (a : Action) : (a.perform v).Steady := by
  cases a with
  | move delta => exact steady_moveCursor h.hostHeight delta
  | scroll delta => exact steady_scrollBy h.hostHeight delta
  | page screens => exact steady_scrollBy h.hostHeight _
  | resize height => exact steady_keepCursorVisible h.hostHeight h.cursorLine_lt
  | resolve outcome => exact h.resolveAtCursor outcome
  | save files => exact h.saved files
  | draw width height => exact h.fit width height

theorem Steady.run (h : v.Steady) (actions : List Action) : (Action.run v actions).Steady :=
  Action.run_of_perform (fun h a => h.perform a) h actions

end Steady

/-- Whatever is done to a viewer, its cursor is on a line of the document and among the lines shown,
    and the margin is scrolled as the document is and as high as it has lines. The bounds that
    scrolling keeps the cursor between are never the wrong way round. -/
theorem cursor_shown_run [Coord.Discrete α] {path : Text} {content : Except FileFault (List UInt8)}
    {spacing : Spacing α} {start : Viewer α} (opened : ofFile path content spacing = .ok start)
    (actions : List Action) :
    let v := Action.run start actions
    v.cursorLine < v.lineCount ∧
      (v.margin.scrollTop = Coord.ofNat v.scroll ∧
        v.margin.hostHeight = Coord.ofNat v.lineCount) ∧
      (min v.scroll (v.lineCount - 1) ≤ v.cursorLine ∧
        (0 < v.viewportHeight → v.cursorLine < v.scroll + v.viewportHeight)) ∧
      ∀ delta, v.scrollBy? delta = some (v.scrollBy delta) := by
  intro v
  obtain ⟨d, rfl⟩ := exists_eq_ofDocument opened
  have steady : v.Steady := (steady_ofDocument path d spacing).run actions
  exact ⟨steady.cursorLine_lt, ⟨steady.scrollTop, steady.hostHeight⟩,
    ⟨steady.le_cursorLine, steady.cursorLine_shown⟩, fun delta => v.scrollBy?_eq_some delta⟩

/-- A deletion over three lines is accepted with the cursor on the last of them, and two short lines
    beside a long card are scrolled away altogether. -/
theorem cursor_shown_run_below_document :
    let text := "a\nb".toList ++ Kind.deletion.wrap "c\nd".toList ++ Kind.comment.wrap ['x'] ++
      Kind.comment.wrap ['y']
    let spacing : Spacing Exact := ⟨Coord.ofNat 1, Coord.ofNat 2, Coord.ofNat 1⟩
    let start := ofDocument ['f'] (Document.ofText text) spacing
    let v := Action.run start [.draw 24 6, .move 9, .resolve .accept, .save {}, .draw 24 6, .scroll 3]
    ofFile ['f'] (.ok (Text.encode text)) spacing = .ok start ∧
      (v.lineCount = 2 ∧ v.scroll = 3 ∧ v.viewportHeight = 3) ∧
      v.cursorLine < v.lineCount ∧ v.margin.scrollTop = Coord.ofNat v.scroll ∧
      v.margin.hostHeight = Coord.ofNat v.lineCount ∧
      min v.scroll (v.lineCount - 1) ≤ v.cursorLine ∧
      v.cursorLine < v.scroll + v.viewportHeight ∧ v.scrollBy? 7 = some (v.scrollBy 7) := by
  intro text spacing start v
  have opened : ofFile ['f'] (.ok (Text.encode text)) spacing = .ok start := rfl
  obtain ⟨within, ⟨scrollTop, hostHeight⟩, ⟨above, below⟩, inOrder⟩ := cursor_shown_run opened
    [.draw 24 6, .move 9, .resolve .accept, .save {}, .draw 24 6, .scroll 3]
  have shown : v.lineCount = 2 ∧ v.scroll = 3 ∧ v.viewportHeight = 3 := by decide +kernel
  have rows : 0 < v.viewportHeight := by
    rw [shown.2.2]
    decide
  exact ⟨opened, shown, within, scrollTop, hostHeight, above, below rows, inOrder 7⟩

end Viewer

end Marginalia
