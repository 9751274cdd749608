import Marginalia.Proofs.Viewer.Highlight
import Marginalia.Proofs.Viewer.History
import Marginalia.Proofs.Viewer.Typesetting

/-! # The pane of the document

A row of the pane shows a line of the document as far as there is room, and the cursor line stands
on a background of its own. The first row is the line of the scroll position as far as 16 bits count
it; from there on a pane begins again with the first line, and the cursor line is not in it.
-/

namespace Marginalia

theorem Style.background_of_kind (k : Kind) : k.style.background ≠ some .darkGray := by
  cases k <;> decide

namespace Markup

/-- A stretch is plain or has the look of a token. -/
theorem style_of_mem_highlightFrom? {line : Text} {range : Span} {done : Nat} {ms : List Markup}
    {stretches : List Styled} (made : highlightFrom? line range done ms = some stretches) :
    ∀ s ∈ stretches, s.style = {} ∨ ∃ k : Kind, s.style = k.style := by
  have plain {t : Option Text} {gap : List Styled}
      (cut : t.map (fun t => [Styled.plain t]) = some gap) :
      ∀ s ∈ gap, s.style = {} ∨ ∃ k : Kind, s.style = k.style := by
    obtain ⟨t, -, rfl⟩ := Option.map_eq_some_iff.mp cut
    exact List.forall_mem_singleton.mpr (.inl rfl)
  induction ms generalizing done stretches with
  | nil =>
      unfold highlightFrom? at made
      split at made
      · exact plain made
      · obtain rfl := Option.some.inj made
        intro s mem
        cases mem
  | cons m ms ih =>
      unfold highlightFrom? at made
      split at made
      · simp only [Option.bind_eq_bind, Option.pure_def] at made
        split at made
        · obtain ⟨gap, cut, own, -, after, rest, whole⟩ := by
            simpa only [Option.bind_eq_some_iff] using made
          obtain rfl := Option.some.inj whole
          exact List.forall_mem_append.mpr
            ⟨plain cut, List.forall_mem_cons.mpr ⟨.inr ⟨m.kind, rfl⟩, ih rest⟩⟩
        · obtain ⟨own, -, after, rest, whole⟩ := by
            simpa only [Option.bind_some, Option.bind_eq_some_iff] using made
          obtain rfl := Option.some.inj whole
          exact List.forall_mem_cons.mpr ⟨.inr ⟨m.kind, rfl⟩, ih rest⟩
      · exact ih made

end Markup

namespace Typography.Shows

variable {g : Typography} {stretches : List Styled} {shown : List Glyph} {row : List Cell}

theorem background_of_mem {under : Style} {width : Nat} {x : Glyph}
    (h : g.Shows width ⟨stretches, under⟩ shown row) (mem : x ∈ shown)
    (looks : ∀ s ∈ stretches, s.style = {} ∨ ∃ k : Kind, s.style = k.style) :
    x.style.background ≠ some .darkGray := by
  obtain ⟨s, there, own, -⟩ := mem_glyphs_iff.mp (h.mem_glyphs mem)
  rw [own]
  rcases looks s there with plain | ⟨k, look⟩
  · rw [plain]
    exact nofun
  · rw [look]
    exact Style.background_of_kind k

/-- The cursor style shows where it is laid under a glyph that has no background of its own. -/
theorem exists_darkGray_iff {number cursor width : Nat}
    (h : g.Shows width ⟨stretches, if number = cursor then cursorStyle else {}⟩ shown row)
    (looks : ∀ s ∈ stretches, s.style = {} ∨ ∃ k : Kind, s.style = k.style) :
    (∃ cell ∈ row, cell.style.background = some .darkGray) ↔
      number = cursor ∧ ∃ x ∈ shown, x.style.background = none := by
  constructor
  · rintro ⟨cell, mem, dark⟩
    rcases h.style_of_mem mem with ⟨x, there, own⟩ | rfl
    · rw [own] at dark
      cases background : x.style.background with
      | some color =>
          have same : color = .darkGray := by simpa [Style.covering, background] using dark
          exact absurd (background.trans (congrArg some same)) (h.background_of_mem there looks)
      | none =>
          by_cases here : number = cursor
          · exact ⟨here, x, there, background⟩
          · simp [Style.covering, background, here] at dark
    · cases dark
  · rintro ⟨here, x, there, background⟩
    refine ⟨_, h.mem_of_shown there, ?_⟩
    simp [Style.covering, background, cursorStyle, here]

end Typography.Shows

namespace Viewer

section Rows

variable {α : Type} (v : Viewer α) {line : Text} {first count k : Nat}

/-- The style that a line of the document is drawn over. -/
def under (number : Nat) : Style := if number = v.cursorLine then cursorStyle else {}

theorem getElem?_documentLines {range : Span} (within : k < count)
    (here : v.document.text.lines[first + k]? = some line)
    (span : v.document.text.lineSpans[first + k]? = some range) :
    (v.documentLines first count)[k]? =
      some ⟨(Markup.highlight? line range.start v.document.markup).getD [], v.under (first + k)⟩ := by
  have both : (v.document.text.lines.zip v.document.text.lineSpans)[first + k]? =
      some (line, range) := List.getElem?_zip_eq_some.mpr ⟨here, span⟩
  simp [documentLines, List.getElem?_take_of_lt within, List.getElem?_zipIdx, both, under]

theorem getElem?_documentLines_of_le (beyond : v.lineCount ≤ first + k) :
    (v.documentLines first count)[k]? = none := by
  rw [lineCount_eq_length] at beyond
  refine List.getElem?_eq_none ?_
  simp [documentLines]
  omega

/-- How a row shows a line of the document: the line is in stretches with the looks of the tokens, and
    `shown` is as much of them as there is room for. What can be read are characters of the line in
    their order, and blanks behind them; of printable ASCII it is the line cut to the width or filled
    up. On the cursor line what has no background of its own has that of the cursor, which nothing
    else ever has. -/
structure LineShown (g : Typography) (number width : Nat) (line : Text) (range : Span)
    (stretches : List Styled) (shown : List Glyph) (row : List Cell) : Prop where
  span : v.document.text.lineSpans[number]? = some range
  highlighted : Markup.Highlighted v.document.markup line range.start stretches
  shows : g.Shows width ⟨stretches, v.under number⟩ shown row
  read : row.flatMap Cell.symbol =
    shown.flatMap Glyph.symbol ++ List.replicate (width - g.extent shown) ' '
  sublist : (shown.flatMap Glyph.symbol).Sublist line
  printable : (∀ c ∈ line, Typography.isPrintable c) →
    row.map Cell.symbol = ((line ++ List.replicate width ' ').take width).map fun c => [c]
  cursor : (∃ cell ∈ row, cell.style.background = some .darkGray) ↔
    number = v.cursorLine ∧ ∃ x ∈ shown, x.style.background = none

/-- A row shows a line of the document. -/
def ShowsLine (g : Typography) (number width : Nat) (line : Text) (row : List Cell) : Prop :=
  ∃ range stretches shown, v.LineShown g number width line range stretches shown row

theorem showsLine_documentLines (g : Typography) (within : k < count)
    (here : v.document.text.lines[first + k]? = some line) (width : Nat) :
    v.ShowsLine g (first + k) width line
      (Cell.fit width ((((v.documentLines first count)[k]?).map (g.setLine width)).getD [])) := by
  obtain ⟨range, after, span, -, cut⟩ := Text.exists_cuts_lineSpans here
  obtain ⟨stretches, highlighted⟩ := Markup.exists_highlighted cut
  have made : Markup.highlight? line range.start v.document.markup = some stretches :=
    highlighted.made
  obtain ⟨shown, shows⟩ := g.exists_shows width ⟨stretches, v.under (first + k)⟩
  rw [v.getElem?_documentLines within here span, made, Option.map_some, Option.getD_some,
    Option.getD_some]
  refine ⟨range, stretches, shown, span, highlighted, shows, shows.flatMap_symbol, ?sublist,
    ?printable, shows.exists_darkGray_iff (Markup.style_of_mem_highlightFrom? made)⟩
  case sublist =>
    rw [← highlighted.whole]
    exact shows.sublist
  case printable =>
    rw [← highlighted.whole]
    exact shows.map_symbol

end Rows

section Draw

variable {α : Type} [Coord α] (v : Viewer α)

theorem rowOf_document (g : Typography) {width height k : Nat}
    (within : k < (Panes.ofSize width height).document.inner.height) :
    (v.screen width height).rowOf g (Panes.ofSize width height).document.inner k =
      Cell.fit (Panes.ofSize width height).document.inner.width
        ((((v.documentLines v.paneScroll (Panes.ofSize width height).document.inner.height)[k]?).map
          (g.setLine (Panes.ofSize width height).document.inner.width)).getD []) := by
  refine Screen.rowOf_eq_fit fun x across => ?_
  have inside := Rect.contains_add across within
  rw [cell_screen_of_document v inside, Layer.cell?_rows_of_contains inside,
    Nat.add_sub_cancel_left, Nat.add_sub_cancel_left, List.getElem?_map]
  cases (v.documentLines v.paneScroll (Panes.ofSize width height).document.inner.height)[k]? <;> rfl

/-- Drawing scrolls to the cursor, if there is a row for it. -/
theorem cursorLine_draw_shown (width height : Nat) :
    let drawn := (v.draw width height).2
    drawn.viewportHeight = (Panes.ofSize width height).document.inner.height ∧
      (0 < drawn.viewportHeight → drawn.scroll ≤ drawn.cursorLine ∧
        drawn.cursorLine < drawn.scroll + drawn.viewportHeight) :=
  let sized : Viewer α :=
    { v with viewportHeight := (Panes.ofSize width height).document.inner.height }
  ⟨rfl, fun rows => ⟨sized.scroll_keepCursorVisible_le, sized.cursorLine_lt_of_rows rows⟩⟩

/-- What accepting or rejecting at the cursor changes is a token that touches the cursor line. -/
theorem document_resolveAtCursor_cases (outcome : Outcome) :
    (v.resolveAtCursor outcome).document = v.document ∨
      ∃ m ∈ v.document.markup, v.document.Touches v.cursorLine m ∧
        (v.resolveAtCursor outcome).document = (v.document.resolve m outcome).1 := by
  unfold resolveAtCursor
  split
  · exact .inl rfl
  · next m found =>
      obtain ⟨touches, before, after, parts, -⟩ := markupUnderCursor?_eq_some_iff.mp found
      exact .inr ⟨m, parts ▸ List.mem_append_cons_self, touches, rfl⟩

end Draw

/-- A drawn viewer has the cursor between the line it is scrolled to and the last one there is room
    for. Its pane begins with the line of the scroll position counted in 16 bits, which is that line
    itself if the position fits. Each row shows its line, or nothing below the document. So the cursor
    line is on the screen as long as the scroll position fits, and only as long; accepting and
    rejecting changes a token on it. -/
theorem rows_draw {α : Type} [Coord α] (g : Typography) (v : Viewer α) (width height : Nat) :
    let pane := (Panes.ofSize width height).document.inner
    let drawn := (v.draw width height).2
    let row (k : Nat) : List Cell := (v.draw width height).1.rowOf g pane k
    let first := drawn.scroll % 65536
    (drawn.viewportHeight = pane.height ∧ (0 < drawn.viewportHeight →
      drawn.scroll ≤ drawn.cursorLine ∧ drawn.cursorLine < drawn.scroll + drawn.viewportHeight)) ∧
      (first = drawn.scroll ↔ drawn.scroll < 65536) ∧
      (∀ k < pane.height, ∀ line, (List.splitOn '\n' drawn.document.text)[first + k]? = some line →
        drawn.ShowsLine g (first + k) pane.width line (row k)) ∧
      (∀ k < pane.height, drawn.lineCount ≤ first + k →
        row k = List.replicate pane.width Cell.blank) ∧
      (0 < pane.height → pane.height ≤ 65536 →
        ((∃ k < pane.height, first + k = drawn.cursorLine) ↔ drawn.scroll < 65536)) ∧
      ∀ outcome, (drawn.resolveAtCursor outcome).document = drawn.document ∨
        ∃ m ∈ drawn.document.markup, drawn.document.Touches drawn.cursorLine m ∧
          (drawn.resolveAtCursor outcome).document = (drawn.document.resolve m outcome).1 := by
  intro pane drawn row first
  obtain ⟨sized, shown⟩ := v.cursorLine_draw_shown width height
  refine ⟨⟨sized, shown⟩, by omega, fun k within line here => ?_, fun k within beyond => ?_,
    fun rows few => ?_, drawn.document_resolveAtCursor_cases⟩
  · rw [← Text.lines_eq_splitOn] at here
    have drawnRow : row k = _ := drawn.rowOf_document g within
    rw [drawnRow]
    exact drawn.showsLine_documentLines g within here pane.width
  · have drawnRow : row k = _ := drawn.rowOf_document g within
    have none : (drawn.documentLines drawn.paneScroll pane.height)[k]? = none :=
      drawn.getElem?_documentLines_of_le beyond
    rw [drawnRow, none, Option.map_none, Option.getD_none, Cell.fit_nil]
  · have order : drawn.scroll ≤ drawn.cursorLine ∧ drawn.cursorLine < drawn.scroll + pane.height :=
      shown rows
    constructor
    · rintro ⟨k, within, here⟩
      omega
    · intro fits
      exact ⟨drawn.cursorLine - drawn.scroll, by omega, by omega⟩

/-- The cursor is on the second of two lines. A highlighted character of two columns keeps its own
    background there, a letter is shown with its mark, and of the last character, which would take
    one column too many, nothing is shown. -/
theorem rows_draw_of_two_lines :
    let line := Kind.highlight.wrap ['日'] ++ ['e', '\u0301', '本', '本', '本']
    let start : Viewer Exact :=
      ofDocument ['f'] (Document.ofText ("ab\n".toList ++ line)) Spacing.standard
    let v := Action.run start [.draw 24 6, .move 1]
    let g := Typography.standard
    let pane := (Panes.ofSize 24 6).document.inner
    let drawn := (v.draw 24 6).2
    let row (k : Nat) : List Cell := (v.draw 24 6).1.rowOf g pane k
    let first := drawn.scroll % 65536
    (0 < pane.height ∧ pane.height ≤ 65536 ∧ drawn.scroll < 65536 ∧
        drawn.lineCount ≤ first + 2) ∧
      (drawn.ShowsLine g (first + 1) pane.width line (row 1) ∧
        (row 1).flatMap Cell.symbol = (line.take 11) ++ [' '] ∧
        ∃ cell ∈ row 1, cell.style.background = some .darkGray) ∧
      row 2 = List.replicate pane.width Cell.blank ∧
      drawn.cursorLine < drawn.scroll + drawn.viewportHeight ∧
      ∃ k < pane.height, first + k = drawn.cursorLine := by
  intro line start v g pane drawn row first
  obtain ⟨⟨sized, shown⟩, -, lines, below, onScreen, -⟩ := v.rows_draw g 24 6
  have rows : 0 < pane.height := by decide
  have few : pane.height ≤ 65536 := by decide
  have fits : drawn.scroll < 65536 := by decide +kernel
  have beyond : drawn.lineCount ≤ first + 2 := by decide +kernel
  have here : (List.splitOn '\n' drawn.document.text)[first + 1]? = some line := by decide +kernel
  exact ⟨⟨rows, few, fits, beyond⟩,
    ⟨lines 1 (by decide) _ here, by decide +kernel, by decide +kernel⟩,
    below 2 (by decide) beyond, (shown rows).2, (onScreen rows few).mpr fits⟩

section Deep

/-- A letter behind empty lines. -/
def deepLetter (n : Nat) : Text := List.replicate n '\n' ++ ['Z']

theorem lines_deepLetter (n : Nat) :
    (deepLetter n).lines = List.replicate n [] ++ [['Z']] := by
  unfold deepLetter
  induction n with
  | zero => rfl
  | succ n ih =>
      have first : '\n' ∉ ([] : Text) := nofun
      rw [List.replicate_succ, List.replicate_succ, List.cons_append, List.cons_append, ← ih]
      exact Text.lines_append_newline first _

theorem getElem?_lines_deepLetter (n : Nat) : (deepLetter n).lines[n]? = some ['Z'] := by
  rw [lines_deepLetter, List.getElem?_append_right (by simp)]
  simp

theorem head?_lines_deepLetter {n : Nat} (pos : 0 < n) : (deepLetter n).lines[0]? = some [] := by
  rw [lines_deepLetter, List.getElem?_append_left (by simpa using pos)]
  simp [pos]

theorem cursorLine_draw_deepLetter {α : Type} [Coord α] (n width height : Nat) (path : Text)
    (spacing : Spacing α) :
    ((Action.run (ofDocument path (Document.ofText (deepLetter n)) spacing) [.move n]).draw
      width height).2.cursorLine = n := by
  have count : (ofDocument path (Document.ofText (deepLetter n)) spacing).lineCount = n + 1 := by
    rw [lineCount_eq_length]
    exact (congrArg List.length (lines_deepLetter n)).trans (by simp)
  change min (moved 0 n) (_ - 1) = n
  rw [count, moved]
  omega

end Deep

/-- Behind 65536 empty lines the cursor is on a letter, and the pane shows the first line, which is
    empty. -/
theorem rows_draw_ne_of_scroll_beyond :
    let start : Viewer Exact := ofDocument ['f'] (Document.ofText (deepLetter 65536)) Spacing.standard
    let v := Action.run start [.move (65536 : Nat)]
    let g := Typography.standard
    let pane := (Panes.ofSize 24 4).document.inner
    let drawn := (v.draw 24 4).2
    let row := (v.draw 24 4).1.rowOf g pane 0
    (drawn.cursorLine = 65536 ∧ drawn.scroll = 65536 ∧ 0 < pane.width ∧ 0 < pane.height) ∧
      (List.splitOn '\n' drawn.document.text)[drawn.scroll + 0]? = some ['Z'] ∧
      row.map Cell.symbol = List.replicate pane.width [' '] ∧
      ¬ drawn.ShowsLine g (drawn.scroll + 0) pane.width ['Z'] row := by
  intro start v g pane drawn row
  have cursor : drawn.cursorLine = 65536 :=
    cursorLine_draw_deepLetter 65536 24 4 ['f'] Spacing.standard
  obtain ⟨sized, shown⟩ := v.cursorLine_draw_shown 24 4
  have order : drawn.scroll ≤ drawn.cursorLine ∧ drawn.cursorLine < drawn.scroll + 1 :=
    shown (by rw [sized]; decide)
  have scroll : drawn.scroll = 65536 := by omega
  have within : 0 < pane.height := by decide
  have again : drawn.paneScroll + 0 = 0 := by
    rw [paneScroll, scroll]
  have top : drawn.document.text.lines[drawn.paneScroll + 0]? = some [] := by
    rw [again]
    exact head?_lines_deepLetter (by decide)
  have blank : row.map Cell.symbol = List.replicate pane.width [' '] := by
    obtain ⟨_, _, _, empty⟩ := drawn.showsLine_documentLines g within top pane.width
    have drawnRow : row = _ := drawn.rowOf_document g within
    rw [drawnRow, empty.printable nofun]
    decide
  refine ⟨⟨cursor, scroll, by decide, within⟩, ?_, blank, fun deep => ?_⟩
  · rw [← Text.lines_eq_splitOn, scroll]
    exact getElem?_lines_deepLetter 65536
  · obtain ⟨_, _, _, letter⟩ := deep
    have read := letter.printable (List.forall_mem_singleton.mpr rfl)
    rw [blank] at read
    revert read
    decide

end Viewer

end Marginalia
