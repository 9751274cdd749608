import Marginalia.Margin.Exact
import Marginalia.Proofs.Review.Soundness
import Marginalia.Proofs.Text.Lines
import Marginalia.Viewer.Basic

/-! # The line under the cursor

Lines are told in three ways: by the line ends in front of an offset, by the pieces of the text with
the bytes that each takes, and by the bytes of the cursor line that a token has to reach. All three
mean the same lines, so the token under the cursor is the first one that is on the cursor line by the
lines of its first and its last byte.
-/

namespace Marginalia

namespace Text

theorem getElem?_spansFrom (start : Nat) (lines : List Text) (k : Nat) :
    (spansFrom start lines)[k]? = lines[k]?.map fun line =>
      ⟨start + (ended (lines.take k)).byteLength,
        start + (ended (lines.take k)).byteLength + line.byteLength⟩ := by
  induction lines generalizing start k with
  | nil => rfl
  | cons first lines ih =>
      cases k with
      | zero => rfl
      | succ k =>
          have before : start + (ended ((first :: lines).take (k + 1))).byteLength =
              start + first.byteLength + 1 + (ended (lines.take k)).byteLength := by
            have newline : ('\n' : Char).utf8Size = 1 := by decide
            simp [ended, byteLength_append, newline]
            omega
          rw [spansFrom, List.getElem?_cons_succ, List.getElem?_cons_succ, ih, before]

/-- The bytes of a line cut it out of the text behind the lines before it. -/
theorem exists_cuts_lineSpans {t line : Text} {k : Nat} (here : t.lines[k]? = some line) :
    ∃ range after, t.lineSpans[k]? = some range ∧
      t.IsLine k (ended (t.lines.take k)) line after ∧
      range.Cuts t (ended (t.lines.take k)) line after := by
  obtain ⟨after, found⟩ := exists_isLine here
  let start := (ended (t.lines.take k)).byteLength
  refine ⟨⟨start, start + line.byteLength⟩, after, ?_, found, found.parts, rfl, rfl⟩
  rw [lineSpans, getElem?_spansFrom, here, Option.map_some, Nat.zero_add]

theorem IsLine.lineOf?_eq_some_iff {t before line after : Text} {k offset : Nat}
    (h : t.IsLine k before line after) (boundary : t.isBoundary offset) :
    t.lineOf? offset = some k ↔
      before.byteLength ≤ offset ∧ offset ≤ before.byteLength + line.byteLength := by
  obtain ⟨front, rest, same, rfl⟩ := isBoundary_iff.mp boundary
  have here : t.lineOf? front.byteLength = some (newlines front) := by
    rw [same, lineOf?_append]
  rw [here, Option.some.injEq, Nat.eq_iff_le_and_ge, h.newlines_le_iff same,
    h.le_newlines_iff same, And.comm]

end Text

namespace Document

variable {d : Document} {m : Markup} {line : Nat}

theorem lineOf?_of_isBoundary {offset : Nat} (boundary : d.text.isBoundary offset) :
    d.lineOf? offset = d.text.lineOf? offset := by
  rw [lineOf?, length, Nat.min_eq_left (Text.le_byteLength_of_isBoundary boundary)]

theorem lineOf?_byteLength {front rest : Text} (parts : d.text = front ++ rest) :
    d.lineOf? front.byteLength = some (Text.newlines front) := by
  have boundary : d.text.isBoundary front.byteLength :=
    Text.isBoundary_iff.mpr ⟨front, rest, parts, rfl⟩
  rw [lineOf?_of_isBoundary boundary, parts, Text.lineOf?_append]

/-- The token begins on the line or before it, and its last byte is on the line or behind it. -/
def Touches (d : Document) (line : Nat) (m : Markup) : Prop :=
  ∃ first last, d.lineOf? m.full.start = some first ∧ d.lineOf? (m.full.stop - 1) = some last ∧
    first ≤ line ∧ line ≤ last

/-- Every token ends with a brace, and so its last byte is a character. -/
theorem exists_cut_before_brace (mem : m ∈ d.markup) :
    ∃ front body rest, d.text = front ++ body ++ '}' :: rest ∧ front.byteLength = m.full.start ∧
      front.byteLength + body.byteLength + 1 = m.full.stop := by
  obtain ⟨lead, rebuilt, -⟩ := (Markup.liesIn_of_mem_parse mem).rebuilt
  obtain ⟨front, rest, parts, starts, stops⟩ := Text.slice?_eq_some_iff.mp rebuilt
  have closes : m.kind.closer = m.kind.closer.take 2 ++ ['}'] := by cases m.kind <;> rfl
  have brace : ('}' : Char).utf8Size = 1 := by decide
  refine ⟨front, m.kind.opener ++ (lead ++ m.content) ++ m.kind.closer.take 2, rest, ?_, starts, ?_⟩
  · rw [parts, Markup.written, closes]
    simp
  · rw [← stops, ← starts, Markup.written, closes]
    simp [Text.byteLength_append, brace]
    omega

section Cut

variable {front body rest : Text}

theorem lineOf?_start_of_cut (parts : d.text = front ++ body ++ rest)
    (starts : front.byteLength = m.full.start) :
    d.lineOf? m.full.start = some (Text.newlines front) := by
  rw [← starts]
  exact lineOf?_byteLength (parts.trans (List.append_assoc _ _ _))

theorem lineOf?_last_of_cut (parts : d.text = front ++ body ++ rest)
    (stops : front.byteLength + body.byteLength + 1 = m.full.stop) :
    d.lineOf? (m.full.stop - 1) = some (Text.newlines (front ++ body)) := by
  rw [← stops, Nat.add_sub_cancel, ← Text.byteLength_append]
  exact lineOf?_byteLength parts

theorem touches_iff_of_cut (parts : d.text = front ++ body ++ rest)
    (starts : front.byteLength = m.full.start)
    (stops : front.byteLength + body.byteLength + 1 = m.full.stop) :
    d.Touches line m ↔
      Text.newlines front ≤ line ∧ line ≤ Text.newlines (front ++ body) := by
  simp [Touches, lineOf?_start_of_cut parts starts, lineOf?_last_of_cut parts stops]

end Cut

end Document

namespace Viewer

variable {α : Type} {v : Viewer α} {m : Markup} {line : Text}

theorem exists_isLine_cursorSpan
    (here : v.document.text.lines[v.cursorLine]? = some line) :
    v.document.text.lineSpans[v.cursorLine]? = some v.cursorSpan ∧
      ∃ after, v.document.text.IsLine v.cursorLine
          (Text.ended (v.document.text.lines.take v.cursorLine)) line after ∧
        v.cursorSpan.Cuts v.document.text
          (Text.ended (v.document.text.lines.take v.cursorLine)) line after := by
  obtain ⟨range, after, span, found, cut⟩ := Text.exists_cuts_lineSpans here
  have cursor : v.cursorSpan = range := by rw [cursorSpan, span, Option.getD_some]
  rw [cursor]
  exact ⟨span, after, found, cut⟩

theorem cursorSpan_of_none (beyond : v.document.text.lines[v.cursorLine]? = none) :
    v.cursorSpan = ⟨v.document.length, v.document.length⟩ := by
  rw [cursorSpan, Text.lineSpans, Text.getElem?_spansFrom, beyond, Option.map_none,
    Option.getD_none]

/-- A token reaches the bytes of the cursor line when it touches the line. -/
theorem touches_cursorLine_iff (mem : m ∈ v.document.markup) :
    v.document.Touches v.cursorLine m ↔
      m.full.start ≤ v.cursorSpan.stop ∧ v.cursorSpan.start < m.full.stop := by
  obtain ⟨front, body, rest, parts, starts, stops⟩ := Document.exists_cut_before_brace mem
  rw [Document.touches_iff_of_cut parts starts stops]
  cases here : v.document.text.lines[v.cursorLine]? with
  | some line =>
      obtain ⟨-, after, found, cut⟩ := exists_isLine_cursorSpan here
      have begins : v.document.text = front ++ (body ++ '}' :: rest) := by
        rw [parts, List.append_assoc]
      rw [found.newlines_le_iff begins, found.le_newlines_iff parts, cut.starts, cut.stops, starts,
        Text.byteLength_append]
      omega
  | none =>
      -- There is no such line, so all the text is above it, and every token ends by its end.
      have above : Text.newlines v.document.text < v.cursorLine := by
        have count := List.getElem?_eq_none_iff.mp here
        rwa [Text.length_lines] at count
      have before : Text.newlines (front ++ body) ≤ Text.newlines v.document.text := by
        rw [parts, Text.newlines_append (front ++ body)]
        exact Nat.le_add_right _ _
      have ends : m.full.stop ≤ v.document.length := by
        have whole := congrArg Text.byteLength parts
        have brace := ('}' : Char).utf8Size_pos
        rw [Text.byteLength_append, Text.byteLength_append, Text.byteLength_cons] at whole
        rw [Document.length, whole, ← stops]
        omega
      rw [cursorSpan_of_none here]
      exact iff_of_false (fun touches => by omega) fun reaches => Nat.not_lt.mpr ends reaches.2

/-- The first token that touches the cursor line is the one under the cursor. -/
theorem markupUnderCursor?_eq_some_iff :
    v.markupUnderCursor? = some m ↔
      v.document.Touches v.cursorLine m ∧
        ∃ before after, v.document.markup = before ++ m :: after ∧
          ∀ other ∈ before, ¬ v.document.Touches v.cursorLine other := by
  simp only [markupUnderCursor?, List.find?_eq_some_iff_append, Bool.not_eq_true',
    ← Bool.not_eq_true, Bool.and_eq_true, decide_eq_true_eq]
  constructor
  · intro h
    obtain ⟨reaches, before, after, parts, passed⟩ := h
    have mem : m ∈ v.document.markup := parts ▸ List.mem_append_cons_self
    refine ⟨(touches_cursorLine_iff mem).mpr reaches, before, after, parts, fun other earlier => ?_⟩
    rw [touches_cursorLine_iff (parts ▸ List.mem_append_left _ earlier)]
    exact passed other earlier
  · intro h
    obtain ⟨touches, before, after, parts, passed⟩ := h
    have mem : m ∈ v.document.markup := parts ▸ List.mem_append_cons_self
    refine ⟨(touches_cursorLine_iff mem).mp touches, before, after, parts, fun other earlier => ?_⟩
    rw [← touches_cursorLine_iff (parts ▸ List.mem_append_left _ earlier)]
    exact passed other earlier

theorem markupUnderCursor?_eq_none_iff :
    v.markupUnderCursor? = none ↔
      ∀ m ∈ v.document.markup, ¬ v.document.Touches v.cursorLine m := by
  rw [markupUnderCursor?, List.find?_eq_none]
  refine forall₂_congr fun m mem => ?_
  rw [touches_cursorLine_iff mem]
  simp

/-- The cursor is on `line`, the piece of that number. The span of the cursor line is the one of that
    number among the spans of the lines, and it cuts `line` out of the text behind the pieces before
    it. The boundaries on the line are those in the span, its end among them. -/
structure CursorOn (v : Viewer α) (line : Text) : Prop where
  piece : (List.splitOn '\n' v.document.text)[v.cursorLine]? = some line
  span : v.document.text.lineSpans[v.cursorLine]? = some v.cursorSpan
  cut : ∃ after, v.cursorSpan.Cuts v.document.text
    (Text.ended ((List.splitOn '\n' v.document.text).take v.cursorLine)) line after
  offsets : ∀ offset, v.document.text.isBoundary offset →
    (v.document.lineOf? offset = some v.cursorLine ↔
      v.cursorSpan.start ≤ offset ∧ offset ≤ v.cursorSpan.stop)

theorem cursorOn_of_getElem? (here : v.document.text.lines[v.cursorLine]? = some line) :
    v.CursorOn line := by
  obtain ⟨span, after, found, cut⟩ := exists_isLine_cursorSpan here
  refine ⟨?_, span, ⟨after, ?_⟩, fun offset boundary => ?_⟩
  · rwa [← Text.lines_eq_splitOn]
  · rwa [← Text.lines_eq_splitOn]
  · rw [Document.lineOf?_of_isBoundary boundary, found.lineOf?_eq_some_iff boundary, ← cut.stops,
      ← cut.starts]

theorem lineCount_eq_length (v : Viewer α) : v.lineCount = v.document.text.lines.length :=
  (Text.length_lines v.document.text).symm

/-- All ways to tell lines agree. There is a line for every piece of the text; a cursor in front of
    their number is on its piece; every token has a line where it begins and one where it ends; and
    under the cursor is the first token that touches the cursor line, or none when no token does. -/
theorem cursorLine_and_markup (v : Viewer α) :
    (v.lineCount = (List.splitOn '\n' v.document.text).length ∧
        ∃ last, v.document.lineOf? v.document.length = some last ∧ v.lineCount = last + 1) ∧
      (v.cursorLine < v.lineCount → ∃ line, v.CursorOn line) ∧
      (∀ m ∈ v.document.markup, m.full.start < m.full.stop ∧
        ∃ first last, v.document.lineOf? m.full.start = some first ∧
          v.document.lineOf? (m.full.stop - 1) = some last ∧ first ≤ last) ∧
      (∀ m, v.markupUnderCursor? = some m ↔
        v.document.Touches v.cursorLine m ∧
          ∃ before after, v.document.markup = before ++ m :: after ∧
            ∀ other ∈ before, ¬ v.document.Touches v.cursorLine other) ∧
      (v.markupUnderCursor? = none ↔
        ∀ m ∈ v.document.markup, ¬ v.document.Touches v.cursorLine m) := by
  refine ⟨⟨?_, ?_⟩, fun within => ?_, fun m mem => ?_, fun m => markupUnderCursor?_eq_some_iff,
    markupUnderCursor?_eq_none_iff⟩
  · rw [lineCount_eq_length, Text.lines_eq_splitOn]
  · exact ⟨_, Document.lineOf?_byteLength (List.append_nil _).symm, rfl⟩
  · rw [lineCount_eq_length] at within
    exact ⟨_, cursorOn_of_getElem? (List.getElem?_eq_getElem within)⟩
  · obtain ⟨front, body, rest, parts, starts, stops⟩ := Document.exists_cut_before_brace mem
    refine ⟨by omega, _, _, Document.lineOf?_start_of_cut parts starts,
      Document.lineOf?_last_of_cut parts stops, ?_⟩
    rw [Text.newlines_append]
    exact Nat.le_add_right _ _

/-- Behind a line with a carriage return and an empty one stands a deletion over two lines, with an
    accented letter on the second. The cursor there is on that line and the deletion under it; on the
    empty line nothing is. -/
theorem cursorLine_and_markup_over_two_lines :
    let text := ['a', '\r', '\n', '\n'] ++ Kind.deletion.wrap ['b', '\n', 'é'] ++ ['\n']
    let v (line : Nat) : Viewer Exact :=
      { ofDocument ['f'] (Document.ofText text) Spacing.standard with cursorLine := line }
    (3 < (v 3).lineCount ∧ ∃ line, (v 3).CursorOn line) ∧
      (∃ m, (v 3).markupUnderCursor? = some m ∧ (v 3).document.Touches 3 m) ∧
      (v 1).markupUnderCursor? = none ∧
      ∀ m ∈ (v 1).document.markup, ¬ (v 1).document.Touches 1 m := by
  intro text v
  obtain ⟨-, on, -, under, -⟩ := cursorLine_and_markup (v 3)
  obtain ⟨-, -, -, -, nothing⟩ := cursorLine_and_markup (v 1)
  have within : 3 < (v 3).lineCount := by decide +kernel
  have found : (v 3).markupUnderCursor?.isSome := by decide +kernel
  have empty : (v 1).markupUnderCursor?.isNone := by decide +kernel
  obtain ⟨m, here⟩ := Option.isSome_iff_exists.mp found
  have none := Option.isNone_iff_eq_none.mp empty
  exact ⟨⟨within, on within⟩, ⟨m, here, ((under m).mp here).1⟩, none, nothing.mp none⟩

end Viewer

end Marginalia
