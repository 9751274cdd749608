import Marginalia.Proofs.Viewer.CursorLine
import Marginalia.Text.Cursor
import Marginalia.Viewer.Highlight

/-! # Highlighting loses nothing

A line is cut where a token begins or ends on it. Tokens ascend and begin and end between characters,
so the cuts are in order and none is within a character. The pieces, put together again, are the
line, and each has the look of the token that it is part of, or none.
-/

namespace Marginalia

/-- The style of the stretch that byte `n` of some stretches lies in. -/
def Styled.styleAt? : List Styled → Nat → Option Style
  | [], _ => none
  | s :: rest, n =>
    if n < s.text.byteLength then some s.style else styleAt? rest (n - s.text.byteLength)

namespace Text

variable {t inside : Text} {first last : Nat}

theorem exists_slice? (starts : t.isBoundary first) (stops : t.isBoundary last)
    (le : first ≤ last) :
    ∃ inside, t.slice? ⟨first, last⟩ = some inside ∧ first + inside.byteLength = last ∧
      t.dropWithin first = inside ++ t.dropWithin last := by
  obtain ⟨front, rest, rfl, rfl⟩ := isBoundary_iff.mp starts
  obtain ⟨front', rest', same, rfl⟩ := isBoundary_iff.mp stops
  obtain ⟨inside, rfl, rfl⟩ := exists_between same le
  refine ⟨inside, slice?_eq_some_iff.mpr ⟨front, rest', by simp, rfl, ?_⟩, ?_, ?_⟩
  · rw [byteLength_append]
  · rw [byteLength_append]
  · rw [dropWithin_append, ← List.append_assoc, dropWithin_append]

end Text

namespace Markup

/-- Look of byte `offset` of a document with these tokens. -/
def styleAt (ms : List Markup) (offset : Nat) : Style :=
  ((ms.find? (·.covers offset)).map (·.kind.style)).getD {}

section StyleAt

variable {ms : List Markup} {m : Markup} {offset : Nat}

theorem styleAt_of_not_covered (none : ∀ m ∈ ms, ¬ m.covers offset) : styleAt ms offset = {} := by
  rw [styleAt, List.find?_eq_none.mpr none]
  rfl

theorem styleAt_cons_of_covers (here : m.covers offset) :
    styleAt (m :: ms) offset = m.kind.style := by
  simp [styleAt, here]

theorem styleAt_cons_of_not_covers (elsewhere : ¬ m.covers offset) :
    styleAt (m :: ms) offset = styleAt ms offset := by
  simp [styleAt, elsewhere]

theorem styleAt_of_mem (ascending : ms.Pairwise fun a b => a.full.stop ≤ b.full.start)
    (mem : m ∈ ms) (here : m.covers offset) : styleAt ms offset = m.kind.style := by
  induction ms with
  | nil => cases mem
  | cons a ms ih =>
      obtain ⟨before, ascending⟩ := List.pairwise_cons.mp ascending
      rcases List.mem_cons.mp mem with rfl | later
      · exact styleAt_cons_of_covers here
      · have behind := before m later
        rw [styleAt_cons_of_not_covers, ih ascending later]
        rw [covers_iff] at here ⊢
        omega

theorem styleAt_eq_style_iff (ascending : ms.Pairwise fun a b => a.full.stop ≤ b.full.start)
    (k : Kind) : styleAt ms offset = k.style ↔ ∃ m ∈ ms, m.covers offset ∧ m.kind = k := by
  constructor
  · intro look
    by_cases covered : ∃ m ∈ ms, m.covers offset
    · obtain ⟨m, mem, here⟩ := covered
      rw [styleAt_of_mem ascending mem here] at look
      exact ⟨m, mem, here, Kind.style_injective look⟩
    · rw [styleAt_of_not_covered fun m mem here => covered ⟨m, mem, here⟩] at look
      exact absurd look.symm k.style_ne_plain
  · rintro ⟨m, mem, here, rfl⟩
    exact styleAt_of_mem ascending mem here

theorem styleAt_eq_plain_iff (ascending : ms.Pairwise fun a b => a.full.stop ≤ b.full.start) :
    styleAt ms offset = {} ↔ ∀ m ∈ ms, ¬ m.covers offset := by
  refine ⟨fun look m mem here => ?_, styleAt_of_not_covered⟩
  rw [styleAt_of_mem ascending mem here] at look
  exact m.kind.style_ne_plain look

/-- In front of the first token the look is plain. -/
theorem styleAt_of_lt (ascending : (m :: ms).Pairwise fun a b => a.full.stop ≤ b.full.start)
    (long : m.full.start ≤ m.full.stop) (before : offset < m.full.start) :
    styleAt (m :: ms) offset = {} := by
  refine styleAt_of_not_covered (List.forall_mem_cons.mpr ⟨?_, fun b later => ?_⟩)
  · rw [covers_iff]
    omega
  · have behind := (List.pairwise_cons.mp ascending).1 b later
    rw [covers_iff]
    omega

theorem styleAt_cons_of_not_touches {range : Span} (apart : ¬ m.touchesLine range)
    (first : range.start ≤ offset) (last : offset < range.stop) :
    styleAt (m :: ms) offset = styleAt ms offset := by
  refine styleAt_cons_of_not_covers fun here => ?_
  simp [touchesLine, covers_iff] at apart here
  omega

end StyleAt

/-- From byte `done` on the line that takes the bytes of `range` can be cut at the tokens that are
    left: they ascend, none begins before `done`, and on the line they begin and end between
    characters. -/
structure Fits (line : Text) (range : Span) (done : Nat) (ms : List Markup) : Prop where
  bytes : range.stop = range.start + line.byteLength
  within : range.start ≤ done ∧ done ≤ range.stop
  boundary : line.isBoundary (done - range.start)
  ascending : ms.Pairwise fun a b => a.full.stop ≤ b.full.start
  onward : ∀ m ∈ ms, done ≤ max m.full.start range.start
  cuts : ∀ m ∈ ms, m.touchesLine range →
    m.full.start < m.full.stop ∧
      line.isBoundary (max m.full.start range.start - range.start) ∧
      line.isBoundary (min m.full.stop range.stop - range.start)

namespace Fits

variable {line : Text} {range : Span} {done : Nat} {m : Markup} {ms : List Markup}

theorem skip (h : Fits line range done (m :: ms)) : Fits line range done ms where
  bytes := h.bytes
  within := h.within
  boundary := h.boundary
  ascending := h.ascending.of_cons
  onward b mem := h.onward b (List.mem_cons_of_mem m mem)
  cuts b mem := h.cuts b (List.mem_cons_of_mem m mem)

theorem first_le_last (h : Fits line range done (m :: ms)) (touches : m.touchesLine range) :
    range.start ≤ done ∧ done ≤ max m.full.start range.start ∧
      max m.full.start range.start ≤ min m.full.stop range.stop := by
  obtain ⟨long, -, -⟩ := h.cuts m List.mem_cons_self touches
  have onward := h.onward m List.mem_cons_self
  have within := h.within
  simp [touchesLine] at touches
  omega

theorem next (h : Fits line range done (m :: ms)) (touches : m.touchesLine range) :
    Fits line range (min m.full.stop range.stop) ms where
  bytes := h.bytes
  within := by
    have order := h.first_le_last touches
    omega
  boundary := (h.cuts m List.mem_cons_self touches).2.2
  ascending := h.ascending.of_cons
  onward b mem := by
    have behind := (List.pairwise_cons.mp h.ascending).1 b mem
    omega
  cuts := h.skip.cuts

end Fits

/-- What is between two places on a line is one plain stretch, or none when the places are the
    same. -/
theorem exists_gap {line : Text} {start first last : Nat} (starts : line.isBoundary (first - start))
    (stops : line.isBoundary (last - start)) (from_start : start ≤ first) (le : first ≤ last) :
    ∃ gap : List Styled,
      (if first < last then
        (line.slice? ⟨first - start, last - start⟩).map fun t => [Styled.plain t]
      else some []) = some gap ∧
      line.dropWithin (first - start) = gap.flatMap Styled.text ++ line.dropWithin (last - start) ∧
      ∀ rest n, Styled.styleAt? (gap ++ rest) n =
        if n < last - first then some {} else Styled.styleAt? rest (n - (last - first)) := by
  by_cases empty : first = last
  · subst empty
    exact ⟨[], by simp, by simp, by simp⟩
  · obtain ⟨inside, sliced, size, parts⟩ := Text.exists_slice? starts stops (by omega)
    have between : inside.byteLength = last - first := by omega
    refine ⟨[Styled.plain inside], ?_, ?_, fun rest n => ?_⟩
    · rw [if_pos (by omega), sliced, Option.map_some]
    · simpa [Styled.plain] using parts
    · simp [Styled.plain, Styled.styleAt?, between]

theorem highlightFrom?_of_touches {line own : Text} {range : Span} {done : Nat} {m : Markup}
    {ms : List Markup} {gap stretches : List Styled} (touches : m.touchesLine range)
    (before : (if done < max m.full.start range.start then
        (line.slice? ⟨done - range.start, max m.full.start range.start - range.start⟩).map
          fun t => [Styled.plain t]
      else some []) = some gap)
    (sliced : line.slice? ⟨max m.full.start range.start - range.start,
      min m.full.stop range.stop - range.start⟩ = some own)
    (rest : highlightFrom? line range (min m.full.stop range.stop) ms = some stretches) :
    highlightFrom? line range done (m :: ms) =
      some (gap ++ ⟨own, m.kind.style⟩ :: stretches) := by
  simp only [highlightFrom?, if_pos touches, sliced, rest]
  split at before
  · next later =>
      rw [if_pos later, before]
      rfl
  · next here =>
      obtain rfl := Option.some.inj before
      rw [if_neg here]
      rfl

/-- A byte of the line lies in the gap in front of a token, in the token, or behind it. -/
theorem Fits.styleAt?_append {line own : Text} {range : Span} {done offset : Nat} {m : Markup}
    {ms : List Markup} {gap stretches : List Styled} (h : Fits line range done (m :: ms))
    (touches : m.touchesLine range)
    (between : ∀ rest n, Styled.styleAt? (gap ++ rest) n =
      if n < max m.full.start range.start - done then some {}
      else Styled.styleAt? rest (n - (max m.full.start range.start - done)))
    (size : max m.full.start range.start - range.start + own.byteLength =
      min m.full.stop range.stop - range.start)
    (behind : ∀ offset, min m.full.stop range.stop ≤ offset → offset < range.stop →
      Styled.styleAt? stretches (offset - min m.full.stop range.stop) = some (styleAt ms offset))
    (first : done ≤ offset) (last : offset < range.stop) :
    Styled.styleAt? (gap ++ ⟨own, m.kind.style⟩ :: stretches) (offset - done) =
      some (styleAt (m :: ms) offset) := by
  obtain ⟨long, -, -⟩ := h.cuts m List.mem_cons_self touches
  obtain ⟨fromStart, onward, ordered⟩ := h.first_le_last touches
  rw [between]
  rcases Nat.lt_or_ge offset (max m.full.start range.start) with inGap | begun
  · rw [if_pos (by omega), styleAt_of_lt h.ascending (Nat.le_of_lt long) (by omega)]
  rw [if_neg (by omega), Styled.styleAt?]
  rcases Nat.lt_or_ge offset (min m.full.stop range.stop) with inside | past
  · rw [if_pos (by dsimp only; omega), styleAt_cons_of_covers (covers_iff.mpr (by omega))]
  · have place : offset - done - (max m.full.start range.start - done) - own.byteLength =
        offset - min m.full.stop range.stop := by omega
    rw [if_neg (by dsimp only; omega), place, behind offset past last,
      styleAt_cons_of_not_covers (mt covers_iff.mp (by omega))]

theorem exists_highlightFrom? {line : Text} {range : Span} {done : Nat} {ms : List Markup}
    (h : Fits line range done ms) :
    ∃ stretches, highlightFrom? line range done ms = some stretches ∧
      stretches.flatMap Styled.text = line.dropWithin (done - range.start) ∧
      ∀ offset, done ≤ offset → offset < range.stop →
        Styled.styleAt? stretches (offset - done) = some (styleAt ms offset) := by
  induction ms generalizing done with
  | nil =>
      have bytes := h.bytes
      have stops : line.isBoundary (range.stop - range.start) := by
        rw [bytes, Nat.add_sub_cancel_left]
        simpa using Text.isBoundary_append line []
      have nothing : line.dropWithin (range.stop - range.start) = [] := by
        rw [bytes, Nat.add_sub_cancel_left]
        simpa using Text.dropWithin_append line []
      obtain ⟨gap, made, parts, styles⟩ :=
        exists_gap h.boundary stops h.within.1 h.within.2
      refine ⟨gap, made, ?_, fun offset first last => ?_⟩
      · rw [parts, nothing, List.append_nil]
      · rw [← List.append_nil gap, styles, if_pos (by omega)]
        rfl
  | cons m ms ih =>
      by_cases touches : m.touchesLine range
      · obtain ⟨stretches, rest, whole, behind⟩ := ih (h.next touches)
        obtain ⟨-, starts, stops⟩ := h.cuts m List.mem_cons_self touches
        obtain ⟨fromStart, onward, ordered⟩ := h.first_le_last touches
        obtain ⟨gap, before, parts, between⟩ := exists_gap h.boundary starts fromStart onward
        obtain ⟨own, sliced, size, parts'⟩ := Text.exists_slice? starts stops (by omega)
        refine ⟨gap ++ ⟨own, m.kind.style⟩ :: stretches,
          highlightFrom?_of_touches touches before sliced rest, ?_,
          fun offset first last => h.styleAt?_append touches between size behind first last⟩
        rw [parts, parts', ← whole]
        simp
      · obtain ⟨stretches, rest, whole, behind⟩ := ih h.skip
        refine ⟨stretches, ?_, whole, fun offset first last => ?_⟩
        · rw [highlightFrom?, if_neg touches, rest]
        · have onLine := Nat.le_trans h.within.1 first
          rw [behind offset first last, styleAt_cons_of_not_touches touches onLine last]

section Lines

variable {t front line rest : Text} {range : Span}

theorem touchesLine_iff {m : Markup} :
    m.touchesLine range ↔ m.full.start < range.stop ∧ range.start < m.full.stop := by
  simp [touchesLine]

/-- The tokens of a text fit any piece of it. -/
theorem fits_of_cuts (cut : range.Cuts t front line rest) :
    Fits line range range.start (parse t) where
  bytes := cut.stops.symm
  within := ⟨Nat.le_refl _, cut.start_le_stop⟩
  boundary := by
    rw [Nat.sub_self]
    exact Text.isBoundary_append [] line
  ascending := by
    rw [parse_eq]
    exact pairwise_parseAfresh 0 t
  onward m mem := Nat.le_max_right _ _
  cuts m mem touches := by
    obtain ⟨reaches, begins⟩ := touchesLine_iff.mp touches
    obtain ⟨starts, stops⟩ := (liesIn_of_mem_parse mem).full_boundaries
    rw [parse_eq] at mem
    obtain ⟨-, long, -⟩ := bounds_of_mem_parseAfresh mem
    have size := cut.stops
    -- A boundary of the text up to the end of the piece is one of the piece.
    have inLine {offset : Nat} (boundary : t.isBoundary offset) (le : offset ≤ range.stop) :
        line.isBoundary (offset - range.start) := by
      rw [cut.parts, List.append_assoc] at boundary
      have behind := Text.isBoundary_sub_of_append boundary
      rw [cut.starts] at behind
      exact Text.isBoundary_of_append behind (by omega)
    refine ⟨long, inLine ?_ (by omega), inLine ?_ (Nat.min_le_right _ _)⟩
    · rcases Nat.le_total m.full.start range.start with le | le
      · rw [Nat.max_eq_right le]
        exact cut.isBoundary.1
      · rwa [Nat.max_eq_left le]
    · rcases Nat.le_total m.full.stop range.stop with le | le
      · rwa [Nat.min_eq_left le]
      · rw [Nat.min_eq_right le]
        exact cut.isBoundary.2

section Checked

/-- The stretches of a line, each cut out by its place in the document; nothing if a place is in front
    of the line. -/
def highlightChecked? (line : Text) (range : Span) (done : Nat) :
    List Markup → Option (List Styled)
  | [] =>
    if done < range.stop then
      (Cursor.textUnder? ⟨line, range.start, 0⟩ ⟨done, range.stop⟩).map fun t => [Styled.plain t]
    else some []
  | m :: rest =>
    if m.touchesLine range then do
      let first := max m.full.start range.start
      let last := min m.full.stop range.stop
      let before ←
        if done < first then
          (Cursor.textUnder? ⟨line, range.start, 0⟩ ⟨done, first⟩).map fun t => [Styled.plain t]
        else some []
      let own ← Cursor.textUnder? ⟨line, range.start, 0⟩ ⟨first, last⟩
      let after ← highlightChecked? line range last rest
      return before ++ ⟨own, m.kind.style⟩ :: after
    else highlightChecked? line range done rest

theorem textUnder?_of_le {start first last : Nat} (from_start : start ≤ first)
    (to_stop : start ≤ last) :
    Cursor.textUnder? ⟨line, start, 0⟩ ⟨first, last⟩ = line.slice? ⟨first - start, last - start⟩ :=
  if_pos ⟨from_start, to_stop⟩

/-- Every place that is asked for is on the line. -/
theorem highlightChecked?_eq {done : Nat} (ordered : range.start ≤ range.stop)
    (onLine : range.start ≤ done) (ms : List Markup) :
    highlightChecked? line range done ms = highlightFrom? line range done ms := by
  induction ms generalizing done with
  | nil => simp only [highlightChecked?, highlightFrom?, textUnder?_of_le onLine ordered]
  | cons m ms ih =>
      by_cases touches : m.touchesLine range
      · have first : range.start ≤ max m.full.start range.start := Nat.le_max_right _ _
        have last : range.start ≤ min m.full.stop range.stop :=
          Nat.le_min.mpr ⟨Nat.le_of_lt (touchesLine_iff.mp touches).2, ordered⟩
        simp only [highlightChecked?, highlightFrom?, textUnder?_of_le onLine first,
          textUnder?_of_le first last, ih last, if_pos touches]
      · rw [highlightChecked?, highlightFrom?, if_neg touches, if_neg touches, ih onLine]

end Checked

/-- What highlighting a line comes to: the stretches are the line, each byte in the look of the
    tokens there. -/
structure Highlighted (ms : List Markup) (line : Text) (start : Nat) (stretches : List Styled) :
    Prop where
  made : highlight? line start ms = some stretches
  whole : stretches.flatMap Styled.text = line
  styles : ∀ offset, start ≤ offset → offset < start + line.byteLength →
    Styled.styleAt? stretches (offset - start) = some (styleAt ms offset)

theorem exists_highlighted (cut : range.Cuts t front line rest) :
    ∃ stretches, Highlighted (parse t) line range.start stretches := by
  obtain ⟨stretches, made, whole, styles⟩ := exists_highlightFrom? (fits_of_cuts cut)
  refine ⟨stretches, ?_, ?_, ?_⟩
  · rw [highlight?, cut.stops]
    exact made
  · rw [whole, Nat.sub_self]
    simpa using Text.dropWithin_append [] line
  · rw [cut.stops]
    exact styles

end Lines

/-- Every line of a text can be highlighted with the tokens of the text, from the byte where the
    viewer counts it to begin, and no place in front of the line is ever asked for. The stretches put
    together are the line; a byte of it is in a stretch of a kind's style just if a token of that kind
    covers it, and in a plain one just if no token does. -/
theorem highlight?_line {t line : Text} {k : Nat}
    (here : (List.splitOn '\n' t)[k]? = some line) :
    let start := (Text.ended ((List.splitOn '\n' t).take k)).byteLength
    t.lineSpans[k]? = some ⟨start, start + line.byteLength⟩ ∧
      ∃ stretches, highlight? line start (parse t) = some stretches ∧
        highlightChecked? line ⟨start, start + line.byteLength⟩ start (parse t) = some stretches ∧
        stretches.flatMap Styled.text = line ∧
        ∀ offset, start ≤ offset → offset < start + line.byteLength →
          (∀ k : Kind, Styled.styleAt? stretches (offset - start) = some k.style ↔
            ∃ m ∈ parse t, m.covers offset ∧ m.kind = k) ∧
          (Styled.styleAt? stretches (offset - start) = some {} ↔
            ∀ m ∈ parse t, ¬ m.covers offset) := by
  intro start
  rw [← Text.lines_eq_splitOn] at here
  obtain ⟨range, rest, span, -, cut⟩ := Text.exists_cuts_lineSpans here
  obtain ⟨stretches, made, whole, styles⟩ := exists_highlighted cut
  have begins : range.start = start := by rw [← cut.starts, Text.lines_eq_splitOn]
  have ascending := (fits_of_cuts cut).ascending
  rw [begins] at made styles
  refine ⟨?_, stretches, made, ?_, whole,
    fun offset first last => ?_⟩
  · rw [span, ← begins, cut.stops]
  · rw [highlightChecked?_eq (Nat.le_add_right _ _) (Nat.le_refl _)]
    exact made
  · simp only [styles offset first last, Option.some.injEq]
    exact ⟨styleAt_eq_style_iff ascending, styleAt_eq_plain_iff ascending⟩

/-- A comment over three lines, the middle one empty, touches an addition on the last line. -/
theorem highlight?_line_behind_empty :
    let t := ['x'] ++ Kind.comment.wrap ['é', '\n', '\n', 'b'] ++ Kind.addition.wrap ['y'] ++ ['z']
    let line := "b<<\x7d\x7b++y++\x7dz".toList
    ((List.splitOn '\n' t)[1]? = some [] ∧ (List.splitOn '\n' t)[2]? = some line) ∧
      (∃ stretches, highlight? [] 7 (parse t) = some stretches ∧
        stretches.flatMap Styled.text = []) ∧
      ∃ stretches, highlight? line 8 (parse t) = some stretches ∧
        stretches.flatMap Styled.text = line ∧
        Styled.styleAt? stretches 3 = some Kind.comment.style ∧
        Styled.styleAt? stretches 4 = some Kind.addition.style ∧
        Styled.styleAt? stretches 11 = some {} := by
  intro t line
  have empty : (List.splitOn '\n' t)[1]? = some [] := by decide +kernel
  have last : (List.splitOn '\n' t)[2]? = some line := by decide +kernel
  have before : (Text.ended ((List.splitOn '\n' t).take 1)).byteLength = 7 := by decide +kernel
  have before' : (Text.ended ((List.splitOn '\n' t).take 2)).byteLength = 8 := by decide +kernel
  obtain ⟨-, nothing, made, -, whole, -⟩ := highlight?_line empty
  obtain ⟨-, stretches, made', -, whole', styles⟩ := highlight?_line last
  rw [before] at made
  rw [before'] at made' styles
  have comment : ∃ m ∈ parse t, m.covers 11 ∧ m.kind = .comment := by decide +kernel
  have addition : ∃ m ∈ parse t, m.covers 12 ∧ m.kind = .addition := by decide +kernel
  have plain : ∀ m ∈ parse t, ¬ m.covers 19 := by decide +kernel
  exact ⟨⟨empty, last⟩, ⟨nothing, made, whole⟩, stretches, made', whole',
    ((styles 11 (by decide) (by decide)).1 .comment).mpr comment,
    ((styles 12 (by decide) (by decide)).1 .addition).mpr addition,
    (styles 19 (by decide) (by decide)).2.mpr plain⟩

end Markup

end Marginalia
