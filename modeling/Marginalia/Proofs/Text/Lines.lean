import Mathlib.Algebra.Order.Ring.Nat
import Marginalia.Proofs.Text.Clamping

/-! # Lines

A text falls into lines at its line ends. The line of an offset is the count of line ends in front of
it; an offset inside a character has none, as no part of the text ends there.
-/

namespace Marginalia.Text

section Count

variable {t front rest : Text} {offset line : Nat}

theorem newlines_append (a b : Text) : newlines (a ++ b) = newlines a + newlines b := by
  induction a with
  | nil => exact (Nat.zero_add _).symm
  | cons c a ih => rw [List.cons_append, newlines, newlines, ih, Nat.add_assoc]

theorem newlines_eq_zero (whole : '\n' ∉ t) : newlines t = 0 := by
  induction t with
  | nil => rfl
  | cons c t ih =>
      rw [List.mem_cons, not_or] at whole
      rw [newlines, if_neg (Ne.symm whole.1), ih whole.2]

theorem newlines_pos (mem : '\n' ∈ t) : 0 < newlines t := by
  obtain ⟨before, after, rfl⟩ := List.append_of_mem mem
  rw [newlines_append, newlines, if_pos rfl]
  omega

theorem newlines_eq_zero_iff : newlines t = 0 ↔ '\n' ∉ t :=
  ⟨fun none mem => Nat.ne_of_gt (newlines_pos mem) none, newlines_eq_zero⟩

theorem lineOf?_append (front rest : Text) :
    (front ++ rest).lineOf? front.byteLength = some (newlines front) := by
  rw [lineOf?, cut?_eq_some_iff.mpr ⟨rfl, rfl⟩, Option.map_some]

theorem lineOf?_of_isBoundary (boundary : t.isBoundary offset) :
    t.lineOf? offset = some (newlines (t.takeWithin offset)) := by
  obtain ⟨front, rest, rfl, rfl⟩ := isBoundary_iff.mp boundary
  rw [lineOf?_append, takeWithin_append]

theorem lineOf?_eq_none_iff : t.lineOf? offset = none ↔ ¬ t.isBoundary offset := by
  rw [lineOf?, Option.map_eq_none_iff, cut?, isBoundary, beq_iff_eq]
  split <;> simp_all

end Count

section Snapping

variable {t : Text} {offset offset' : Nat}

theorem floorBoundary_mono (t : Text) (le : offset ≤ offset') :
    t.floorBoundary offset ≤ t.floorBoundary offset' :=
  le_floorBoundary (isBoundary_floorBoundary t offset)
    (Nat.le_trans (floorBoundary_le t offset) le)

theorem takeWithin_prefix (t : Text) (le : offset ≤ offset') :
    t.takeWithin offset <+: t.takeWithin offset' := by
  have parts := takeWithin_append_dropWithin offset t
  have parts' := takeWithin_append_dropWithin offset' t
  have shorter : (t.takeWithin offset).byteLength ≤ (t.takeWithin offset').byteLength := by
    rw [byteLength_takeWithin, byteLength_takeWithin]
    exact floorBoundary_mono t le
  obtain ⟨between, more, -⟩ := exists_between (parts.trans parts'.symm) shorter
  exact ⟨between, more.symm⟩

theorem newlines_takeWithin_mono (t : Text) (le : offset ≤ offset') :
    newlines (t.takeWithin offset) ≤ newlines (t.takeWithin offset') := by
  obtain ⟨between, more⟩ := takeWithin_prefix t le
  rw [← more, newlines_append]
  exact Nat.le_add_right _ _

theorem takeWithin_min (t : Text) (offset : Nat) :
    t.takeWithin (min offset t.byteLength) = t.takeWithin offset := by
  have parts := takeWithin_append_dropWithin (min offset t.byteLength) t
  refine (append_inj_of_byteLength (parts.trans (takeWithin_append_dropWithin offset t).symm) ?_).1
  rw [byteLength_takeWithin, byteLength_takeWithin, floorBoundary_min]

theorem takeWithin_of_le (fits : t.byteLength ≤ offset) : t.takeWithin offset = t := by
  rw [← takeWithin_min, Nat.min_eq_right fits]
  simpa using takeWithin_append t []

/-- `offset` lies inside a character of the text. -/
def Splits (t : Text) (offset : Nat) : Prop :=
  ∃ (front : Text) (c : Char) (rest : Text), t = front ++ c :: rest ∧
    front.byteLength < offset ∧ offset < front.byteLength + c.utf8Size

/-- No boundary lies inside a character, and every other offset in the text is one. -/
theorem splits_iff : t.Splits offset ↔ offset < t.byteLength ∧ ¬ t.isBoundary offset := by
  constructor
  · intro h
    obtain ⟨front, c, rest, rfl, behind, before⟩ := h
    refine ⟨?_, fun boundary => ?_⟩
    · rw [byteLength_append, byteLength_cons]
      omega
    · obtain ⟨front', rest', same, rfl⟩ := isBoundary_iff.mp boundary
      obtain ⟨u, rfl, more⟩ := exists_between same (Nat.le_of_lt behind)
      cases u with
      | nil => simp at behind
      | cons d u =>
          obtain ⟨rfl, -⟩ := List.cons.inj more
          rw [byteLength_append, byteLength_cons] at before
          omega
  · intro h
    obtain ⟨inside, unbounded⟩ := h
    have parts := takeWithin_append_dropWithin offset t
    have front := byteLength_takeWithin t offset
    have floor := isBoundary_floorBoundary t offset
    have behind : t.floorBoundary offset < offset :=
      Nat.lt_of_le_of_ne (floorBoundary_le t offset) fun same => unbounded (same ▸ floor)
    cases beyond : t.dropWithin offset with
    | nil =>
        have all := congrArg byteLength parts
        rw [beyond, List.append_nil, front] at all
        omega
    | cons c rest =>
        rw [beyond] at parts
        refine ⟨t.takeWithin offset, c, rest, parts.symm, front ▸ behind, ?_⟩
        apply Nat.lt_of_not_le
        intro within
        -- Otherwise the end of `c` would be a boundary that is not beyond `offset`.
        have next : t.isBoundary ((t.takeWithin offset).byteLength + c.utf8Size) :=
          isBoundary_iff.mpr ⟨t.takeWithin offset ++ [c], rest, by simp [parts],
            by simp [byteLength_append]⟩
        have passed := le_floorBoundary next within
        have size := c.utf8Size_pos
        omega

end Snapping

section Pieces

/-- Lines are the pieces that line ends leave. -/
theorem lines_eq_splitOn (t : Text) : t.lines = List.splitOn '\n' t := by
  induction t with
  | nil => rfl
  | cons c t ih =>
      rw [List.splitOn_eq_splitOnP] at ih ⊢
      rw [List.splitOnP_cons_eq_if_modifyHead, ← ih, lines]
      by_cases lineEnd : c = '\n'
      · rw [if_pos lineEnd, if_pos (beq_iff_eq.mpr lineEnd)]
      · rw [if_neg lineEnd, if_neg (by simpa using lineEnd)]
        cases first : lines t with
        | nil => exact absurd first (lines_ne_nil t)
        | cons line more => rfl

theorem lines_of_whole {line : Text} (whole : '\n' ∉ line) : lines line = [line] := by
  rw [lines_eq_splitOn, List.splitOn_eq_singleton whole]

theorem lines_append_newline {line : Text} (whole : '\n' ∉ line) (rest : Text) :
    lines (line ++ '\n' :: rest) = line :: lines rest := by
  rw [lines_eq_splitOn, lines_eq_splitOn, List.splitOn_append_cons_self_of_not_mem whole]

theorem flatMap_lines_of_whole {entries : List Text} (whole : ∀ entry ∈ entries, '\n' ∉ entry) :
    entries.flatMap lines = entries := by
  induction entries with
  | nil => rfl
  | cons entry entries ih =>
      obtain ⟨first, later⟩ := List.forall_mem_cons.mp whole
      rw [List.flatMap_cons, lines_of_whole first, ih later, List.singleton_append]

/-- A text is one line, or a line with its end and a text of lines behind it. -/
@[elab_as_elim]
theorem line_induction {P : Text → Prop} (last : ∀ line, '\n' ∉ line → P line)
    (more : ∀ line rest, '\n' ∉ line → P rest → P (line ++ '\n' :: rest)) (t : Text) : P t := by
  by_cases mem : '\n' ∈ t
  · obtain ⟨line, rest, same, whole⟩ := List.eq_append_cons_of_mem mem
    have : rest.length < t.length := by
      rw [same, List.length_append, List.length_cons]
      omega
    exact same ▸ more line rest whole (line_induction last more rest)
  · exact last t mem
termination_by t.length

theorem length_lines (t : Text) : t.lines.length = newlines t + 1 := by
  induction t using line_induction with
  | last line whole => rw [lines_of_whole whole, newlines_eq_zero whole, List.length_singleton]
  | more line rest whole ih =>
      rw [lines_append_newline whole, List.length_cons, ih, newlines_append,
        newlines_eq_zero whole, newlines, if_pos rfl]
      omega

theorem lines_append_newline_append (entry rest : Text) :
    lines (entry ++ '\n' :: rest) = lines entry ++ lines rest := by
  induction entry using line_induction with
  | last line whole => rw [lines_append_newline whole, lines_of_whole whole, List.singleton_append]
  | more line entry whole ih =>
      rw [List.append_assoc, List.cons_append, lines_append_newline whole, ih,
        lines_append_newline whole, List.cons_append]

/-- Lines, or entries of several lines, with a line end behind each. -/
def ended (lines : List Text) : Text := lines.flatMap (· ++ ['\n'])

theorem ended_cons (entry : Text) (entries : List Text) :
    ended (entry :: entries) = entry ++ '\n' :: ended entries := by
  simp [ended]

/-- Ended entries fall into the lines of the entries, and nothing behind the last end. -/
theorem lines_ended (entries : List Text) : lines (ended entries) = entries.flatMap lines ++ [[]] := by
  induction entries with
  | nil => rfl
  | cons entry entries ih =>
      rw [ended_cons, lines_append_newline_append, ih, List.flatMap_cons, List.append_assoc]

theorem newlines_ended (entries : List Text) :
    newlines (ended entries) = entries.length + (entries.map newlines).sum := by
  induction entries with
  | nil => rfl
  | cons entry entries ih =>
      rw [ended_cons, newlines_append, newlines, if_pos rfl, ih]
      simp
      omega

/-- `line` is the line of number `k`, whole and without its end: what stands before it is `k` line
    ends and nothing behind the last of them. -/
structure IsLine (t : Text) (k : Nat) (before line after : Text) : Prop where
  parts : t = before ++ line ++ after
  number : newlines before = k
  whole : '\n' ∉ line
  begins : before = [] ∨ ∃ front, before = front ++ ['\n']
  ends : after = [] ∨ ∃ rest, after = '\n' :: rest

theorem exists_isLine {t line : Text} {k : Nat} (here : t.lines[k]? = some line) :
    ∃ after, t.IsLine k (ended (t.lines.take k)) line after := by
  induction t using line_induction generalizing k with
  | last only whole =>
      rw [lines_of_whole whole] at here ⊢
      obtain ⟨rfl, rfl⟩ : k = 0 ∧ only = line := by simpa using List.getElem?_eq_some_iff.mp here
      exact ⟨[], by simp [ended], rfl, whole, .inl rfl, .inl rfl⟩
  | more first rest whole ih =>
      rw [lines_append_newline whole] at here ⊢
      cases k with
      | zero =>
          obtain rfl := Option.some.inj here
          exact ⟨'\n' :: rest, rfl, rfl, whole, .inl rfl, .inr ⟨rest, rfl⟩⟩
      | succ k =>
          obtain ⟨after, found⟩ := ih here
          have before : ended ((first :: rest.lines).take (k + 1)) =
              first ++ '\n' :: ended (rest.lines.take k) := ended_cons first _
          rw [before]
          refine ⟨after, ?_, ?_, found.whole, .inr ?_, found.ends⟩
          · exact (congrArg (first ++ '\n' :: ·) found.parts).trans (by simp)
          · rw [newlines_append, newlines_eq_zero whole, newlines, if_pos rfl, found.number]
            omega
          · rcases found.begins with nothing | ⟨front, ends⟩
            · exact ⟨first, by rw [nothing]⟩
            · exact ⟨first ++ '\n' :: front, by rw [ends]; simp⟩

namespace IsLine

variable {t before line after front rest : Text} {k : Nat}

/-- Up to the end of a line there are no more line ends than before it, and behind it there are. -/
theorem newlines_le_iff (h : t.IsLine k before line after) (cut : t = front ++ rest) :
    newlines front ≤ k ↔ front.byteLength ≤ before.byteLength + line.byteLength := by
  have same : before ++ line ++ after = front ++ rest := h.parts.symm.trans cut
  have upTo : newlines (before ++ line) = k := by
    rw [newlines_append, h.number, newlines_eq_zero h.whole, Nat.add_zero]
  rw [← byteLength_append]
  rcases Nat.lt_or_ge (before ++ line).byteLength front.byteLength with beyond | within
  · refine iff_of_false (Nat.not_le.mpr ?_) (Nat.not_le.mpr beyond)
    obtain ⟨u, rfl, more⟩ := exists_between same (Nat.le_of_lt beyond)
    rw [newlines_append, upTo]
    refine Nat.lt_add_of_pos_right (newlines_pos ?_)
    -- What is behind the line begins with its end, and `front` reaches into it.
    cases u with
    | nil => simp at beyond
    | cons c u =>
        rcases h.ends with nothing | ⟨rest', lineEnd⟩
        · rw [nothing] at more
          cases more
        · rw [lineEnd] at more
          exact (List.cons.inj more).1 ▸ List.mem_cons_self
  · obtain ⟨u, more, -⟩ := exists_between same.symm within
    refine iff_of_true ?_ within
    rw [← upTo, more, newlines_append]
    exact Nat.le_add_right _ _

/-- From the start of a line on there are no fewer line ends than before it, and in front of it
    there are. -/
theorem le_newlines_iff (h : t.IsLine k before line after) (cut : t = front ++ rest) :
    k ≤ newlines front ↔ before.byteLength ≤ front.byteLength := by
  have same : before ++ (line ++ after) = front ++ rest := by
    rw [← List.append_assoc, ← h.parts, cut]
  rcases Nat.lt_or_ge front.byteLength before.byteLength with short | behind
  · refine iff_of_false (Nat.not_le.mpr ?_) (Nat.not_le.mpr short)
    obtain ⟨u, more, -⟩ := exists_between same.symm (Nat.le_of_lt short)
    rw [← h.number, more, newlines_append]
    refine Nat.lt_add_of_pos_right (newlines_pos ?_)
    -- What is before the line ends with a line end, and `front` stops short of it.
    rcases h.begins with nothing | ⟨front', lineEnd⟩
    · rw [nothing] at short
      simp at short
    · have ne : u ≠ [] := by
        intro empty
        rw [more, empty, List.append_nil] at short
        exact Nat.lt_irrefl _ short
      have last := congrArg List.getLast? (more.symm.trans lineEnd)
      rw [List.getLast?_append, List.getLast?_eq_some_getLast ne, Option.some_or,
        List.getLast?_concat] at last
      exact Option.some.inj last ▸ List.getLast_mem ne
  · obtain ⟨u, rfl, -⟩ := exists_between same behind
    refine iff_of_true ?_ behind
    rw [newlines_append, h.number]
    exact Nat.le_add_right _ _

end IsLine

end Pieces

end Marginalia.Text
