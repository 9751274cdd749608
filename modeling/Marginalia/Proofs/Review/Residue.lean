import Marginalia.Proofs.Document.Resolution
import Marginalia.Proofs.Markup.Grammar

/-! # Markup that resolving leaves

A text whose tokens have all been resolved may still hold markup, made of pieces that lay apart
before. None of it lies within what was kept between the tokens, nor within what a token gave way to:
it lies across the edge of a place where a token was resolved.
-/

namespace Marginalia

/-- `s` begins in front of byte `offset` and ends behind it. -/
def Span.Across (s : Span) (offset : Nat) : Prop := s.start < offset ∧ offset < s.stop

/-- `s` lies across an end of `place`. -/
def Span.CrossesEdge (s place : Span) : Prop := s.Across place.start ∨ s.Across place.stop

/-- What crosses no edge lies within one piece of the result: a new text, or a stretch of the old one
    that no replacement touches. -/
theorem Exchange.exists_piece {start made : Nat} {t result : Text} {rs : List Replacement} {s : Span}
    (h : Exchange start t rs result) (within : made ≤ s.start)
    (room : s.stop ≤ made + result.byteLength)
    (uncut : ∀ place ∈ Replacement.places start made rs, ¬ s.CrossesEdge place) :
    ∃ x piece y, result = x ++ piece ++ y ∧ made + x.byteLength ≤ s.start ∧
      s.stop ≤ made + x.byteLength + piece.byteLength ∧
      ((∃ r ∈ rs, piece = r.text) ∨
        ∃ x' y', t = x' ++ piece ++ y' ∧ ∀ r ∈ rs, r.span.stop ≤ start + x'.byteLength ∨
          start + x'.byteLength + piece.byteLength ≤ r.span.start) := by
  induction h generalizing made with
  | kept rest =>
      exact ⟨[], rest, [], by simp, by simpa using within, by simpa using room,
        .inr ⟨[], [], by simp, by simp⟩⟩
  | @replaced start gap old new rest result more h ih =>
      obtain ⟨here, later⟩ := List.forall_mem_cons.mp uncut
      simp only [Nat.add_sub_cancel_left] at here later
      simp only [Span.CrossesEdge, Span.Across, not_or, not_and, Nat.not_lt] at here
      obtain ⟨first, second⟩ := here
      simp only [Text.byteLength_append] at room
      by_cases in_gap : s.stop ≤ made + gap.byteLength
      · refine ⟨[], gap, new ++ result, by simp, by simpa using within, by simpa using in_gap,
          .inr ⟨[], old ++ rest, by simp, List.forall_mem_cons.mpr ⟨.inr ?_, fun r hr => .inr ?_⟩⟩⟩
        · simp
        · have := h.start_le r hr
          simp only [Text.byteLength_nil]
          omega
      by_cases in_new : s.stop ≤ made + gap.byteLength + new.byteLength
      · exact ⟨gap, new, result, rfl, by omega, in_new, .inl ⟨_, List.mem_cons_self, rfl⟩⟩
      obtain ⟨x, piece, y, rfl, low, high, origin⟩ := ih (by omega) (by omega) later
      refine ⟨gap ++ new ++ x, piece, y, by simp, ?_, ?_, ?_⟩
      · simp only [Text.byteLength_append]
        omega
      · simp only [Text.byteLength_append]
        omega
      · rcases origin with ⟨r, hr, rfl⟩ | ⟨x', y', rfl, untouched⟩
        · exact .inl ⟨r, List.mem_cons_of_mem _ hr, rfl⟩
        · refine .inr ⟨gap ++ old ++ x', y', by simp, List.forall_mem_cons.mpr ⟨.inl ?_, ?_⟩⟩
          · simp only [Text.byteLength_append]
            omega
          · intro r hr
            have := untouched r hr
            simp only [Text.byteLength_append]
            omega

/-- No token lies in `t`. -/
def Text.Plain (t : Text) : Prop :=
  ∀ u v start m after, t = u ++ v → ¬ Markup.Begins start v m after

namespace Text.Plain

variable {t u v : Text}

theorem nil : Plain [] := by
  intro u v start m after same begins
  obtain ⟨-, rfl⟩ := List.append_eq_nil_iff.mp same.symm
  exact absurd begins.length_lt (Nat.not_lt_zero _)

theorem front (h : Plain (u ++ v)) : Plain u := by
  intro x y start m after same begins
  exact h x (y ++ v) start m (after ++ v) (by simp [same]) (begins.append v)

theorem back (h : Plain (u ++ v)) : Plain v := by
  intro x y start m after same
  exact h (u ++ x) y start m after (by simp [same])

/-- A payload holds no token: its search would have stopped there. -/
theorem of_clear {k : Kind} (clear : k.Clear t []) : Plain t := by
  rw [Kind.clear_iff] at clear
  intro u v start m after same begins
  obtain ⟨j, payload, rfl, -, -⟩ := begins
  by_cases native : j = k
  · subst native
    refine clear (u ++ (j.opener ++ payload)) (j.closer ++ after) (by simp [same]) ?_ ?_
    · exact List.append_ne_nil_of_left_ne_nil (by cases j <;> simp [Kind.closer]) _
    · exact .inl ⟨after, by simp⟩
  · refine clear u _ same ?_ (.inr ⟨j, native, payload ++ j.closer ++ after, by simp⟩)
    cases j <;> simp [Kind.opener]

end Text.Plain

namespace Markup

/-- What a token gives way to holds no token. -/
theorem Begins.plain_replacement {start : Nat} {t after : Text} {m : Markup}
    (h : Begins start t m after) (outcome : Outcome) : (m.replacement outcome).Plain := by
  obtain ⟨k, payload, -, clear, hm⟩ := Begins.iff_clear.mp h
  have plain := Text.Plain.of_clear clear
  obtain ⟨-, -, lead, reads, -⟩ := ofPayload?_eq_some_iff.mp hm
  cases m with
  | mk full inner content detail =>
      cases reads with
      | addition | deletion =>
          cases outcome
          · first | exact plain | exact Text.Plain.nil
          · first | exact plain | exact Text.Plain.nil
      | highlight => exact plain
      | @substitution old new split =>
          rw [split.parts] at plain
          cases outcome with
          | accept => exact plain.back
          | reject => exact plain.front.front
      | signed | unsigned => exact Text.Plain.nil

/-- What lies outside every token of a text holds no token. -/
theorem plain_of_outside {x piece y : Text}
    (outside : ∀ m ∈ parse (x ++ piece ++ y), m.full.stop ≤ x.byteLength ∨
      x.byteLength + piece.byteLength ≤ m.full.start) : piece.Plain := by
  intro u v start m after same begins
  subst same
  obtain ⟨k, p, token⟩ := (begins.append y).exists_tokenAt (x ++ u)
  have shape : x ++ u ++ (v ++ y) = x ++ (u ++ v) ++ y := by simp
  rw [shape, Text.byteLength_append] at token
  have picks : Picks ([] ++ (x ++ (u ++ v) ++ y)) 0 (parse (x ++ (u ++ v) ++ y)) :=
    (picks_iff rfl).mpr (parse_eq _).symm
  obtain ⟨found, hfound, covers⟩ := picks.maximal k _ p token (Nat.zero_le _)
  have long := begins.start_lt_stop
  have total := begins.stop_add
  have starts := begins.start_eq
  have := covers_iff.mp covers
  have := outside found hfound
  rw [Text.byteLength_append] at this
  omega

/-- A piece of a text that spans one of its tokens holds a token. -/
theorem Begins.not_plain {u v x piece y after : Text} {m : Markup}
    (h : Begins u.byteLength v m after) (same : u ++ v = x ++ piece ++ y)
    (low : x.byteLength ≤ m.full.start) (high : m.full.stop ≤ x.byteLength + piece.byteLength) :
    ¬ piece.Plain := by
  have starts := h.start_eq
  have long := h.start_lt_stop
  rw [List.append_assoc] at same
  obtain ⟨w, rfl, rest⟩ := Text.exists_between same.symm (by omega)
  rw [Text.byteLength_append] at h starts
  obtain ⟨z, rfl, rfl⟩ := Text.exists_between rest.symm (by omega)
  rw [Text.byteLength_append] at high
  obtain ⟨behind, -, inside⟩ := h.of_append (by omega)
  exact fun plain => plain w z _ m behind rfl inside

end Markup

namespace Text

/-- Whatever token is found once the tokens of a text have been resolved lies across the edge of a
    place where one was. -/
theorem exists_crossesEdge {t : Text} {outcome : Outcome} {m : Markup}
    (h : m ∈ Markup.parse (t.resolveAll outcome)) :
    ∃ place ∈ Replacement.places 0 0
        ((Markup.parse t).map fun m => ⟨m.full, m.replacement outcome⟩),
      m.full.CrossesEdge place := by
  apply Classical.byContradiction
  intro none
  have uncut : ∀ place ∈ Replacement.places 0 0
      ((Markup.parse t).map fun m => ⟨m.full, m.replacement outcome⟩),
      ¬ m.full.CrossesEdge place := fun place hplace crosses => none ⟨place, hplace, crosses⟩
  rw [Markup.parse_eq] at h
  obtain ⟨u, v, after, same, begins⟩ := Markup.exists_begins_of_mem_parseAfresh h
  have room := (Markup.bounds_of_mem_parseAfresh h).2.2
  rw [Nat.zero_add] at begins
  obtain ⟨x, piece, y, whole, low, high, origin⟩ :=
    (Document.exchange_resolveAll t outcome).exists_piece (Nat.zero_le _) room uncut
  rw [Nat.zero_add] at low high
  refine begins.not_plain (same.symm.trans whole) low high ?_
  rcases origin with ⟨r, hr, rfl⟩ | ⟨x', y', rfl, untouched⟩
  · obtain ⟨resolved, hresolved, rfl⟩ := List.mem_map.mp hr
    rw [Markup.parse_eq] at hresolved
    obtain ⟨_, _, _, -, token⟩ := Markup.exists_begins_of_mem_parseAfresh hresolved
    exact token.plain_replacement outcome
  · apply Markup.plain_of_outside
    intro kept hkept
    have := untouched _ (List.mem_map_of_mem hkept)
    rwa [Nat.zero_add] at this

/-- Resolving all tokens leaves no markup exactly when no token of the text that it leaves lies across
    the edge of a place where one was resolved. -/
theorem parse_resolveAll_eq_nil_iff (t : Text) (outcome : Outcome) :
    Markup.parse (t.resolveAll outcome) = [] ↔
      ∀ m, Markup.IsToken (t.resolveAll outcome) m →
        ∀ place ∈ Replacement.places 0 0
            ((Markup.parse t).map fun m => ⟨m.full, m.replacement outcome⟩),
          ¬ m.full.CrossesEdge place := by
  have picks : Markup.Picks ([] ++ t.resolveAll outcome) 0 (Markup.parse (t.resolveAll outcome)) :=
    (Markup.picks_iff rfl).mpr (Markup.parse_eq _).symm
  constructor
  · intro none m token
    obtain ⟨p, -, -, here, -⟩ := token
    obtain ⟨found, hfound, -⟩ := picks.maximal _ _ p here (Nat.zero_le _)
    rw [none] at hfound
    cases hfound
  · intro uncut
    apply List.eq_nil_iff_forall_not_mem.mpr
    intro m hm
    obtain ⟨place, hplace, crosses⟩ := exists_crossesEdge hm
    exact uncut m (picks.tokens m hm) place hplace crosses

/-- A comment in an addition keeps the addition from being read. Once the comment is gone the
    addition is there, and resolving once more would change the text again. -/
theorem parse_resolveAll_of_comment_in_addition :
    let t := Kind.addition.opener ++ ['a'] ++ Kind.comment.wrap ['b'] ++ ['c'] ++
      Kind.addition.closer
    Markup.parse (t.resolveAll .accept) = [⟨⟨0, 8⟩, ⟨3, 5⟩, ['a', 'c'], .addition⟩] ∧
      (t.resolveAll .accept).resolveAll .accept ≠ t.resolveAll .accept := by
  decide +kernel

end Text

end Marginalia
