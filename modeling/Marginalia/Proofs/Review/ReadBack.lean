import Marginalia.Proofs.Document.Suggestion
import Marginalia.Proofs.Review.CommentToken

/-! # Suggestions and highlights read back

Neutralising leaves in a payload nothing at which the search for its closer could stop, so what is
written around it is read as one token. The halves of a substitution meet at a separator, which is
neither in a foreign opener nor in the closer as a whole, whatever characters stand beside it.
-/

namespace Marginalia

namespace Kind

/-- The text has no opener in it and no closer of kind `k`. -/
structure Quiet (k : Kind) (t : Text) : Prop where
  opener : ∀ j : Kind, ¬ j.opener <:+: t
  closer : ¬ k.closer <:+: t

theorem Quiet.clear {k : Kind} {t : Text} (quiet : k.Quiet t) : k.Clear t [] :=
  clear_of_absent (fun j _ => quiet.opener j) quiet.closer

theorem quiet_neutralize {k : Kind} {closers : List Text} (all : ∀ p ∈ closers, Text.Breakable p)
    (mem : k.closer ∈ closers) (t : Text) : k.Quiet (Text.neutralize closers t) where
  opener j := Text.not_opener_infix_neutralize all j t
  closer := Text.not_infix_neutralize all mem t

theorem quiet_safe (k : Kind) (t : Text) : k.Quiet (k.safe t) :=
  quiet_neutralize (Draft.Payload.last k).breakable_of_mem_closers List.mem_cons_self t

/-- An opener without the first character of the separator lies in one of the halves. -/
theorem not_opener_infix_halves {j : Kind} {old new : Text} (other : j ≠ .substitution)
    (hold : ¬ j.opener <:+: old) (hnew : ¬ j.opener <:+: new) :
    ¬ j.opener <:+: old ++ separator ++ new := by
  intro h
  have apart : '~' ∉ j.opener := head_closer_not_mem_opener other rfl
  rw [separator, List.append_assoc, List.cons_append, Text.infix_separator_iff apart] at h
  rcases h with left | right
  · exact hold left
  rcases List.infix_cons_iff.mp right with front | further
  · obtain ⟨tail, same, -⟩ := j.exists_opener_eq_cons
    rw [same] at front
    obtain ⟨brace, -⟩ := List.cons_prefix_cons.mp front
    cases brace
  · exact hnew further

/-- A closer does not reach across the second character of the separator, nor end in the first. -/
theorem not_closer_infix_halves {old new : Text} (hold : ¬ substitution.closer <:+: old)
    (hnew : ¬ substitution.closer <:+: new) :
    ¬ substitution.closer <:+: old ++ separator ++ new := by
  intro h
  have shape : old ++ separator ++ new = (old ++ ['~']) ++ '>' :: new := by simp [separator]
  rw [shape, Text.infix_separator_iff (by decide)] at h
  rcases h with left | right
  · rcases List.infix_concat_iff.mp left with last | further
    · rcases List.suffix_concat_iff.mp last with none | ⟨front, same, -⟩
      · cases none
      · have ends := congrArg List.getLast? same
        rw [List.getLast?_concat] at ends
        cases ends
    · exact hold further
  · exact hnew right

theorem Quiet.clear_halves {old new : Text} (hold : substitution.Quiet old)
    (hnew : substitution.Quiet new) : substitution.Clear (old ++ separator ++ new) [] :=
  clear_of_absent (fun j other => not_opener_infix_halves other (hold.opener j) (hnew.opener j))
    (not_closer_infix_halves hold.closer hnew.closer)

end Kind

namespace Markup

theorem exists_begins_wrap {k : Kind} {payload : Text} (clear : k.Clear payload [])
    (whole : k = .substitution → Kind.separator <:+: payload) (start : Nat) :
    ∃ m, Begins start (k.wrap payload) m [] ∧ m.kind = k := by
  have built : ofPayload? k start payload ≠ none := by
    intro none
    obtain ⟨native, absent⟩ := ofPayload?_eq_none_iff.mp none
    exact absent (whole native)
  obtain ⟨m, hm⟩ := Option.ne_none_iff_exists'.mp built
  refine ⟨m, Begins.iff_clear.mpr ⟨k, payload, ?_, clear, hm⟩, kind_of_ofPayload? hm⟩
  rw [Kind.wrap, List.append_nil]

theorem Begins.full_eq {t : Text} {m : Markup} (h : Begins 0 t m []) :
    m.full = ⟨0, t.byteLength⟩ := by
  have start := h.start_eq
  have stop := h.stop_add
  rw [Text.byteLength_nil, Nat.add_zero, Nat.zero_add] at stop
  rw [← start, ← stop]

theorem Begins.parse_eq {t : Text} {m : Markup} (h : Begins 0 t m []) : parse t = [m] := by
  rw [Markup.parse_eq, parseAfresh_of_begins h, parseAfresh_nil]

theorem Begins.content_of_highlight {start : Nat} {selected : Text} {m : Markup}
    (h : Begins start (Kind.highlight.wrap selected) m []) : m.content = selected := by
  obtain ⟨kind, lead, reads⟩ := h.reads_of_wrap
  obtain ⟨full, inner, content, detail⟩ := m
  cases reads with
  | highlight => rfl
  | addition | deletion | substitution | signed | unsigned => cases kind

end Markup

namespace Draft

open Markup

/-- The kind of token that suggests that `old` become `new`. -/
def suggestedKind (old new : Text) : Kind :=
  if old.isEmpty then .addition else if new.isEmpty then .deletion else .substitution

/-- The sequences, openers apart, that a suggestion of kind `k` breaks up in the old text. -/
def brokenFor (k : Kind) : List Text :=
  k.closer :: if k = .substitution then [Kind.separator] else []

section

variable {old new : Text}

theorem suggestedKind_of_ne_nil (ne : old ≠ []) (ne' : new ≠ []) :
    suggestedKind old new = .substitution := by
  simp [suggestedKind, ne, ne']

theorem breakable_of_mem_brokenFor {k : Kind} : ∀ p ∈ brokenFor k, Text.Breakable p := by
  unfold brokenFor
  split
  · next same => exact same ▸ Payload.old.breakable_of_mem_closers
  · exact (Payload.last k).breakable_of_mem_closers

theorem neutralize_brokenInOld (old new : Text) :
    Text.neutralize (brokenInOld new) old =
      Text.neutralize (brokenFor (suggestedKind old new)) old := by
  cases old with
  | nil =>
      rw [Text.neutralize_nil breakable_of_mem_brokenInOld,
        Text.neutralize_nil breakable_of_mem_brokenFor]
  | cons c old => cases new <;> rfl

theorem neutralize_brokenInNew (old new : Text) :
    Text.neutralize (brokenInNew old) new =
      Text.neutralize [(suggestedKind old new).closer] new := by
  cases new with
  | nil =>
      rw [Text.neutralize_nil breakable_of_mem_brokenInNew]
      exact (Text.neutralize_nil (Payload.last _).breakable_of_mem_closers).symm
  | cons c new => cases old <;> rfl

/-- A suggestion is read as one token, of the kind that its two texts call for. -/
theorem exists_begins_suggest (differs : old ≠ new) :
    ∃ m, Begins 0 (suggest old new) m [] ∧ m.kind = suggestedKind old new := by
  by_cases empty : old = []
  · subst empty
    rw [suggest_of_nil_left (Ne.symm differs)]
    exact exists_begins_wrap (Kind.addition.quiet_safe new).clear (fun other => nomatch other) 0
  by_cases empty' : new = []
  · subst empty'
    have kind : suggestedKind old [] = .deletion := by simp [suggestedKind, empty]
    rw [suggest_of_nil_right differs, kind]
    exact exists_begins_wrap (Kind.deletion.quiet_safe old).clear (fun other => nomatch other) 0
  have kind := suggestedKind_of_ne_nil empty empty'
  have hold : Kind.substitution.Quiet (Text.neutralize (brokenInOld new) old) := by
    rw [neutralize_brokenInOld, kind]
    exact Kind.quiet_neutralize breakable_of_mem_brokenFor List.mem_cons_self old
  have hnew : Kind.substitution.Quiet (Text.neutralize (brokenInNew old) new) := by
    rw [neutralize_brokenInNew, kind]
    exact Kind.substitution.quiet_safe new
  rw [suggest_of_ne_nil empty empty' differs, kind]
  exact exists_begins_wrap (hold.clear_halves hnew) (fun _ => ⟨_, _, rfl⟩) 0

end

/-- Put behind a highlight, the token of a comment is the second of two. -/
theorem exists_parse_highlight (selected author : Text) {timestamp : Int}
    (fits : Json.inSigned64 timestamp) (content : Text) :
    ∃ h, parse (Kind.highlight.wrap (Kind.highlight.safe selected) ++
        comment author timestamp content) =
          [h, commentAt h.full.stop author timestamp content] ∧
      Begins 0 (Kind.highlight.wrap (Kind.highlight.safe selected)) h [] ∧ h.kind = .highlight := by
  obtain ⟨h, begins, kind⟩ :=
    exists_begins_wrap (Kind.highlight.quiet_safe selected).clear (fun other => nomatch other) 0
  have token := begins_comment author content fits h.full.stop []
  rw [List.append_nil] at token
  refine ⟨h, ?_, begins, kind⟩
  rw [Markup.parse_eq, parseAfresh_of_begins (begins.append _), List.nil_append,
    parseAfresh_of_begins token, parseAfresh_nil]

/-- What is written for an edit or for a selection is read back as what it was written for. A
    suggestion is one token that takes up all of it and gives way to the new text when accepted and
    to the old one when rejected, both neutralised. A comment on a selection is a highlight of the
    neutralised selection and right behind it the comment that its token alone is read as. -/
theorem parse_suggest_and_commentSelection :
    (∀ old new : Text, old ≠ new →
      ∃ m, parse (suggest old new) = [m] ∧ m.full = ⟨0, (suggest old new).byteLength⟩ ∧
        m.kind = suggestedKind old new ∧
        m.replacement .accept = Text.neutralize [m.kind.closer] new ∧
        m.replacement .reject = Text.neutralize (brokenFor m.kind) old) ∧
    ∀ (range : Span) (selected author : Text) (timestamp : Int) (content : Text),
      selected ≠ [] → Json.inSigned64 timestamp →
      ∃ text h,
        commentSelection range selected (comment author timestamp content) = .replace range text ∧
        parse (comment author timestamp content) = [commentAt 0 author timestamp content] ∧
        parse text = [h, commentAt h.full.stop author timestamp content] ∧
        h.full.touches (commentAt h.full.stop author timestamp content).full ∧
        h.kind = .highlight ∧
        h.content = Text.neutralize [Kind.highlight.closer] selected := by
  constructor
  · intro old new differs
    obtain ⟨m, begins, kind⟩ := exists_begins_suggest differs
    obtain ⟨reject, accept⟩ := begins.replacement_of_suggest differs
    refine ⟨m, begins.parse_eq, begins.full_eq, kind, ?_, ?_⟩
    · rw [accept, neutralize_brokenInNew, kind]
    · rw [reject, neutralize_brokenInOld, kind]
  · intro range selected author timestamp content ne fits
    obtain ⟨h, scanned, highlight, kind⟩ := exists_parse_highlight selected author fits content
    have token := begins_comment author content fits 0 []
    rw [List.append_nil] at token
    refine ⟨_, h, ?_, token.parse_eq, scanned, ?_, kind, highlight.content_of_highlight⟩
    · rw [commentSelection, if_neg (by simpa using ne)]
    · simp [Span.touches, commentAt]

/-- The old text ends in half a separator, the new one begins with the rest of a closer and ends in
    the beginning of one. The selection has an opener and ends like one. -/
theorem parse_suggest_and_commentSelection_at_seams :
    (∃ m, parse (suggest "a~>\x7b~".toList "\x7db~~\x7d\x7b~".toList) = [m] ∧
      m.kind = .substitution ∧
      m.replacement .accept = "\x7db~ ~\x7d\x7b~".toList ∧
      m.replacement .reject = "a~ >\x7b~".toList) ∧
    ∃ h, parse (Kind.highlight.wrap "\x7b ++x=\x7b".toList ++ comment "me".toList 5 "?".toList) =
        [h, commentAt h.full.stop "me".toList 5 "?".toList] ∧
      h.content = "\x7b ++x=\x7b".toList := by
  obtain ⟨suggested, selected⟩ := parse_suggest_and_commentSelection
  constructor
  · obtain ⟨m, scanned, -, kind, accept, reject⟩ := suggested "a~>\x7b~".toList
      "\x7db~~\x7d\x7b~".toList (by decide)
    have native : m.kind = .substitution := kind.trans (by decide)
    rw [native] at accept reject
    exact ⟨m, scanned, native, accept.trans (by decide +kernel), reject.trans (by decide +kernel)⟩
  · have fits : Json.inSigned64 5 := by decide
    obtain ⟨text, h, edit, -, scanned, -, -, content⟩ := selected ⟨0, 7⟩
      "\x7b++x=\x7b".toList "me".toList 5 "?".toList (by decide) fits
    have broken : Kind.highlight.safe "\x7b++x=\x7b".toList = "\x7b ++x=\x7b".toList := by
      decide +kernel
    obtain ⟨-, rfl⟩ := Edit.replace.inj edit
    exact ⟨h, broken ▸ scanned, content.trans broken⟩

end Draft

end Marginalia
