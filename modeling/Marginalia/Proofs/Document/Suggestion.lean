import Marginalia.Proofs.Document.Patch
import Marginalia.Proofs.Markup.Grammar
import Marginalia.Proofs.Review.Neutral

/-! # Suggestions accepted and rejected

A suggestion stands between the same two stretches of text as what it is about. Read again as one
token it gives way to the old text or to the new one, as they were written into it: neutralised. So
rejecting takes the edit back, and accepting makes it after all, up to the spaces that neutralising
has put in.
-/

namespace Marginalia

namespace Draft

/-- The sequences that a suggestion breaks up in the old text, apart from openers. -/
def brokenInOld (new : Text) : List Text :=
  if new.isEmpty then [Kind.deletion.closer] else [Kind.substitution.closer, Kind.separator]

/-- The sequences that a suggestion breaks up in the new text, apart from openers. -/
def brokenInNew (old : Text) : List Text :=
  if old.isEmpty then [Kind.addition.closer] else [Kind.substitution.closer]

theorem breakable_of_mem_brokenInOld {new : Text} : ∀ p ∈ brokenInOld new, Text.Breakable p := by
  unfold brokenInOld
  split
  · exact (Payload.last .deletion).breakable_of_mem_closers
  · exact Payload.old.breakable_of_mem_closers

theorem breakable_of_mem_brokenInNew {old : Text} : ∀ p ∈ brokenInNew old, Text.Breakable p := by
  unfold brokenInNew
  split
  · exact (Payload.last .addition).breakable_of_mem_closers
  · exact (Payload.last .substitution).breakable_of_mem_closers

theorem suggest_of_nil_left {new : Text} (ne : new ≠ []) :
    suggest [] new = Kind.addition.wrap (Text.neutralize (brokenInNew []) new) := by
  have filled : new.isEmpty = false := List.isEmpty_eq_false_iff.mpr ne
  simp only [suggest, filled]
  rfl

theorem suggest_of_nil_right {old : Text} (ne : old ≠ []) :
    suggest old [] = Kind.deletion.wrap (Text.neutralize (brokenInOld []) old) := by
  have filled : old.isEmpty = false := List.isEmpty_eq_false_iff.mpr ne
  simp only [suggest, filled]
  rfl

theorem suggest_of_ne_nil {old new : Text} (ne : old ≠ []) (ne' : new ≠ []) (differs : old ≠ new) :
    suggest old new =
      Kind.substitution.wrap (Text.neutralize (brokenInOld new) old ++ Kind.separator ++
        Text.neutralize (brokenInNew old) new) := by
  have filled : old.isEmpty = false := List.isEmpty_eq_false_iff.mpr ne
  have filled' : new.isEmpty = false := List.isEmpty_eq_false_iff.mpr ne'
  simp only [suggest, brokenInOld, brokenInNew, filled, filled', if_neg differs]
  rfl

theorem firstSplit_separator {old : Text} (absent : ¬ Kind.separator <:+: old) (new : Text) :
    Text.FirstSplit Kind.separator (old ++ Kind.separator ++ new) old new := by
  -- The old text may end in `~`, so its last character says nothing about what follows.
  apply Text.FirstSplit.of_unbordered absent
  intro w z parts border ne
  rcases w with _ | ⟨a, _ | ⟨b, w⟩⟩
  · exact absurd rfl ne
  · obtain ⟨-, rfl⟩ := List.cons.inj parts
    simp [Kind.separator] at border
  · simp only [Kind.separator, List.cons_append, List.cons.injEq, List.nil_eq,
      List.append_eq_nil_iff] at parts
    exact parts.2.2.2

end Draft

namespace Markup

theorem Begins.reads_of_wrap {start : Nat} {k : Kind} {payload : Text} {m : Markup}
    (h : Begins start (k.wrap payload) m []) :
    m.kind = k ∧ ∃ lead, m.detail.Reads payload lead m.content := by
  obtain ⟨j, inside, same, -, hm⟩ := h
  simp only [Kind.wrap, List.append_nil, List.append_assoc] at same
  obtain rfl : k = j := Kind.opener_prefix_unique ⟨_, same⟩ ⟨_, rfl⟩
  obtain rfl := List.append_cancel_right (List.append_cancel_left same)
  obtain ⟨kind, -, lead, reads, -⟩ := ofPayload?_eq_some_iff.mp hm
  exact ⟨kind, lead, reads⟩

theorem Begins.replacement_of_addition {start : Nat} {new : Text} {m : Markup}
    (h : Begins start (Kind.addition.wrap new) m []) :
    m.replacement .reject = [] ∧ m.replacement .accept = new := by
  obtain ⟨kind, lead, reads⟩ := h.reads_of_wrap
  obtain ⟨full, inner, content, detail⟩ := m
  cases reads with
  | addition => exact ⟨rfl, rfl⟩
  | deletion | highlight | substitution | signed | unsigned => cases kind

theorem Begins.replacement_of_deletion {start : Nat} {old : Text} {m : Markup}
    (h : Begins start (Kind.deletion.wrap old) m []) :
    m.replacement .reject = old ∧ m.replacement .accept = [] := by
  obtain ⟨kind, lead, reads⟩ := h.reads_of_wrap
  obtain ⟨full, inner, content, detail⟩ := m
  cases reads with
  | deletion => exact ⟨rfl, rfl⟩
  | addition | highlight | substitution | signed | unsigned => cases kind

theorem Begins.replacement_of_substitution {start : Nat} {old new : Text} {m : Markup}
    (absent : ¬ Kind.separator <:+: old)
    (h : Begins start (Kind.substitution.wrap (old ++ Kind.separator ++ new)) m []) :
    m.replacement .reject = old ∧ m.replacement .accept = new := by
  obtain ⟨kind, lead, reads⟩ := h.reads_of_wrap
  obtain ⟨full, inner, content, detail⟩ := m
  cases reads with
  | substitution split => exact split.unique (Draft.firstSplit_separator absent new)
  | addition | deletion | highlight | signed | unsigned => cases kind

/-- A suggestion gives way to the old text or to the new one, both neutralised. -/
theorem Begins.replacement_of_suggest {start : Nat} {old new : Text} {m : Markup}
    (differs : old ≠ new) (h : Begins start (Draft.suggest old new) m []) :
    m.replacement .reject = Text.neutralize (Draft.brokenInOld new) old ∧
      m.replacement .accept = Text.neutralize (Draft.brokenInNew old) new := by
  by_cases empty : old = []
  · subst empty
    rw [Draft.suggest_of_nil_left (Ne.symm differs)] at h
    rw [Text.neutralize_nil Draft.breakable_of_mem_brokenInOld]
    exact h.replacement_of_addition
  by_cases empty' : new = []
  · subst empty'
    rw [Draft.suggest_of_nil_right differs] at h
    rw [Text.neutralize_nil Draft.breakable_of_mem_brokenInNew]
    exact h.replacement_of_deletion
  rw [Draft.suggest_of_ne_nil empty empty' differs] at h
  have mem : Kind.separator ∈ Draft.brokenInOld new := by
    rw [Draft.brokenInOld, if_neg (by simpa using empty')]
    exact List.mem_cons_of_mem _ List.mem_cons_self
  exact h.replacement_of_substitution
    (Text.not_infix_neutralize Draft.breakable_of_mem_brokenInOld mem old)

end Markup

namespace Document

variable {d : Document} {range : Span} {front old rest : Text}

theorem edit_eq_apply (cut : (range.clamp d.text).Cuts d.text front old rest) (new : Text)
    (tracked : Bool) :
    d.edit range new tracked =
      d.apply (.replace ⟨front.byteLength, front.byteLength + old.byteLength⟩
        (Draft.compose tracked old new)) := by
  rw [edit, slice, cut.under_eq, cut.eq_mk]

theorem text_edit (cut : (range.clamp d.text).Cuts d.text front old rest) (new : Text)
    (tracked : Bool) :
    (d.edit range new tracked).1.text = front ++ Draft.compose tracked old new ++ rest := by
  rw [edit_eq_apply cut, text_apply_replace cut.parts]

theorem full_of_changed_edit {new : Text} {m : Markup}
    (cut : (range.clamp d.text).Cuts d.text front old rest)
    (whole : (d.edit range new true).2.changed = [m.full]) :
    m.full = ⟨front.byteLength, front.byteLength + (Draft.suggest old new).byteLength⟩ := by
  have made := Exchange.single front old (Draft.compose true old new) rest
  rw [← cut.parts] at made
  rw [edit_eq_apply cut, changed_apply, Edit.replacements_of_exchange made] at whole
  have mem : m.full ∈ [m.full] := List.mem_singleton_self m.full
  rw [← whole] at mem
  simpa [Replacement.places, Edit.requested, Draft.compose] using (List.mem_filter.mp mem).1

/-- The suggestion that a fresh reading finds is the one the edit has written. -/
theorem begins_of_mem_markup_edit {new : Text} {m : Markup}
    (cut : (range.clamp d.text).Cuts d.text front old rest)
    (found : m ∈ (d.edit range new true).1.markup)
    (whole : (d.edit range new true).2.changed = [m.full]) :
    Markup.Begins front.byteLength (Draft.suggest old new) m [] := by
  have full := full_of_changed_edit cut whole
  rw [markup_eq, text_edit cut, Markup.parse_eq] at found
  rw [← Nat.zero_add front.byteLength] at full ⊢
  exact Markup.begins_of_mem_parseAfresh found full

/-- A suggestion that a fresh reading finds as one token gives way, when it is rejected, to the old
    text neutralised, and when it is accepted, to the new text neutralised: what an untracked edit
    would have put there. So rejecting restores the text exactly if the old text has none of the
    sequences that are broken up in it, and accepting makes the untracked edit exactly if the new
    text has none of those broken up in that. -/
theorem text_resolve_edit {d : Document} {range : Span} {new : Text} {m : Markup}
    (differs : d.slice range ≠ new)
    (found : m ∈ (d.edit range new true).1.markup)
    (whole : (d.edit range new true).2.changed = [m.full]) :
    let old := d.slice range
    let suggested := (d.edit range new true).1
    let restored := Text.neutralize (Draft.brokenInOld new) old
    let proposed := Text.neutralize (Draft.brokenInNew old) new
    (suggested.resolve m .reject).1.text = (d.edit range restored false).1.text ∧
      (suggested.resolve m .accept).1.text = (d.edit range proposed false).1.text ∧
      ((suggested.resolve m .reject).1.text = d.text ↔
        ∀ p ∈ Kind.all.map Kind.opener ++ Draft.brokenInOld new, ¬ p <:+: old) ∧
      ((suggested.resolve m .accept).1.text = (d.edit range new false).1.text ↔
        ∀ p ∈ Kind.all.map Kind.opener ++ Draft.brokenInNew old, ¬ p <:+: new) := by
  intro old suggested restored proposed
  obtain ⟨front, inside, rest, cut⟩ := Span.exists_cuts_clamp d.text range
  obtain rfl : old = inside := cut.under_eq_of_clamp
  have begins := begins_of_mem_markup_edit cut found whole
  obtain ⟨reject, accept⟩ := begins.replacement_of_suggest differs
  have resolved (outcome : Outcome) :
      (suggested.resolve m outcome).1.text = front ++ m.replacement outcome ++ rest := by
    rw [resolve, full_of_changed_edit cut whole]
    exact text_apply_replace (text_edit cut new true) _
  have untracked (t : Text) : (d.edit range t false).1.text = front ++ t ++ rest :=
    text_edit cut t false
  have same (t u : Text) : front ++ t ++ rest = front ++ u ++ rest ↔ t = u := by
    rw [List.append_left_inj, List.append_right_inj]
  refine ⟨?_, ?_, ?_, ?_⟩
  · rw [resolved, untracked, reject]
  · rw [resolved, untracked, accept]
  · rw [resolved, reject, cut.parts, same]
    exact Text.neutralize_eq_self_iff Draft.breakable_of_mem_brokenInOld
  · rw [resolved, untracked, accept, same]
    exact Text.neutralize_eq_self_iff Draft.breakable_of_mem_brokenInNew

/-- The old text has a token in it and ends in half a separator, the new one begins with a closer. The
    range begins inside a character and ends beyond the text. -/
theorem text_resolve_edit_across_token :
    let d := ofText "aé\x7b++b++\x7d~".toList
    let suggested := (d.edit ⟨2, 99⟩ "~~\x7dc".toList true).1
    ∃ m ∈ suggested.markup,
      (suggested.resolve m .reject).1.text = "aé\x7b ++b++\x7d~".toList ∧
        (suggested.resolve m .accept).1.text = "a~ ~\x7dc".toList := by
  intro d suggested
  let m : Markup := ⟨⟨1, 25⟩, ⟨4, 22⟩, "é\x7b ++b++\x7d~~>~ ~\x7dc".toList,
    .substitution "é\x7b ++b++\x7d~".toList "~ ~\x7dc".toList⟩
  have differs : d.slice ⟨2, 99⟩ ≠ "~~\x7dc".toList := by decide +kernel
  have found : m ∈ suggested.markup := by decide +kernel
  have whole : (d.edit ⟨2, 99⟩ "~~\x7dc".toList true).2.changed = [m.full] := by decide +kernel
  obtain ⟨reject, accept, -, -⟩ := text_resolve_edit differs found whole
  refine ⟨m, found, reject.trans ?_, accept.trans ?_⟩
  · decide +kernel
  · decide +kernel

/-- An addition that a suggestion would replace is not restored when the suggestion is rejected. -/
theorem text_reject_suggestion_ne_of_addition :
    let d := ofText "\x7b++a++\x7d".toList
    let suggested := d.edit ⟨0, 7⟩ ['b'] true
    d.slice ⟨0, 7⟩ ≠ ['b'] ∧
      ∃ m ∈ suggested.1.markup, suggested.2.changed = [m.full] ∧
        (suggested.1.resolve m .reject).1.text ≠ d.text := by
  decide +kernel

end Document

end Marginalia
