import Marginalia.Proofs.Document.Exchange
import Marginalia.Proofs.Markup.Stability

/-! # Tokens resolved one by one

From the last token to the first, each is looked up in a fresh reading of the text that the ones
behind it have left. Whatever has come about behind a token, the text in front of it is as it was, so
a fresh reading begins with the same tokens and the right one is found. In the end every token has
given way as if all had been resolved at once.
-/

namespace Marginalia

/-- What resolving tokens puts in their places, each with an outcome of its own. -/
def Markup.resolutions (ms : List Markup) (outcomes : List Outcome) : List Replacement :=
  List.zipWith (fun m outcome => ⟨m.full, m.replacement outcome⟩) ms outcomes

theorem Markup.resolutions_cons (m : Markup) (ms : List Markup) (outcome : Outcome)
    (outcomes : List Outcome) :
    resolutions (m :: ms) (outcome :: outcomes) =
      ⟨m.full, m.replacement outcome⟩ :: resolutions ms outcomes := rfl

theorem Markup.resolutions_of_forall {ms : List Markup} {outcomes : List Outcome}
    {outcome : Outcome} (each : outcomes.length = ms.length) (same : ∀ o ∈ outcomes, o = outcome) :
    resolutions ms outcomes = ms.map fun m => ⟨m.full, m.replacement outcome⟩ := by
  induction ms generalizing outcomes with
  | nil => simp [resolutions]
  | cons m ms ih =>
      cases outcomes with
      | nil => simp at each
      | cons o outcomes =>
          obtain ⟨rfl, same⟩ := List.forall_mem_cons.mp same
          rw [resolutions_cons, ih (Nat.succ.inj each) same, List.map_cons]

theorem Text.resolveAll_of_exchange {t result : Text} {outcome : Outcome}
    (h : Exchange 0 t ((Markup.parse t).map fun m => ⟨m.full, m.replacement outcome⟩) result) :
    t.resolveAll outcome = result := by
  have made := h.foldr_splice [] rfl
  rw [List.foldr_map] at made
  exact made

namespace Document

/-- Resolves the token with number `i` of a fresh reading, if there is one. -/
def resolveAt (i : Nat) (outcome : Outcome) (d : Document) : Document :=
  match d.markup[i]? with
  | some m => (d.resolve m outcome).1
  | none => d

/-- Resolves tokens one by one, the last one first. The first outcome is that of the token with
    number `i`. -/
def resolveFrom (i : Nat) : List Outcome → Document → Document
  | [], d => d
  | outcome :: outcomes, d => (resolveFrom (i + 1) outcomes d).resolveAt i outcome

theorem resolveAt_of_getElem? {i : Nat} {d : Document} {m : Markup} (here : d.markup[i]? = some m)
    (outcome : Outcome) : d.resolveAt i outcome = (d.resolve m outcome).1 := by
  simp only [resolveAt, here]

/-- The document is the text `t` with the tokens `after` resolved and those in front of them, which
    lie in `front`, still to come. -/
structure ResolvedBehind (t : Text) (before after : List Markup) (outcomes : List Outcome)
    (d : Document) (front rest left : Text) : Prop where
  parts : t = front ++ rest
  scanned : Markup.parseAfresh 0 front = before
  text : d.text = front ++ left
  made : Exchange front.byteLength rest (Markup.resolutions after outcomes) left

namespace ResolvedBehind

variable {t front rest left : Text} {before after : List Markup} {outcomes : List Outcome}
  {d : Document} {m : Markup}

theorem prefix_markup (h : ResolvedBehind t before after outcomes d front rest left) :
    before <+: d.markup := by
  change _ <+: Markup.parse d.text
  rw [h.text, Markup.parse_eq, ← h.scanned]
  exact Markup.parseAfresh_prefix_append 0 front left

theorem getElem?_markup (h : ResolvedBehind t (before ++ [m]) after outcomes d front rest left) :
    d.markup[before.length]? = some m := by
  obtain ⟨later, same⟩ := h.prefix_markup
  rw [← same]
  simp

/-- The last of the tokens still to come gives way. -/
theorem step (h : ResolvedBehind t (before ++ [m]) after outcomes d front rest left)
    (outcome : Outcome) :
    ∃ front rest left, ResolvedBehind t before (m :: after) (outcome :: outcomes)
      (d.resolveAt before.length outcome) front rest left := by
  have found := h.getElem?_markup
  obtain ⟨rfl, scanned, text, made⟩ := h
  obtain ⟨front, token, gap, rfl, starts, begins, unchanged, -⟩ := Markup.exists_cut_around scanned
  have stops := begins.stop_add
  simp only [Nat.zero_add, Text.byteLength_nil, Nat.add_zero] at starts stops
  have full : m.full = ⟨front.byteLength, front.byteLength + token.byteLength⟩ := by
    rw [starts, ← stops]
  refine ⟨front, token ++ gap ++ rest, m.replacement outcome ++ gap ++ left, by simp, unchanged,
    ?_, ?_⟩
  · have cut : d.text = front ++ token ++ (gap ++ left) := by simpa using text
    rw [resolveAt_of_getElem? found, resolve, full, text_apply_replace cut]
    simp only [List.append_assoc]
  · have there : front.byteLength + token.byteLength + gap.byteLength =
        (front ++ token ++ gap).byteLength := by
      simp only [Text.byteLength_append]
    have behind := Exchange.behind_gap gap (there ▸ made)
    rw [Markup.resolutions_cons, full]
    simpa using Exchange.replaced [] token (m.replacement outcome) behind

/-- However many tokens are resolved, those in front of them are still to come. -/
theorem exists_of_resolveFrom (each : outcomes.length = after.length)
    (scanned : d.markup = before ++ after) :
    ∃ front rest left, ResolvedBehind d.text before after outcomes
      (resolveFrom before.length outcomes d) front rest left := by
  induction outcomes generalizing before after with
  | nil =>
      obtain rfl := List.eq_nil_of_length_eq_zero each.symm
      rw [markup_eq, Markup.parse_eq, List.append_nil] at scanned
      exact ⟨d.text, [], [], by simp, scanned, by simp [resolveFrom], .kept []⟩
  | cons outcome outcomes ih =>
      obtain ⟨m, after, rfl⟩ := List.exists_cons_of_length_eq_add_one each.symm
      rw [List.append_cons] at scanned
      obtain ⟨front, rest, left, h⟩ := ih (Nat.succ.inj each) scanned
      rw [List.length_append, List.length_singleton] at h
      exact h.step outcome

end ResolvedBehind

theorem text_resolveAll {d : Document} {outcome : Outcome} {result : Text}
    (h : Exchange 0 d.text (d.markup.map fun m => ⟨m.full, m.replacement outcome⟩) result) :
    (d.resolveAll outcome).1.text = result := by
  apply text_apply_of_exchange
  simpa only [Edit.requested, List.map_map, Function.comp_def] using h

theorem exchange_text_resolveFrom {d : Document} {outcomes : List Outcome}
    (each : outcomes.length = d.markup.length) :
    Exchange 0 d.text (Markup.resolutions d.markup outcomes) (resolveFrom 0 outcomes d).text := by
  obtain ⟨front, rest, left, h⟩ :=
    ResolvedBehind.exists_of_resolveFrom each (List.nil_append d.markup).symm
  have behind := h.made
  rw [← Nat.zero_add front.byteLength] at behind
  rw [h.parts]
  exact h.text ▸ behind.behind_gap front

/-- Resolving all tokens of a text keeps everything between them. -/
theorem exchange_resolveAll (t : Text) (outcome : Outcome) :
    Exchange 0 t ((Markup.parse t).map fun m => ⟨m.full, m.replacement outcome⟩)
      (t.resolveAll outcome) := by
  have each : (List.replicate (ofText t).markup.length outcome).length =
      (ofText t).markup.length := List.length_replicate
  have made := exchange_text_resolveFrom each
  rw [Markup.resolutions_of_forall each fun o ho => (List.mem_replicate.mp ho).2] at made
  exact Text.resolveAll_of_exchange made ▸ made

/-- Tokens resolved one by one, each read afresh, are those of the text at the start, and in the end
    they have given way and everything between them is kept. With one outcome for all, this is the
    text that resolving all tokens at once leaves, in the text itself or as one edit. -/
theorem exchange_resolveFrom {d : Document} {outcomes : List Outcome}
    (each : outcomes.length = d.markup.length) :
    (∀ i, i < outcomes.length →
      (resolveFrom (i + 1) (outcomes.drop (i + 1)) d).markup[i]? = d.markup[i]?) ∧
    Exchange 0 d.text (Markup.resolutions d.markup outcomes) (resolveFrom 0 outcomes d).text ∧
    ∀ outcome, (∀ o ∈ outcomes, o = outcome) →
      (resolveFrom 0 outcomes d).text = d.text.resolveAll outcome ∧
        (d.resolveAll outcome).1.text = d.text.resolveAll outcome ∧
        (d.resolveAll outcome).1.version = d.version + 1 := by
  have made := exchange_text_resolveFrom each
  refine ⟨?_, made, ?_⟩
  · intro i inside
    have earlier : (d.markup.take (i + 1)).length = i + 1 :=
      List.length_take_of_le (each ▸ inside)
    have later : (outcomes.drop (i + 1)).length = (d.markup.drop (i + 1)).length := by
      rw [List.length_drop, List.length_drop, each]
    obtain ⟨front, rest, left, h⟩ :=
      ResolvedBehind.exists_of_resolveFrom later (List.take_append_drop (i + 1) d.markup).symm
    rw [earlier] at h
    obtain ⟨more, same⟩ := h.prefix_markup
    rw [← same, List.getElem?_append_left (by omega), List.getElem?_take_of_lt (by omega)]
  · intro outcome same
    rw [Markup.resolutions_of_forall each same] at made
    rw [text_resolveAll made, Text.resolveAll_of_exchange made]
    exact ⟨rfl, rfl, rfl⟩

/-- Without the comment its neighbours make an addition, which is not read in place of the deletion.
-/
theorem exchange_resolveFrom_beside_new_addition :
    let d := ofText (Kind.deletion.wrap ['k'] ++ ['{', '+'] ++ Kind.comment.wrap ['x'] ++
      ['+', 'y', '+', '+', '}'])
    Exchange 0 d.text [⟨⟨0, 7⟩, ['k']⟩, ⟨⟨9, 16⟩, []⟩]
        (resolveFrom 0 [.reject, .accept] d).text ∧
      (resolveFrom 1 [.accept] d).markup[0]? = d.markup[0]? ∧
      (resolveFrom 0 [.reject, .accept] d).text = ['k'] ++ Kind.addition.wrap ['y'] := by
  intro d
  have each : [Outcome.reject, .accept].length = d.markup.length := by decide +kernel
  obtain ⟨found, made, -⟩ := exchange_resolveFrom each
  have resolutions : Markup.resolutions d.markup [.reject, .accept] =
      [⟨⟨0, 7⟩, ['k']⟩, ⟨⟨9, 16⟩, []⟩] := by decide +kernel
  exact ⟨resolutions ▸ made, found 0 (by decide), by decide +kernel⟩

end Document

end Marginalia
