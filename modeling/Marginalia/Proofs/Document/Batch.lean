import Marginalia.Proofs.Document.Patch

/-! # Several replacements at once

Replacements that keep apart are all made, in the order of their places, whatever order they are
given in. Made one after the other from the last place to the first they leave the same text, since
what lies in front of a replacement stays where it was. Replacements made one after the other are
clamped one after the other, so the spans have to be clamped into the first text.
-/

namespace Marginalia

namespace Replacement

/-- One ends where the other begins or in front of it, and they are not both empty at one place. -/
def Apart (a b : Replacement) : Prop :=
  (a.span.stop ≤ b.span.start ∨ b.span.stop ≤ a.span.start) ∧
    ¬(a.span.isEmpty ∧ b.span.isEmpty ∧ a.span.start = b.span.start)

instance : DecidableRel Apart := fun a b =>
  inferInstanceAs (Decidable ((a.span.stop ≤ b.span.start ∨ b.span.stop ≤ a.span.start) ∧
    ¬(a.span.isEmpty ∧ b.span.isEmpty ∧ a.span.start = b.span.start)))

variable {a b : Replacement}

theorem Apart.symm (apart : a.Apart b) : b.Apart a :=
  ⟨apart.1.symm, fun ⟨empty, empty', same⟩ => apart.2 ⟨empty', empty, same.symm⟩⟩

theorem Apart.stop_le_start (apart : a.Apart b) (le : Edit.inOrder a b)
    (ordered : b.span.start ≤ b.span.stop) : a.span.stop ≤ b.span.start := by
  rcases apart.1 with before | behind
  · exact before
  · rcases Edit.inOrder_iff.mp le with lt | ⟨same, le⟩ <;> omega

/-- Of two that keep apart only one comes first. -/
theorem Apart.not_inOrder (apart : a.Apart b) (le : Edit.inOrder a b) : ¬Edit.inOrder b a := by
  intro ge
  -- They would have the same span, and spans that keep apart are the same only when empty.
  have same : a.span.start = b.span.start ∧ a.span.stop = b.span.stop := by
    have := Edit.inOrder_iff.mp le
    have := Edit.inOrder_iff.mp ge
    omega
  have empty : a.span.length = 0 ∧ b.span.length = 0 := by
    have := apart.1
    simp only [Span.length]
    omega
  exact apart.2 ⟨beq_iff_eq.mpr empty.1, beq_iff_eq.mpr empty.2, same.1⟩

end Replacement

namespace Edit

open Replacement (Apart)

variable {t : Text} {e : Edit} {rs others : List Replacement}

/-- Replacements that keep apart have one order. -/
theorem eq_mergeSort_of_perm (apart : rs.Pairwise Apart) (perm : others.Perm rs)
    (sorted : others.Pairwise fun a b => inOrder a b) : others = rs.mergeSort inOrder := by
  have sorts := List.mergeSort_perm rs inOrder
  exact List.Perm.eq_of_pairwise (fun _ _ _ _ le ge => absurd ge.1 (le.2.not_inOrder le.1))
    (sorted.and (apart.perm perm.symm Apart.symm))
    ((pairwise_mergeSort_inOrder rs).and (apart.perm sorts.symm Apart.symm))
    (perm.trans sorts.symm)

theorem mergeSort_eq_of_perm (apart : rs.Pairwise Apart) (perm : others.Perm rs) :
    others.mergeSort inOrder = rs.mergeSort inOrder :=
  eq_mergeSort_of_perm apart ((List.mergeSort_perm others inOrder).trans perm)
    (pairwise_mergeSort_inOrder others)

theorem start_le_stop_of_mem_clamped {r : Replacement} (mem : r ∈ e.clamped t) :
    r.span.start ≤ r.span.stop := by
  obtain ⟨asked, -, rfl⟩ := List.mem_map.mp mem
  obtain ⟨before, old, after, cut⟩ := Span.exists_cuts_clamp t asked.span
  exact cut.start_le_stop

theorem replacements_of_apart (apart : (e.clamped t).Pairwise Apart) :
    e.replacements t = (e.clamped t).mergeSort inOrder := by
  have perm := List.mergeSort_perm (e.clamped t) inOrder
  have apart := apart.perm perm.symm Apart.symm
  have sorted := pairwise_mergeSort_inOrder (e.clamped t)
  apply withoutOverlaps_of_ascending
  · refine (sorted.and apart).imp_of_mem fun {a b} _ mem both => ?_
    exact both.2.stop_le_start both.1 (start_le_stop_of_mem_clamped (perm.mem_iff.mp mem))
  · exact fun _ _ => Nat.zero_le _

end Edit

namespace Document

open Replacement (Apart)

/-- Makes replacements one after the other, each at its offsets in what the one before leaves. -/
def replaceEach (rs : List Replacement) (d : Document) : Document :=
  rs.foldl (fun d r => (d.apply (.replace r.span r.text)).1) d

theorem text_replaceEach_reverse {start : Nat} {t result : Text} {rs : List Replacement}
    (h : Exchange start t rs result) {d : Document} {front : Text}
    (here : front.byteLength = start) (text : d.text = front ++ t) :
    (d.replaceEach rs.reverse).text = front ++ result := by
  rw [replaceEach, List.foldl_reverse]
  induction h generalizing front with
  | kept rest => exact text
  | @replaced start gap old new rest result more h ih =>
      -- What is made behind leaves the gap and the old text where they were.
      have first := Text.byteLength_append_of_eq here gap
      have last := Text.byteLength_append_of_eq first old
      have behind := ih last (text.trans (by simp only [List.append_assoc]))
      rw [List.foldr_cons, ← first, ← List.append_assoc, ← List.append_assoc]
      exact text_apply_replace behind new

variable {d : Document} {e : Edit}

theorem apply_eq_of_perm {e' : Edit} (apart : (e.clamped d.text).Pairwise Apart)
    (perm : (e'.clamped d.text).Perm (e.clamped d.text)) : d.apply e' = d.apply e := by
  have same : e'.replacements d.text = e.replacements d.text := by
    rw [Edit.replacements_of_apart apart,
      Edit.replacements_of_apart (apart.perm perm.symm Apart.symm),
      Edit.mergeSort_eq_of_perm apart perm]
  simp only [apply, Delta.ofEdit, same]

theorem text_replaceEach_of_apart {order : List Replacement}
    (apart : (e.clamped d.text).Pairwise Apart) (perm : order.Perm (e.clamped d.text))
    (descending : order.Pairwise fun a b => Edit.inOrder b a) :
    (d.replaceEach order).text = (d.apply e).1.text := by
  have sorted : order.reverse = e.replacements d.text := by
    rw [Edit.replacements_of_apart apart]
    exact Edit.eq_mergeSort_of_perm apart (order.reverse_perm.trans perm)
      (List.pairwise_reverse.mpr descending)
  obtain ⟨result, made⟩ := e.exists_exchange d.text
  rw [text_apply_of_replacements made]
  rw [← sorted] at made
  have each := text_replaceEach_reverse made Text.byteLength_nil rfl
  rwa [List.reverse_reverse] at each

/-- Replacements whose clamped spans keep apart are all made, whatever order they are given in
    leaves the same document and the same patch, and made one after the other with their clamped
    spans, from the last to the first, they leave the same text. Whatever replacements are given,
    those that are made lie side by side and in order, as building the delta demands. -/
theorem apply_replaceMany_eq_replaceEach (d : Document) (edits : List (Span × Text)) :
    let e := Edit.replaceMany edits
    let made := e.replacements d.text
    ((e.clamped d.text).Pairwise Apart →
      made.Perm (e.clamped d.text) ∧
      (∀ others : List (Span × Text), others.Perm edits →
        d.apply (.replaceMany others) = d.apply e) ∧
      ∀ order : List Replacement, order.Perm (e.clamped d.text) →
        order.Pairwise (fun a b => Edit.inOrder b a) →
        (d.replaceEach order).text = (d.apply e).1.text) ∧
    made.Pairwise (fun a b => a.span.stop ≤ b.span.start) ∧
    Delta.build? d.length 0 made = some (Delta.ofEdit d.text e) := by
  intro e made
  refine ⟨fun apart => ⟨?all, fun others perm => ?anyOrder, fun order perm => ?oneByOne⟩,
    ?sideBySide, Delta.build?_replacements d.text e⟩
  case all =>
    rw [show made = _ from Edit.replacements_of_apart apart]
    exact List.mergeSort_perm _ _
  case anyOrder => exact apply_eq_of_perm apart ((perm.map _).map _)
  case oneByOne => exact text_replaceEach_of_apart apart perm
  case sideBySide =>
    obtain ⟨result, exchange⟩ := e.exists_exchange d.text
    exact exchange.ascending

/-- A deletion from inside a character, an insertion where it ends, and a reversed span. -/
theorem apply_replaceMany_eq_replaceEach_of_touching :
    let d := ofText "aébcd".toList
    let edits := [(⟨4, 4⟩, ['u']), (⟨9, 5⟩, "!!".toList), (⟨2, 4⟩, [])]
    let order : List Replacement := [⟨⟨5, 5⟩, "!!".toList⟩, ⟨⟨4, 4⟩, ['u']⟩, ⟨⟨1, 4⟩, []⟩]
    d.apply (.replaceMany edits.reverse) = d.apply (.replaceMany edits) ∧
      (d.replaceEach order).text = (d.apply (.replaceMany edits)).1.text ∧
      (d.replaceEach order).text = "auc!!d".toList := by
  intro d edits order
  obtain ⟨-, anyOrder, oneByOne⟩ :=
    (apply_replaceMany_eq_replaceEach d edits).1 (by decide +kernel)
  exact ⟨anyOrder _ edits.reverse_perm, oneByOne order (by decide +kernel) (by decide +kernel),
    by decide +kernel⟩

/-- With the span it was given a replacement can take away what another has put behind it: once `y`
    is there, a span that reached beyond the text reaches over it. -/
theorem text_replaceEach_ne_of_stale :
    let d := ofText "abc".toList
    let e := Edit.replaceMany [(⟨3, 3⟩, ['y']), (⟨1, 9⟩, ['x'])]
    (e.clamped d.text).Pairwise Apart ∧
      (e.clamped d.text).Pairwise (fun a b => Edit.inOrder b a) ∧
      (d.apply e).1.text = "axy".toList ∧ (d.replaceEach e.requested).text = "ax".toList ∧
      (d.replaceEach e.requested).text ≠ (d.apply e).1.text := by
  intro d e
  have apart : (e.clamped d.text).Pairwise Apart := by decide +kernel
  have descending : (e.clamped d.text).Pairwise fun a b => Edit.inOrder b a := by decide +kernel
  have once : (d.apply e).1.text = "axy".toList :=
    (text_replaceEach_of_apart apart (.refl _) descending).symm.trans (by decide +kernel)
  have each : (d.replaceEach e.requested).text = "ax".toList := by decide +kernel
  refine ⟨apart, descending, once, each, ?_⟩
  rw [once, each]
  decide

end Document

end Marginalia
