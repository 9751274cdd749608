import Marginalia.Proofs.Document.History

/-! # What a patch tells

A patch tells where in the text that an edit leaves the new texts lie. Without them that text is the
text before without what gave way, so a patch tells of every change, and of nothing that stayed. The
selection of a single edit moves as its ends lie to the span that gives way.
-/

namespace Marginalia

theorem Span.isEmpty_mk_add (start : Nat) (text : Text) :
    (Span.mk start (start + text.byteLength)).isEmpty = text.isEmpty := by
  cases text with
  | nil => simp [isEmpty, length]
  | cons c text =>
      have := c.utf8Size_pos
      simp only [isEmpty, length, Text.byteLength_cons, List.isEmpty_cons, beq_eq_false_iff_ne]
      omega

namespace Text

/-- The text without what lies under spans that ascend in it. -/
def remove (spans : List Span) (t : Text) : Text := spans.foldr (fun s t => t.splice s []) t

theorem splice_nil_of_isEmpty {s : Span} (ordered : s.start ≤ s.stop) (empty : s.isEmpty)
    (t : Text) : t.splice s [] = t := by
  have same : s.start = s.stop := by
    simp only [Span.isEmpty, Span.length, beq_iff_eq] at empty
    omega
  rw [splice, same, List.append_nil, takeWithin_append_dropWithin]

theorem remove_filter {spans : List Span} (ordered : ∀ s ∈ spans, s.start ≤ s.stop) (t : Text) :
    t.remove (spans.filter fun s => !s.isEmpty) = t.remove spans := by
  induction spans with
  | nil => rfl
  | cons s spans ih =>
      obtain ⟨here, later⟩ := List.forall_mem_cons.mp ordered
      have rest := ih later
      cases empty : s.isEmpty with
      | false =>
          rw [List.filter_cons_of_pos (by simp [empty]), remove, List.foldr_cons]
          exact congrArg (fun u => Text.splice u s []) rest
      | true =>
          rw [List.filter_cons_of_neg (by simp [empty]), rest, remove, remove, List.foldr_cons,
            splice_nil_of_isEmpty here empty]

end Text

/-- Where an offset comes to lie when `r` is all that is replaced: behind the new text when it lies
    within the old one or at an end of it, otherwise as far from the nearer end as before. -/
def Replacement.carry (r : Replacement) (offset : Nat) : Nat :=
  if offset < r.span.start then offset
  else if offset ≤ r.span.stop then r.span.start + r.text.byteLength
  else offset - r.span.length + r.text.byteLength

theorem Replacement.carry_mono {r : Replacement} (ordered : r.span.start ≤ r.span.stop) {p q : Nat}
    (le : p ≤ q) : r.carry p ≤ r.carry q := by
  unfold carry Span.length
  grind

namespace Exchange

variable {start : Nat} {t result : Text} {rs : List Replacement}

/-- Without the new texts the result is what the text is without the old ones. -/
theorem exists_kept (h : Exchange start t rs result) (made : Nat) :
    ∃ kept, Exchange start t ((rs.map Replacement.span).map fun s => ⟨s, []⟩) kept ∧
      Exchange made result ((Replacement.places start made rs).map fun place => ⟨place, []⟩)
        kept := by
  induction h generalizing made with
  | kept rest => exact ⟨rest, .kept rest, .kept rest⟩
  | @replaced start gap old new rest result more h ih =>
      obtain ⟨kept, before, after⟩ := ih (made + gap.byteLength + new.byteLength)
      -- What gave way and what took its place are removed behind the same gap.
      refine ⟨gap ++ [] ++ kept, .replaced gap old [] before, ?_⟩
      simp only [Replacement.places, List.map_cons, Nat.add_sub_cancel_left]
      exact .replaced gap new [] after

theorem remove_eq {spans : List Span}
    (h : Exchange 0 t (spans.map fun s => ⟨s, []⟩) result) : t.remove spans = result := by
  have made := h.foldr_splice [] rfl
  rw [List.foldr_map] at made
  exact made

theorem stop_le_byteLength {r : Replacement} (h : Exchange 0 t rs result) (mem : r ∈ rs) :
    r.span.stop ≤ t.byteLength := by
  have boundary := (h.floorBoundary_eq [] rfl r mem).2
  rw [List.nil_append] at boundary
  exact Text.le_byteLength_of_isBoundary (beq_iff_eq.mpr boundary)

/-- At the places that are not empty stand the new texts that are not empty, in their order. -/
theorem slice?_places (h : Exchange start t rs result) (front : Text) {made : Nat}
    (here : front.byteLength = made) :
    ((Replacement.places start made rs).filter fun place => !place.isEmpty).map
        (front ++ result).slice? =
      ((rs.map Replacement.text).filter fun new => !new.isEmpty).map some := by
  induction h generalizing front made with
  | kept rest => rfl
  | @replaced start gap old new rest result more h ih =>
      have first := Text.byteLength_append_of_eq here gap
      have further := ih (front ++ gap ++ new) (Text.byteLength_append_of_eq first new)
      have shape : front ++ (gap ++ new ++ result) = front ++ gap ++ new ++ result := by simp
      have stands : (front ++ gap ++ new ++ result).slice?
          ⟨made + gap.byteLength, made + gap.byteLength + new.byteLength⟩ = some new :=
        Text.slice?_eq_some_iff.mpr ⟨front ++ gap, result, rfl, first, rfl⟩
      simp only [Replacement.places, Nat.add_sub_cancel_left, List.map_cons, shape]
      -- A new text and its place are dropped together.
      cases empty : new.isEmpty with
      | true =>
          rw [List.filter_cons_of_neg (by simp [Span.isEmpty_mk_add, empty]),
            List.filter_cons_of_neg (by simp [empty]), further]
      | false =>
          rw [List.filter_cons_of_pos (by simp [Span.isEmpty_mk_add, empty]),
            List.filter_cons_of_pos (by simp [empty]), List.map_cons, List.map_cons, stands,
            further]

end Exchange

namespace Delta

theorem insertedSpans_copying {start stop : Nat} (le : start ≤ stop) (made : Nat) (more : Delta) :
    insertedSpans made (copying start stop ++ more) =
      insertedSpans (made + (stop - start)) more := by
  unfold copying
  split
  · rfl
  · have none : stop - start = 0 := by omega
    rw [none]
    rfl

theorem insertedSpans_inserting (text : Text) (made : Nat) (more : Delta) :
    insertedSpans made (inserting text ++ more) =
      [⟨made, made + text.byteLength⟩].filter (fun place => !place.isEmpty) ++
        insertedSpans (made + text.byteLength) more := by
  cases text with
  | nil => simp [inserting, Span.isEmpty, Span.length]
  | cons c text =>
      rw [List.filter_cons_of_pos (by rw [Span.isEmpty_mk_add]; rfl)]
      rfl

theorem insertedSpans_ofReplacements {start : Nat} {t result : Text} {rs : List Replacement}
    (h : Exchange start t rs result) (made : Nat) :
    insertedSpans made (ofReplacements (start + t.byteLength) start rs) =
      (Replacement.places start made rs).filter fun place => !place.isEmpty := by
  induction h generalizing made with
  | @kept start rest =>
      have copied := insertedSpans_copying (Nat.le_add_right start rest.byteLength) made []
      rw [List.append_nil] at copied
      exact copied
  | @replaced start gap old new rest result more h ih =>
      rw [ofReplacements_replaced, insertedSpans_copying (Nat.le_add_right _ _),
        insertedSpans_inserting, ih, Replacement.places, ← List.filter_append]
      rfl

theorem carry_ofReplacements_singleton {r : Replacement} {length offset : Nat}
    (ordered : r.span.start ≤ r.span.stop) (within : r.span.stop ≤ length)
    (inside : offset ≤ length) :
    carry offset 0 (ofReplacements length 0 [r]) = r.carry offset := by
  rw [ofReplacements, ofReplacements, List.append_assoc, carry_copying, carry_inserting,
    ← List.append_nil (copying r.span.stop length), carry_copying, carry]
  unfold Replacement.carry Span.length
  grind

end Delta

namespace Edit

/-- What an edit asks for, with its spans clamped into the text. -/
def clamped (t : Text) (e : Edit) : List Replacement :=
  e.requested.map fun r => { r with span := r.span.clamp t }

theorem replacements_eq (t : Text) (e : Edit) :
    e.replacements t = withoutOverlaps 0 ((e.clamped t).mergeSort inOrder) := rfl

theorem inOrder_iff {a b : Replacement} :
    inOrder a b ↔ a.span.start < b.span.start ∨
      a.span.start = b.span.start ∧ a.span.stop ≤ b.span.stop := by
  simp only [inOrder, Span.precedes]
  grind

theorem pairwise_mergeSort_inOrder (rs : List Replacement) :
    (rs.mergeSort inOrder).Pairwise fun a b => inOrder a b := by
  apply List.pairwise_mergeSort
  · grind [inOrder_iff]
  · grind [inOrder_iff]

theorem withoutOverlaps_sublist (lastStop : Nat) (rs : List Replacement) :
    (withoutOverlaps lastStop rs).Sublist rs := by
  induction rs generalizing lastStop with
  | nil => exact .slnil
  | cons r rs ih =>
      rw [withoutOverlaps]
      split
      · exact (ih lastStop).cons r
      · exact (ih r.span.stop).cons_cons r

/-- One that is dropped begins in front of where the last one kept before it ends. -/
theorem mem_withoutOverlaps_or {rs : List Replacement} (sorted : rs.Pairwise fun a b => inOrder a b)
    {r : Replacement} (mem : r ∈ rs) (lastStop : Nat) :
    r ∈ withoutOverlaps lastStop rs ∨ r.span.start < lastStop ∨
      ∃ k ∈ withoutOverlaps lastStop rs, inOrder k r ∧ r.span.start < k.span.stop := by
  induction rs generalizing lastStop with
  | nil => cases mem
  | cons first rs ih =>
      obtain ⟨least, sorted⟩ := List.pairwise_cons.mp sorted
      rw [withoutOverlaps]
      rcases List.mem_cons.mp mem with rfl | mem
      · split
        · next overlaps => exact .inr (.inl overlaps)
        · exact .inl List.mem_cons_self
      split
      · exact ih sorted mem lastStop
      rcases ih sorted mem first.span.stop with kept | overlaps | ⟨k, kept, before, overlaps⟩
      · exact .inl (List.mem_cons_of_mem first kept)
      · exact .inr (.inr ⟨first, List.mem_cons_self, least r mem, overlaps⟩)
      · exact .inr (.inr ⟨k, List.mem_cons_of_mem first kept, before, overlaps⟩)

theorem replacements_of_clamped_singleton {t : Text} {e : Edit} {r : Replacement}
    (only : e.clamped t = [r]) : e.replacements t = [r] := by
  rw [replacements_eq, only, List.mergeSort_singleton, withoutOverlaps,
    if_neg (Nat.not_lt_zero _), withoutOverlaps]

end Edit

namespace Document

/-- What an edit reports as changed is where its new texts lie, those that have any text. -/
theorem changed_apply (e : Edit) (d : Document) :
    (d.apply e).2.changed =
      (Replacement.places 0 0 (e.replacements d.text)).filter fun place => !place.isEmpty := by
  obtain ⟨result, made⟩ := e.exists_exchange d.text
  have reported := Delta.insertedSpans_ofReplacements made 0
  rwa [Nat.zero_add] at reported

theorem Settled.selection_apply {d : Document} (settled : d.Settled) {e : Edit} {r : Replacement}
    (only : e.replacements d.text = [r]) :
    (d.apply e).1.selection = ⟨r.carry d.selection.start, r.carry d.selection.stop⟩ := by
  obtain ⟨result, made⟩ := e.exists_exchange d.text
  rw [only] at made
  have ordered := made.start_le_stop r List.mem_cons_self
  have within := made.stop_le_byteLength List.mem_cons_self
  have carried : ∀ offset ≤ d.text.byteLength,
      (Delta.ofEdit d.text e).carry offset 0 = r.carry offset := by
    intro offset inside
    rw [Delta.ofEdit, only]
    exact Delta.carry_ofReplacements_singleton ordered within inside
  have stop := Text.le_byteLength_of_isBoundary settled.stop_boundary
  have start := Nat.le_trans settled.ordered stop
  rw [Document.apply, carried _ start, carried _ stop,
    Nat.max_eq_right (r.carry_mono ordered settled.ordered)]

end Document

/-- A patch of an edit that makes `next` of `d` tells what was done. -/
structure Patch.Tells (e : Edit) (d next : Document) (p : Patch) : Prop where
  /-- What is made was asked for, and it ascends. -/
  asked : (e.replacements d.text).Sublist ((e.clamped d.text).mergeSort Edit.inOrder)
  ascending : (e.replacements d.text).Pairwise fun a b => a.span.stop ≤ b.span.start
  /-- What was asked for and is not made overlaps what is made. -/
  overlapping : ∀ r ∈ e.clamped d.text, r ∉ e.replacements d.text →
    ∃ made ∈ e.replacements d.text, Edit.inOrder made r ∧ r.span.start < made.span.stop
  changed_ascending : p.changed.Pairwise fun a b => a.stop ≤ b.start
  changed_within : ∀ s ∈ p.changed, s.start < s.stop ∧ s.stop ≤ next.length
  /-- The changed spans hold the new texts that are not empty. -/
  inserted : p.changed.map next.text.slice? =
    (((e.replacements d.text).map Replacement.text).filter fun new => !new.isEmpty).map some
  /-- Apart from the changed spans there is what was there apart from what gave way. -/
  kept : next.text.remove p.changed = d.text.remove ((e.replacements d.text).map Replacement.span)
  /-- An edit that asks for one replacement carries the selection across it. -/
  carried : ∀ r, e.clamped d.text = [r] →
    next.selection = ⟨r.carry d.selection.start, r.carry d.selection.stop⟩
  selection : p.selection = next.selection
  version : p.version = next.version

namespace Document

theorem Settled.tells_apply {d : Document} (settled : d.Settled) (e : Edit) :
    (d.apply e).2.Tells e d (d.apply e).1 := by
  obtain ⟨result, made⟩ := e.exists_exchange d.text
  obtain ⟨kept, before, after⟩ := made.exists_kept 0
  have text : (d.apply e).1.text = result := text_apply_of_replacements made
  have changed := changed_apply e d
  have lie : ∀ place ∈ Replacement.places 0 0 (e.replacements d.text),
      place.start ≤ place.stop ∧ place.stop ≤ result.byteLength := fun _ mem =>
    ⟨after.start_le_stop _ (List.mem_map_of_mem mem),
      after.stop_le_byteLength (List.mem_map_of_mem mem)⟩
  refine {
    asked := Edit.withoutOverlaps_sublist 0 _
    ascending := made.ascending
    overlapping := fun r mem passed => ?overlapping
    changed_ascending := ?changed_ascending
    changed_within := fun s mem => ?changed_within
    inserted := ?inserted
    kept := ?kept
    carried := fun r only => settled.selection_apply (Edit.replacements_of_clamped_singleton only)
    selection := rfl
    version := rfl }
  case overlapping =>
    have sorted := Edit.pairwise_mergeSort_inOrder (e.clamped d.text)
    rcases Edit.mem_withoutOverlaps_or sorted (List.mem_mergeSort.mpr mem) 0 with made | lt | found
    · exact absurd made passed
    · exact absurd lt (Nat.not_lt_zero _)
    · exact found
  case changed_ascending =>
    rw [changed]
    exact (List.pairwise_map.mp after.ascending).filter _
  case changed_within =>
    rw [changed] at mem
    obtain ⟨mem, filled⟩ := List.mem_filter.mp mem
    obtain ⟨le, within⟩ := lie s mem
    simp only [Span.isEmpty, Span.length, Bool.not_eq_true', beq_eq_false_iff_ne] at filled
    rw [length, text]
    omega
  case inserted =>
    rw [changed, text]
    exact made.slice?_places [] rfl
  case kept =>
    rw [changed, text, Text.remove_filter fun place mem => (lie place mem).1, after.remove_eq,
      before.remove_eq]

/-- The patch of an edit to a document, whatever has been done to it and whatever offsets the edit
    has, tells what was done. The document counts the edit. -/
theorem patch_tells {start : Document} (opened : start.Opened) (ops : List Operation) (e : Edit) :
    let d := Operation.run start ops
    let next := (d.apply e).1
    (d.apply e).2.Tells e d next ∧ next.version = d.version + 1 := by
  intro d next
  obtain ⟨t, rfl⟩ := opened.exists_eq_ofText
  have settled := Operation.settled_run (settled_ofText t) ops
  exact ⟨settled.tells_apply e, rfl⟩

/-- One replacement from inside a character, across the start of the selection. Then four at once: a
    deletion, one that overlaps it, one that is empty where it ends, and one that is reversed. -/
theorem patch_tells_of_touching :
    let start := ofText "aébcd".toList
    let ops := [Operation.select ⟨3, 5⟩]
    let d := Operation.run start ops
    let one : Edit := .replace ⟨2, 4⟩ "xyz".toList
    let many : Edit :=
      .replaceMany [(⟨2, 4⟩, []), (⟨3, 5⟩, ['v']), (⟨4, 4⟩, ['u']), (⟨9, 5⟩, "!!".toList)]
    (d.apply one).1.selection = ⟨4, 5⟩ ∧
      (d.apply many).2.Tells many d (d.apply many).1 ∧
      (d.apply many).2.changed = [⟨1, 2⟩, ⟨3, 5⟩] := by
  intro start ops d one many
  have opened : start.Opened := .ofText _
  obtain ⟨told, -⟩ := patch_tells opened ops one
  refine ⟨told.carried ⟨⟨1, 4⟩, "xyz".toList⟩ (by decide +kernel),
    (patch_tells opened ops many).1, ?_⟩
  rw [changed_apply, Edit.replacements_eq, List.mergeSort_of_pairwise (by decide +kernel)]
  decide +kernel

end Document

end Marginalia
