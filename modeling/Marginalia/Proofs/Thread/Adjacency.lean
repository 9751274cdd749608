import Mathlib.Data.List.Chain
import Marginalia.Proofs.Thread.Grouping

/-! # Threads and touching comments

Grouping joins a comment to the thread behind it unless that one starts further on. Among tokens that
ascend this is to say that the two touch, so the members of a thread touch one another; threads, of
whatever tokens, never touch the next one.
-/

namespace Marginalia.Thread

/-- Nothing but comments, each of which begins where the one in front of it ends. -/
structure Joined (t : Thread) : Prop where
  comments : ∀ m ∈ t.comments, m.isComment
  touching : t.comments.IsChain fun a b => a.full.stop = b.full.start

section Group

variable {m : Markup} {ms : List Markup} {t : Thread}

/-- A comment becomes the root of the first thread behind it, or is a thread of its own. -/
theorem group_cons_cases (h : m.isComment) (ms : List Markup) :
    (∃ t more, group ms = t :: more ∧ t.start ≤ m.full.stop ∧
      group (m :: ms) = ⟨m, t.comments⟩ :: more) ∨
    ((∀ u ∈ (group ms).head?, m.full.stop < u.start) ∧
      group (m :: ms) = ⟨m, []⟩ :: group ms) := by
  by_cases apart : ∀ u ∈ (group ms).head?, m.full.stop < u.start
  · exact .inr ⟨apart, group_cons_of_head h apart⟩
  · cases first : group ms with
    | nil => simp [first] at apart
    | cons t more =>
        have le : t.start ≤ m.full.stop := by simpa [first] using apart
        exact .inl ⟨t, more, rfl, le, group_cons_of_le h first le⟩

theorem mem_of_mem_group (ht : t ∈ group ms) (hm : m ∈ t.comments) : m ∈ ms ∧ m.isComment := by
  have found : m ∈ (group ms).flatMap comments := List.mem_flatMap.mpr ⟨t, ht, hm⟩
  rw [flatMap_comments_group] at found
  exact List.mem_filter.mp found

/-- What each token has to the ones behind it, each root has to the roots behind it. -/
theorem pairwise_root_group {R : Markup → Markup → Prop} (related : ms.Pairwise R) :
    (group ms).Pairwise fun t u => R t.root u.root := by
  induction ms with
  | nil => exact .nil
  | cons m ms ih =>
      obtain ⟨first, related⟩ := List.pairwise_cons.mp related
      have ih := ih related
      have behind : ∀ u ∈ group ms, R m u.root :=
        fun u hu => first u.root (mem_of_mem_group hu List.mem_cons_self).1
      by_cases comment : m.isComment
      · rcases group_cons_cases comment ms with ⟨t, more, next, -, joined⟩ | ⟨-, alone⟩
        · rw [next, List.pairwise_cons] at ih
          rw [next] at behind
          rw [joined]
          exact .cons (List.forall_mem_cons.mp behind).2 ih.2
        · rw [alone]
          exact .cons behind ih
      · rw [group_cons_of_not_comment comment]
        exact ih

/-- Where a thread stops the next one has not begun. -/
theorem isChain_group (ms : List Markup) : (group ms).IsChain fun t u => t.stop < u.start := by
  induction ms with
  | nil => exact .nil
  | cons m ms ih =>
      by_cases comment : m.isComment
      · rcases group_cons_cases comment ms with ⟨t, more, first, -, joined⟩ | ⟨apart, alone⟩
        · rw [first, List.isChain_cons] at ih
          rw [joined, List.isChain_cons, stop_comments]
          exact ih
        · rw [alone, List.isChain_cons]
          exact ⟨apart, ih⟩
      · rw [group_cons_of_not_comment comment]
        exact ih

theorem joined_of_mem_group (ascending : ms.Pairwise fun a b => a.full.stop ≤ b.full.start) :
    ∀ t ∈ group ms, t.Joined := by
  induction ms with
  | nil => simp [group]
  | cons m ms ih =>
      obtain ⟨before, ascending⟩ := List.pairwise_cons.mp ascending
      have ih := ih ascending
      by_cases comment : m.isComment
      · rcases group_cons_cases comment ms with ⟨t, more, first, le, joined⟩ | ⟨-, alone⟩
        · rw [first] at ih
          obtain ⟨ht, hmore⟩ := List.forall_mem_cons.mp ih
          have root : t.root ∈ ms :=
            (mem_of_mem_group (first ▸ List.mem_cons_self) List.mem_cons_self).1
          have touches : m.full.stop = t.start := Nat.le_antisymm (before t.root root) le
          rw [joined]
          refine List.forall_mem_cons.mpr ⟨⟨?_, ?_⟩, hmore⟩
          · exact List.forall_mem_cons.mpr ⟨comment, ht.comments⟩
          · exact List.isChain_cons_cons.mpr ⟨touches, ht.touching⟩
        · rw [alone]
          have single : Joined ⟨m, []⟩ := ⟨by simpa [comments] using comment, .singleton m⟩
          exact List.forall_mem_cons.mpr ⟨single, ih⟩
      · rw [group_cons_of_not_comment comment]
        exact ih

end Group

end Marginalia.Thread
