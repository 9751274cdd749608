import Mathlib.Data.List.Nodup
import Marginalia.Proofs.Markup.Memory
import Marginalia.Proofs.Thread.Adjacency
import Marginalia.Review.Draft

/-! # Threads partition the comments

The comments of a text, in their order, are the members of its threads, one thread after the other.
Two neighbours in that order are neighbours in one thread, where they touch, or else the last of one
thread and the root of the next, where they do not.
-/

namespace Marginalia

namespace Thread

section Neighbours

variable {ms : List Markup} {threads : List Thread} {a b : Markup}

theorem rel_of_neighbours {α : Type} {R : α → α → Prop} {l : List α} {x y : α}
    (chain : l.IsChain R) (h : [x, y] <:+: l) : R x y := by
  obtain ⟨front, rest, rfl⟩ := h
  exact (List.isChain_cons_cons.mp chain.left_of_append.right_of_append).1

theorem neighbours_cases (h : [a, b] <:+: threads.flatMap comments) :
    (∃ u ∈ threads, [a, b] <:+: u.comments) ∨
      ∃ u v, [u, v] <:+: threads ∧ [a] <:+ u.comments ∧ v.root = b := by
  induction threads with
  | nil => simp at h
  | cons t more ih =>
      rw [List.flatMap_cons] at h
      rcases List.infix_append_iff_ne_nil.mp h with here | later | ⟨x, y, hx, hy, same, back, front⟩
      · exact .inl ⟨t, List.mem_cons_self, here⟩
      · rcases ih later with ⟨u, hu, inside⟩ | ⟨u, v, next, last, root⟩
        · exact .inl ⟨u, List.mem_cons_of_mem t hu, inside⟩
        · exact .inr ⟨u, v, List.infix_cons next, last, root⟩
      · obtain ⟨rfl, rfl⟩ : x = [a] ∧ y = [b] := by
          cases x with
          | nil => exact absurd rfl hx
          | cons c x =>
              cases x with
              | nil => simpa using same.symm
              | cons d x => simp_all
        cases more with
        | nil => simp at front
        | cons v more =>
            obtain ⟨rfl, -⟩ := List.cons_prefix_cons.mp front
            exact .inr ⟨t, v, ⟨[], more, rfl⟩, back, rfl⟩

theorem stop_of_suffix {u : Thread} (last : [a] <:+ u.comments) : u.stop = a.full.stop := by
  obtain ⟨front, same⟩ := last
  have ends := congrArg List.getLast? same
  rw [List.getLast?_concat, comments, List.getLast?_cons] at ends
  rw [stop, List.getLastD_eq_getLast?, ← Option.some.inj ends]

/-- Of tokens without repetition no comment is in two threads. -/
theorem pairwise_disjoint_group (distinct : ms.Nodup) :
    (group ms).Pairwise (Function.onFun List.Disjoint comments) := by
  have members : ((group ms).flatMap comments).Nodup := by
    rw [flatMap_comments_group]
    exact distinct.filter _
  exact (List.nodup_flatMap.mp members).2

theorem eq_of_mem_comments (distinct : ms.Nodup) {u v : Thread} (hu : u ∈ group ms)
    (hv : v ∈ group ms) (left : a ∈ u.comments) (right : a ∈ v.comments) : u = v := by
  apply Classical.byContradiction
  intro ne
  have : Std.Symm (Function.onFun List.Disjoint comments) := ⟨fun _ _ h _ hx hy => h hy hx⟩
  exact (pairwise_disjoint_group distinct).forall hu hv ne left right

/-- Neighbours among the comments are in one thread exactly when they touch. -/
theorem exists_mem_group_iff_touching (distinct : ms.Nodup)
    (ascending : ms.Pairwise fun a b => a.full.stop ≤ b.full.start)
    (neighbours : [a, b] <:+: ms.filter Markup.isComment) :
    (∃ u ∈ group ms, a ∈ u.comments ∧ b ∈ u.comments) ↔ a.full.stop = b.full.start := by
  rw [← flatMap_comments_group] at neighbours
  rcases neighbours_cases neighbours with ⟨u, hu, inside⟩ | ⟨u, v, next, last, rfl⟩
  · have touches := rel_of_neighbours (joined_of_mem_group ascending u hu).touching inside
    have together : a ∈ u.comments ∧ b ∈ u.comments :=
      ⟨inside.subset (by simp), inside.subset (by simp)⟩
    exact ⟨fun _ => touches, fun _ => ⟨u, hu, together⟩⟩
  · have apart := rel_of_neighbours (isChain_group ms) next
    have disjoint := List.pairwise_pair.mp ((pairwise_disjoint_group distinct).sublist next.sublist)
    have hu : u ∈ group ms := next.subset (by simp)
    have ha : a ∈ u.comments := last.subset (by simp)
    rw [stop_of_suffix last] at apart
    constructor
    · intro h
      obtain ⟨w, hw, left, right⟩ := h
      obtain rfl := eq_of_mem_comments distinct hw hu left ha
      exact absurd List.mem_cons_self (disjoint right)
    · intro touches
      exact absurd touches (Nat.ne_of_lt apart)

end Neighbours

end Thread

namespace Markup

theorem pairwise_start_lt (t : Text) : (parse t).Pairwise fun a b => a.full.start < b.full.start := by
  rw [parse_eq]
  refine (pairwise_parseAfresh 0 t).imp_of_mem fun {a b} ha _ le => ?_
  exact Nat.lt_of_lt_of_le (bounds_of_mem_parseAfresh ha).2.1 le

theorem pairwise_start_ne (t : Text) : (parse t).Pairwise fun a b => a.full.start ≠ b.full.start :=
  (pairwise_start_lt t).imp Nat.ne_of_lt

theorem nodup_parse (t : Text) : (parse t).Nodup :=
  (pairwise_start_ne t).imp fun apart same => apart (congrArg (·.full.start) same)

theorem eq_of_start_eq {t : Text} {a b : Markup} (ha : a ∈ parse t) (hb : b ∈ parse t)
    (same : a.full.start = b.full.start) : a = b := by
  apply Classical.byContradiction
  intro ne
  have : Std.Symm fun a b : Markup => a.full.start ≠ b.full.start := ⟨fun _ _ h => h.symm⟩
  exact (pairwise_start_ne t).forall ha hb ne same

end Markup

namespace Reading

/-- A thread of a text is known by its start. -/
theorem thread_eq_of_start_eq {t : Text} {u v : Thread} (hu : u ∈ (ofText t).threads)
    (hv : v ∈ (ofText t).threads) (same : u.start = v.start) : u = v := by
  have root {w : Thread} (hw : w ∈ (ofText t).threads) : w.root ∈ Markup.parse t :=
    (Thread.mem_of_mem_group hw List.mem_cons_self).1
  have roots : u.root = v.root := Markup.eq_of_start_eq (root hu) (root hv) same
  exact Thread.eq_of_mem_comments (Markup.nodup_parse t) hu hv List.mem_cons_self
    (roots ▸ List.mem_cons_self)

/-- The threads of a text hold its comments, each once and in order. Neighbours are in one thread
    exactly when they touch, and threads lie apart. Of any list of tokens, however they lie, the
    threads hold the comments in the order given. -/
theorem threads_partition (t : Text) :
    let comments := (Markup.parse t).filter Markup.isComment
    let threads := (ofText t).threads
    threads.flatMap Thread.comments = comments ∧
      (∀ u ∈ threads, u.comments ≠ []) ∧
      (∀ a b, [a, b] <:+: comments →
        ((∃ u ∈ threads, a ∈ u.comments ∧ b ∈ u.comments) ↔ a.full.stop = b.full.start)) ∧
      (threads.IsChain fun u v => u.stop < v.start) ∧
      ∀ ms, (Thread.group ms).flatMap Thread.comments = ms.filter Markup.isComment := by
  intro comments threads
  have distinct := Markup.nodup_parse t
  have ascending : (Markup.parse t).Pairwise fun a b => a.full.stop ≤ b.full.start := by
    rw [Markup.parse_eq]
    exact Markup.pairwise_parseAfresh 0 t
  refine ⟨Thread.flatMap_comments_group _, ?_, ?_, Thread.isChain_group _,
    Thread.flatMap_comments_group⟩
  · intro u _
    exact List.cons_ne_nil u.root u.replies
  · intro a b neighbours
    exact Thread.exists_mem_group_iff_touching distinct ascending neighbours

/-- A highlight between two comments keeps them apart, although nothing but tokens lies there. -/
theorem threads_partition_around_highlight :
    let t := Kind.comment.wrap ['a'] ++ Kind.comment.wrap ['b'] ++ Kind.highlight.wrap [] ++
      Kind.comment.wrap ['c']
    let a : Markup := ⟨⟨0, 7⟩, ⟨3, 4⟩, ['a'], .comment none⟩
    let b : Markup := ⟨⟨7, 14⟩, ⟨10, 11⟩, ['b'], .comment none⟩
    let c : Markup := ⟨⟨20, 27⟩, ⟨23, 24⟩, ['c'], .comment none⟩
    (∃ u ∈ (ofText t).threads, a ∈ u.comments ∧ b ∈ u.comments) ∧
      ¬ ∃ u ∈ (ofText t).threads, b ∈ u.comments ∧ c ∈ u.comments := by
  intro t a b c
  obtain ⟨-, -, together, -⟩ := threads_partition t
  have all : (Markup.parse t).filter Markup.isComment = [a, b, c] := by decide +kernel
  rw [all] at together
  exact ⟨(together a b ⟨[], [c], rfl⟩).mpr rfl, mt (together b c ⟨[a], [], rfl⟩).mp (by decide)⟩

end Reading

end Marginalia
