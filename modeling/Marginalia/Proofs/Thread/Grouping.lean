import Marginalia.Proofs.Markup.Token
import Marginalia.Thread

/-! # Putting a reply behind a thread

The list of tokens can be cut behind the last comment of any thread. A comment put there joins that
thread alone, as long as the next one starts further on, and so every other thread is as it was.
-/

namespace Marginalia.Thread

/-- The thread with one more reply. -/
def withReply (t : Thread) (c : Markup) : Thread := { t with replies := t.replies ++ [c] }

/-- The same thread, `distance` bytes further on. -/
def shift (distance : Nat) (t : Thread) : Thread :=
  ⟨t.root.shift distance, t.replies.map (Markup.shift distance)⟩

section Group

variable {m : Markup} {ms : List Markup} {t : Thread} {more : List Thread}

theorem group_cons_of_not_comment (h : ¬ m.isComment) (ms : List Markup) :
    group (m :: ms) = group ms := by
  rw [group, if_neg h]

theorem group_cons_of_nil (h : m.isComment) (none : group ms = []) :
    group (m :: ms) = [⟨m, []⟩] := by
  rw [group, if_pos h, none]

theorem group_cons_of_le (h : m.isComment) (first : group ms = t :: more)
    (le : t.start ≤ m.full.stop) : group (m :: ms) = ⟨m, t.comments⟩ :: more := by
  rw [group, if_pos h, first]
  exact if_pos le

theorem group_cons_of_lt (h : m.isComment) (first : group ms = t :: more)
    (lt : m.full.stop < t.start) : group (m :: ms) = ⟨m, []⟩ :: t :: more := by
  rw [group, if_pos h, first]
  exact if_neg (Nat.not_le.mpr lt)

theorem group_cons_of_head (h : m.isComment)
    (apart : ∀ t ∈ (group ms).head?, m.full.stop < t.start) :
    group (m :: ms) = ⟨m, []⟩ :: group ms := by
  cases first : group ms with
  | nil => exact group_cons_of_nil h first
  | cons t more => exact group_cons_of_lt h first (apart t (by rw [first]; rfl))

theorem stop_comments (m : Markup) (t : Thread) : Thread.stop ⟨m, t.comments⟩ = t.stop := by
  rw [stop, stop, comments, List.getLastD_cons]

end Group

section Shift

variable (distance : Nat)

@[simp] theorem start_shift (t : Thread) : (t.shift distance).start = distance + t.start := rfl

/-- The threads of tokens that lie further on are the threads, further on. -/
theorem group_map_shift (ms : List Markup) :
    group (ms.map (Markup.shift distance)) = (group ms).map (shift distance) := by
  induction ms with
  | nil => rfl
  | cons m ms ih =>
      rw [List.map_cons]
      by_cases h : m.isComment
      · have moved : (m.shift distance).isComment := h
        cases first : group ms with
        | nil =>
            rw [first] at ih
            rw [group_cons_of_nil h first, group_cons_of_nil moved ih]
            rfl
        | cons t more =>
            rw [first] at ih
            by_cases le : t.start ≤ m.full.stop
            · have le' : (t.shift distance).start ≤ (m.shift distance).full.stop :=
                Nat.add_le_add_left le distance
              rw [group_cons_of_le h first le, group_cons_of_le moved ih le']
              rfl
            · have lt := Nat.not_le.mp le
              have lt' : (m.shift distance).full.stop < (t.shift distance).start :=
                Nat.add_lt_add_left lt distance
              rw [group_cons_of_lt h first lt, group_cons_of_lt moved ih lt']
              rfl
      · have moved : ¬ (m.shift distance).isComment := h
        rw [group_cons_of_not_comment h, group_cons_of_not_comment moved, ih]

end Shift

/-- A comment put behind `front`, where `t` stops, joins `t` and nothing else. -/
def TakesReply (front : List Markup) (before : List Thread) (t : Thread) : Prop :=
  ∀ (c : Markup) (rest : List Markup), c.isComment → c.full.start ≤ t.stop →
    (∀ u ∈ (group rest).head?, c.full.stop < u.start) →
      group (front ++ c :: rest) = before ++ t.withReply c :: group rest

namespace TakesReply

variable {m : Markup} {front : List Markup} {before : List Thread} {first t : Thread}

theorem singleton (h : m.isComment) : TakesReply [m] [] ⟨m, []⟩ := by
  intro c rest comment le apart
  exact group_cons_of_le h (group_cons_of_head comment apart) le

theorem cons_of_not_comment (h : ¬ m.isComment) (takes : TakesReply front before t) :
    TakesReply (m :: front) before t := by
  intro c rest comment le apart
  rw [List.cons_append, group_cons_of_not_comment h]
  exact takes c rest comment le apart

/-- A comment in front that touches the thread becomes its root. -/
theorem cons_root (h : m.isComment) (touches : t.start ≤ m.full.stop)
    (takes : TakesReply front [] t) : TakesReply (m :: front) [] ⟨m, t.comments⟩ := by
  intro c rest comment le apart
  rw [stop_comments] at le
  exact group_cons_of_le h (takes c rest comment le apart) touches

/-- A comment in front that touches an earlier thread becomes the root of that one. -/
theorem cons_of_le (h : m.isComment) (touches : first.start ≤ m.full.stop)
    (takes : TakesReply front (first :: before) t) :
    TakesReply (m :: front) (⟨m, first.comments⟩ :: before) t := by
  intro c rest comment le apart
  exact group_cons_of_le h (takes c rest comment le apart) touches

/-- A comment in front that touches no thread is one of its own. -/
theorem cons_of_lt (h : m.isComment) (lt : ∀ u ∈ (before ++ [t]).head?, m.full.stop < u.start)
    (takes : TakesReply front before t) : TakesReply (m :: front) (⟨m, []⟩ :: before) t := by
  intro c rest comment le apart
  have further := takes c rest comment le apart
  cases before with
  | nil => exact group_cons_of_lt h further (lt t rfl)
  | cons first before => exact group_cons_of_lt h further (lt first rfl)

end TakesReply

/-- The tokens can be cut behind the last comment of any thread. -/
theorem exists_takesReply {ms : List Markup} {before after : List Thread} {t : Thread}
    (h : group ms = before ++ t :: after) :
    ∃ front a rest, ms = front ++ a :: rest ∧ a.full.stop = t.stop ∧
      TakesReply (front ++ [a]) before t ∧ group rest = after ∧
      ∀ u ∈ after.head?, t.stop < u.start := by
  induction ms generalizing before t with
  | nil => simp [group] at h
  | cons m ms ih =>
      by_cases comment : m.isComment
      · cases hms : group ms with
        | nil =>
            rw [group_cons_of_nil comment hms] at h
            obtain ⟨rfl, here⟩ | ⟨_, _, tail⟩ := List.cons_eq_append_iff.mp h
            · obtain ⟨rfl, rfl⟩ := List.cons.inj here
              exact ⟨[], m, ms, rfl, rfl, .singleton comment, hms, by simp⟩
            · simp at tail
        | cons first more =>
            rw [hms] at ih
            by_cases le : first.start ≤ m.full.stop
            · rw [group_cons_of_le comment hms le] at h
              obtain ⟨rfl, here⟩ | ⟨bs, rfl, tail⟩ := List.cons_eq_append_iff.mp h
              · obtain ⟨rfl, rfl⟩ := List.cons.inj here
                have same : first :: after = [] ++ first :: after := rfl
                obtain ⟨front, a, rest, rfl, stop, takes, behind, apart⟩ := ih same
                rw [stop_comments]
                exact ⟨m :: front, a, rest, rfl, stop, takes.cons_root comment le, behind, apart⟩
              · have same : first :: more = (first :: bs) ++ t :: after := congrArg (first :: ·) tail
                obtain ⟨front, a, rest, rfl, stop, takes, behind, apart⟩ := ih same
                exact ⟨m :: front, a, rest, rfl, stop, takes.cons_of_le comment le, behind, apart⟩
            · have lt := Nat.not_le.mp le
              rw [group_cons_of_lt comment hms lt] at h
              obtain ⟨rfl, here⟩ | ⟨bs, rfl, tail⟩ := List.cons_eq_append_iff.mp h
              · obtain ⟨rfl, rfl⟩ := List.cons.inj here
                refine ⟨[], m, ms, rfl, rfl, .singleton comment, hms, ?_⟩
                intro u hu
                obtain rfl := Option.some.inj hu
                exact lt
              · obtain ⟨front, a, rest, rfl, stop, takes, behind, apart⟩ := ih tail
                refine ⟨m :: front, a, rest, rfl, stop, takes.cons_of_lt comment ?_, behind, apart⟩
                intro u hu
                cases bs with
                | nil =>
                    obtain ⟨rfl, -⟩ := List.cons.inj tail
                    obtain rfl := Option.some.inj hu
                    exact lt
                | cons b bs =>
                    obtain ⟨rfl, -⟩ := List.cons.inj tail
                    obtain rfl := Option.some.inj hu
                    exact lt
      · rw [group_cons_of_not_comment comment] at h
        obtain ⟨front, a, rest, rfl, stop, takes, behind, apart⟩ := ih h
        exact ⟨m :: front, a, rest, rfl, stop, takes.cons_of_not_comment comment, behind, apart⟩

end Marginalia.Thread
