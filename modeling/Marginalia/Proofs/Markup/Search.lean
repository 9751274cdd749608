import Mathlib.Data.List.Infix
import Marginalia.Markup.Scan
import Marginalia.Proofs.Text.Occurrence

/-! # What a search for a closer finds

A search of kind `k` stops at the first place where the closer of `k` or an opener of another kind
stands. `Clear` says that no such place lies in a stretch of text. Whether one does depends on at
most two characters beyond the stretch, since every delimiter has three.
-/

namespace Marginalia.Kind

@[simp] theorem length_opener (k : Kind) : k.opener.length = 3 := by cases k <;> rfl

@[simp] theorem length_closer (k : Kind) : k.closer.length = 3 := by cases k <;> rfl

theorem opener_injective {j k : Kind} (same : j.opener = k.opener) : j = k := by
  cases j <;> cases k <;> first | rfl | simp [opener] at same

theorem opener_ne_closer (j k : Kind) : j.opener ≠ k.closer := by
  cases j <;> cases k <;> simp [opener, closer]

/-- Every opener begins with a brace and has no other. -/
theorem exists_opener_eq_cons (k : Kind) : ∃ tail, k.opener = '{' :: tail ∧ '{' ∉ tail := by
  cases k <;> exact ⟨_, rfl, by decide⟩

theorem brace_not_mem_closer (k : Kind) : '{' ∉ k.closer := by cases k <;> decide

theorem opener_prefix_unique {j k : Kind} {t : Text} (hj : j.opener <+: t) (hk : k.opener <+: t) :
    j = k :=
  opener_injective
    ((List.prefix_of_prefix_length_le hj hk (by simp)).eq_of_length (by simp))

theorem not_opener_prefix_of_closer {j k : Kind} {t : Text} (hk : k.closer <+: t) :
    ¬ j.opener <+: t := fun hj =>
  opener_ne_closer j k
    ((List.prefix_of_prefix_length_le hj hk (by simp)).eq_of_length (by simp))

theorem opener_prefix_of_openerAt? {t : Text} {k : Kind} (h : openerAt? t = some k) :
    k.opener <+: t := by
  have starts := List.find?_some (p := fun k : Kind => t.startsWith k.opener) h
  exact Text.startsWith_eq_true_iff.mp starts

theorem openerAt?_eq_some_iff {t : Text} {k : Kind} : openerAt? t = some k ↔ k.opener <+: t := by
  constructor
  · exact opener_prefix_of_openerAt?
  · intro hk
    cases h : openerAt? t with
    | none =>
        have absent := List.find?_eq_none.mp h k (by cases k <;> decide)
        exact absurd (Text.startsWith_eq_true_iff.mpr hk) absent
    | some j => rw [opener_prefix_unique (opener_prefix_of_openerAt? h) hk]

theorem foreignAt_iff {k : Kind} {t : Text} : k.foreignAt t ↔ ∃ j, j ≠ k ∧ j.opener <+: t := by
  simp only [foreignAt, Option.any_eq_true, openerAt?_eq_some_iff, decide_eq_true_eq]
  exact ⟨fun ⟨j, hj, ne⟩ => ⟨j, ne, hj⟩, fun ⟨j, ne, hj⟩ => ⟨j, hj, ne⟩⟩

/-- A search of kind `k` goes no further than the front of `t`. -/
def Stops (k : Kind) (t : Text) : Prop :=
  k.closer <+: t ∨ ∃ j, j ≠ k ∧ j.opener <+: t

/-- No search of kind `k` stops within `front` when `rest` follows it. -/
def Clear (k : Kind) : (front rest : Text) → Prop
  | [], _ => True
  | c :: front, rest => ¬ k.Stops (c :: (front ++ rest)) ∧ k.Clear front rest

theorem not_stops_iff {k : Kind} {t : Text} :
    ¬ k.Stops t ↔ Text.dropPrefix? k.closer t = none ∧ k.foreignAt t = false := by
  rw [Stops, ← foreignAt_iff, not_or, ← Text.dropPrefix?_eq_none_iff, Bool.not_eq_true]

theorem Stops.append {k : Kind} {t : Text} (h : k.Stops t) (rest : Text) : k.Stops (t ++ rest) := by
  rcases h with closes | ⟨j, other, opens⟩
  · exact .inl (closes.trans (List.prefix_append t rest))
  · exact .inr ⟨j, other, opens.trans (List.prefix_append t rest)⟩

/-- Three characters decide whether a search stops. -/
theorem stops_append_iff {k : Kind} {t : Text} (rest : Text) (le : 3 ≤ t.length) :
    k.Stops (t ++ rest) ↔ k.Stops t := by
  have closer : k.closer <+: t ++ rest ↔ k.closer <+: t :=
    List.isPrefix_append_of_length (by simpa using le)
  have opener (j : Kind) : j.opener <+: t ++ rest ↔ j.opener <+: t :=
    List.isPrefix_append_of_length (by simpa using le)
  simp only [Stops, closer, opener]

theorem clear_iff {k : Kind} {front rest : Text} :
    k.Clear front rest ↔ ∀ u v, front = u ++ v → v ≠ [] → ¬ k.Stops (v ++ rest) := by
  induction front with
  | nil =>
      refine ⟨fun _ u v same ne => ?_, fun _ => trivial⟩
      exact absurd (List.append_eq_nil_iff.mp same.symm).2 ne
  | cons c front ih =>
      rw [Clear, ih]
      constructor
      · rintro ⟨here, later⟩ u v same ne
        cases u with
        | nil =>
            rw [List.nil_append] at same
            exact same ▸ here
        | cons d u => exact later u v (List.cons.inj same).2 ne
      · intro h
        refine ⟨by simpa using h [] (c :: front) rfl (by simp), ?_⟩
        intro u v same ne
        exact h (c :: u) v (by simp [same]) ne

theorem clear_append_iff {k : Kind} {u v rest : Text} :
    k.Clear (u ++ v) rest ↔ k.Clear u (v ++ rest) ∧ k.Clear v rest := by
  induction u with
  | nil => simp [Clear]
  | cons c u ih => simp [Clear, ih, and_assoc]

/-- What follows the next delimiter has no say. -/
theorem clear_delimiter_append_iff {k : Kind} {front delimiter : Text} (rest : Text)
    (le : 3 ≤ delimiter.length) :
    k.Clear front (delimiter ++ rest) ↔ k.Clear front delimiter := by
  have long (c : Char) (front : Text) : 3 ≤ (c :: (front ++ delimiter)).length := by
    simp only [List.length_cons, List.length_append]
    omega
  induction front with
  | nil => simp [Clear]
  | cons c front ih =>
      have here := stops_append_iff (k := k) rest (long c front)
      simp only [Clear, ih, ← here, List.cons_append, List.append_assoc]

/-- No closer overlaps itself. -/
theorem closer_prefix_of_prefix_append {k : Kind} {v : Text} (ne : v ≠ [])
    (h : k.closer <+: v ++ k.closer) : k.closer <+: v := by
  match v with
  | [] => exact absurd rfl ne
  | [_] => cases k <;> simp [closer] at h
  | [_, _] => cases k <;> simp [closer] at h
  | _ :: _ :: _ :: _ => exact (List.isPrefix_append_of_length (by simp)).mp h

/-- The first character of a closer is in no opener of another kind. -/
theorem head_closer_not_mem_opener {j k : Kind} (other : j ≠ k) {c : Char}
    (head : k.closer.head? = some c) : c ∉ j.opener := by
  cases j <;> cases k <;>
    first
      | exact absurd rfl other
      | (simp only [closer, List.head?_cons, Option.some.injEq] at head
         subst head
         decide)

/-- A search that stops in front of its closer stops without it. -/
theorem stops_append_closer_iff {k : Kind} {v : Text} (ne : v ≠ []) :
    k.Stops (v ++ k.closer) ↔ k.Stops v := by
  constructor
  · intro h
    rcases h with closes | ⟨i, other, opens⟩
    · exact .inl (closer_prefix_of_prefix_append ne closes)
    · have inside :=
        Text.prefix_of_prefix_append (fun _ => head_closer_not_mem_opener other) opens
      exact .inr ⟨i, other, inside⟩
  · exact fun h => h.append k.closer

/-- A search that stops in front of an opener stops without it. -/
theorem stops_append_opener_iff {k : Kind} (j : Kind) {v : Text} (next : Text) (ne : v ≠ []) :
    k.Stops (v ++ (j.opener ++ next)) ↔ k.Stops v := by
  obtain ⟨tail, same, -⟩ := exists_opener_eq_cons j
  have head (c : Char) (h : (j.opener ++ next).head? = some c) : c = '{' := by
    rw [same] at h
    exact (Option.some.inj h).symm
  constructor
  · intro h
    rcases h with closes | ⟨i, other, opens⟩
    · refine .inl (Text.prefix_of_prefix_append (fun c hc => ?_) closes)
      rw [head c hc]
      exact brace_not_mem_closer k
    · obtain ⟨tail, same, absent⟩ := exists_opener_eq_cons i
      cases v with
      | nil => exact absurd rfl ne
      | cons c v =>
          rw [same] at opens
          obtain ⟨rfl, further⟩ := List.cons_prefix_cons.mp opens
          have inside : tail <+: v := by
            refine Text.prefix_of_prefix_append (fun c hc => ?_) further
            rw [head c hc]
            exact absent
          exact .inr ⟨i, other, same ▸ List.cons_prefix_cons.mpr ⟨rfl, inside⟩⟩
  · exact fun h => h.append (j.opener ++ next)

/-- What follows a text does not matter when no search stops because of it. -/
theorem clear_iff_clear_nil {k : Kind} {front rest : Text}
    (h : ∀ v, v ≠ [] → (k.Stops (v ++ rest) ↔ k.Stops v)) :
    k.Clear front rest ↔ k.Clear front [] := by
  rw [clear_iff, clear_iff]
  constructor
  · intro clear u v cut ne stops
    rw [List.append_nil] at stops
    exact clear u v cut ne ((h v ne).mpr stops)
  · intro clear u v cut ne stops
    refine clear u v cut ne ?_
    rw [List.append_nil]
    exact (h v ne).mp stops

theorem clear_closer_append_iff {k : Kind} {front : Text} (rest : Text) :
    k.Clear front (k.closer ++ rest) ↔ k.Clear front [] :=
  (clear_delimiter_append_iff rest (by simp)).trans
    (clear_iff_clear_nil fun _ => stops_append_closer_iff)

theorem clear_opener_append_iff {k : Kind} (j : Kind) {front : Text} (rest : Text) :
    k.Clear front (j.opener ++ rest) ↔ k.Clear front [] :=
  clear_iff_clear_nil fun _ => stops_append_opener_iff j rest

/-- A search crosses a text with neither its closer nor an opener of another kind in it. -/
theorem clear_of_absent {k : Kind} {front : Text}
    (opener : ∀ j : Kind, j ≠ k → ¬ j.opener <:+: front) (closer : ¬ k.closer <:+: front) :
    k.Clear front [] := by
  rw [clear_iff]
  rintro u v rfl - (closes | ⟨j, other, opens⟩)
  · rw [List.append_nil] at closes
    exact closer (List.infix_append_of_infix_right closes.isInfix)
  · rw [List.append_nil] at opens
    exact opener j other (List.infix_append_of_infix_right opens.isInfix)

theorem search_cons_of_clear {k : Kind} {c : Char} {t : Text} (h : ¬ k.Stops (c :: t)) :
    k.search (c :: t) = (k.search t).behind c := by
  obtain ⟨absent, native⟩ := not_stops_iff.mp h
  rw [search, absent]
  simp [native]

/-- A search passes over a clear stretch and goes on behind it. -/
theorem search_append_of_clear {k : Kind} {front rest : Text} (clear : k.Clear front rest) :
    k.search (front ++ rest) = front.foldr Search.behind (k.search rest) := by
  induction front with
  | nil => rfl
  | cons c front ih =>
      obtain ⟨here, later⟩ := clear
      rw [List.cons_append, search_cons_of_clear here, ih later, List.foldr_cons]

theorem search_closer_append (k : Kind) (after : Text) :
    k.search (k.closer ++ after) = .closed [] after := by
  have found := Text.dropPrefix?_eq_some_iff.mpr (rfl : k.closer ++ after = k.closer ++ after)
  cases h : k.closer with
  | nil => simpa using congrArg List.length h
  | cons c tail =>
      rw [h, List.cons_append] at found
      rw [List.cons_append, search, h, found]

theorem search_of_foreign {k j : Kind} {t : Text} (ne : j ≠ k) (hj : j.opener <+: t) :
    k.search t = .interrupted 0 := by
  have absent := Text.dropPrefix?_eq_none_iff.mpr
    (fun hk : k.closer <+: t => not_opener_prefix_of_closer hk hj)
  have foreign := foreignAt_iff.mpr ⟨j, ne, hj⟩
  cases t with
  | nil => simpa using congrArg List.length (List.prefix_nil.mp hj)
  | cons c t =>
      rw [search, absent]
      simp [foreign]

@[simp] theorem foldr_behind_closed (front payload after : Text) :
    front.foldr Search.behind (.closed payload after) = .closed (front ++ payload) after := by
  induction front with
  | nil => rfl
  | cons c front ih => rw [List.foldr_cons, ih]; rfl

@[simp] theorem foldr_behind_interrupted (front : Text) (bytes : Nat) :
    front.foldr Search.behind (.interrupted bytes) = .interrupted (front.byteLength + bytes) := by
  induction front with
  | nil => simp
  | cons c front ih => rw [List.foldr_cons, ih, Search.behind, Text.byteLength_cons, Nat.add_assoc]

@[simp] theorem foldr_behind_unclosed (front : Text) :
    front.foldr Search.behind .unclosed = .unclosed := by
  induction front with
  | nil => rfl
  | cons c front ih => rw [List.foldr_cons, ih]; rfl

/-- Every search passes over a clear stretch and stops behind it, at the latest at the end. -/
theorem exists_clear (k : Kind) (t : Text) :
    ∃ front rest, t = front ++ rest ∧ k.Clear front rest ∧ (rest = [] ∨ k.Stops rest) := by
  induction t with
  | nil => exact ⟨[], [], rfl, trivial, .inl rfl⟩
  | cons c t ih =>
      by_cases stop : k.Stops (c :: t)
      · exact ⟨[], c :: t, rfl, trivial, .inr stop⟩
      · obtain ⟨front, rest, rfl, clear, halt⟩ := ih
        exact ⟨c :: front, rest, rfl, ⟨stop, clear⟩, halt⟩

/-- The closer found is the first place where the search could stop. -/
theorem search_eq_closed_iff {k : Kind} {t payload after : Text} :
    k.search t = .closed payload after ↔
      t = payload ++ k.closer ++ after ∧ k.Clear payload (k.closer ++ after) := by
  constructor
  · intro h
    obtain ⟨front, rest, rfl, clear, rfl | hclose | ⟨j, ne, hj⟩⟩ := k.exists_clear t
    · rw [search_append_of_clear clear, search, foldr_behind_unclosed] at h
      cases h
    · obtain ⟨behind, rfl⟩ := hclose
      rw [search_append_of_clear clear, search_closer_append, foldr_behind_closed,
        List.append_nil] at h
      obtain ⟨rfl, rfl⟩ := Search.closed.inj h
      exact ⟨by simp, clear⟩
    · simp [search_append_of_clear clear, search_of_foreign ne hj] at h
  · intro h
    obtain ⟨rfl, clear⟩ := h
    rw [List.append_assoc, search_append_of_clear clear, search_closer_append,
      foldr_behind_closed, List.append_nil]

end Marginalia.Kind
