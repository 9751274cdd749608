import Marginalia.Text.Search

/-! # Where sequences stand

A sequence stands at a byte offset of a text when the characters before it take up exactly that
many bytes. Cuts of one text compare by their byte offsets, so positions and the characters around
them determine each other.
-/

namespace Marginalia.Text

@[simp] theorem byteLength_nil : byteLength [] = 0 := rfl

@[simp] theorem byteLength_cons (c : Char) (t : Text) :
    byteLength (c :: t) = c.utf8Size + byteLength t := rfl

theorem byteLength_eq_zero {t : Text} (h : t.byteLength = 0) : t = [] := by
  cases t with
  | nil => rfl
  | cons c t =>
      have := c.utf8Size_pos
      simp only [byteLength_cons] at h
      omega

/-- The earlier of two cuts lies in the front part of the later one. -/
theorem exists_between {a b c d : Text} (same : a ++ b = c ++ d)
    (le : a.byteLength ≤ c.byteLength) : ∃ u, c = a ++ u ∧ b = u ++ d := by
  rcases List.append_eq_append_iff.mp same with ⟨u, hc, hb⟩ | ⟨u, ha, hd⟩
  · exact ⟨u, hc, hb⟩
  · rw [ha, byteLength_append] at le
    obtain rfl := byteLength_eq_zero (t := u) (by omega)
    exact ⟨[], by simpa using ha.symm, by simpa using hd.symm⟩

/-- Cuts at one offset are the same cut. -/
theorem append_inj_of_byteLength {a b c d : Text} (same : a ++ b = c ++ d)
    (eq : a.byteLength = c.byteLength) : a = c ∧ b = d := by
  obtain ⟨u, hc, hb⟩ := exists_between same (Nat.le_of_eq eq)
  rw [hc, byteLength_append] at eq
  obtain rfl := byteLength_eq_zero (t := u) (by omega)
  exact ⟨by simpa using hc.symm, by simpa using hb⟩

/-- `pattern` stands in the text at byte `offset`. -/
def StandsAt (t pattern : Text) (offset : Nat) : Prop :=
  ∃ before after, t = before ++ pattern ++ after ∧ before.byteLength = offset

theorem standsAt_byteLength_iff {u v pattern : Text} :
    (u ++ v).StandsAt pattern u.byteLength ↔ pattern <+: v := by
  constructor
  · intro h
    obtain ⟨before, after, same, at_u⟩ := h
    rw [List.append_assoc] at same
    obtain ⟨-, rfl⟩ := append_inj_of_byteLength same at_u.symm
    exact List.prefix_append pattern after
  · intro h
    obtain ⟨after, rfl⟩ := h
    exact ⟨u, after, by simp, rfl⟩

theorem StandsAt.exists_cut {t pattern : Text} {offset : Nat} (h : t.StandsAt pattern offset) :
    ∃ u v, t = u ++ v ∧ u.byteLength = offset ∧ pattern <+: v := by
  obtain ⟨before, after, rfl, at_offset⟩ := h
  exact ⟨before, pattern ++ after, by simp, at_offset, List.prefix_append pattern after⟩

theorem standsAt_append_iff {u v pattern : Text} {offset : Nat} :
    (u ++ v).StandsAt pattern (u.byteLength + offset) ↔ v.StandsAt pattern offset := by
  constructor
  · intro h
    obtain ⟨x, y, same, at_x, starts⟩ := h.exists_cut
    obtain ⟨z, rfl, rfl⟩ := exists_between same (by omega)
    rw [byteLength_append, Nat.add_left_cancel_iff] at at_x
    exact at_x ▸ standsAt_byteLength_iff.mpr starts
  · intro h
    obtain ⟨before, after, rfl, rfl⟩ := h
    exact ⟨u ++ before, after, by simp, byteLength_append u before⟩

/-- A sequence occurs in the front part of a text when it stands there with room to spare. -/
theorem infix_iff_standsAt {pattern front : Text} (rest : Text) :
    pattern <:+: front ↔ ∃ offset, offset + pattern.byteLength ≤ front.byteLength ∧
      (front ++ rest).StandsAt pattern offset := by
  constructor
  · intro h
    obtain ⟨before, after, rfl⟩ := h
    refine ⟨byteLength before, ?_, before, after ++ rest, by simp, rfl⟩
    simp only [byteLength_append]
    omega
  · intro h
    obtain ⟨offset, le, before, after, same, rfl⟩ := h
    obtain ⟨z, rfl, -⟩ := exists_between same.symm (by rw [byteLength_append]; exact le)
    exact ⟨before, z, rfl⟩

theorem StandsAt.le_byteLength {t pattern : Text} {offset : Nat} (h : t.StandsAt pattern offset) :
    offset + pattern.byteLength ≤ t.byteLength := by
  obtain ⟨before, after, rfl, rfl⟩ := h
  simp only [byteLength_append]
  omega

/-- Nothing stands behind the start of a character and before its end. -/
theorem StandsAt.skip {front rest pattern : Text} {c : Char} {offset : Nat}
    (h : (front ++ c :: rest).StandsAt pattern offset) (lt : front.byteLength < offset) :
    front.byteLength + c.utf8Size ≤ offset := by
  obtain ⟨u, v, same, rfl, -⟩ := h.exists_cut
  obtain ⟨x, rfl, hx⟩ := exists_between same (Nat.le_of_lt lt)
  cases x with
  | nil => simp at lt
  | cons d x =>
      obtain ⟨rfl, -⟩ := List.cons.inj hx
      simp only [byteLength_append, byteLength_cons]
      omega

/-- The parts of `t` around its first `pattern`. -/
structure FirstSplit (pattern t before after : Text) : Prop where
  parts : t = before ++ pattern ++ after
  first : ∀ before' after', t = before' ++ pattern ++ after' → before.length ≤ before'.length

theorem startsWith_eq_true_iff {t pattern : Text} : t.startsWith pattern ↔ pattern <+: t := by
  rw [startsWith_iff]
  exact ⟨fun ⟨after, h⟩ => ⟨after, h.symm⟩, fun ⟨after, h⟩ => ⟨after, h.symm⟩⟩

theorem dropPrefix?_eq_none_iff {pattern t : Text} :
    dropPrefix? pattern t = none ↔ ¬ pattern <+: t := by
  rw [← startsWith_eq_true_iff, startsWith, Bool.not_eq_true, Option.isSome_eq_false_iff,
    Option.isNone_iff_eq_none]

theorem splitOnce?_eq_none_iff {pattern t : Text} :
    splitOnce? pattern t = none ↔ ¬ pattern <:+: t := by
  induction t with
  | nil => simp [splitOnce?, dropPrefix?_eq_none_iff]
  | cons c t ih =>
      rw [List.infix_cons_iff, not_or, ← ih, ← dropPrefix?_eq_none_iff]
      rw [splitOnce?]
      cases dropPrefix? pattern (c :: t) <;> simp

theorem holds_eq_true_iff {pattern t : Text} : holds pattern t ↔ pattern <:+: t := by
  rw [holds, Option.isSome_iff_ne_none, ne_eq, splitOnce?_eq_none_iff, Classical.not_not]

theorem FirstSplit.cons {pattern t before after : Text} {c : Char}
    (absent : ¬ pattern <+: c :: t) (split : FirstSplit pattern t before after) :
    FirstSplit pattern (c :: t) (c :: before) after where
  parts := by simp [split.parts]
  first := by
    intro before' after' same
    cases before' with
    | nil => exact absurd ⟨after', same.symm⟩ absent
    | cons d before' =>
        have := split.first before' after' (List.cons.inj same).2
        simpa using this

theorem FirstSplit.of_splitOnce? {pattern t before after : Text}
    (h : splitOnce? pattern t = some (before, after)) : FirstSplit pattern t before after := by
  induction t generalizing before with
  | nil =>
      simp only [splitOnce?, Option.map_eq_some_iff, Prod.mk.injEq] at h
      obtain ⟨_, hdrop, rfl, rfl⟩ := h
      exact ⟨by simpa using dropPrefix?_eq_some_iff.mp hdrop, fun _ _ _ => Nat.zero_le _⟩
  | cons c t ih =>
      unfold splitOnce? at h
      split at h
      · next hdrop =>
          obtain ⟨rfl, rfl⟩ := Prod.mk.inj (Option.some.inj h)
          exact ⟨by simpa using dropPrefix?_eq_some_iff.mp hdrop, fun _ _ _ => Nat.zero_le _⟩
      · next hdrop =>
          simp only [Option.map_eq_some_iff, Prod.mk.injEq] at h
          obtain ⟨⟨before, _⟩, hsplit, rfl, rfl⟩ := h
          exact (ih hsplit).cons (dropPrefix?_eq_none_iff.mp hdrop)

theorem FirstSplit.unique {pattern t before after before' after' : Text}
    (h : FirstSplit pattern t before after) (h' : FirstSplit pattern t before' after') :
    before = before' ∧ after = after' := by
  have len : before.length = before'.length :=
    Nat.le_antisymm (h.first _ _ h'.parts) (h'.first _ _ h.parts)
  have same := h.parts.symm.trans h'.parts
  rw [List.append_assoc, List.append_assoc] at same
  obtain ⟨rfl, rest⟩ := List.append_inj same len
  exact ⟨rfl, List.append_cancel_left rest⟩

theorem splitOnce?_eq_some_iff {pattern t before after : Text} :
    splitOnce? pattern t = some (before, after) ↔ FirstSplit pattern t before after := by
  constructor
  · exact FirstSplit.of_splitOnce?
  · intro h
    cases hsplit : splitOnce? pattern t with
    | none => exact absurd ⟨before, after, h.parts.symm⟩ (splitOnce?_eq_none_iff.mp hsplit)
    | some sides =>
        obtain ⟨rfl, rfl⟩ := h.unique (FirstSplit.of_splitOnce? hsplit)
        rfl

section Apart

variable {p u v : Text} {c : Char}

/-- A character that a sequence does not have separates the places where it can stand. -/
theorem infix_separator_iff (absent : c ∉ p) : p <:+: u ++ c :: v ↔ p <:+: u ∨ p <:+: v := by
  constructor
  · intro h
    rcases List.infix_append_iff_ne_nil.mp h with left | right | ⟨p₁, p₂, -, ne, rfl, -, front⟩
    · exact .inl left
    · rcases List.infix_cons_iff.mp right with front | further
      · cases p with
        | nil => exact .inl List.nil_infix
        | cons d p =>
            obtain ⟨rfl, -⟩ := List.cons_prefix_cons.mp front
            exact absurd List.mem_cons_self absent
      · exact .inr further
    · cases p₂ with
      | nil => exact absurd rfl ne
      | cons d p₂ =>
          obtain ⟨rfl, -⟩ := List.cons_prefix_cons.mp front
          exact absurd (by simp) absent
  · intro h
    rcases h with left | right
    · exact List.infix_append_of_infix_left left
    · exact List.infix_append_of_infix_right (List.infix_cons right)

/-- A sequence that shares no character with `u` does not reach into it. -/
theorem infix_of_infix_append (ne : p ≠ []) (apart : ∀ c ∈ u, c ∉ p) (h : p <:+: u ++ v) :
    p <:+: v := by
  rcases List.infix_append_iff_ne_nil.mp h with left | right | ⟨p₁, p₂, ne₁, -, rfl, back, -⟩
  · obtain ⟨c, mem⟩ := List.exists_mem_of_ne_nil p ne
    exact absurd mem (apart c (left.subset mem))
  · exact right
  · obtain ⟨c, mem⟩ := List.exists_mem_of_ne_nil p₁ ne₁
    exact absurd (List.mem_append_left p₂ mem) (apart c (back.subset mem))

/-- A sequence without the character that follows does not reach beyond it. -/
theorem prefix_of_prefix_append (absent : ∀ c, v.head? = some c → c ∉ p) (h : p <+: u ++ v) :
    p <+: u := by
  induction u generalizing p with
  | nil =>
      cases p with
      | nil => exact List.nil_prefix
      | cons d p =>
          cases v with
          | nil => simp at h
          | cons e v =>
              obtain ⟨rfl, -⟩ := List.cons_prefix_cons.mp h
              exact absurd List.mem_cons_self (absent d rfl)
  | cons b u ih =>
      cases p with
      | nil => exact List.nil_prefix
      | cons d p =>
          obtain ⟨rfl, further⟩ := List.cons_prefix_cons.mp h
          have rest (c : Char) (head : v.head? = some c) : c ∉ p :=
            fun mem => absent c head (List.mem_cons_of_mem d mem)
          exact List.cons_prefix_cons.mpr ⟨rfl, ih rest further⟩

/-- What stands in front of a sequence put behind `u`, and not in `u`, overlaps with it. -/
theorem exists_overlap {before after : Text} (absent : ¬ p <:+: u)
    (same : u ++ p ++ v = before ++ p ++ after) (lt : before.length < u.length) :
    ∃ w z, p = w ++ z ∧ w <:+ u ∧ z <+: p ∧ w ≠ [] ∧ z ≠ [] := by
  simp only [List.append_assoc] at same
  obtain ⟨w, rfl, meet⟩ : ∃ w, u = before ++ w ∧ p ++ after = w ++ (p ++ v) := by
    rcases List.append_eq_append_iff.mp same with ⟨w, rfl, -⟩ | further
    · simp only [List.length_append] at lt
      omega
    · exact further
  have front : w <+: p ++ after := meet ▸ List.prefix_append w _
  rcases List.prefix_or_prefix_of_prefix (List.prefix_append p after) front with inside | cut
  · exact absurd (List.infix_append_of_infix_right inside.isInfix) absent
  · obtain ⟨z, rfl⟩ := cut
    refine ⟨w, z, rfl, List.suffix_append before w, ?_, ?_, ?_⟩
    · rw [List.append_assoc] at meet
      have behind : z <+: w ++ z ++ v := List.append_cancel_left meet ▸ List.prefix_append z after
      exact List.prefix_of_prefix_length_le behind (List.prefix_append _ v) (by simp)
    · intro empty
      subst empty
      simp at lt
    · intro empty
      subst empty
      rw [List.append_nil] at absent
      exact absent (List.suffix_append before w).isInfix

/-- The first `pattern` stands behind a text that neither has it nor ends in a part of it. -/
theorem FirstSplit.of_not_infix {pattern : Text} (absent : ¬ pattern <:+: u)
    (last : ∀ c, u.getLast? = some c → c ∉ pattern) :
    FirstSplit pattern (u ++ pattern ++ v) u v where
  parts := rfl
  first := by
    intro before after same
    apply Nat.not_lt.mp
    intro lt
    obtain ⟨w, z, rfl, ⟨front, rfl⟩, -, ne, -⟩ := exists_overlap absent same lt
    refine last (w.getLast ne) ?_ (List.mem_append_left z (List.getLast_mem ne))
    rw [List.getLast?_append, List.getLast?_eq_some_getLast ne, Option.some_or]

/-- The first `pattern` stands behind a text that does not have it, when no end of `pattern` is its
    beginning. -/
theorem FirstSplit.of_unbordered {pattern : Text} (absent : ¬ pattern <:+: u)
    (unbordered : ∀ w z, pattern = w ++ z → z <+: pattern → w ≠ [] → z = []) :
    FirstSplit pattern (u ++ pattern ++ v) u v where
  parts := rfl
  first := by
    intro before after same
    apply Nat.not_lt.mp
    intro lt
    obtain ⟨w, z, parts, -, border, ne, ne'⟩ := exists_overlap absent same lt
    exact ne' (unbordered w z parts border ne)

end Apart

end Marginalia.Text
