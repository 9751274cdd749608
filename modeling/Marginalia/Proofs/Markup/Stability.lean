import Marginalia.Proofs.Markup.Memory

/-! # Text appended and text in between

Appending never disturbs a token that has been found: an opener left dangling in front of it must
have been stopped in front of it as well. And where no token lies across a cut, the scan of the
whole is the scan of the two sides.
-/

namespace Marginalia

/-- An opener behind the start of a text that begins with one stands behind that one. -/
theorem Kind.exists_of_opener_append {j k : Kind} {u x y : Text} (ne : u ≠ [])
    (same : u ++ (j.opener ++ x) = k.opener ++ y) : ∃ w, u = k.opener ++ w := by
  obtain ⟨tail, hk, absent⟩ := k.exists_opener_eq_cons
  obtain ⟨tail', hj, -⟩ := j.exists_opener_eq_cons
  cases u with
  | nil => exact absurd rfl ne
  | cons c u =>
      rw [hk, hj, List.cons_append, List.cons_append] at same
      obtain ⟨rfl, behind⟩ := List.cons.inj same
      rcases List.append_eq_append_iff.mp behind with ⟨w, rfl, hw⟩ | ⟨w, rfl, -⟩
      · cases w with
        | nil => exact ⟨[], by simp [hk]⟩
        | cons d w =>
            obtain ⟨rfl, -⟩ := List.cons.inj hw
            exact absurd (List.mem_append_right u List.mem_cons_self) absent
      · exact ⟨w, by simp [hk]⟩

namespace Markup

/-- A token that reaches beyond the front part of a text leaves no other token in it: an opener
    of another kind would have stopped it, and the closer of one of its own would have closed it. -/
theorem Begins.not_begins_in_front {start start' : Nat} {front rest after after' u v : Text}
    {m m' : Markup} (h : Begins start (front ++ rest) m after)
    (beyond : start + front.byteLength < m.full.stop) (cut : front = u ++ v) (ne : u ≠ []) :
    ¬ Begins start' v m' after' := by
  intro h
  obtain ⟨j, payload', rfl, -, -⟩ := h
  obtain ⟨k, payload, same, clear, hm⟩ := h
  subst cut
  simp only [List.append_assoc] at same
  obtain ⟨w, rfl⟩ := Kind.exists_of_opener_append ne same
  rw [List.append_assoc] at same
  have same := List.append_cancel_left same
  have short : (w ++ (j.opener ++ payload')).byteLength < payload.byteLength := by
    simp only [full_of_ofPayload? hm, stopOf, Text.byteLength_append, Kind.byteLength_opener,
      Kind.byteLength_closer, Kind.delimiterLength] at beyond ⊢
    omega
  rw [← List.append_assoc j.opener, ← List.append_assoc w] at same
  obtain ⟨z, rfl, hz⟩ := Text.exists_between same (Nat.le_of_lt short)
  have nonempty : z ≠ [] := by
    intro empty
    subst empty
    simp at short
  rw [Kind.clear_iff] at clear
  obtain rfl : j = k := by
    apply Classical.byContradiction
    intro ne
    refine clear w (j.opener ++ payload' ++ z) (by simp) ?_ (.inr ⟨j, ne, ?_⟩)
    · simp [nonempty]
    · exact ⟨payload' ++ z ++ (k.closer ++ after), by simp⟩
  exact clear (w ++ (j.opener ++ payload')) z rfl nonempty (.inl ⟨_, hz⟩)

theorem parseAfresh_eq_nil {start : Nat} {t : Text}
    (plain : ∀ start u v m after, t = u ++ v → ¬ Begins start v m after) :
    parseAfresh start t = [] := by
  induction t generalizing start with
  | nil => exact parseAfresh_nil start
  | cons c rest ih =>
      rw [parseAfresh_cons fun m after => plain start [] (c :: rest) m after rfl]
      exact ih fun start u v m after cut => plain start (c :: u) v m after (by simp [cut])

/-- A token that reaches beyond the front part of a text is all there is in it. -/
theorem Begins.parseAfresh_front {start : Nat} {front rest after : Text} {m : Markup}
    (h : Begins start (front ++ rest) m after) (beyond : start + front.byteLength < m.full.stop) :
    parseAfresh start front = [] := by
  cases front with
  | nil => exact parseAfresh_nil start
  | cons c front =>
      have plain : ∀ m after, ¬ Begins start (c :: front) m after := by
        intro m' after' h'
        obtain ⟨rfl, -⟩ := h.unique (h'.append rest)
        have := h'.stop_add
        omega
      rw [parseAfresh_cons plain]
      exact parseAfresh_eq_nil fun start' u v m' after' cut =>
        h.not_begins_in_front (u := c :: u) beyond (congrArg (c :: ·) cut) (by simp)

theorem parseAfresh_prefix_append (start : Nat) (front rest : Text) :
    parseAfresh start front <+: parseAfresh start (front ++ rest) := by
  induction start, front using scan_induction with
  | done start => simp
  | token start front m after hm ih =>
      rw [parseAfresh_of_begins hm, parseAfresh_of_begins (hm.append rest)]
      exact (List.prefix_cons_inj m).mpr ih
  | skip start c front plain ih =>
      by_cases found : ∃ m after, Begins start (c :: front ++ rest) m after
      · obtain ⟨m, after, hm⟩ := found
        -- It was not there before, so it needs appended text, and nothing else was found either.
        rw [hm.parseAfresh_front (hm.lt_stop_of_plain plain)]
        exact List.nil_prefix
      · have plain' : ∀ m after, ¬ Begins start (c :: (front ++ rest)) m after :=
          fun m after hm => found ⟨m, after, hm⟩
        rw [List.cons_append, parseAfresh_cons plain, parseAfresh_cons plain']
        exact ih

/-- Where no token lies across a cut, the two sides are scanned apart. -/
theorem parseAfresh_append {start : Nat} {front rest : Text}
    (apart : ∀ m ∈ parseAfresh start (front ++ rest),
      ¬ (m.full.start < start + front.byteLength ∧ start + front.byteLength < m.full.stop)) :
    parseAfresh start (front ++ rest) =
      parseAfresh start front ++ parseAfresh (start + front.byteLength) rest := by
  induction start, front using scan_induction with
  | done start => simp
  | token start front m after hm ih =>
      have total := hm.stop_add
      have whole := parseAfresh_of_begins (hm.append rest)
      rw [whole, parseAfresh_of_begins hm, List.cons_append, ← total, ih]
      intro x hx
      rw [total]
      exact apart x (whole ▸ List.mem_cons_of_mem m hx)
  | skip start c front plain ih =>
      have plain' : ∀ m after, ¬ Begins start (c :: (front ++ rest)) m after := by
        intro m after hm
        have beyond := Begins.lt_stop_of_plain (t := c :: front) hm plain
        refine apart m ?_ ⟨?_, beyond⟩
        · rw [List.cons_append, parseAfresh_of_begins hm]
          exact List.mem_cons_self
        · have := c.utf8Size_pos
          rw [hm.start_eq, Text.byteLength_cons]
          omega
      rw [List.cons_append, parseAfresh_cons plain'] at apart
      rw [List.cons_append, parseAfresh_cons plain', parseAfresh_cons plain,
        Text.byteLength_cons, ← Nat.add_assoc]
      apply ih
      intro m hm
      rw [Nat.add_assoc]
      exact apart m hm

/-- A text falls apart behind any of its tokens. -/
theorem exists_cut_behind {start : Nat} {t : Text} {before after : List Markup} {a : Markup}
    (h : parseAfresh start t = before ++ a :: after) :
    ∃ front rest, t = front ++ rest ∧ start + front.byteLength = a.full.stop ∧
      parseAfresh start front = before ++ [a] ∧ parseAfresh a.full.stop rest = after := by
  induction start, t using scan_induction generalizing before with
  | done start => simp at h
  | token start t m rest hm ih =>
      obtain ⟨token, rfl, stop, -⟩ := hm.exists_cut
      rw [parseAfresh_of_begins hm] at h
      obtain ⟨rfl, here⟩ | ⟨bs, rfl, further⟩ := List.cons_eq_append_iff.mp h
      · obtain ⟨rfl, rfl⟩ := List.cons.inj here
        obtain ⟨none, same, alone⟩ := hm.of_append (Nat.le_of_eq stop)
        obtain rfl := List.self_eq_append_left.mp same
        refine ⟨token, rest, rfl, stop.symm, ?_, rfl⟩
        rw [parseAfresh_of_begins alone, parseAfresh_nil]
        rfl
      · obtain ⟨front, rest, rfl, total, scanned, behind⟩ := ih further
        have whole := hm
        rw [← List.append_assoc] at whole
        have le : m.full.stop ≤ start + Text.byteLength (token ++ front) := by
          rw [stop, Text.byteLength_append]
          omega
        obtain ⟨front', same, begins⟩ := whole.of_append le
        obtain rfl := List.append_cancel_right same
        refine ⟨token ++ front, rest, by simp, ?_, ?_, behind⟩
        · rw [Text.byteLength_append, ← Nat.add_assoc, ← stop, total]
        · rw [parseAfresh_of_begins begins, scanned]
          rfl
  | skip start c t plain ih =>
      rw [parseAfresh_cons plain] at h
      obtain ⟨front, rest, rfl, total, scanned, behind⟩ := ih h
      have plain' : ∀ m after, ¬ Begins start (c :: front) m after :=
        fun m after hm => plain m _ (hm.append rest)
      refine ⟨c :: front, rest, rfl, ?_, ?_, behind⟩
      · rw [Text.byteLength_cons, ← Nat.add_assoc, total]
      · rw [parseAfresh_cons plain', scanned]

/-- A text falls into three around any of its tokens. -/
theorem exists_cut_around {start : Nat} {t : Text} {before after : List Markup} {a : Markup}
    (h : parseAfresh start t = before ++ a :: after) :
    ∃ front token rest, t = front ++ token ++ rest ∧ start + front.byteLength = a.full.start ∧
      Begins a.full.start token a [] ∧ parseAfresh start front = before ∧
      parseAfresh a.full.stop rest = after := by
  obtain ⟨whole, rest, rfl, stop, scanned, behind⟩ := exists_cut_behind h
  have mem : a ∈ parseAfresh start whole := by simp [scanned]
  obtain ⟨front, token, none, rfl, begins⟩ := exists_begins_of_mem_parseAfresh mem
  have starts := begins.start_eq
  rw [← starts] at begins
  have total := begins.stop_add
  rw [Text.byteLength_append] at stop
  obtain rfl := Text.byteLength_eq_zero (t := none) (by omega)
  have order := pairwise_parseAfresh start (front ++ token)
  rw [scanned] at order
  have earlier := (List.pairwise_append.mp order).2.2
  have apart : ∀ m ∈ parseAfresh start (front ++ token),
      ¬ (m.full.start < start + front.byteLength ∧ start + front.byteLength < m.full.stop) := by
    intro m hm across
    rw [scanned] at hm
    rcases List.mem_append.mp hm with hm | hm
    · have := earlier m hm a List.mem_cons_self
      omega
    · obtain rfl := List.mem_singleton.mp hm
      omega
  have sides := parseAfresh_append apart
  rw [← starts, parseAfresh_of_begins begins, parseAfresh_nil, scanned] at sides
  exact ⟨front, token, rest, rfl, starts.symm, begins, (List.append_inj_left' sides rfl).symm, behind⟩

/-- Whatever is appended to a text, the markup found in it stays and stays in front. -/
theorem parse_prefix_parse_append (front rest : Text) :
    parse front <+: parse (front ++ rest) := by
  rw [parse_eq, parse_eq]
  exact parseAfresh_prefix_append 0 front rest

end Markup

end Marginalia
