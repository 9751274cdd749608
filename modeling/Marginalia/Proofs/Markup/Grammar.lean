import Marginalia.Proofs.Markup.Memory
import Marginalia.Proofs.Text.Boundary

/-! # The grammar of markup

What a token is, said of byte offsets in the whole text and without a scan: an opener, the closer
as the first place behind it where the token could end, and what its kind says about the payload.
The markup of a text is the one list of tokens that ascends without overlap and leaves no token
outside.
-/

namespace Marginalia

/-- The closer of kind `k` or an opener of another kind stands at byte `offset`. -/
def Kind.StopsAt (k : Kind) (s : Text) (offset : Nat) : Prop :=
  s.StandsAt k.closer offset ∨ ∃ j, j ≠ k ∧ s.StandsAt j.opener offset

/-- A token of kind `k` has its opener at byte `a` and its closer at byte `p`. -/
structure Kind.TokenAt (k : Kind) (s : Text) (a p : Nat) : Prop where
  opens : s.StandsAt k.opener a
  closes : s.StandsAt k.closer p
  behind : a + 3 ≤ p
  /-- Nothing could end the token sooner. -/
  first : ∀ q, a + 3 ≤ q → q < p → ¬ k.StopsAt s q
  /-- A substitution has a separator in its payload. -/
  separated : k = .substitution → ∃ q, a + 3 ≤ q ∧ q + 2 ≤ p ∧ s.StandsAt Kind.separator q

/-- What a token says about its payload: its detail, the text that leads up to the content, and
    the content. -/
inductive Detail.Reads (payload : Text) : Detail → (lead content : Text) → Prop where
  | addition : Reads payload .addition [] payload
  | deletion : Reads payload .deletion [] payload
  | highlight : Reads payload .highlight [] payload
  /-- The halves lie around the first separator. -/
  | substitution {old new : Text} : Text.FirstSplit Kind.separator payload old new →
      Reads payload (.substitution old new) [] payload
  /-- The text before the first metadata end reads as metadata. -/
  | signed {before content : Text} {metadata : Metadata} :
      Text.FirstSplit Kind.metadataEnd payload before content →
      Metadata.read? before = some metadata →
      Reads payload (.comment (some metadata)) (before ++ Kind.metadataEnd) content
  /-- There is no metadata end, or what stands before the first does not read as metadata. -/
  | unsigned :
      (∀ before content, Text.FirstSplit Kind.metadataEnd payload before content →
        Metadata.read? before = none) →
      Reads payload (.comment none) [] payload

theorem Detail.Reads.parts {payload lead content : Text} {detail : Detail}
    (reads : detail.Reads payload lead content) : payload = lead ++ content := by
  cases reads with
  | addition | deletion | highlight | substitution | unsigned => rfl
  | signed split _ => exact split.parts

/-- `m` is a token of `s`, with the spans and the detail that its payload calls for. -/
def Markup.IsToken (s : Text) (m : Markup) : Prop :=
  ∃ p payload lead, m.kind.TokenAt s m.full.start p ∧ m.full.stop = p + 3 ∧
    s.slice? ⟨m.full.start + 3, p⟩ = some payload ∧ m.detail.Reads payload lead m.content ∧
    m.inner = ⟨m.full.start + 3 + lead.byteLength, p⟩

namespace Kind

theorem stopsAt_append_iff {k : Kind} {u v : Text} {offset : Nat} :
    k.StopsAt (u ++ v) (u.byteLength + offset) ↔ k.StopsAt v offset := by
  simp only [StopsAt, Text.standsAt_append_iff]

theorem stopsAt_byteLength_iff {k : Kind} {u v : Text} :
    k.StopsAt (u ++ v) u.byteLength ↔ k.Stops v := by
  simp only [StopsAt, Stops, Text.standsAt_byteLength_iff]

theorem StopsAt.exists_cut {k : Kind} {t : Text} {offset : Nat} (h : k.StopsAt t offset) :
    ∃ u v, t = u ++ v ∧ u.byteLength = offset ∧ k.Stops v := by
  rcases h with h | ⟨j, ne, h⟩
  · obtain ⟨u, v, same, at_u, starts⟩ := h.exists_cut
    exact ⟨u, v, same, at_u, .inl starts⟩
  · obtain ⟨u, v, same, at_u, starts⟩ := h.exists_cut
    exact ⟨u, v, same, at_u, .inr ⟨j, ne, starts⟩⟩

theorem clear_iff_stopsAt {k : Kind} {front rest : Text} :
    k.Clear front rest ↔ ∀ q, q < front.byteLength → ¬ k.StopsAt (front ++ rest) q := by
  rw [clear_iff]
  constructor
  · intro clear q within stop
    obtain ⟨u, v, same, rfl, hv⟩ := stop.exists_cut
    obtain ⟨z, rfl, rfl⟩ := Text.exists_between same.symm (Nat.le_of_lt within)
    refine clear u z rfl ?_ hv
    intro empty
    subst empty
    simp at within
  · rintro clear u v rfl ne stop
    refine clear u.byteLength ?_ (by rw [List.append_assoc]; exact stopsAt_byteLength_iff.mpr stop)
    have := mt Text.byteLength_eq_zero ne
    rw [Text.byteLength_append]
    omega

/-- The closer is the first stop exactly when the payload before it is clear. -/
theorem closer_first_iff {k : Kind} {w : Text} {n : Nat} :
    (w.StandsAt k.closer n ∧ ∀ q, q < n → ¬ k.StopsAt w q) ↔
      ∃ payload after, w = payload ++ (k.closer ++ after) ∧ n = payload.byteLength ∧
        k.Clear payload (k.closer ++ after) := by
  constructor
  · intro h
    obtain ⟨closes, first⟩ := h
    obtain ⟨payload, _, rfl, rfl, after, rfl⟩ := closes.exists_cut
    exact ⟨payload, after, rfl, rfl, clear_iff_stopsAt.mpr first⟩
  · intro h
    obtain ⟨payload, after, rfl, rfl, clear⟩ := h
    exact ⟨Text.standsAt_byteLength_iff.mpr (List.prefix_append _ _), clear_iff_stopsAt.mp clear⟩

/-- Tokens by offsets and tokens by the text around them are the same. -/
theorem tokenAt_iff {k : Kind} {front t : Text} {p : Nat} :
    k.TokenAt (front ++ t) front.byteLength p ↔
      ∃ payload after, t = k.opener ++ payload ++ k.closer ++ after ∧
        p = front.byteLength + 3 + payload.byteLength ∧ k.Clear payload (k.closer ++ after) ∧
        (k = .substitution → separator <:+: payload) := by
  have opener (w : Text) : front ++ (k.opener ++ w) = front ++ k.opener ++ w := by simp
  have three : (front ++ k.opener).byteLength = front.byteLength + 3 := by
    rw [Text.byteLength_append, byteLength_opener, delimiterLength]
  constructor
  · intro h
    obtain ⟨w, rfl⟩ := Text.standsAt_byteLength_iff.mp h.opens
    obtain ⟨n, rfl⟩ := Nat.exists_eq_add_of_le h.behind
    rw [opener, ← three] at h
    obtain ⟨payload, after, rfl, rfl, clear⟩ := closer_first_iff.mp
      ⟨Text.standsAt_append_iff.mp h.closes, fun q lt stop =>
        h.first _ (by omega) (by omega) (stopsAt_append_iff.mpr stop)⟩
    refine ⟨payload, after, by simp, rfl, clear, ?_⟩
    intro hk
    obtain ⟨q, low, high, stands⟩ := h.separated hk
    obtain ⟨q, rfl⟩ := Nat.exists_eq_add_of_le (three ▸ low)
    exact (Text.infix_iff_standsAt _).mpr
      ⟨q, show q + 2 ≤ _ by omega, Text.standsAt_append_iff.mp stands⟩
  · intro h
    obtain ⟨payload, after, rfl, rfl, clear, whole⟩ := h
    obtain ⟨closes, first⟩ := closer_first_iff.mpr ⟨payload, after, rfl, rfl, clear⟩
    rw [List.append_assoc, List.append_assoc, opener, ← three]
    refine ⟨?_, Text.standsAt_append_iff.mpr closes, by omega, fun q low high stop => ?_,
      fun hk => ?_⟩
    · rw [← opener]
      exact Text.standsAt_byteLength_iff.mpr (List.prefix_append _ _)
    · obtain ⟨q, rfl⟩ := Nat.exists_eq_add_of_le (three ▸ low)
      exact first q (by omega) (stopsAt_append_iff.mp stop)
    · obtain ⟨q, high, stands⟩ := (Text.infix_iff_standsAt (k.closer ++ after)).mp (whole hk)
      have two : separator.byteLength = 2 := rfl
      exact ⟨_, by omega, by omega, Text.standsAt_append_iff.mpr stands⟩

end Kind

namespace Markup

theorem splitComment_of_read? {payload before content : Text} {metadata : Metadata}
    (split : Text.FirstSplit Kind.metadataEnd payload before content)
    (read : Metadata.read? before = some metadata) :
    splitComment payload = (some metadata, before ++ Kind.metadataEnd, content) := by
  simp only [splitComment, Text.splitOnce?_eq_some_iff.mpr split, read]

theorem splitComment_of_not_read? {payload : Text}
    (unread : ∀ before content, Text.FirstSplit Kind.metadataEnd payload before content →
      Metadata.read? before = none) :
    splitComment payload = (none, [], payload) := by
  cases hsplit : Text.splitOnce? Kind.metadataEnd payload with
  | none => simp only [splitComment, hsplit]
  | some sides =>
      obtain ⟨before, content⟩ := sides
      have absent := unread before content (Text.splitOnce?_eq_some_iff.mp hsplit)
      simp only [splitComment, hsplit, absent]

/-- Every payload can be read, a substitution's if it has a separator. -/
theorem exists_reads (k : Kind) (payload : Text)
    (whole : k = .substitution → Kind.separator <:+: payload) :
    ∃ (detail : Detail) (lead content : Text),
      detail.kind = k ∧ detail.Reads payload lead content := by
  cases k with
  | addition => exact ⟨_, _, _, rfl, .addition⟩
  | deletion => exact ⟨_, _, _, rfl, .deletion⟩
  | highlight => exact ⟨_, _, _, rfl, .highlight⟩
  | substitution =>
      cases hsplit : Text.splitOnce? Kind.separator payload with
      | none => exact absurd (whole rfl) (Text.splitOnce?_eq_none_iff.mp hsplit)
      | some halves =>
          exact ⟨_, _, _, rfl, .substitution (Text.splitOnce?_eq_some_iff.mp hsplit)⟩
  | comment =>
      by_cases signed : ∃ before content metadata,
          Text.FirstSplit Kind.metadataEnd payload before content ∧
            Metadata.read? before = some metadata
      · obtain ⟨before, content, metadata, split, read⟩ := signed
        exact ⟨_, _, _, rfl, .signed split read⟩
      · refine ⟨_, _, _, rfl, .unsigned fun before content split => ?_⟩
        cases read : Metadata.read? before with
        | none => rfl
        | some metadata => exact absurd ⟨before, content, metadata, split, read⟩ signed

theorem ofPayload?_of_reads {start : Nat} {payload lead content : Text} {detail : Detail}
    (reads : detail.Reads payload lead content) :
    ofPayload? detail.kind start payload =
      some ⟨⟨start, stopOf start payload⟩,
        ⟨start + 3 + lead.byteLength, start + 3 + payload.byteLength⟩, content, detail⟩ := by
  cases reads with
  | addition | deletion | highlight => rfl
  | substitution split =>
      simp only [Detail.kind, ofPayload?, Text.splitOnce?_eq_some_iff.mpr split]
      rfl
  | signed split read =>
      simp only [Detail.kind, ofPayload?, splitComment_of_read? split read]
      rfl
  | unsigned unread =>
      simp only [Detail.kind, ofPayload?, splitComment_of_not_read? unread]
      rfl

theorem separator_infix_of_ofPayload? {k : Kind} {start : Nat} {payload : Text} {m : Markup}
    (h : ofPayload? k start payload = some m) (hk : k = .substitution) :
    Kind.separator <:+: payload := by
  apply Classical.byContradiction
  intro absent
  rw [ofPayload?_eq_none_iff.mpr ⟨hk, absent⟩] at h
  cases h

/-- The token built around a payload is the one that reads it. -/
theorem ofPayload?_eq_some_iff {k : Kind} {start : Nat} {payload : Text} {m : Markup} :
    ofPayload? k start payload = some m ↔
      m.kind = k ∧ m.full = ⟨start, stopOf start payload⟩ ∧
        ∃ lead, m.detail.Reads payload lead m.content ∧
          m.inner = ⟨start + 3 + lead.byteLength, start + 3 + payload.byteLength⟩ := by
  constructor
  · intro h
    obtain ⟨detail, lead, content, rfl, reads⟩ :=
      exists_reads k payload (separator_infix_of_ofPayload? h)
    rw [ofPayload?_of_reads reads] at h
    obtain rfl := Option.some.inj h
    exact ⟨rfl, rfl, lead, reads, rfl⟩
  · intro h
    obtain ⟨rfl, hfull, lead, reads, hinner⟩ := h
    rw [kind, ofPayload?_of_reads reads, ← hfull, ← hinner]

/-- A token of the whole text is one that the text begins with from there on. -/
theorem isToken_iff_begins {front t : Text} {m : Markup} :
    (IsToken (front ++ t) m ∧ m.full.start = front.byteLength) ↔
      ∃ after, Begins front.byteLength t m after := by
  constructor
  · intro h
    obtain ⟨⟨p, payload, lead, token, stop, under, reads, inner⟩, starts⟩ := h
    rw [starts] at token under inner
    obtain ⟨payload', after, rfl, rfl, clear, -⟩ := Kind.tokenAt_iff.mp token
    have under' : (front ++ (m.kind.opener ++ payload' ++ m.kind.closer ++ after)).slice?
        ⟨front.byteLength + 3, front.byteLength + 3 + payload'.byteLength⟩ = some payload' :=
      Text.slice?_eq_some_iff.mpr ⟨front ++ m.kind.opener, m.kind.closer ++ after, by simp,
        by rw [Text.byteLength_append, Kind.byteLength_opener]; rfl, rfl⟩
    obtain rfl := Option.some.inj (under.symm.trans under')
    refine ⟨after, m.kind, payload, rfl, clear, ofPayload?_eq_some_iff.mpr ⟨rfl, ?_, lead, reads,
      inner⟩⟩
    cases h : m.full
    simp only [h] at starts stop
    rw [starts, stop, stopOf]
    rfl
  · intro h
    obtain ⟨after, k, payload, rfl, clear, hm⟩ := h
    obtain ⟨rfl, full, lead, reads, inner⟩ := ofPayload?_eq_some_iff.mp hm
    refine ⟨⟨front.byteLength + 3 + payload.byteLength, payload, lead, ?_, ?_, ?_, reads, ?_⟩, ?_⟩
    · rw [full]
      exact Kind.tokenAt_iff.mpr ⟨payload, after, rfl, rfl, clear, separator_infix_of_ofPayload? hm⟩
    · rw [full]
      rfl
    · rw [full]
      exact Text.slice?_eq_some_iff.mpr ⟨front ++ m.kind.opener, m.kind.closer ++ after, by simp,
        by rw [Text.byteLength_append, Kind.byteLength_opener]; rfl, rfl⟩
    · rw [full]
      exact inner
    · rw [full]

theorem Begins.exists_tokenAt {start : Nat} {t after : Text} {m : Markup}
    (h : Begins start t m after) (front : Text) :
    ∃ k p, Kind.TokenAt k (front ++ t) front.byteLength p := by
  obtain ⟨k, payload, rfl, clear, hm⟩ := h
  exact ⟨k, _, Kind.tokenAt_iff.mpr
    ⟨payload, after, rfl, rfl, clear, separator_infix_of_ofPayload? hm⟩⟩

/-- Where a token stands, the text from there on begins with one. -/
theorem exists_begins_of_tokenAt {k : Kind} {front t : Text} {p : Nat}
    (h : k.TokenAt (front ++ t) front.byteLength p) :
    ∃ m after, Begins front.byteLength t m after := by
  obtain ⟨payload, after, rfl, rfl, clear, whole⟩ := Kind.tokenAt_iff.mp h
  cases hm : ofPayload? k front.byteLength payload with
  | none =>
      obtain ⟨hk, absent⟩ := ofPayload?_eq_none_iff.mp hm
      exact absurd (whole hk) absent
  | some m => exact ⟨m, after, k, payload, rfl, clear, hm⟩

/-- `ms` picks tokens of `s` from byte `start` on, in order and apart, and leaves none outside. -/
structure Picks (s : Text) (start : Nat) (ms : List Markup) : Prop where
  tokens : ∀ m ∈ ms, IsToken s m
  onward : ∀ m ∈ ms, start ≤ m.full.start
  ascending : ms.Pairwise fun a b => a.full.stop ≤ b.full.start
  maximal : ∀ k a p, Kind.TokenAt k s a p → start ≤ a → ∃ m ∈ ms, m.covers a

theorem IsToken.start_lt_stop {s : Text} {m : Markup} (h : IsToken s m) :
    m.full.start < m.full.stop := by
  obtain ⟨p, -, -, token, stop, -⟩ := h
  have := token.behind
  omega

theorem covers_iff {m : Markup} {offset : Nat} :
    m.covers offset ↔ m.full.start ≤ offset ∧ offset < m.full.stop := by
  simp [covers, Span.contains]

namespace Picks

variable {front t after rest : Text} {m : Markup} {ms : List Markup} {c : Char}

/-- Behind the text there is nothing to pick. -/
theorem nil_iff : Picks front front.byteLength ms ↔ ms = [] := by
  have outside {k : Kind} {a p : Nat} (token : k.TokenAt front a p) : a < front.byteLength := by
    have room := token.opens.le_byteLength
    rw [Kind.byteLength_opener, Kind.delimiterLength] at room
    omega
  constructor
  · intro picks
    cases ms with
    | nil => rfl
    | cons m ms =>
        obtain ⟨p, -, -, token, -⟩ := picks.tokens m List.mem_cons_self
        have onward := picks.onward m List.mem_cons_self
        exact absurd (outside token) (Nat.not_lt.mpr onward)
  · intro none
    subst none
    refine ⟨by simp, by simp, by simp, ?_⟩
    intro k a p token le
    exact absurd (outside token) (Nat.not_lt.mpr le)

/-- The token that begins here comes first. -/
theorem head_eq (hm : Begins front.byteLength t m after)
    (picks : Picks (front ++ t) front.byteLength ms) : ∃ later, ms = m :: later := by
  obtain ⟨⟨p, -, -, token, -⟩, starts⟩ := isToken_iff_begins.mpr ⟨after, hm⟩
  rw [starts] at token
  obtain ⟨x, hx, covers⟩ := picks.maximal _ _ _ token (Nat.le_refl _)
  have starts_x : x.full.start = front.byteLength :=
    Nat.le_antisymm (covers_iff.mp covers).1 (picks.onward x hx)
  obtain ⟨after', hx'⟩ := isToken_iff_begins.mp ⟨picks.tokens x hx, starts_x⟩
  obtain ⟨rfl, -⟩ := hx'.unique hm
  cases ms with
  | nil => cases hx
  | cons head later =>
      rcases List.mem_cons.mp hx with rfl | further
      · exact ⟨later, rfl⟩
      · -- A token in front of `x` would have to end before it begins.
        have order := (List.pairwise_cons.mp picks.ascending).1 x further
        have proper := (picks.tokens head List.mem_cons_self).start_lt_stop
        have onward := picks.onward head List.mem_cons_self
        omega

/-- Where a token begins, it is picked, and the rest behind it. -/
theorem token_iff (hm : Begins front.byteLength t m after) :
    Picks (front ++ t) front.byteLength ms ↔
      ∃ later, ms = m :: later ∧ Picks (front ++ t) m.full.stop later := by
  obtain ⟨isToken, starts⟩ := isToken_iff_begins.mpr ⟨after, hm⟩
  have proper := isToken.start_lt_stop
  constructor
  · intro picks
    obtain ⟨later, rfl⟩ := picks.head_eq hm
    obtain ⟨behind, ascending⟩ := List.pairwise_cons.mp picks.ascending
    refine ⟨later, rfl, (List.forall_mem_cons.mp picks.tokens).2, behind, ascending, ?_⟩
    intro k a p token le
    obtain ⟨y, hy, within⟩ := picks.maximal k a p token (by omega)
    rcases List.mem_cons.mp hy with rfl | further
    · exact absurd (covers_iff.mp within).2 (Nat.not_lt.mpr le)
    · exact ⟨y, further, within⟩
  · intro h
    obtain ⟨later, rfl, picks⟩ := h
    refine ⟨?_, ?_, List.pairwise_cons.mpr ⟨picks.onward, picks.ascending⟩, ?_⟩
    · exact List.forall_mem_cons.mpr ⟨isToken, picks.tokens⟩
    · refine List.forall_mem_cons.mpr ⟨Nat.le_of_eq starts.symm, ?_⟩
      intro x hx
      have onward := picks.onward x hx
      omega
    · intro k a p token le
      by_cases within : a < m.full.stop
      · exact ⟨m, List.mem_cons_self, covers_iff.mpr ⟨starts ▸ le, within⟩⟩
      · obtain ⟨x, hx, covers⟩ := picks.maximal k a p token (Nat.le_of_not_lt within)
        exact ⟨x, List.mem_cons_of_mem m hx, covers⟩

/-- Where none begins, everything is picked further on. -/
theorem skip_iff (plain : ∀ m after, ¬ Begins front.byteLength (c :: rest) m after) :
    Picks (front ++ c :: rest) front.byteLength ms ↔
      Picks (front ++ c :: rest) (front.byteLength + c.utf8Size) ms := by
  have further {k : Kind} {a p : Nat} (token : k.TokenAt (front ++ c :: rest) a p)
      (le : front.byteLength ≤ a) : front.byteLength + c.utf8Size ≤ a := by
    rcases Nat.eq_or_lt_of_le le with rfl | lt
    · obtain ⟨m, after, hm⟩ := exists_begins_of_tokenAt token
      exact absurd hm (plain m after)
    · exact token.opens.skip lt
  constructor
  · intro picks
    refine ⟨picks.tokens, ?_, picks.ascending, ?_⟩
    · intro m hm
      obtain ⟨p, -, -, token, -⟩ := picks.tokens m hm
      exact further token (picks.onward m hm)
    · intro k a p token le
      exact picks.maximal k a p token (Nat.le_of_add_right_le le)
  · intro picks
    refine ⟨picks.tokens, ?_, picks.ascending, ?_⟩
    · intro m hm
      exact Nat.le_of_add_right_le (picks.onward m hm)
    · intro k a p token le
      exact picks.maximal k a p token (further token le)

end Picks

/-- The scan picks tokens, and it is the only way to pick them. -/
theorem picks_iff {front t : Text} {start : Nat} {ms : List Markup}
    (here : start = front.byteLength) :
    Picks (front ++ t) start ms ↔ parseAfresh start t = ms := by
  induction start, t using scan_induction generalizing front ms with
  | done start =>
      subst here
      rw [List.append_nil, parseAfresh_nil, Picks.nil_iff, eq_comm]
  | token start t m after hm ih =>
      subst here
      rw [Picks.token_iff hm, parseAfresh_of_begins hm]
      obtain ⟨token, rfl, stop, -⟩ := hm.exists_cut
      have there : m.full.stop = (front ++ token).byteLength := by
        rw [stop, Text.byteLength_append]
      have later (ms : List Markup) : Picks (front ++ token ++ after) m.full.stop ms ↔
          parseAfresh m.full.stop after = ms := ih there
      rw [List.append_assoc] at later
      simp only [later, eq_comm, exists_eq_right]
  | skip start c rest plain ih =>
      subst here
      have there : front.byteLength + c.utf8Size = (front ++ [c]).byteLength := by
        rw [Text.byteLength_append]
        rfl
      have later : Picks (front ++ [c] ++ rest) (front.byteLength + c.utf8Size) ms ↔
          parseAfresh (front.byteLength + c.utf8Size) rest = ms := ih there
      rw [List.append_assoc, List.singleton_append] at later
      rw [Picks.skip_iff plain, parseAfresh_cons plain, later]

/-- The markup of a text is the one list of its tokens that ascends without overlap and leaves no
    token outside. -/
theorem parse_eq_iff (s : Text) (ms : List Markup) :
    parse s = ms ↔
      (∀ m ∈ ms, IsToken s m) ∧ ms.Pairwise (fun a b => a.full.stop ≤ b.full.start) ∧
        ∀ k a p, Kind.TokenAt k s a p → ∃ m ∈ ms, m.full.start ≤ a ∧ a < m.full.stop := by
  have whole : Picks ([] ++ s) 0 ms ↔ parseAfresh 0 s = ms := picks_iff rfl
  rw [parse_eq, ← whole]
  constructor
  · intro picks
    refine ⟨picks.tokens, picks.ascending, ?_⟩
    intro k a p token
    obtain ⟨m, hm, covers⟩ := picks.maximal k a p token (Nat.zero_le a)
    exact ⟨m, hm, covers_iff.mp covers⟩
  · intro h
    obtain ⟨tokens, ascending, maximal⟩ := h
    refine ⟨tokens, fun _ _ => Nat.zero_le _, ascending, ?_⟩
    intro k a p token _
    obtain ⟨m, hm, covers⟩ := maximal k a p token
    exact ⟨m, hm, covers_iff.mpr covers⟩

end Markup

end Marginalia
