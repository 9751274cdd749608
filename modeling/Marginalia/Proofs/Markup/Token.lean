import Marginalia.Proofs.Markup.Search

/-! # The token a text begins with

`Begins` is the judgement behind one step of the scan: an opener, a payload in which no search
stops, the closer. It is settled by the token's own characters, so text may be appended or taken
away behind it. The scan without memory is then read off the judgement, one step at a time.
-/

namespace Marginalia.Markup

/-- The first byte offset behind a token around `payload` that begins at `start`. -/
def stopOf (start : Nat) (payload : Text) : Nat :=
  start + Kind.delimiterLength + payload.byteLength + Kind.delimiterLength

theorem full_of_ofPayload? {k : Kind} {start : Nat} {payload : Text} {m : Markup}
    (h : ofPayload? k start payload = some m) : m.full = ⟨start, stopOf start payload⟩ := by
  cases k with
  | addition | deletion | highlight =>
      simp only [ofPayload?, Option.some.injEq] at h
      rw [← h, stopOf]
  | substitution =>
      simp only [ofPayload?, Option.map_eq_some_iff] at h
      obtain ⟨_, -, rfl⟩ := h
      rfl
  | comment =>
      simp only [ofPayload?, Option.some.injEq] at h
      rw [← h, stopOf]

theorem kind_of_ofPayload? {k : Kind} {start : Nat} {payload : Text} {m : Markup}
    (h : ofPayload? k start payload = some m) : m.kind = k := by
  cases k with
  | addition | deletion | highlight =>
      simp only [ofPayload?, Option.some.injEq] at h
      rw [← h]
      rfl
  | substitution =>
      simp only [ofPayload?, Option.map_eq_some_iff] at h
      obtain ⟨_, -, rfl⟩ := h
      rfl
  | comment =>
      simp only [ofPayload?, Option.some.injEq] at h
      rw [← h]
      rfl

/-- Only a substitution can be malformed, by having no separator. -/
theorem ofPayload?_eq_none_iff {k : Kind} {start : Nat} {payload : Text} :
    ofPayload? k start payload = none ↔
      k = .substitution ∧ ¬ Kind.separator <:+: payload := by
  cases k <;> simp [ofPayload?, Text.splitOnce?_eq_none_iff]

theorem shift_ofPayload? (distance : Nat) (k : Kind) (start : Nat) (payload : Text) :
    ofPayload? k (distance + start) payload = (ofPayload? k start payload).map (shift distance) := by
  cases k <;>
    simp [ofPayload?, shift, Span.shift, Function.comp_def, Nat.add_assoc]

/-- At byte `start` the text `t` begins with the token `m`, and `after` follows it. -/
def Begins (start : Nat) (t : Text) (m : Markup) (after : Text) : Prop :=
  ∃ k payload, t = k.opener ++ payload ++ k.closer ++ after ∧
    k.Clear payload (k.closer ++ after) ∧ ofPayload? k start payload = some m

namespace Begins

variable {start : Nat} {t after : Text} {m : Markup}

theorem iff_search {k : Kind} {rest : Text} :
    Begins start (k.opener ++ rest) m after ↔
      ∃ payload, k.search rest = .closed payload after ∧ ofPayload? k start payload = some m := by
  constructor
  · intro h
    obtain ⟨j, payload, same, clear, hm⟩ := h
    rw [List.append_assoc, List.append_assoc] at same
    obtain rfl : k = j := Kind.opener_prefix_unique ⟨rest, same⟩ ⟨_, rfl⟩
    obtain rfl := List.append_cancel_left same
    exact ⟨payload, Kind.search_eq_closed_iff.mpr ⟨by simp, clear⟩, hm⟩
  · intro h
    obtain ⟨payload, hsearch, hm⟩ := h
    obtain ⟨rfl, clear⟩ := Kind.search_eq_closed_iff.mp hsearch
    exact ⟨k, payload, by simp, clear, hm⟩

/-- What follows a token has no part in it. -/
theorem iff_clear :
    Begins start t m after ↔
      ∃ k payload, t = k.opener ++ payload ++ k.closer ++ after ∧ k.Clear payload [] ∧
        ofPayload? k start payload = some m := by
  simp only [Begins, Kind.clear_closer_append_iff]

theorem exists_opener (h : Begins start t m after) :
    ∃ (k : Kind) (rest : Text), t = k.opener ++ rest := by
  obtain ⟨k, payload, rfl, -, -⟩ := h
  exact ⟨k, payload ++ k.closer ++ after, by simp⟩

theorem unique {after' : Text} {m' : Markup} (h : Begins start t m after)
    (h' : Begins start t m' after') : m = m' ∧ after = after' := by
  obtain ⟨k, rest, rfl⟩ := h.exists_opener
  obtain ⟨payload, hsearch, hm⟩ := iff_search.mp h
  obtain ⟨payload', hsearch', hm'⟩ := iff_search.mp h'
  obtain ⟨rfl, rfl⟩ := Search.closed.inj (hsearch.symm.trans hsearch')
  exact ⟨Option.some.inj (hm.symm.trans hm'), rfl⟩

theorem start_eq (h : Begins start t m after) : m.full.start = start := by
  obtain ⟨k, payload, -, -, hm⟩ := h
  rw [full_of_ofPayload? hm]

/-- The token takes up exactly the characters in front of what follows it. -/
theorem exists_cut (h : Begins start t m after) :
    ∃ token, t = token ++ after ∧ m.full.stop = start + token.byteLength ∧ 6 ≤ token.length := by
  obtain ⟨k, payload, rfl, -, hm⟩ := h
  refine ⟨k.opener ++ payload ++ k.closer, rfl, ?_, ?_⟩
  · simp only [full_of_ofPayload? hm, stopOf, Text.byteLength_append, Kind.byteLength_opener,
      Kind.byteLength_closer]
    omega
  · simp only [List.length_append, Kind.length_opener, Kind.length_closer]
    omega

theorem stop_add (h : Begins start t m after) :
    m.full.stop + after.byteLength = start + t.byteLength := by
  obtain ⟨token, rfl, stop, -⟩ := h.exists_cut
  rw [stop, Text.byteLength_append, Nat.add_assoc]

theorem delimiters_le (h : Begins start t m after) :
    m.full.start + 2 * Kind.delimiterLength ≤ m.full.stop := by
  obtain ⟨k, payload, -, -, hm⟩ := h
  simp only [full_of_ofPayload? hm, stopOf, Kind.delimiterLength]
  omega

theorem start_lt_stop (h : Begins start t m after) : m.full.start < m.full.stop :=
  Nat.lt_of_lt_of_le (Nat.lt_add_of_pos_right (by decide)) h.delimiters_le

theorem length_lt (h : Begins start t m after) : after.length < t.length := by
  obtain ⟨token, rfl, -, long⟩ := h.exists_cut
  simp only [List.length_append]
  omega

/-- A token stays one whatever is appended. -/
theorem append (h : Begins start t m after) (more : Text) :
    Begins start (t ++ more) m (after ++ more) := by
  obtain ⟨k, payload, rfl, clear, hm⟩ := h
  refine ⟨k, payload, by simp, ?_, hm⟩
  rw [Kind.clear_closer_append_iff] at clear ⊢
  exact clear

/-- A token that ends within the front part of a text is one of that part. -/
theorem of_append {more : Text} (h : Begins start (t ++ more) m after)
    (le : m.full.stop ≤ start + t.byteLength) :
    ∃ rest, after = rest ++ more ∧ Begins start t m rest := by
  obtain ⟨k, payload, same, clear, hm⟩ := h
  have fits : (k.opener ++ payload ++ k.closer).byteLength ≤ t.byteLength := by
    simp only [full_of_ofPayload? hm, stopOf] at le
    simp only [Text.byteLength_append, Kind.byteLength_opener, Kind.byteLength_closer]
    omega
  obtain ⟨rest, rfl, rfl⟩ := Text.exists_between same.symm fits
  refine ⟨rest, rfl, k, payload, rfl, ?_, hm⟩
  rw [Kind.clear_closer_append_iff] at clear ⊢
  exact clear

/-- A token that is not one of the front part alone reaches beyond it. -/
theorem lt_stop_of_plain {more : Text} (h : Begins start (t ++ more) m after)
    (plain : ∀ m after, ¬ Begins start t m after) : start + t.byteLength < m.full.stop := by
  apply Nat.lt_of_not_le
  intro le
  obtain ⟨rest, -, hm⟩ := h.of_append le
  exact plain m rest hm

theorem shift_iff {distance : Nat} {m' : Markup} :
    Begins (distance + start) t m' after ↔ ∃ m, Begins start t m after ∧ m' = m.shift distance := by
  constructor
  · intro h
    obtain ⟨k, payload, rfl, clear, hm'⟩ := h
    rw [shift_ofPayload?, Option.map_eq_some_iff] at hm'
    obtain ⟨m, hm, rfl⟩ := hm'
    exact ⟨m, ⟨k, payload, rfl, clear, hm⟩, rfl⟩
  · intro h
    obtain ⟨m, ⟨k, payload, rfl, clear, hm⟩, rfl⟩ := h
    exact ⟨k, payload, rfl, clear, by rw [shift_ofPayload?, hm, Option.map_some]⟩

end Begins

/-- The scan asks whether the text begins with a token; memory that knows nothing changes nothing.
-/
theorem attemptAt_eq_token_iff {zones : DeadZones} {start : Nat} {t after : Text} {m : Markup} :
    attemptAt (fun _ _ _ => false) zones start t = .token m after ↔ Begins start t m after := by
  cases hopen : Kind.openerAt? t with
  | none =>
      refine ⟨fun h => by simp [attemptAt, hopen] at h, ?_⟩
      intro h
      obtain ⟨k, rest, rfl⟩ := h.exists_opener
      rw [Kind.openerAt?_eq_some_iff.mpr ⟨rest, rfl⟩] at hopen
      cases hopen
  | some k =>
      obtain ⟨rest, rfl⟩ := Kind.openerAt?_eq_some_iff.mp hopen
      simp only [Begins.iff_search, attemptAt, hopen, List.drop_left, Kind.attempt,
        Bool.false_eq_true, if_false]
      cases hsearch : k.search rest with
      | unclosed | interrupted => simp
      | closed payload behind =>
          cases hm : ofPayload? k start payload with
          | none =>
              refine ⟨fun h => by simp [hm] at h, ?_⟩
              intro h
              obtain ⟨payload', same, hm'⟩ := h
              obtain ⟨rfl, -⟩ := Search.closed.inj same
              rw [hm] at hm'
              cases hm'
          | some m' =>
              simp only [hm, Attempt.token.injEq, Search.closed.injEq]
              constructor
              · intro h
                obtain ⟨rfl, rfl⟩ := h
                exact ⟨payload, ⟨rfl, rfl⟩, hm⟩
              · intro h
                obtain ⟨payload', ⟨rfl, rfl⟩, hm'⟩ := h
                exact ⟨Option.some.inj (hm.symm.trans hm'), rfl⟩

theorem attemptAt_eq_dropped (zones : DeadZones) {start : Nat} {t : Text}
    (h : ∀ m after, ¬ Begins start t m after) :
    ∃ next, attemptAt (fun _ _ _ => false) zones start t = .dropped next := by
  cases ha : attemptAt (fun _ _ _ => false) zones start t with
  | token m after => exact absurd (attemptAt_eq_token_iff.mp ha) (h m after)
  | dropped next => exact ⟨next, rfl⟩

theorem exists_cut_of_attemptAt {known : DeadZones → Kind → Nat → Bool} {zones : DeadZones}
    {start : Nat} {t after : Text} {m : Markup}
    (h : attemptAt known zones start t = .token m after) :
    ∃ token, t = token ++ after ∧ m.full = ⟨start, start + token.byteLength⟩ := by
  cases opens : Kind.openerAt? t with
  | none => simp [attemptAt, opens] at h
  | some k =>
      obtain ⟨w, rfl⟩ := Kind.openerAt?_eq_some_iff.mp opens
      simp only [attemptAt, opens, List.drop_left] at h
      obtain ⟨payload, rfl, built⟩ := Kind.attempt_token h
      refine ⟨k.opener ++ (payload ++ k.closer), by simp, ?_⟩
      simp only [full_of_ofPayload? built, stopOf, Text.byteLength_append, Kind.byteLength_opener,
        Kind.byteLength_closer, Nat.add_assoc]

/-- Settles at every place whether a token begins there, and goes on behind it or at the next
    character. -/
@[elab_as_elim] theorem scan_induction {motive : Nat → Text → Prop}
    (done : ∀ start, motive start [])
    (token : ∀ start t m after, Begins start t m after → motive m.full.stop after → motive start t)
    (skip : ∀ start c rest, (∀ m after, ¬ Begins start (c :: rest) m after) →
      motive (start + c.utf8Size) rest → motive start (c :: rest))
    (start : Nat) (t : Text) : motive start t := by
  by_cases h : ∃ m after, Begins start t m after
  · obtain ⟨m, after, hm⟩ := h
    have := hm.length_lt
    exact token start t m after hm (scan_induction done token skip m.full.stop after)
  · cases t with
    | nil => exact done start
    | cons c rest =>
        refine skip start c rest (fun m after hm => h ⟨m, after, hm⟩) ?_
        exact scan_induction done token skip (start + c.utf8Size) rest
termination_by t.length

section Steps

variable {known : DeadZones → Kind → Nat → Bool} {zones next : DeadZones} {start : Nat}

theorem scanFrom_of_token {t after : Text} {m : Markup}
    (h : attemptAt known zones start t = .token m after) :
    scanFrom known zones start t = m :: scanFrom known zones m.full.stop after := by
  cases t with
  | nil => simp [attemptAt, Kind.openerAt?, Kind.all, Text.startsWith, Text.dropPrefix?,
      Kind.opener] at h
  | cons c rest =>
      rw [scanFrom]
      split
      · next m' after' h' =>
          obtain ⟨rfl, rfl⟩ := Attempt.token.inj (h.symm.trans h')
          rfl
      · next h' => exact absurd (h.symm.trans h') (by simp)

theorem scanFrom_of_dropped {c : Char} {rest : Text}
    (h : attemptAt known zones start (c :: rest) = .dropped next) :
    scanFrom known zones start (c :: rest) = scanFrom known next (start + c.utf8Size) rest := by
  rw [scanFrom]
  split
  · next h' => exact absurd (h.symm.trans h') (by simp)
  · next h' =>
      obtain rfl := Attempt.dropped.inj (h.symm.trans h')
      rfl

end Steps

/-- A scan that never consults its memory does not depend on it. -/
theorem scanFrom_eq_parseAfresh (zones : DeadZones) (start : Nat) (t : Text) :
    scanFrom (fun _ _ _ => false) zones start t = parseAfresh start t := by
  induction start, t using scan_induction generalizing zones with
  | done start => simp [parseAfresh, scanFrom]
  | token start t m after hm ih =>
      rw [parseAfresh, scanFrom_of_token (attemptAt_eq_token_iff.mpr hm),
        scanFrom_of_token (attemptAt_eq_token_iff.mpr hm), ih zones, ih {}]
  | skip start c rest plain ih =>
      obtain ⟨next, hnext⟩ := attemptAt_eq_dropped zones plain
      obtain ⟨next', hnext'⟩ := attemptAt_eq_dropped {} plain
      rw [parseAfresh, scanFrom_of_dropped hnext, scanFrom_of_dropped hnext', ih next, ih next']

@[simp] theorem parseAfresh_nil (start : Nat) : parseAfresh start [] = [] := by
  simp [parseAfresh, scanFrom]

theorem parseAfresh_of_begins {start : Nat} {t after : Text} {m : Markup}
    (h : Begins start t m after) :
    parseAfresh start t = m :: parseAfresh m.full.stop after :=
  scanFrom_of_token (attemptAt_eq_token_iff.mpr h)

theorem parseAfresh_cons {start : Nat} {c : Char} {rest : Text}
    (h : ∀ m after, ¬ Begins start (c :: rest) m after) :
    parseAfresh start (c :: rest) = parseAfresh (start + c.utf8Size) rest := by
  obtain ⟨next, hnext⟩ := attemptAt_eq_dropped {} h
  rw [parseAfresh, scanFrom_of_dropped hnext, scanFrom_eq_parseAfresh]

/-- Whatever a scan finds begins where it is found. -/
theorem exists_begins_of_mem_parseAfresh {start : Nat} {t : Text} {m : Markup}
    (h : m ∈ parseAfresh start t) :
    ∃ u v after, t = u ++ v ∧ Begins (start + u.byteLength) v m after := by
  induction start, t using scan_induction with
  | done start => simp at h
  | token start t first after hfirst ih =>
      rw [parseAfresh_of_begins hfirst] at h
      rcases List.mem_cons.mp h with rfl | h
      · exact ⟨[], t, after, rfl, hfirst⟩
      · obtain ⟨u, v, rest, rfl, hm⟩ := ih h
        obtain ⟨token, rfl, stop, -⟩ := hfirst.exists_cut
        refine ⟨token ++ u, v, rest, by simp, ?_⟩
        rw [Text.byteLength_append, ← Nat.add_assoc, ← stop]
        exact hm
  | skip start c rest plain ih =>
      rw [parseAfresh_cons plain] at h
      obtain ⟨u, v, after, rfl, hm⟩ := ih h
      refine ⟨c :: u, v, after, rfl, ?_⟩
      rw [Text.byteLength_cons, ← Nat.add_assoc]
      exact hm

/-- What is found where `token` stands is read off `token` alone. -/
theorem begins_of_mem_parseAfresh {start : Nat} {front token rest : Text} {m : Markup}
    (h : m ∈ parseAfresh start (front ++ token ++ rest))
    (full : m.full = ⟨start + front.byteLength, start + front.byteLength + token.byteLength⟩) :
    Begins (start + front.byteLength) token m [] := by
  obtain ⟨u, v, after, same, hm⟩ := exists_begins_of_mem_parseAfresh h
  have first := hm.start_eq
  rw [full, Nat.add_left_cancel_iff] at first
  rw [List.append_assoc] at same
  obtain ⟨rfl, rfl⟩ := Text.append_inj_of_byteLength same first
  have stop : m.full.stop = start + front.byteLength + token.byteLength := by rw [full]
  obtain ⟨more, -, hm⟩ := hm.of_append (Nat.le_of_eq stop)
  have total := hm.stop_add
  obtain rfl := Text.byteLength_eq_zero (t := more) (by omega)
  exact hm

/-- Tokens lie between the start of the text and its end. -/
theorem bounds_of_mem_parseAfresh {start : Nat} {t : Text} {m : Markup}
    (h : m ∈ parseAfresh start t) :
    start ≤ m.full.start ∧ m.full.start < m.full.stop ∧ m.full.stop ≤ start + t.byteLength := by
  obtain ⟨u, v, after, rfl, hm⟩ := exists_begins_of_mem_parseAfresh h
  have from_start := hm.start_eq
  have whole := hm.stop_add
  refine ⟨by omega, hm.start_lt_stop, ?_⟩
  rw [Text.byteLength_append]
  omega

/-- Tokens ascend, none begins before the one in front of it ends. -/
theorem pairwise_parseAfresh (start : Nat) (t : Text) :
    (parseAfresh start t).Pairwise fun a b => a.full.stop ≤ b.full.start := by
  induction start, t using scan_induction with
  | done start => simp
  | token start t first after hfirst ih =>
      rw [parseAfresh_of_begins hfirst, List.pairwise_cons]
      exact ⟨fun m hm => (bounds_of_mem_parseAfresh hm).1, ih⟩
  | skip start c rest plain ih =>
      rw [parseAfresh_cons plain]
      exact ih

/-- Where the text begins has no effect beyond moving every span. -/
theorem parseAfresh_shift (distance start : Nat) (t : Text) :
    parseAfresh (distance + start) t = (parseAfresh start t).map (shift distance) := by
  induction start, t using scan_induction with
  | done start => simp
  | token start t m after hm ih =>
      have moved : Begins (distance + start) t (m.shift distance) after :=
        Begins.shift_iff.mpr ⟨m, hm, rfl⟩
      rw [parseAfresh_of_begins hm, parseAfresh_of_begins moved, List.map_cons, ← ih]
      rfl
  | skip start c rest plain ih =>
      have plain' : ∀ m after, ¬ Begins (distance + start) (c :: rest) m after := by
        intro m after hm
        obtain ⟨m', hm', -⟩ := Begins.shift_iff.mp hm
        exact plain m' after hm'
      rw [parseAfresh_cons plain, parseAfresh_cons plain', Nat.add_assoc, ih]

end Marginalia.Markup
