import Marginalia.Proofs.Markup.Token

/-! # Remembered failures

A search that fails stops somewhere. Every later opener of its kind up to that place has its own
search stop there too, for want of anything that could stop it sooner, and fails for the same
reason. So the openers that the dead zones cover begin no token, and leaving them out changes
nothing.
-/

namespace Marginalia

theorem Reach.covers_extend (a b : Reach) (offset : Nat) :
    (a.extend b).covers offset = (a.covers offset || b.covers offset) := by
  cases a with
  | throughout => rfl
  | upTo stop =>
      cases b with
      | throughout => simp [extend, covers]
      | upTo stop' =>
          rw [Bool.eq_iff_iff]
          simp only [extend, covers, decide_eq_true_eq, Bool.or_eq_true]
          omega

namespace DeadZones

theorem covers_mark (zones : DeadZones) (k j : Kind) (r : Reach) (offset : Nat) :
    (zones.mark k r).covers j offset = (zones.covers j offset || (j = k && r.covers offset)) := by
  cases k <;> cases j <;> simp [mark, covers, reach, Reach.covers_extend]

/-- No opener from byte `start` on that the zones cover begins a token. -/
def Sound (zones : DeadZones) (start : Nat) (t : Text) : Prop :=
  ∀ (k : Kind) (u w : Text), t = u ++ (k.opener ++ w) →
    zones.covers k (start + u.byteLength + Kind.delimiterLength) →
    ∀ m after, ¬ Markup.Begins (start + u.byteLength) (k.opener ++ w) m after

theorem sound_initial (start : Nat) (t : Text) : ({} : DeadZones).Sound start t := by
  intro k u w _ covered
  cases k <;> simp [covers, reach, Reach.covers, Kind.delimiterLength] at covered

theorem Sound.of_append {zones : DeadZones} {start : Nat} {front rest : Text}
    (sound : zones.Sound start (front ++ rest)) : zones.Sound (start + front.byteLength) rest := by
  intro k u w same covered m after
  have moved := sound k (front ++ u) w (by rw [same, List.append_assoc])
  simp only [Text.byteLength_append, ← Nat.add_assoc] at moved
  exact moved covered m after

end DeadZones

/-- An opener up to the place where a failed search of its kind stopped fails as well. -/
theorem Markup.not_begins_within {k : Kind} {start start' : Nat} {front rest u w after : Text}
    {m : Markup} (clear : k.Clear front rest) (halt : rest = [] ∨ k.Stops rest)
    (plain : ∀ m after, ¬ Begins start (k.opener ++ (front ++ rest)) m after)
    (same : k.opener ++ (front ++ rest) = u ++ (k.opener ++ w))
    (le : u.byteLength ≤ front.byteLength) : ¬ Begins start' (k.opener ++ w) m after := by
  intro later
  obtain ⟨payload, hsearch, hm⟩ := Begins.iff_search.mp later
  rw [← List.append_assoc, ← List.append_assoc] at same
  obtain ⟨y, hy, rfl⟩ := Text.exists_between same.symm
    (by simp only [Text.byteLength_append, Kind.byteLength_opener]; omega)
  -- The later payload begins within the earlier one, so both are searched to the same stop.
  obtain ⟨z, rfl⟩ : y <:+ front := by
    have len := congrArg List.length hy
    simp only [List.length_append, Kind.length_opener] at len
    exact List.suffix_of_suffix_length_le ⟨u ++ k.opener, hy.symm⟩ ⟨k.opener, rfl⟩ (by omega)
  rw [Kind.search_append_of_clear (Kind.clear_append_iff.mp clear).2] at hsearch
  rcases halt with rfl | ⟨behind, rfl⟩ | ⟨j, ne, hj⟩
  · rw [Kind.search, Kind.foldr_behind_unclosed] at hsearch
    cases hsearch
  · rw [Kind.search_closer_append, Kind.foldr_behind_closed, List.append_nil] at hsearch
    obtain ⟨rfl, rfl⟩ := Search.closed.inj hsearch
    cases hwhole : ofPayload? k start (z ++ y) with
    | some whole => exact plain whole behind ⟨k, z ++ y, by simp, clear, hwhole⟩
    | none =>
        obtain ⟨hk, absent⟩ := ofPayload?_eq_none_iff.mp hwhole
        have malformed : ofPayload? k start' y = none :=
          ofPayload?_eq_none_iff.mpr ⟨hk, fun h => absent (List.infix_append_of_infix_right h)⟩
        rw [malformed] at hm
        cases hm
  · rw [Kind.search_of_foreign ne hj, Kind.foldr_behind_interrupted] at hsearch
    cases hsearch

namespace Kind

variable {k : Kind} {zones next : DeadZones} {start : Nat} {w : Text}

theorem attempt_of_not_covered
    (fresh : ¬ zones.covers k (start + delimiterLength)) :
    k.attempt DeadZones.covers zones start w = k.attempt (fun _ _ _ => false) zones start w := by
  simp only [attempt, fresh, Bool.false_eq_true, if_false]

/-- What a failed attempt marks reaches no further than the place where its search stopped. -/
theorem exists_mark_of_attempt_dropped
    (h : k.attempt (fun _ _ _ => false) zones start w = .dropped next) :
    ∃ front rest r, w = front ++ rest ∧ k.Clear front rest ∧ (rest = [] ∨ k.Stops rest) ∧
      next = zones.mark k r ∧
      ∀ offset, r.covers offset →
        rest = [] ∨ offset ≤ start + delimiterLength + front.byteLength := by
  obtain ⟨front, rest, rfl, clear, halt⟩ := k.exists_clear w
  simp only [attempt, Bool.false_eq_true, if_false, search_append_of_clear clear] at h
  have reach (stop offset : Nat) (within : (Reach.upTo stop).covers offset) : offset ≤ stop := by
    simpa [Reach.covers] using within
  rcases halt with rfl | ⟨behind, rfl⟩ | ⟨j, ne, hj⟩
  · rw [search, foldr_behind_unclosed] at h
    exact ⟨front, [], .throughout, rfl, clear, .inl rfl, (Attempt.dropped.inj h).symm,
      fun _ _ => .inl rfl⟩
  · rw [search_closer_append, foldr_behind_closed, List.append_nil] at h
    cases hm : Markup.ofPayload? k start front with
    | some m => simp [hm] at h
    | none =>
        simp only [hm] at h
        exact ⟨front, k.closer ++ behind, _, rfl, clear, .inr (.inl ⟨behind, rfl⟩),
          (Attempt.dropped.inj h).symm, fun offset within => .inr (reach _ offset within)⟩
  · rw [search_of_foreign ne hj, foldr_behind_interrupted, Nat.add_zero] at h
    exact ⟨front, rest, _, rfl, clear, .inr (.inr ⟨j, ne, hj⟩), (Attempt.dropped.inj h).symm,
      fun offset within => .inr (reach _ offset within)⟩

/-- Marking a failure keeps the zones sound. -/
theorem sound_of_attempt_dropped (sound : zones.Sound start (k.opener ++ w))
    (h : k.attempt (fun _ _ _ => false) zones start w = .dropped next)
    (plain : ∀ m after, ¬ Markup.Begins start (k.opener ++ w) m after) :
    next.Sound start (k.opener ++ w) := by
  obtain ⟨front, rest, r, rfl, clear, halt, rfl, reach⟩ := exists_mark_of_attempt_dropped h
  intro j u x same covered m after
  rw [DeadZones.covers_mark, Bool.or_eq_true, Bool.and_eq_true, decide_eq_true_eq] at covered
  rcases covered with covered | ⟨rfl, covered⟩
  · exact sound j u x same covered m after
  · refine Markup.not_begins_within clear halt plain same ?_
    have total := congrArg Text.byteLength same
    simp only [Text.byteLength_append, byteLength_opener] at total
    rcases reach _ covered with rfl | le
    · simp only [Text.byteLength_nil] at total
      omega
    · omega

end Kind

namespace Markup

/-- With sound zones a step finds the token that begins here, or learns of none. -/
theorem attemptAt_covers {zones : DeadZones} {start : Nat} {t : Text} (sound : zones.Sound start t) :
    (∃ m after, attemptAt DeadZones.covers zones start t = .token m after ∧
      Begins start t m after) ∨
    ∃ next, attemptAt DeadZones.covers zones start t = .dropped next ∧ next.Sound start t ∧
      ∀ m after, ¬ Begins start t m after := by
  cases hopen : Kind.openerAt? t with
  | none =>
      refine .inr ⟨zones, by simp [attemptAt, hopen], sound, fun m after hm => ?_⟩
      obtain ⟨k, rest, rfl⟩ := hm.exists_opener
      rw [Kind.openerAt?_eq_some_iff.mpr ⟨rest, rfl⟩] at hopen
      cases hopen
  | some k =>
      obtain ⟨w, rfl⟩ := Kind.openerAt?_eq_some_iff.mp hopen
      have step (known : DeadZones → Kind → Nat → Bool) :
          attemptAt known zones start (k.opener ++ w) = k.attempt known zones start w := by
        simp only [attemptAt, hopen, List.drop_left]
      simp only [step]
      by_cases covered : zones.covers k (start + Kind.delimiterLength)
      · refine .inr ⟨zones, by simp only [Kind.attempt, covered, if_true], sound, ?_⟩
        exact sound k [] w rfl covered
      · rw [Kind.attempt_of_not_covered covered]
        cases h : k.attempt (fun _ _ _ => false) zones start w with
        | token m after =>
            exact .inl ⟨m, after, rfl, attemptAt_eq_token_iff.mp ((step _).trans h)⟩
        | dropped next =>
            have plain : ∀ m after, ¬ Begins start (k.opener ++ w) m after := by
              intro m after hm
              have found : attemptAt (fun _ _ _ => false) zones start (k.opener ++ w) =
                  .token m after := attemptAt_eq_token_iff.mpr hm
              rw [step, h] at found
              cases found
            exact .inr ⟨next, rfl, Kind.sound_of_attempt_dropped sound h plain, plain⟩

/-- A scan with sound zones finds what a scan without memory finds. -/
theorem scanFrom_covers_of_sound {zones : DeadZones} {start : Nat} {t : Text}
    (sound : zones.Sound start t) :
    scanFrom DeadZones.covers zones start t = parseAfresh start t := by
  induction start, t using scan_induction generalizing zones with
  | done start => simp [scanFrom]
  | token start t m after hm ih =>
      rcases attemptAt_covers sound with ⟨m', after', step, hm'⟩ | ⟨_, -, -, plain⟩
      · obtain ⟨rfl, rfl⟩ := hm.unique hm'
        obtain ⟨token, rfl, stop, -⟩ := hm.exists_cut
        rw [scanFrom_of_token step, parseAfresh_of_begins hm, ih (stop ▸ sound.of_append)]
      · exact absurd hm (plain m after)
  | skip start c rest plain ih =>
      rcases attemptAt_covers sound with ⟨m, after, -, hm⟩ | ⟨next, step, sound', -⟩
      · exact absurd hm (plain m after)
      · rw [scanFrom_of_dropped step, parseAfresh_cons plain]
        have further : next.Sound (start + Text.byteLength [c]) rest := sound'.of_append
        exact ih further

/-- The markup of a text that begins at `base`, read off without memory. -/
theorem parseAt_eq (base : Nat) (t : Text) : parseAt base t = parseAfresh base t :=
  scanFrom_covers_of_sound (DeadZones.sound_initial base t)

theorem parse_eq (t : Text) : parse t = parseAfresh 0 t := parseAt_eq 0 t

end Markup

/-- The last offset that a word of 64 bits holds. -/
def lastWord : Nat := 0xFFFFFFFFFFFFFFFF

/-- A reach as one word holds it; the last word stands for the end of the text. -/
def Reach.word : Reach → Nat
  | .upTo stop => stop
  | .throughout => lastWord

/-- Whether an opener is known to fail, going by words. -/
def DeadZones.wordCovers (zones : DeadZones) (k : Kind) (start : Nat) : Bool :=
  start ≤ (zones.reach k).word

theorem DeadZones.wordCovers_eq {zones : DeadZones} {k : Kind} {start : Nat}
    (fits : start ≤ lastWord) : zones.wordCovers k start = zones.covers k start := by
  rw [wordCovers, covers]
  cases zones.reach k with
  | upTo stop => rfl
  | throughout => exact decide_eq_true fits

namespace Markup

theorem attemptAt_wordCovers (zones : DeadZones) {start : Nat} {t : Text}
    (fits : start + t.byteLength ≤ lastWord) :
    attemptAt DeadZones.wordCovers zones start t = attemptAt DeadZones.covers zones start t := by
  cases hopen : Kind.openerAt? t with
  | none => simp only [attemptAt, hopen]
  | some k =>
      obtain ⟨w, rfl⟩ := Kind.openerAt?_eq_some_iff.mp hopen
      have inside : start + Kind.delimiterLength ≤ lastWord := by
        rw [Text.byteLength_append, Kind.byteLength_opener] at fits
        omega
      simp only [attemptAt, hopen, Kind.attempt, DeadZones.wordCovers_eq inside]

/-- While offsets fit into words, memory may be kept in words. -/
theorem scanFrom_wordCovers (zones : DeadZones) (start : Nat) (t : Text)
    (fits : start + t.byteLength ≤ lastWord) :
    scanFrom DeadZones.wordCovers zones start t = scanFrom DeadZones.covers zones start t := by
  match t with
  | [] => rw [scanFrom, scanFrom]
  | c :: rest =>
      have step := attemptAt_wordCovers zones fits
      cases tried : attemptAt DeadZones.covers zones start (c :: rest) with
      | token m after =>
          obtain ⟨token, same, full⟩ := exists_cut_of_attemptAt tried
          rw [same, Text.byteLength_append, ← Nat.add_assoc] at fits
          rw [scanFrom_of_token tried, scanFrom_of_token (step.trans tried),
            scanFrom_wordCovers zones m.full.stop after (by rwa [full])]
      | dropped next =>
          rw [Text.byteLength_cons, ← Nat.add_assoc] at fits
          rw [scanFrom_of_dropped tried, scanFrom_of_dropped (step.trans tried),
            scanFrom_wordCovers next (start + c.utf8Size) rest fits]
termination_by t.length
decreasing_by
  · exact length_of_attemptAt tried
  · exact Nat.lt_succ_self _

/-- Memory makes no difference: whatever the text and wherever it begins, the markup found is that
    found when each opener is searched from its own payload. As long as words hold the offsets,
    neither does a memory of words. -/
theorem parseAt_eq_parseAfresh (base : Nat) (t : Text) :
    parseAt base t = parseAfresh base t ∧
      (base + t.byteLength ≤ lastWord →
        scanFrom DeadZones.wordCovers {} base t = parseAfresh base t) := by
  have remembered : parseAt base t = parseAfresh base t :=
    scanFrom_covers_of_sound (DeadZones.sound_initial base t)
  refine ⟨remembered, fun fits => ?_⟩
  rw [scanFrom_wordCovers {} base t fits]
  exact remembered

/-- The second opener shares its characters with the closer at which the search from the first one
    stops; it is not covered by that failure, and begins a token that ends at the greatest offset. -/
theorem parseAt_eq_parseAfresh_behind_malformed :
    let t : Text := "\x7b~~x\x7b~~\x7da~>b~~\x7d".toList
    let base := lastWord - t.byteLength
    base + t.byteLength ≤ lastWord ∧ parseAt base t = parseAfresh base t ∧
      scanFrom DeadZones.wordCovers {} base t = parseAfresh base t ∧
      (parseAt base t).map full = [⟨base + 4, lastWord⟩] := by
  intro t base
  have fits : base + t.byteLength ≤ lastWord := by decide +kernel
  obtain ⟨remembered, inWords⟩ := parseAt_eq_parseAfresh base t
  exact ⟨fits, remembered, inWords fits, by decide +kernel⟩

end Markup

end Marginalia
