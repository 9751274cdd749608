import Marginalia.Proofs.Markup.Grammar
import Marginalia.Proofs.Text.Bytes

/-! # Markup read byte by byte

A cursor that walks over bytes passes through the inside of characters, and a slice of the text that
begins or ends there fails. Reading markup with such a cursor comes to the same as reading it by
characters, and no slice that it takes ever fails: the ends of a slice lie beside delimiters.
-/

namespace Marginalia

namespace Cursor

/-- The kind whose opener is ahead. -/
def openerAt? (c : Cursor) : Option Kind := Kind.all.find? fun k => c.startsWith k.opener

def foreignAt (k : Kind) (c : Cursor) : Bool := c.openerAt?.any (· ≠ k)

/-- Where looking for a closer ends, as a position. -/
inductive Halt where
  | closed (offset : Nat)
  | interrupted (offset : Nat)
  | unclosed

theorem remaining_lt {c : Cursor} (more : ¬ c.atEnd) {n : Nat} (pos : 0 < n) :
    (c.skip n).text.byteLength - (c.skip n).passed < c.text.byteLength - c.passed := by
  simp only [atEnd, decide_eq_true_eq, Nat.not_le] at more
  simp only [skip]
  omega

/-- Looks for the closer of kind `k`, a byte at a time. -/
def seek (k : Kind) (c : Cursor) : Halt :=
  if _more : c.atEnd then .unclosed
  else if c.startsWith k.closer then .closed c.position
  else if c.foreignAt k then .interrupted c.position
  else (c.skip 1).seek k
termination_by c.text.byteLength - c.passed
decreasing_by exact remaining_lt _more Nat.one_pos

/-- The token of kind `k` at the cursor whose closer is at `last`; a substitution may be none.
    Nothing when a slice would cut a character. -/
def build? (k : Kind) (last : Nat) (c : Cursor) : Option (Option Markup) := do
  let payload ← c.textUnder? ⟨c.position + Kind.delimiterLength, last⟩
  match Markup.ofPayload? k c.position payload with
  | none => return none
  | some m =>
    let content ← c.textUnder? m.inner
    return some { m with content := content }

/-- The token at the cursor, if one begins there, and the failures known from then on. -/
def token? (zones : DeadZones) (c : Cursor) : Option (Option Markup × DeadZones) :=
  match c.openerAt? with
  | none => some (none, zones)
  | some k =>
    if zones.covers k (c.position + Kind.delimiterLength) then some (none, zones)
    else match (c.skip Kind.delimiterLength).seek k with
      | .unclosed => some (none, zones.mark k .throughout)
      | .interrupted offset => some (none, zones.mark k (.upTo offset))
      | .closed last => (c.build? k last).map fun
        | none => (none, zones.mark k (.upTo last))
        | some m => (some m, zones)

theorem length_pos_of_build? {k : Kind} {last : Nat} {c : Cursor} {m : Markup}
    (h : c.build? k last = some (some m)) : 0 < m.full.length := by
  simp only [build?, Option.bind_eq_bind, Option.bind_eq_some_iff] at h
  obtain ⟨payload, -, h⟩ := h
  cases built : Markup.ofPayload? k c.position payload with
  | none => simp [built] at h
  | some whole =>
      simp only [built, Option.bind_eq_some_iff] at h
      obtain ⟨content, -, h⟩ := h
      obtain rfl := Option.some.inj (Option.some.inj h)
      simp only [Markup.full_of_ofPayload? built, Span.length, Markup.stopOf, Kind.delimiterLength]
      omega

theorem length_pos_of_token? {zones next : DeadZones} {c : Cursor} {m : Markup}
    (h : c.token? zones = some (some m, next)) : 0 < m.full.length := by
  unfold token? at h
  split at h
  · simp at h
  split at h
  · simp at h
  split at h
  · simp at h
  · simp at h
  · next k _ _ last _ =>
      obtain ⟨built, hbuilt, same⟩ := Option.map_eq_some_iff.mp h
      cases built with
      | none => simp at same
      | some whole =>
          obtain ⟨rfl, -⟩ : whole = m ∧ zones = next := by simpa using same
          exact length_pos_of_build? hbuilt

/-- Every token from the cursor on. Nothing when a slice would cut a character. -/
def markup? (zones : DeadZones) (c : Cursor) : Option (List Markup) :=
  if _more : c.atEnd then some []
  else match _found : c.token? zones with
    | none => none
    | some (none, zones) => (c.skip 1).markup? zones
    | some (some m, zones) => (m :: ·) <$> (c.skip m.full.length).markup? zones
termination_by c.text.byteLength - c.passed
decreasing_by
  · exact remaining_lt _more Nat.one_pos
  · exact remaining_lt _more (length_pos_of_token? _found)

theorem ascii_opener (k : Kind) : k.opener.Ascii := by cases k <;> simp [Text.Ascii, Kind.opener]

theorem ascii_closer (k : Kind) : k.closer.Ascii := by cases k <;> simp [Text.Ascii, Kind.closer]

section Inside

variable {base i : Nat} {front rest : Text} {c : Char}

theorem not_opener_inside (k : Kind) (pos : 0 < i) (lt : i < c.utf8Size) :
    ¬ ((between base front (c :: rest)).skip i).startsWith k.opener :=
  not_startsWith_inside (ascii_opener k) (by cases k <;> simp [Kind.opener]) pos lt

theorem not_closer_inside (k : Kind) (pos : 0 < i) (lt : i < c.utf8Size) :
    ¬ ((between base front (c :: rest)).skip i).startsWith k.closer :=
  not_startsWith_inside (ascii_closer k) (by cases k <;> simp [Kind.closer]) pos lt

theorem openerAt?_inside (pos : 0 < i) (lt : i < c.utf8Size) :
    ((between base front (c :: rest)).skip i).openerAt? = none :=
  List.find?_eq_none.mpr fun k _ => not_opener_inside k pos lt

theorem not_atEnd_inside (base : Nat) (front rest : Text) (lt : i < c.utf8Size) :
    ¬ ((between base front (c :: rest)).skip i).atEnd := by
  simp only [atEnd, skip, between, Text.byteLength_append, Text.byteLength_cons, decide_eq_true_eq]
  omega

/-- What does not stop inside characters goes from the first byte of one to the next one. -/
theorem skip_one_eq {α : Type} (f : Cursor → α)
    (pass : ∀ i, 0 < i → i < c.utf8Size →
      f ((between base front (c :: rest)).skip i) =
        f (((between base front (c :: rest)).skip i).skip 1)) :
    f ((between base front (c :: rest)).skip 1) = f (between base (front ++ [c]) rest) := by
  -- One inside byte after the other is passed, up to the last.
  have walk (n : Nat) (le : 1 + n ≤ c.utf8Size) : f ((between base front (c :: rest)).skip 1) =
      f ((between base front (c :: rest)).skip (1 + n)) := by
    induction n with
    | zero => rfl
    | succ n ih =>
        rw [ih (by omega), pass (1 + n) (by omega) (by omega)]
        rfl
  have pos := c.utf8Size_pos
  have whole : 1 + (c.utf8Size - 1) = c.utf8Size := by omega
  rw [walk (c.utf8Size - 1) (by omega), whole, skip_utf8Size]

end Inside

section Seek

variable {k : Kind} {base : Nat} {front rest : Text} {c : Char}

theorem seek_inside {i : Nat} (pos : 0 < i) (lt : i < c.utf8Size) :
    ((between base front (c :: rest)).skip i).seek k =
      (((between base front (c :: rest)).skip i).skip 1).seek k := by
  rw [seek, dif_neg (not_atEnd_inside base front rest lt), if_neg (not_closer_inside k pos lt),
    foreignAt, openerAt?_inside pos lt]
  rfl

theorem openerAt?_between (base : Nat) (front rest : Text) :
    (between base front rest).openerAt? = Kind.openerAt? rest := by
  have same (k : Kind) : (between base front rest).startsWith k.opener = rest.startsWith k.opener :=
    Bool.eq_iff_iff.mpr
      ((startsWith_between (ascii_opener k)).trans Text.startsWith_eq_true_iff.symm)
  simp only [openerAt?, Kind.openerAt?, same]

end Seek

end Cursor

/-- The position where a search that begins at `place` ends. -/
def Search.halt (place : Nat) : Search → Cursor.Halt
  | .closed payload _ => .closed (place + payload.byteLength)
  | .interrupted bytes => .interrupted (place + bytes)
  | .unclosed => .unclosed

theorem Search.halt_behind (place : Nat) (c : Char) (s : Search) :
    (s.behind c).halt place = s.halt (place + c.utf8Size) := by
  cases s <;> simp [behind, halt, Nat.add_assoc]

namespace Cursor

/-- A closer is found at the same place by bytes and by characters. -/
theorem seek_between (k : Kind) (base : Nat) (front rest : Text) :
    (between base front rest).seek k = (k.search rest).halt (base + front.byteLength) := by
  induction rest generalizing front with
  | nil =>
      have finished : (between base front []).atEnd := by simp [atEnd, between]
      rw [seek, dif_pos finished]
      rfl
  | cons c rest ih =>
      have more : ¬ (between base front (c :: rest)).atEnd :=
        not_atEnd_inside base front rest c.utf8Size_pos
      rw [seek, dif_neg more, Kind.search]
      cases closes : Text.dropPrefix? k.closer (c :: rest) with
      | some after =>
          have here : k.closer <+: c :: rest :=
            ⟨after, (Text.dropPrefix?_eq_some_iff.mp closes).symm⟩
          rw [if_pos ((startsWith_between (ascii_closer k)).mpr here)]
          rfl
      | none =>
          have absent := Text.dropPrefix?_eq_none_iff.mp closes
          rw [if_neg (mt (startsWith_between (ascii_closer k)).mp absent), foreignAt,
            openerAt?_between]
          change (if k.foreignAt (c :: rest) then _ else _) = _
          by_cases foreign : k.foreignAt (c :: rest)
          · simp only [foreign, if_true]
            rfl
          · simp only [foreign, if_false, Bool.false_eq_true]
            rw [skip_one_eq (·.seek k) fun i => seek_inside, ih, Search.halt_behind,
              Text.byteLength_append, Nat.add_assoc]
            rfl

section Token

variable {base : Nat} {front rest : Text}

theorem textUnder?_between {before inside after : Text} {s : Span}
    (parts : front ++ rest = before ++ inside ++ after)
    (starts : base + before.byteLength = s.start) (stops : s.start + inside.byteLength = s.stop) :
    (between base front rest).textUnder? s = some inside := by
  have inBounds : base ≤ s.start ∧ base ≤ s.stop := by omega
  rw [textUnder?]
  refine (if_pos inBounds).trans (Text.slice?_eq_some_iff.mpr ⟨before, after, parts, ?_, ?_⟩)
  · exact (Nat.sub_eq_of_eq_add' starts.symm).symm
  · change s.start - base + inside.byteLength = s.stop - base
    omega

theorem build?_between (k : Kind) (base : Nat) (front payload after : Text) :
    (between base front (k.opener ++ (payload ++ k.closer ++ after))).build? k
        (base + front.byteLength + Kind.delimiterLength + payload.byteLength) =
      some (Markup.ofPayload? k (base + front.byteLength) payload) := by
  have opened : base + (front ++ k.opener).byteLength =
      base + front.byteLength + Kind.delimiterLength := by
    rw [Text.byteLength_append, Kind.byteLength_opener, Nat.add_assoc]
  have cut : front ++ (k.opener ++ (payload ++ k.closer ++ after)) =
      front ++ k.opener ++ payload ++ (k.closer ++ after) := by simp only [List.append_assoc]
  have whole : (between base front (k.opener ++ (payload ++ k.closer ++ after))).textUnder?
      ⟨base + front.byteLength + Kind.delimiterLength,
        base + front.byteLength + Kind.delimiterLength + payload.byteLength⟩ = some payload :=
    textUnder?_between cut opened rfl
  have here : (between base front (k.opener ++ (payload ++ k.closer ++ after))).position =
      base + front.byteLength := rfl
  simp only [build?, here, whole, Option.bind_eq_bind, Option.bind_some]
  cases built : Markup.ofPayload? k (base + front.byteLength) payload with
  | none => rfl
  | some m =>
      obtain ⟨-, -, lead, reads, inner⟩ := Markup.ofPayload?_eq_some_iff.mp built
      -- The content lies between what leads up to it and the closer, so it is cut out whole.
      obtain rfl := reads.parts
      have cut' : front ++ (k.opener ++ (lead ++ m.content ++ k.closer ++ after)) =
          front ++ k.opener ++ lead ++ m.content ++ (k.closer ++ after) := by
        simp only [List.append_assoc]
      have starts : base + (front ++ k.opener ++ lead).byteLength = m.inner.start := by
        rw [Text.byteLength_append, ← Nat.add_assoc, opened, inner]
        rfl
      have stops : m.inner.start + m.content.byteLength = m.inner.stop := by
        rw [inner, Text.byteLength_append, ← Nat.add_assoc]
      simp only [textUnder?_between cut' starts stops, Option.bind_some]
      rfl

/-- A step by bytes comes to what a step by characters comes to. -/
theorem token?_between (zones : DeadZones) (base : Nat) (front rest : Text) :
    (between base front rest).token? zones =
      some (match Markup.attemptAt DeadZones.covers zones (base + front.byteLength) rest with
        | .token m _ => (some m, zones)
        | .dropped next => (none, next)) := by
  rw [token?, Markup.attemptAt, openerAt?_between]
  cases opens : Kind.openerAt? rest with
  | none => rfl
  | some k =>
      obtain ⟨w, rfl⟩ := Kind.openerAt?_eq_some_iff.mp opens
      have behind : (between base front (k.opener ++ w)).skip Kind.delimiterLength =
          between base (front ++ k.opener) w := by
        simp [between, skip, Text.byteLength_append, Kind.byteLength_opener]
      have here : (between base front (k.opener ++ w)).position = base + front.byteLength := rfl
      have opened : base + (front ++ k.opener).byteLength =
          base + front.byteLength + Kind.delimiterLength := by
        rw [Text.byteLength_append, Kind.byteLength_opener, Nat.add_assoc]
      simp only [here, behind, seek_between, opened, List.drop_left, Kind.attempt]
      by_cases covered : zones.covers k (base + front.byteLength + Kind.delimiterLength)
      · simp only [covered, if_true]
      · simp only [covered, if_false, Bool.false_eq_true]
        cases found : k.search w with
        | unclosed | interrupted => rfl
        | closed payload after =>
            obtain rfl := Kind.search_closed found
            simp only [Search.halt, build?_between, Option.map_some]
            cases Markup.ofPayload? k (base + front.byteLength) payload <;> rfl

end Token

section Markup

variable {zones next : DeadZones} {base i : Nat} {front rest : Text} {c : Char}

theorem markup?_of_none {c : Cursor} (more : ¬ c.atEnd)
    (found : c.token? zones = some (none, next)) : c.markup? zones = (c.skip 1).markup? next := by
  rw [markup?, dif_neg more]
  split <;> simp_all

theorem markup?_of_some {c : Cursor} {m : Markup} (more : ¬ c.atEnd)
    (found : c.token? zones = some (some m, next)) :
    c.markup? zones = (m :: ·) <$> (c.skip m.full.length).markup? next := by
  rw [markup?, dif_neg more]
  split <;> simp_all

theorem markup?_inside (pos : 0 < i) (lt : i < c.utf8Size) :
    ((between base front (c :: rest)).skip i).markup? zones =
      (((between base front (c :: rest)).skip i).skip 1).markup? zones :=
  markup?_of_none (not_atEnd_inside base front rest lt) (by rw [token?, openerAt?_inside pos lt])

end Markup

/-- By bytes the same markup is found as by characters. -/
theorem markup?_between (zones : DeadZones) (base : Nat) (front rest : Text) :
    (between base front rest).markup? zones =
      some (Markup.scanFrom DeadZones.covers zones (base + front.byteLength) rest) := by
  cases rest with
  | nil =>
      have finished : (between base front []).atEnd := by simp [atEnd, between]
      rw [markup?, dif_pos finished, Markup.scanFrom]
  | cons c rest =>
      have more : ¬ (between base front (c :: rest)).atEnd :=
        not_atEnd_inside base front rest c.utf8Size_pos
      have step := token?_between zones base front (c :: rest)
      cases tried : Markup.attemptAt DeadZones.covers zones (base + front.byteLength)
          (c :: rest) with
      | token m after =>
          rw [tried] at step
          obtain ⟨token, same, full⟩ := Markup.exists_cut_of_attemptAt tried
          have behind : (between base front (c :: rest)).skip m.full.length =
              between base (front ++ token) after := by
            simp [between, skip, same, full, Span.length, Text.byteLength_append]
          rw [markup?_of_some more step, behind, markup?_between zones base (front ++ token) after,
            Markup.scanFrom_of_token tried, full, Text.byteLength_append, Nat.add_assoc]
          rfl
      | dropped next =>
          rw [tried] at step
          rw [markup?_of_none more step, skip_one_eq (·.markup? next) fun i => markup?_inside,
            markup?_between next base (front ++ [c]) rest, Markup.scanFrom_of_dropped tried,
            Text.byteLength_append, Nat.add_assoc]
          rfl
termination_by rest.length
decreasing_by
  · exact Markup.length_of_attemptAt tried
  · exact Nat.lt_succ_self _

end Cursor

/-- Reading a text by bytes finds its markup, and no slice fails on the way. -/
theorem Markup.markup?_eq_parse (t : Text) : Cursor.markup? {} ⟨t, 0, 0⟩ = some (parse t) :=
  Cursor.markup?_between {} 0 [] t

end Marginalia
