import Marginalia.Proofs.Markup.Grammar

/-! # A text as gaps and tokens

Reading loses nothing: the text is its tokens, written out again, and the gaps between them.
-/

namespace Marginalia.Markup

/-- The token written out, `lead` leading up to its content. -/
def written (m : Markup) (lead : Text) : Text :=
  m.kind.opener ++ (lead ++ m.content) ++ m.kind.closer

/-- Written out at byte `start` the token is read as what it is. -/
structure StandsAt (m : Markup) (start : Nat) (lead : Text) : Prop where
  reads : m.detail.Reads (lead ++ m.content) lead m.content
  full : m.full = ⟨start, start + (m.written lead).byteLength⟩
  inner : m.inner = ⟨start + (m.kind.opener ++ lead).byteLength,
    start + (m.kind.opener ++ lead ++ m.content).byteLength⟩

/-- The text `t`, which begins at byte `start`, is the tokens `ms` and the gaps around them. -/
inductive Tiles : (start : Nat) → (t : Text) → (ms : List Markup) → Prop where
  | gap {start : Nat} (rest : Text) : Tiles start rest []
  | token {start : Nat} {m : Markup} {lead rest : Text} {ms : List Markup} (gap : Text) :
      m.StandsAt (start + gap.byteLength) lead → Tiles m.full.stop rest ms →
      Tiles start (gap ++ m.written lead ++ rest) (m :: ms)

/-- `m` lies in the text `t` where it says, and the text says there what `m` says. -/
structure LiesIn (t : Text) (m : Markup) : Prop where
  nested : m.full.start ≤ m.inner.start ∧ m.inner.start ≤ m.inner.stop ∧
    m.inner.stop ≤ m.full.stop
  inBounds : m.full.stop ≤ t.byteLength
  beneath : t.slice? m.inner = some m.content
  rebuilt : ∃ lead, t.slice? m.full = some (m.written lead) ∧
    m.detail.Reads (lead ++ m.content) lead m.content

theorem LiesIn.full_boundaries {t : Text} {m : Markup} (h : m.LiesIn t) :
    t.isBoundary m.full.start ∧ t.isBoundary m.full.stop := by
  obtain ⟨lead, written, -⟩ := h.rebuilt
  exact Text.isBoundary_of_slice? written

theorem LiesIn.inner_boundaries {t : Text} {m : Markup} (h : m.LiesIn t) :
    t.isBoundary m.inner.start ∧ t.isBoundary m.inner.stop :=
  Text.isBoundary_of_slice? h.beneath

section Token

variable {start : Nat} {t after lead : Text} {m : Markup}

theorem Begins.exists_standsAt (h : Begins start t m after) :
    ∃ lead, t = m.written lead ++ after ∧ m.StandsAt start lead := by
  obtain ⟨k, payload, rfl, -, built⟩ := h
  obtain ⟨rfl, full, lead, reads, inner⟩ := ofPayload?_eq_some_iff.mp built
  obtain rfl := reads.parts
  refine ⟨lead, rfl, reads, ?_, ?_⟩
  · rw [full]
    simp only [stopOf, written, Text.byteLength_append, Kind.byteLength_opener,
      Kind.byteLength_closer, Nat.add_assoc]
  · rw [inner]
    simp only [Text.byteLength_append, Kind.byteLength_opener, Kind.delimiterLength, Nat.add_assoc]

theorem StandsAt.liesIn (front : Text) (h : m.StandsAt front.byteLength lead) (after : Text) :
    m.LiesIn (front ++ m.written lead ++ after) := by
  have rebuilt : (front ++ m.written lead ++ after).slice? m.full = some (m.written lead) :=
    Text.slice?_eq_some_iff.mpr ⟨front, after, rfl, by rw [h.full], by rw [h.full]⟩
  have beneath : (front ++ m.written lead ++ after).slice? m.inner = some m.content := by
    refine Text.slice?_eq_some_iff.mpr ⟨front ++ (m.kind.opener ++ lead), m.kind.closer ++ after,
      by simp [written], ?_, ?_⟩
    · rw [h.inner, Text.byteLength_append]
    · simp only [h.inner, Text.byteLength_append, Nat.add_assoc]
  refine ⟨?_, ?_, beneath, lead, rebuilt, h.reads⟩
  · simp only [h.full, h.inner, written, Text.byteLength_append]
    omega
  · simp only [h.full, Text.byteLength_append]
    omega

end Token

namespace Tiles

variable {start : Nat} {t : Text} {ms : List Markup}

theorem behind_gap (gap : Text) (h : Tiles (start + gap.byteLength) t ms) :
    Tiles start (gap ++ t) ms := by
  generalize here : start + gap.byteLength = place at h
  cases h with
  | gap => exact .gap (gap ++ t)
  | token further stands h =>
      have place : start + (gap ++ further).byteLength = place + further.byteLength := by
        rw [Text.byteLength_append, ← here, Nat.add_assoc]
      rw [← place] at stands
      simpa only [List.append_assoc] using Tiles.token (gap ++ further) stands h

theorem liesIn (h : Tiles start t ms) (front : Text) (here : front.byteLength = start) :
    ∀ m ∈ ms, m.LiesIn (front ++ t) := by
  induction h generalizing front with
  | gap rest => simp
  | @token start m lead rest ms gap stands h ih =>
      have first := Text.byteLength_append_of_eq here gap
      have last : (front ++ gap ++ m.written lead).byteLength = m.full.stop := by
        rw [stands.full, Text.byteLength_append_of_eq first]
      have shape : front ++ (gap ++ m.written lead ++ rest) =
          front ++ gap ++ m.written lead ++ rest := by simp
      rw [← first] at stands
      rw [shape]
      exact List.forall_mem_cons.mpr ⟨stands.liesIn _ rest, ih _ last⟩

end Tiles

theorem tiles_parseAfresh (start : Nat) (t : Text) : Tiles start t (parseAfresh start t) := by
  induction start, t using scan_induction with
  | done start =>
      rw [parseAfresh_nil]
      exact .gap []
  | token start t m after hm ih =>
      obtain ⟨lead, rfl, stands⟩ := hm.exists_standsAt
      rw [parseAfresh_of_begins hm]
      exact .token [] stands ih
  | skip start c rest plain ih =>
      rw [parseAfresh_cons plain]
      exact Tiles.behind_gap [c] ih

end Marginalia.Markup
