import Marginalia.Proofs.Margin.Geometry

/-! # Room below the document

A host adds room below its own content when a card, with the padding under it, ends further down
than that content. As cards end in their order, the last one decides. Without cards the place of the
last end is taken by the top of the margin, so a host that is shorter than the padding adds room for
no card at all.
-/

namespace Marginalia

namespace Card

variable {cards : List (Card Rat)} {host padding : Rat}

/-- A card ends too far down for the host when the last one does. -/
theorem exists_overhang_iff (ne : cards ≠ [])
    (ascend : cards.Pairwise fun a b => a.top ≤ b.top ∧ a.stop ≤ b.stop) :
    (∃ c ∈ cards, host < c.stop + padding) ↔ host < lastStop cards + padding := by
  constructor
  · intro h
    obtain ⟨c, mem, overhangs⟩ := h
    exact overhangs.trans_le (add_le_add_left (stop_le_lastStop ascend c mem) padding)
  · intro overhangs
    have ends : lastStop cards = (cards.getLast ne).stop := by
      rw [lastStop, List.getLast?_eq_some_getLast ne]
      rfl
    exact ⟨cards.getLast ne, List.getLast_mem ne, ends ▸ overhangs⟩

end Card

namespace Layout

section Around

variable (spacing : Spacing Rat) (host : Rat) (cards : List (Card Rat))

theorem hostPadding_around_pos_iff :
    0 < (around spacing host cards).hostPadding ↔ host < Card.lastStop cards + spacing.padding := by
  rw [around, lt_max_iff, sub_pos]
  exact or_iff_left (lt_irrefl 0)

theorem lt_sharedHeight_around_iff :
    host < (around spacing host cards).sharedHeight ↔
      host < Card.lastStop cards + spacing.padding := by
  rw [around, lt_max_iff]
  exact or_iff_right (lt_irrefl host)

end Around

/-- The host adds room, and the margin is taller than it, when a card ends too far down for it with
    the padding under it, or when there is no card and the padding alone is taller than the host.
    Without cards the margin is as tall as the taller of the two, and the host adds what it lacks. -/
theorem ofThreads_pads_iff (threads : List Thread) (mapper : Nat → Rat) {heights : Heights Rat}
    {spacing : Spacing Rat} (host : Rat) (spaced : 0 ≤ spacing.gap)
    (assumed : 0 ≤ spacing.defaultHeight) (real : ∀ e ∈ heights.entries, 0 ≤ e.2) :
    ∃ l : Layout Rat,
      ofThreads threads (fun offset => .finite (mapper offset)) heights.exact spacing.exact
        (.finite host) = l.exact ∧
      l.cards.length = threads.length ∧
      (0 < l.hostPadding ↔ (∃ c ∈ l.cards, host < c.stop + spacing.padding) ∨
        threads = [] ∧ host < spacing.padding) ∧
      (host < l.sharedHeight ↔ (∃ c ∈ l.cards, host < c.stop + spacing.padding) ∨
        threads = [] ∧ host < spacing.padding) ∧
      (threads = [] →
        l.hostPadding = max (spacing.padding - host) 0 ∧
          l.sharedHeight = max host spacing.padding) := by
  obtain ⟨cards, laidOut, each, free⟩ := exists_cards threads mapper heights spacing host
  have apart := Card.pairwise_of_collisionFree spaced (Card.height_nonneg each real assumed) free
  have ascend := Card.ascend_of_apart spaced (Card.height_nonneg each real assumed) apart
  have count : cards.length = threads.length := by simpa using congrArg List.length each
  have none_iff : threads = [] ↔ cards = [] := by
    rw [← List.length_eq_zero_iff, ← count, List.length_eq_zero_iff]
  have decided : host < Card.lastStop cards + spacing.padding ↔
      (∃ c ∈ cards, host < c.stop + spacing.padding) ∨ threads = [] ∧ host < spacing.padding := by
    by_cases none : cards = []
    · subst none
      simp [none_iff, Card.lastStop]
    · rw [Card.exists_overhang_iff none ascend, none_iff]
      simp [none]
  refine ⟨around spacing host cards, laidOut, count,
    (hostPadding_around_pos_iff spacing host cards).trans decided,
    (lt_sharedHeight_around_iff spacing host cards).trans decided, fun none => ?_⟩
  obtain rfl := none_iff.mp none
  have top : Card.lastStop [] + spacing.padding = spacing.padding := zero_add spacing.padding
  simp only [around, top, and_self]

/-- The first card would do with the host's height. The second has no height itself and was moved
    down, and it ends too far down. -/
theorem ofThreads_pads_iff_moved_down :
    let threads : List Thread := [3, 20].map fun start =>
      ⟨⟨⟨start, start + 7⟩, ⟨start + 3, start + 4⟩, ['x'], .comment none⟩, []⟩
    let spacing : Spacing Rat := ⟨1, 2, 5 / 2⟩
    let heights : Heights Rat := ⟨[(3, 4), (20, 0)]⟩
    let made : Layout Exact := ofThreads threads (fun offset => .finite (offset / 10))
      heights.exact spacing.exact (.finite 7)
    (0 ≤ spacing.gap ∧ 0 ≤ spacing.defaultHeight ∧ ∀ e ∈ heights.entries, 0 ≤ e.2) ∧
      made.hostPadding = .finite (3 / 10) ∧
      ∃ l : Layout Rat, made = l.exact ∧ 0 < l.hostPadding ∧ 7 < l.sharedHeight ∧
        ∃ c ∈ l.cards, 7 < c.stop + 2 := by
  intro threads spacing heights made
  have spaced : 0 ≤ spacing.gap := by norm_num [spacing]
  have assumed : 0 ≤ spacing.defaultHeight := by norm_num [spacing]
  have real : ∀ e ∈ heights.entries, 0 ≤ e.2 := by norm_num [heights]
  have room : made.hostPadding = .finite (3 / 10) := by decide +kernel
  obtain ⟨l, laidOut, -, padded, taller, -⟩ :=
    ofThreads_pads_iff threads (fun offset => offset / 10) 7 spaced assumed real
  have amount : l.hostPadding = 3 / 10 :=
    Exact.finite.inj ((congrArg Layout.hostPadding laidOut).symm.trans room)
  have pads : 0 < l.hostPadding := by
    rw [amount]
    norm_num
  refine ⟨⟨spaced, assumed, real⟩, room, l, laidOut, pads, taller.mpr (padded.mp pads), ?_⟩
  exact (padded.mp pads).resolve_right fun none => List.cons_ne_nil _ _ none.1

/-- The host is shorter than the padding, and room is added below it although there is no card. -/
theorem ofThreads_pads_without_cards :
    let spacing : Spacing Rat := ⟨1, 2, 1⟩
    let made : Layout Exact :=
      ofThreads [] (fun offset => .finite offset) {} spacing.exact (.finite 1)
    let l : Layout Rat := ⟨[], 2, 1⟩
    made = l.exact ∧ ¬ (0 < l.hostPadding ↔ ∃ c ∈ l.cards, 1 < c.stop + spacing.padding) ∧
      ¬ l.sharedHeight = 1 := by
  intro spacing made l
  have shared : made.sharedHeight = .finite 2 := by decide +kernel
  have room : made.hostPadding = .finite 1 := by decide +kernel
  refine ⟨congr (congrArg (Layout.mk []) shared) room, fun h => ?_, by norm_num [l]⟩
  have padded : 0 < l.hostPadding := by norm_num [l]
  obtain ⟨c, none, -⟩ := h.mp padded
  cases none

end Layout

end Marginalia
