import Marginalia.Proofs.Margin.Counts
import Marginalia.Proofs.Margin.Placement

/-! # The shape of a margin

Cards of heights that are not negative keep their order and stay apart, each from all below it, so
both their tops and their ends ascend. For that reason the last card alone says how tall a margin
has to be, and the cards that reach into a window stand side by side.
-/

namespace Marginalia

namespace Card

/-- Where a card of numbers ends. -/
def stop (c : Card Rat) : Rat := c.top + c.height

/-- What a card is placed as. -/
def item (c : Card Rat) : Item Rat := ⟨c.target, c.height⟩

theorem bottom_exact (c : Card Rat) : c.exact.bottom = .finite c.stop := rfl

/-- Where the last of some cards ends, zero without any. -/
def lastStop (cards : List (Card Rat)) : Rat := (cards.getLast?.map Card.stop).getD 0

/-- Whether a card reaches into what lies between `first` and `last`. -/
def reachesInto (first last : Rat) (c : Card Rat) : Bool := first < c.stop && c.top < last

variable {cards : List (Card Rat)} {gap first last : Rat}

/-- Neighbours that keep apart keep apart from all others too. -/
theorem pairwise_of_collisionFree (spaced : 0 ≤ gap) (real : ∀ c ∈ cards, 0 ≤ c.height)
    (free : Item.CollisionFree gap (cards.map item) (cards.map top)) :
    cards.Pairwise fun a b => a.stop + gap ≤ b.top := by
  induction cards with
  | nil => exact .nil
  | cons a cards ih =>
      cases cards with
      | nil => exact List.pairwise_singleton _ a
      | cons b cards =>
          obtain ⟨-, real⟩ := List.forall_mem_cons.mp real
          cases free with
          | more target below free =>
              have later := ih real free
              have next : a.stop + gap ≤ b.top := below
              have tall : b.top ≤ b.stop :=
                le_add_of_nonneg_right (real b List.mem_cons_self)
              refine List.pairwise_cons.mpr
                ⟨List.forall_mem_cons.mpr ⟨next, fun c mem => ?_⟩, later⟩
              have beyond := (List.pairwise_cons.mp later).1 c mem
              linarith

theorem ascend_of_apart (spaced : 0 ≤ gap) (real : ∀ c ∈ cards, 0 ≤ c.height)
    (apart : cards.Pairwise fun a b => a.stop + gap ≤ b.top) :
    cards.Pairwise fun a b => a.top ≤ b.top ∧ a.stop ≤ b.stop := by
  refine apart.imp_of_mem fun {a b} memA memB apart => ?_
  have tall : a.top ≤ a.stop := le_add_of_nonneg_right (real a memA)
  have tall' : b.top ≤ b.stop := le_add_of_nonneg_right (real b memB)
  constructor <;> linarith

/-- The last of ascending cards ends below all others. -/
theorem stop_le_of_getLast? (ascend : cards.Pairwise fun a b => a.top ≤ b.top ∧ a.stop ≤ b.stop)
    {last : Card Rat} (ends : cards.getLast? = some last) : ∀ c ∈ cards, c.stop ≤ last.stop := by
  obtain ⟨front, rfl⟩ := List.getLast?_eq_some_iff.mp ends
  intro c mem
  rcases List.mem_append.mp mem with earlier | only
  · exact ((List.pairwise_append.mp ascend).2.2 c earlier last (List.mem_singleton_self last)).2
  · rw [List.mem_singleton.mp only]

theorem stop_le_lastStop (ascend : cards.Pairwise fun a b => a.top ≤ b.top ∧ a.stop ≤ b.stop) :
    ∀ c ∈ cards, c.stop ≤ lastStop cards := by
  intro c mem
  cases ends : cards.getLast? with
  | none =>
      rw [List.getLast?_eq_none_iff.mp ends] at mem
      cases mem
  | some last =>
      rw [lastStop, ends]
      exact stop_le_of_getLast? ascend ends c mem

/-- Of cards whose tops and ends ascend those that reach into a window stand side by side. -/
theorem exists_reachesInto
    (ascend : cards.Pairwise fun a b => a.top ≤ b.top ∧ a.stop ≤ b.stop) (first last : Rat) :
    ∃ above below, cards = above ++ cards.filter (reachesInto first last) ++ below ∧
      (∀ c ∈ above, c.stop ≤ first) ∧ ∀ c ∈ below, last ≤ c.top := by
  induction cards with
  | nil => exact ⟨[], [], rfl, nofun, nofun⟩
  | cons c cards ih =>
      obtain ⟨before, ascend⟩ := List.pairwise_cons.mp ascend
      obtain ⟨above, below, parts, ends, begins⟩ := ih ascend
      rcases le_or_gt c.stop first with past | reaches
      · refine ⟨c :: above, below, ?_, List.forall_mem_cons.mpr ⟨past, ends⟩, begins⟩
        rw [List.filter_cons_of_neg (by simp [reachesInto, past]), List.cons_append,
          List.cons_append, ← parts]
      rcases lt_or_ge c.top last with within | under
      · -- Whatever lies below ends further down, so none of it lies above the window.
        obtain rfl : above = [] := by
          apply List.eq_nil_iff_forall_not_mem.mpr
          intro b mem
          have later : b ∈ cards := parts ▸ List.mem_append_left _ (List.mem_append_left _ mem)
          exact absurd (ends b mem) (not_le.mpr (reaches.trans_le (before b later).2))
        refine ⟨[], below, ?_, nofun, begins⟩
        rw [List.filter_cons_of_pos (by simp [reachesInto, reaches, within]), List.nil_append,
          List.cons_append]
        exact congrArg (c :: ·) parts
      · have none : ∀ b ∈ c :: cards, last ≤ b.top :=
          List.forall_mem_cons.mpr ⟨under, fun b mem => under.trans (before b mem).1⟩
        refine ⟨[], c :: cards, ?_, nofun, none⟩
        rw [List.filter_eq_nil_iff.mpr fun b mem => by simp [reachesInto, none b mem]]
        rfl

end Card

namespace Heights

theorem get?_exact (h : Heights Rat) (root : Nat) :
    h.exact.get? root = (h.get? root).map .finite := by
  simp only [get?, exact]
  induction h.entries with
  | nil => rfl
  | cons e rest ih =>
      rw [List.map_cons, List.lookup_cons, List.lookup_cons, ih]
      cases root == e.1 <;> rfl

theorem getD_exact (h : Heights Rat) (root : Nat) (default : Rat) :
    h.exact.getD root (.finite default) = .finite (h.getD root default) := by
  rw [getD, get?_exact, getD]
  cases h.get? root <;> rfl

theorem getD_nonneg {h : Heights Rat} (real : ∀ e ∈ h.entries, 0 ≤ e.2) {default : Rat}
    (assumed : 0 ≤ default) (root : Nat) : 0 ≤ h.getD root default := by
  cases found : h.get? root with
  | none =>
      rw [getD, found]
      exact assumed
  | some height =>
      rw [getD, found]
      exact real _ (mem_entries_of_get? found)

end Heights

namespace Layout

section OfThreads

variable (threads : List Thread) (mapper : Nat → Rat) (heights : Heights Rat)
  (spacing : Spacing Rat) (host : Rat)

/-- Cards of the threads at given tops. -/
def dealt (tops : List Rat) : List (Card Rat) :=
  (threads.zip tops).map fun (t, top) =>
    ⟨t.start, mapper t.start, top, heights.getD t.start spacing.defaultHeight⟩

/-- The layout of cards beside a host. -/
def around (cards : List (Card Rat)) : Layout Rat where
  cards := cards
  sharedHeight := max host (Card.lastStop cards + spacing.padding)
  hostPadding := max (Card.lastStop cards + spacing.padding - host) 0

theorem bottomOf_exact (cards : List (Card Rat)) :
    bottomOf (cards.map Card.exact) = .finite (Card.lastStop cards) := by
  rw [bottomOf, List.getLast?_map, Card.lastStop]
  cases cards.getLast? with
  | none => rfl
  | some c => exact c.bottom_exact

theorem itemOf_exact (t : Thread) :
    itemOf (fun offset => Exact.finite (mapper offset)) heights.exact spacing.exact t =
      (itemOf mapper heights spacing t).exact :=
  congrArg (Item.mk (Exact.finite (mapper t.start)))
    (heights.getD_exact t.start spacing.defaultHeight)

theorem dealt_exact (tops : List Rat) :
    ((threads.zip (((threads.map (itemOf mapper heights spacing)).map Item.exact).zip
        (tops.map Exact.finite))).map fun (t, i, top) =>
          (⟨t.start, i.target, top, i.height⟩ : Card Exact)) =
      (dealt threads mapper heights spacing tops).map Card.exact := by
  induction threads generalizing tops with
  | nil => rfl
  | cons t threads ih =>
      cases tops with
      | nil => rfl
      | cons top tops => exact congrArg (_ :: ·) (ih tops)

theorem ofThreads_eq {tops : List Rat}
    (made : Item.place (.finite spacing.gap)
      ((threads.map (itemOf mapper heights spacing)).map Item.exact) = tops.map .finite) :
    ofThreads threads (fun offset => .finite (mapper offset)) heights.exact spacing.exact
        (.finite host) =
      (around spacing host (dealt threads mapper heights spacing tops)).exact := by
  have items : threads.map (itemOf (fun offset => Exact.finite (mapper offset)) heights.exact
      spacing.exact) = (threads.map (itemOf mapper heights spacing)).map Item.exact := by
    rw [List.map_map]
    exact List.map_congr_left fun t _ => itemOf_exact mapper heights spacing t
  have placed : Item.place spacing.exact.gap
      ((threads.map (itemOf mapper heights spacing)).map Item.exact) = tops.map .finite := made
  have shared (bottom : Rat) :
      sharedHeightFor (.finite host) (.finite bottom) spacing.exact.padding =
        .finite (max host (bottom + spacing.padding)) :=
    Exact.larger_finite host (bottom + spacing.padding)
  have padded (bottom : Rat) :
      hostPaddingFor (.finite host) (.finite bottom) spacing.exact.padding =
        .finite (max (bottom + spacing.padding - host) 0) := by
    rw [sub_eq_add_neg]
    exact Exact.larger_finite (bottom + spacing.padding + -host) 0
  simp only [ofThreads, items, placed, dealt_exact, bottomOf_exact, shared, padded]
  rfl

variable {threads mapper heights spacing} {tops : List Rat}

theorem map_dealt (each : tops.length = threads.length) :
    ((dealt threads mapper heights spacing tops).map fun c => (c.root, c.target, c.height)) =
      threads.map fun t =>
        (t.start, mapper t.start, heights.getD t.start spacing.defaultHeight) := by
  have first : (threads.zip tops).map Prod.fst = threads := List.map_fst_zip each.ge
  conv_rhs => rw [← first]
  rw [dealt, List.map_map, List.map_map]
  rfl

theorem map_item_dealt (each : tops.length = threads.length) :
    (dealt threads mapper heights spacing tops).map Card.item =
      threads.map (itemOf mapper heights spacing) := by
  have known : ((dealt threads mapper heights spacing tops).map fun c =>
      (c.root, c.target, c.height)) = _ := map_dealt each
  have items := congrArg (List.map fun p => Item.mk p.2.1 p.2.2) known
  rw [List.map_map, List.map_map] at items
  exact items

theorem map_top_dealt (each : tops.length = threads.length) :
    (dealt threads mapper heights spacing tops).map Card.top = tops := by
  have second : (threads.zip tops).map Prod.snd = tops := List.map_snd_zip each.le
  conv_rhs => rw [← second]
  rw [dealt, List.map_map]
  rfl

variable (threads mapper heights spacing)

/-- Laid out for threads, a margin of numbers has a card for each, placed below the one before. -/
theorem exists_cards :
    ∃ cards : List (Card Rat),
      ofThreads threads (fun offset => .finite (mapper offset)) heights.exact spacing.exact
        (.finite host) = (around spacing host cards).exact ∧
      ((cards.map fun c => (c.root, c.target, c.height)) =
        threads.map fun t =>
          (t.start, mapper t.start, heights.getD t.start spacing.defaultHeight)) ∧
      Item.CollisionFree spacing.gap (cards.map Card.item) (cards.map Card.top) := by
  obtain ⟨tops, placed⟩ :=
    Item.exists_placed spacing.gap (threads.map (itemOf mapper heights spacing))
  have each : tops.length = threads.length := placed.free.length_eq.trans (List.length_map _)
  refine ⟨dealt threads mapper heights spacing tops, ofThreads_eq _ _ _ _ _ placed.made,
    map_dealt each, ?_⟩
  rw [map_item_dealt each, map_top_dealt each]
  exact placed.free

end OfThreads

end Layout

/-- Cards as tall as measured or assumed are of heights that are not negative if those are not. -/
theorem Card.height_nonneg {cards : List (Card Rat)} {threads : List Thread} {mapper : Nat → Rat}
    {heights : Heights Rat} {default : Rat}
    (each : (cards.map fun c => (c.root, c.target, c.height)) =
      threads.map fun t => (t.start, mapper t.start, heights.getD t.start default))
    (real : ∀ e ∈ heights.entries, 0 ≤ e.2) (assumed : 0 ≤ default) :
    ∀ c ∈ cards, 0 ≤ c.height := by
  intro c mem
  have known : (c.root, c.target, c.height) ∈
      threads.map fun t => (t.start, mapper t.start, heights.getD t.start default) :=
    each ▸ List.mem_map_of_mem mem
  obtain ⟨t, -, same⟩ := List.mem_map.mp known
  rw [← (Prod.mk.inj (Prod.mk.inj same).2).2]
  exact Heights.getD_nonneg real assumed t.start

theorem Margin.visibleCards_exact (m : Margin Exact) (l : Layout Rat) (scroll viewport : Rat) :
    visibleCards (.finite viewport) { m with scrollTop := .finite scroll, layout := l.exact } =
      (l.cards.filter (Card.reachesInto scroll (scroll + viewport))).map Card.exact :=
  List.filter_map

namespace Layout

/-- A margin of numbers has a card for each thread, in their order, as tall as measured or assumed,
    and every card ends at least `gap` above each one below it. The last one ends lowest, the margin
    has room for it and for the padding and is as tall as its host with the room the host adds. The
    cards that reach into a window stand side by side between those that end above it and those that
    begin below it, and every card with a point in the window is among them. -/
theorem ofThreads_geometry (threads : List Thread) (mapper : Nat → Rat) {heights : Heights Rat}
    {spacing : Spacing Rat} (host : Rat) (spaced : 0 ≤ spacing.gap)
    (assumed : 0 ≤ spacing.defaultHeight) (real : ∀ e ∈ heights.entries, 0 ≤ e.2) :
    ∃ l : Layout Rat,
      ofThreads threads (fun offset => .finite (mapper offset)) heights.exact spacing.exact
        (.finite host) = l.exact ∧
      ((l.cards.map fun c => (c.root, c.target, c.height)) =
        threads.map fun t =>
          (t.start, mapper t.start, heights.getD t.start spacing.defaultHeight)) ∧
      (l.cards.Pairwise fun a b => a.stop + spacing.gap ≤ b.top) ∧
      (∀ last, l.cards.getLast? = some last → ∀ c ∈ l.cards, c.stop ≤ last.stop) ∧
      ((∀ c ∈ l.cards, c.stop + spacing.padding ≤ l.sharedHeight) ∧ host ≤ l.sharedHeight ∧
        l.sharedHeight = host + l.hostPadding) ∧
      ∀ (m : Margin Exact) (scroll viewport : Rat), ∃ above visible below : List (Card Rat),
        Margin.visibleCards (.finite viewport)
          { m with scrollTop := .finite scroll, layout := l.exact } = visible.map Card.exact ∧
        l.cards = above ++ visible ++ below ∧
        ((∀ c ∈ above, c.stop ≤ scroll) ∧
          (∀ c ∈ visible, scroll < c.stop ∧ c.top < scroll + viewport) ∧
          ∀ c ∈ below, scroll + viewport ≤ c.top) ∧
        ∀ c ∈ l.cards, (∃ y, c.top ≤ y ∧ y ≤ c.stop ∧ scroll < y ∧ y < scroll + viewport) →
          c ∈ visible := by
  obtain ⟨cards, laidOut, each, free⟩ := exists_cards threads mapper heights spacing host
  have tall := Card.height_nonneg each real assumed
  have apart := Card.pairwise_of_collisionFree spaced tall free
  have ascend := Card.ascend_of_apart spaced tall apart
  refine ⟨around spacing host cards, laidOut, each, apart,
    fun last => Card.stop_le_of_getLast? ascend, ⟨fun c mem => ?room, le_max_left _ _, ?total⟩,
    fun m scroll viewport => ?window⟩
  case room =>
    exact le_max_of_le_right (add_le_add_left (Card.stop_le_lastStop ascend c mem) _)
  case total =>
    rw [around, ← max_add_add_left, add_sub_cancel, add_zero, max_comm]
  case window =>
    obtain ⟨above, below, parts, ends, begins⟩ :=
      Card.exists_reachesInto ascend scroll (scroll + viewport)
    refine ⟨above, _, below, m.visibleCards_exact _ scroll viewport, parts,
      ⟨ends, fun c mem => ?_, begins⟩, fun c mem meets => ?_⟩
    · simpa [Card.reachesInto] using (List.mem_filter.mp mem).2
    · obtain ⟨y, top, stop, first, last⟩ := meets
      refine List.mem_filter.mpr ⟨mem, ?_⟩
      simp [Card.reachesInto, first.trans_le stop, top.trans_lt last]

/-- The second card has no room at its target, the third no height and no part in the window. -/
theorem ofThreads_geometry_crowded :
    let threads : List Thread := [3, 20, 40].map fun start =>
      ⟨⟨⟨start, start + 7⟩, ⟨start + 3, start + 4⟩, ['x'], .comment none⟩, []⟩
    let spacing : Spacing Rat := ⟨1, 2, 5 / 2⟩
    let heights : Heights Rat := ⟨[(3, 4), (40, 0)]⟩
    let made : Layout Exact := ofThreads threads (fun offset => .finite (offset / 10))
      heights.exact spacing.exact (.finite 3)
    (0 ≤ spacing.gap ∧ 0 ≤ spacing.defaultHeight ∧ ∀ e ∈ heights.entries, 0 ≤ e.2) ∧
      made.cards.map Card.top = ([3 / 10, 53 / 10, 44 / 5] : List Rat).map .finite ∧
      ∃ l : Layout Rat, made = l.exact ∧
        (l.cards.Pairwise fun a b => a.stop + 1 ≤ b.top) ∧ l.sharedHeight = 3 + l.hostPadding ∧
        ∃ above visible below,
          l.cards = above ++ visible ++ below ∧ visible.map Card.root = [3, 20] := by
  intro threads spacing heights made
  have spaced : 0 ≤ spacing.gap := by norm_num [spacing]
  have assumed : 0 ≤ spacing.defaultHeight := by norm_num [spacing]
  have real : ∀ e ∈ heights.entries, 0 ≤ e.2 := by norm_num [heights]
  have tops : made.cards.map Card.top = ([3 / 10, 53 / 10, 44 / 5] : List Rat).map .finite := by
    decide +kernel
  obtain ⟨l, laidOut, -, apart, -, ⟨-, -, total⟩, window⟩ :=
    ofThreads_geometry threads (fun offset => offset / 10) 3 spaced assumed real
  let m : Margin Exact := { Margin.new spacing.exact with scrollTop := .finite 4, layout := made }
  have roots : (m.visibleCards (.finite 2)).map Card.root = [3, 20] := by decide +kernel
  obtain ⟨above, visible, below, seen, parts, -, -⟩ := window m 4 2
  refine ⟨⟨spaced, assumed, real⟩, tops, l, laidOut, apart, total, above, visible, below, parts, ?_⟩
  calc
    visible.map Card.root = (visible.map Card.exact).map Card.root := by
      rw [List.map_map]
      rfl
    _ = (m.visibleCards (.finite 2)).map Card.root := by
      rw [← seen, ← laidOut]
    _ = [3, 20] := roots

end Layout

end Marginalia
