import Marginalia.Proofs.Viewer.CardPicture
import Marginalia.Proofs.Viewer.Freshness

/-! # The pane of the margin

All cards drawn in full make a canvas, and the pane is a window on it: what it shows in a row is the
row of the canvas so far below the scroll position. The boxes that are drawn for this lie one below
the other in the pane.
-/

namespace Marginalia

theorem flatMap_filter_eq {β γ : Type} (p : β → Bool) (f : β → List γ) (l : List β) :
    (l.filter p).flatMap f = l.flatMap fun a => if p a then f a else [] := by
  induction l with
  | nil => rfl
  | cons a l ih =>
      cases keep : p a <;> simp [keep, ih]

section Canvas

variable {α : Type} [Coord α]

/-- Row `y` of the canvas as far as the card takes it, which is drawn in full from its top on. -/
def Card.rowAt? (g : Typography) (threads : List Thread) (width cardWidth y : Nat) (c : Card α) :
    Option (List Cell) :=
  if Coord.le c.top (Coord.ofNat y) && Coord.lt (Coord.ofNat y) c.bottom then
    (threads.find? (·.start == c.root)).bind fun t =>
      (RowCard.picture g width (t.cardLines cardWidth))[Coord.truncate (Coord.ofNat y - c.top)]?
  else none

/-- Row `y` of the canvas: of the card that takes it, or blank. -/
def Viewer.canvasRow (g : Typography) (width cardWidth : Nat) (v : Viewer α) (y : Nat) : List Cell :=
  (v.margin.layout.cards.findSome? (Card.rowAt? g v.document.threads width cardWidth y)).getD
    (List.replicate width Cell.blank)

end Canvas

namespace Viewer

/-- The invariant of a drawn viewer whose margin has a counted gap: its cards take whole rows, each as
    many as its text and border need, one below the other. -/
structure InRows (v : Viewer Exact) (cardWidth : Nat) (placed : List RowCard) : Prop where
  cards : v.margin.layout.cards = placed.map RowCard.card
  scrollTop : v.margin.scrollTop = Coord.ofNat v.scroll
  threads : placed.map RowCard.thread = v.document.threads
  apart : placed.Pairwise fun a b => a.stop ≤ b.top
  full : ∀ c ∈ placed, c.height = (c.thread.cardLines cardWidth).length + 2
  short : ∀ c ∈ placed, (c.thread.cardLines cardWidth).length < 65536

theorem exists_inRows_draw {path : Text} {content : Except FileFault (List UInt8)}
    {spacing : Spacing Exact} {gap : Nat} {start : Viewer Exact}
    (opened : ofFile path content spacing = .ok start) (spaced : spacing.gap = Coord.ofNat gap)
    (actions : List Action) (width height : Nat)
    (short : ∀ t ∈ (Action.run start actions).document.threads,
      (t.cardLines (Panes.ofSize width height).cardWidth).length < 65536) :
    ∃ placed, InRows ((Action.run start actions).draw width height).2
      (Panes.ofSize width height).cardWidth placed := by
  obtain ⟨d, rfl⟩ := exists_eq_ofDocument opened
  let before := Action.run (ofDocument path d spacing) actions
  let cardWidth := (Panes.ofSize width height).cardWidth
  have before' : before.Fresh spacing := (fresh_ofDocument path d spacing).run actions
  have fresh := before'.fit width height
  have steady := ((steady_ofDocument path d spacing).run actions).fit width height
  have clean : (before.fit width height).margin.dirty = false := Margin.dirty_relayoutIfDirty _ _ _
  let line (t : Thread) : Nat := (before.document.lineOf? t.start).getD 0
  have lines (t : Thread) (_ : t ∈ before.document.threads) :
      (before.document.mapper t.start : Exact) = Coord.ofNat (line t) := rfl
  have cards := Layout.cards_ofThreads_rows spaced lines
    (fun t mem => before'.get?_fit width height mem) (before.fit width height).margin.hostHeight
  refine ⟨RowCard.stack gap line (Thread.cardHeight cardWidth) 0 before.document.threads,
    ?_, steady.scrollTop, RowCard.map_thread_stack, ?_, fun c mem => ?_, fun c mem => ?_⟩
  · exact (congrArg Layout.cards (fresh.layout_of_clean clean)).trans cards
  · exact RowCard.pairwise_stack.imp fun le => (Nat.le_add_right _ _).trans le
  · exact (RowCard.of_mem_stack mem).2.1
  · refine short c.thread ?_
    have there := List.mem_map_of_mem (f := RowCard.thread) mem
    rwa [RowCard.map_thread_stack] at there

section Drawn

variable {g : Typography} {v : Viewer Exact} {cardWidth : Nat} {placed : List RowCard} {c : RowCard}

theorem InRows.find?_thread (h : v.InRows cardWidth placed) (mem : c ∈ placed) :
    (v.document.threads.find? fun t => t.start == c.card.root) = some c.thread := by
  have there : c.thread ∈ v.document.threads := h.threads ▸ List.mem_map_of_mem mem
  cases found : v.document.threads.find? fun t => t.start == c.card.root with
  | none =>
      have passed := List.find?_eq_none.mp found c.thread there
      exact absurd (beq_self_eq_true _) passed
  | some t =>
      have same := List.find?_some found
      rw [beq_iff_eq] at same
      rw [Reading.thread_eq_of_start_eq (List.mem_of_find?_eq_some found) there same]

variable {pane : Rect}

/-- What is drawn of the cards are the boxes of those that take a row of the pane. -/
theorem InRows.cardLayers_eq (h : v.InRows cardWidth placed) (low : pane.height ≤ 65535) :
    v.cardLayers g pane cardWidth = (placed.filter (RowCard.Shows pane v.scroll)).flatMap fun c =>
      (c.box g pane v.scroll (c.thread.cardLines cardWidth)).layers := by
  have window : v.margin.scrollTop + Coord.ofNat pane.height =
      (Coord.ofNat (v.scroll + pane.height) : Exact) := by
    rw [h.scrollTop, Exact.add_ofNat]
  unfold cardLayers Margin.visibleCards
  simp only [window, h.cards, List.filter_map, List.flatMap_map, flatMap_filter_eq]
  refine List.flatMap_congr fun c mem => ?_
  have tall := h.full c mem
  have short := h.short c mem
  simp only [Function.comp_apply, h.find?_thread mem, RowCard.bottom_card, h.scrollTop]
  have reaches : (Coord.lt (Coord.ofNat v.scroll : Exact) (Coord.ofNat c.stop) &&
      Coord.lt c.card.top (Coord.ofNat (v.scroll + pane.height))) =
        decide (v.scroll < c.stop ∧ c.top < v.scroll + pane.height) := by
    rw [RowCard.card, Exact.lt_ofNat, Exact.lt_ofNat, Bool.decide_and]
  rw [reaches]
  simp only [decide_eq_true_eq]
  by_cases visible : v.scroll < c.stop ∧ c.top < v.scroll + pane.height
  · rw [if_pos visible, RowCard.layers_card visible.1 low (by omega)]
  · have hidden : ¬ c.Shows pane v.scroll := by
      unfold RowCard.Shows
      omega
    rw [if_neg visible, if_neg hidden]

/-- The boxes of cards that do not take a row say nothing of it. -/
theorem silent_boxes {scroll k x : Nat}
    (outside : ∀ c ∈ placed, ¬ c.Takes (scroll + k)) :
    ∀ l ∈ (placed.filter (RowCard.Shows pane scroll)).flatMap fun c =>
      (c.box g pane scroll (c.thread.cardLines cardWidth)).layers,
      l.cell? x (pane.top + k) = none := by
  intro l mem
  obtain ⟨c, shown, own⟩ := List.mem_flatMap.mp mem
  exact RowCard.silent_box (outside c (List.mem_filter.mp shown).1) l own

variable {k : Nat}

/-- In a row that a card takes there is nothing but its box. -/
theorem InRows.cell?_cardLayers_of_mem (h : v.InRows cardWidth placed) (low : pane.height ≤ 65535)
    (mem : c ∈ placed) (takes : c.Takes (v.scroll + k)) (within : k < pane.height) (x : Nat) :
    (Layer.stack (v.cardLayers g pane cardWidth)).cell? x (pane.top + k) =
      (Layer.stack (c.box g pane v.scroll (c.thread.cardLines cardWidth)).layers).cell?
        x (pane.top + k) := by
  rw [h.cardLayers_eq low]
  obtain ⟨front, back, rfl⟩ := List.mem_iff_append.mp mem
  obtain ⟨above, below⟩ := RowCard.not_takes_of_pairwise h.apart takes
  rw [List.filter_append, List.filter_cons, if_pos (decide_eq_true (takes.shows within)),
    List.flatMap_append, List.flatMap_cons, ← List.append_assoc]
  exact Layer.cell?_stack_of_silent (silent_boxes above) (silent_boxes below)

theorem InRows.stop_eq (h : v.InRows cardWidth placed) (mem : c ∈ placed) (g : Typography)
    (width : Nat) : c.stop = c.top + (RowCard.picture g width (c.thread.cardLines cardWidth)).length := by
  rw [RowCard.length_picture, RowCard.stop, h.full c mem]

/-- A row that the picture of a card has is one that the card takes. -/
theorem InRows.takes_of_picture (h : v.InRows cardWidth placed) (mem : c ∈ placed) {width y : Nat}
    (top : c.top ≤ y) {row : List Cell}
    (here : (RowCard.picture g width (c.thread.cardLines cardWidth))[y - c.top]? = some row) :
    c.Takes y := by
  have inPicture := (List.getElem?_eq_some_iff.mp here).1
  have size := h.stop_eq mem g width
  exact ⟨top, by omega⟩

theorem height_margin_le {width height : Nat} (terminal : height < 65536) :
    (Panes.ofSize width height).margin.inner.height ≤ 65535 := by
  simp [Panes.ofSize, Frame.inner]
  omega

section Rows

variable {width height : Nat}

/-- A row of the pane that a card takes is the row of the card in full. -/
theorem InRows.rowOf_of_mem {row : List Cell}
    (h : v.InRows (Panes.ofSize width height).cardWidth placed) (terminal : height < 65536)
    (mem : c ∈ placed) (takes : c.Takes (v.scroll + k))
    (within : k < (Panes.ofSize width height).margin.inner.height)
    (here : (RowCard.picture g (Panes.ofSize width height).margin.inner.width
      (c.thread.cardLines (Panes.ofSize width height).cardWidth))[v.scroll + k - c.top]? = some row) :
    (v.screen width height).rowOf g (Panes.ofSize width height).margin.inner k = row := by
  refine Eq.trans (Screen.rowOf_eq_fit fun x across => ?_)
    (Cell.fit_of_length (RowCard.length_of_mem_picture (List.mem_of_getElem? here)))
  have inside := Rect.contains_add across within
  rw [cell_screen_of_margin v inside,
    h.cell?_cardLayers_of_mem (height_margin_le terminal) mem takes within]
  exact RowCard.getD_cell?_box (h.full c mem) takes within here across

/-- A row of the pane that no card takes is blank. -/
theorem InRows.rowOf_of_forall (h : v.InRows (Panes.ofSize width height).cardWidth placed)
    (terminal : height < 65536) (within : k < (Panes.ofSize width height).margin.inner.height)
    (outside : ∀ c ∈ placed, ¬ c.Takes (v.scroll + k)) :
    (v.screen width height).rowOf g (Panes.ofSize width height).margin.inner k =
      List.replicate (Panes.ofSize width height).margin.inner.width Cell.blank := by
  rw [← Cell.fit_nil]
  refine Screen.rowOf_eq_fit fun x across => ?_
  have inside := Rect.contains_add across within
  rw [cell_screen_of_margin v inside, h.cardLayers_eq (height_margin_le terminal),
    Layer.cell?_stack_eq_none (silent_boxes outside)]
  rfl

end Rows

section Canvas

variable {width y : Nat}

theorem InRows.rowAt?_card (h : v.InRows cardWidth placed) (mem : c ∈ placed) :
    c.card.rowAt? g v.document.threads width cardWidth y =
      if c.Takes y then (RowCard.picture g width (c.thread.cardLines cardWidth))[y - c.top]?
      else none := by
  have top : (c.card.top : Exact) = Coord.ofNat c.top := rfl
  have takes : (Coord.le c.card.top (Coord.ofNat y) && Coord.lt (Coord.ofNat y) c.card.bottom) =
      decide (c.Takes y) := by
    rw [RowCard.bottom_card, top, Exact.le_ofNat, Exact.lt_ofNat, ← Bool.decide_and]
    rfl
  rw [Card.rowAt?, takes]
  simp only [decide_eq_true_eq]
  by_cases here : c.Takes y
  · obtain ⟨upper, lower⟩ := here
    have size : c.stop = c.top + c.height := rfl
    have tall := h.full c mem
    have short := h.short c mem
    have row : Coord.truncate (Coord.ofNat y - c.card.top : Exact) = y - c.top := by
      rw [top, Exact.sub_ofNat upper, Exact.truncate_ofNat, Coord.countLimit]
      omega
    rw [if_pos ⟨upper, lower⟩, if_pos ⟨upper, lower⟩, h.find?_thread mem, Option.bind_some, row]
  · rw [if_neg here, if_neg here]

theorem InRows.canvasRow_of_forall (h : v.InRows cardWidth placed)
    (outside : ∀ c ∈ placed, ¬ c.Takes y) :
    v.canvasRow g width cardWidth y = List.replicate width Cell.blank := by
  have none : v.margin.layout.cards.findSome?
      (Card.rowAt? g v.document.threads width cardWidth y) = none := by
    rw [h.cards, List.findSome?_eq_none_iff, List.forall_mem_map]
    intro c mem
    rw [h.rowAt?_card mem, if_neg (outside c mem)]
  rw [canvasRow, none, Option.getD_none]

theorem InRows.canvasRow_of_mem (h : v.InRows cardWidth placed) (mem : c ∈ placed)
    (takes : c.Takes y) {row : List Cell}
    (here : (RowCard.picture g width (c.thread.cardLines cardWidth))[y - c.top]? = some row) :
    v.canvasRow g width cardWidth y = row := by
  obtain ⟨front, back, parts⟩ := List.mem_iff_append.mp mem
  obtain ⟨above, -⟩ := RowCard.not_takes_of_pairwise (parts ▸ h.apart) takes
  have own : c.card.rowAt? g v.document.threads width cardWidth y = some row := by
    rw [h.rowAt?_card mem, if_pos takes, here]
  have others : ∀ a ∈ front, a.card.rowAt? g v.document.threads width cardWidth y = none := by
    intro a earlier
    rw [h.rowAt?_card (parts ▸ List.mem_append_left _ earlier), if_neg (above a earlier)]
  have found : v.margin.layout.cards.findSome?
      (Card.rowAt? g v.document.threads width cardWidth y) = some row := by
    rw [h.cards, parts, List.map_append, List.map_cons]
    exact List.findSome?_eq_some_iff.mpr
      ⟨_, _, _, rfl, own, List.forall_mem_map.mpr others⟩
  rw [canvasRow, found, Option.getD_some]

/-- The canvas is whole: each card stands on it in full, from its top to its bottom, and nothing else
    does. -/
structure Canvas (g : Typography) (v : Viewer Exact) (width cardWidth : Nat)
    (canvas : Nat → List Cell) : Prop where
  cards : ∀ c ∈ v.margin.layout.cards, ∃ t ∈ v.document.threads, ∃ top, t.start = c.root ∧
    c.top = Coord.ofNat top ∧
    c.bottom = Coord.ofNat (top + (RowCard.picture g width (t.cardLines cardWidth)).length) ∧
    ∀ r row, (RowCard.picture g width (t.cardLines cardWidth))[r]? = some row → canvas (top + r) = row
  blank : ∀ y, (∀ c ∈ v.margin.layout.cards,
      ¬ (Coord.le c.top (Coord.ofNat y) ∧ Coord.lt (Coord.ofNat y) c.bottom)) →
    canvas y = List.replicate width Cell.blank

theorem InRows.canvas (h : v.InRows cardWidth placed) :
    v.Canvas g width cardWidth (v.canvasRow g width cardWidth) := by
  refine ⟨?cards, fun y none => ?blank⟩
  case cards =>
    rw [h.cards, List.forall_mem_map]
    intro c mem
    refine ⟨c.thread, h.threads ▸ List.mem_map_of_mem mem, c.top, rfl, rfl, ?_, fun r row here => ?_⟩
    · rw [RowCard.bottom_card, h.stop_eq mem g width]
    · have top : c.top ≤ c.top + r := Nat.le_add_right _ _
      rw [← Nat.add_sub_cancel_left (n := c.top) (m := r)] at here
      exact h.canvasRow_of_mem mem (h.takes_of_picture mem top here) here
  case blank =>
    refine h.canvasRow_of_forall fun c mem takes => ?_
    refine none c.card (h.cards ▸ List.mem_map_of_mem mem) ?_
    rw [RowCard.bottom_card, RowCard.card, Exact.le_ofNat, Exact.lt_ofNat]
    exact ⟨decide_eq_true takes.1, decide_eq_true takes.2⟩

end Canvas

end Drawn

/-- Whatever has been done to a viewer, drawn it shows in each row of the margin's pane the row of the
    canvas so far below the scroll position, the canvas having every card in full. What is drawn for
    this, over the pane's own frame, are boxes one below the other, none of them empty and all in the
    pane. -/
theorem rowOf_margin_draw (g : Typography) {path : Text} {content : Except FileFault (List UInt8)}
    {spacing : Spacing Exact} {gap : Nat} {start : Viewer Exact}
    (opened : ofFile path content spacing = .ok start) (spaced : spacing.gap = Coord.ofNat gap)
    (actions : List Action) (width : Nat) {height : Nat} (terminal : height < 65536)
    (short : ∀ t ∈ (Action.run start actions).document.threads,
      (t.cardLines (Panes.ofSize width height).cardWidth).length < 65536) :
    let panes := Panes.ofSize width height
    let pane := panes.margin.inner
    let screen := ((Action.run start actions).draw width height).1
    let drawn := ((Action.run start actions).draw width height).2
    let canvas := drawn.canvasRow g pane.width panes.cardWidth
    (∀ k < pane.height, screen.rowOf g pane k = canvas (drawn.scroll + k)) ∧
      drawn.Canvas g pane.width panes.cardWidth canvas ∧
      ∃ boxes : List Box,
        drawn.marginLayers g panes.margin panes.cardWidth =
          [panes.margin.layer, panes.margin.title g "Comments".toList] ++ boxes.flatMap Box.layers ∧
        (boxes.Pairwise fun a b =>
          a.frame.area.top + a.frame.area.height ≤ b.frame.area.top) ∧
        ∀ b ∈ boxes, b.frame.area.left = pane.left ∧ b.frame.area.width = pane.width ∧
          pane.top ≤ b.frame.area.top ∧ 0 < b.frame.area.height ∧
          b.frame.area.top + b.frame.area.height ≤ pane.top + pane.height := by
  intro panes pane screen drawn canvas
  obtain ⟨placed, h⟩ := exists_inRows_draw opened spaced actions width height short
  have low : pane.height ≤ 65535 := height_margin_le terminal
  refine ⟨fun k within => ?rows, h.canvas,
    (placed.filter (RowCard.Shows pane drawn.scroll)).map fun c =>
      c.box g pane drawn.scroll (c.thread.cardLines panes.cardWidth),
    ?layers, ?apart, ?inside⟩
  case rows =>
    by_cases taken : ∃ c ∈ placed, c.Takes (drawn.scroll + k)
    · obtain ⟨c, mem, takes⟩ := taken
      have row := RowCard.getElem?_picture_box (g := g) (h.full c mem) takes within
      exact (h.rowOf_of_mem terminal mem takes within row).trans
        (h.canvasRow_of_mem mem takes row).symm
    · have outside : ∀ c ∈ placed, ¬ c.Takes (drawn.scroll + k) :=
        fun c mem takes => taken ⟨c, mem, takes⟩
      exact (h.rowOf_of_forall terminal within outside).trans (h.canvasRow_of_forall outside).symm
  case layers =>
    rw [marginLayers_eq, h.cardLayers_eq low, List.flatMap_map]
  case apart =>
    refine List.pairwise_map.mpr ((h.apart.filter _).imp_of_mem fun first _ le => ?_)
    exact RowCard.area_box_le (of_decide_eq_true (List.mem_filter.mp first).2) le
  case inside =>
    refine List.forall_mem_map.mpr fun c mem => ?_
    exact RowCard.area_box (of_decide_eq_true (List.mem_filter.mp mem).2)

/-- The pane begins within one card, of a character of two columns, and ends within the next. -/
theorem rowOf_margin_draw_between_cards :
    let text := Kind.comment.wrap ['日'] ++ ['\n'] ++ Kind.comment.wrap ['b'] ++ ['\n', 'c']
    let spacing : Spacing Exact := ⟨Coord.ofNat 1, Coord.ofNat 2, Coord.ofNat 1⟩
    let start := ofDocument ['f'] (Document.ofText text) spacing
    let v := Action.run start [.draw 24 8, .scroll 2]
    let panes := Panes.ofSize 24 8
    let pane := panes.margin.inner
    let drawn := (v.draw 24 8).2
    let g := Typography.standard
    let row (k : Nat) : List Cell := (v.draw 24 8).1.rowOf g pane k
    (ofFile ['f'] (.ok (Text.encode text)) spacing = .ok start ∧ spacing.gap = Coord.ofNat 1 ∧
        ∀ t ∈ v.document.threads, (t.cardLines panes.cardWidth).length < 65536) ∧
      (drawn.scroll = 2 ∧
        ∀ k < pane.height, row k = drawn.canvasRow g pane.width panes.cardWidth (drawn.scroll + k)) ∧
      drawn.Canvas g pane.width panes.cardWidth (drawn.canvasRow g pane.width panes.cardWidth) ∧
      ((List.range pane.height).map fun k => (row k).flatMap Cell.symbol) =
        ["│日  │", "└────┘", "      ", "┌────┐", "│anon│"].map String.toList := by
  intro text spacing start v panes pane drawn g row
  have opened : ofFile ['f'] (.ok (Text.encode text)) spacing = .ok start := rfl
  have spaced : spacing.gap = Coord.ofNat 1 := rfl
  have short : ∀ t ∈ v.document.threads, (t.cardLines panes.cardWidth).length < 65536 := by
    decide +kernel
  obtain ⟨rows, canvas, -⟩ :=
    rowOf_margin_draw g opened spaced [.draw 24 8, .scroll 2] 24 (by decide) short
  exact ⟨⟨opened, spaced, short⟩, ⟨by decide +kernel, rows⟩, canvas, by decide +kernel⟩

end Viewer

end Marginalia
