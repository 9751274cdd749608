import Marginalia.Proofs.Margin.Freshness
import Marginalia.Proofs.Thread.Partition
import Marginalia.Proofs.Viewer.History

/-! # A drawn margin is a fresh one

Drawing measures every card and lays out anew only if something has changed. A card is known by where
its thread begins, which after a change of the document may be where another thread began before. All
the same a drawn margin shows the layout that comes of measuring the cards of the document as it is,
and of nothing else.
-/

namespace Marginalia

namespace Layout

variable {α : Type} [Coord α]

theorem ofThreads_congr {threads : List Thread} {h h' : Heights α}
    (same : ∀ t ∈ threads, h.get? t.start = h'.get? t.start) (mapper : Nat → α)
    (spacing : Spacing α) (host : α) :
    ofThreads threads mapper h spacing host = ofThreads threads mapper h' spacing host := by
  have items : threads.map (itemOf mapper h spacing) = threads.map (itemOf mapper h' spacing) := by
    refine List.map_congr_left fun t mem => ?_
    rw [itemOf, itemOf, Heights.getD, Heights.getD, same t mem]
  simp only [ofThreads, items]

end Layout

namespace Margin

variable {α : Type} [Coord α]

theorem heights_scroll (top host : α) (m : Margin α) : (m.scroll top host).heights = m.heights := by
  simp only [scroll]
  split <;> rfl

theorem dirty_relayoutIfDirty (threads : List Thread) (mapper : Nat → α) (m : Margin α) :
    (m.relayoutIfDirty threads mapper).2.dirty = false := by
  cases dirty : m.dirty with
  | true => simp [relayoutIfDirty, dirty, relayout]
  | false => simp [relayoutIfDirty, dirty]

theorem heights_relayoutIfDirty_cases (threads : List Thread) (mapper : Nat → α) (m : Margin α) :
    (m.relayoutIfDirty threads mapper).2.heights = m.heights ∨
      (m.relayoutIfDirty threads mapper).2.heights =
        (m.heights.retain (threads.map Thread.start)).2 := by
  unfold relayoutIfDirty
  split
  · exact .inr rfl
  · exact .inl rfl

theorem counted_relayoutIfDirty {m : Margin α} (counted : m.heights.Counted) (threads : List Thread)
    (mapper : Nat → α) : (m.relayoutIfDirty threads mapper).2.heights.Counted := by
  rcases heights_relayoutIfDirty_cases threads mapper m with same | same
  · rw [same]
    exact counted
  · rw [same]
    exact counted.retain _

theorem get?_relayoutIfDirty {threads : List Thread} {t : Thread} (mem : t ∈ threads)
    (mapper : Nat → α) (m : Margin α) :
    (m.relayoutIfDirty threads mapper).2.heights.get? t.start = m.heights.get? t.start := by
  rcases heights_relayoutIfDirty_cases threads mapper m with same | same
  · rw [same]
  · rw [same, Heights.get?_retain (List.mem_map_of_mem mem)]

namespace Trace.Sound

variable {s : Trace α} {spacing : Spacing α}

/-- What the margin takes for the host's height may count as the height reported. -/
theorem settled (h : s.Sound spacing) : Sound spacing ⟨s.margin, s.last, s.margin.hostHeight⟩ :=
  ⟨h.spacing, .inl rfl, h.fresh⟩

theorem resizeCards (h : s.Sound spacing) (reports : List (Nat × Nat)) :
    Sound spacing ⟨s.margin.resizeCards reports, s.last, s.host⟩ := by
  induction reports generalizing s with
  | nil => exact h
  | cons r rest ih => exact ih (h.next (.resizeCard r.1 (Coord.ofNat r.2)))

/-- If the margin was laid out last for the same, it makes no difference whether there is need. -/
theorem relayoutIfDirty {threads : List Thread} {mapper : Nat → α}
    (h : s.Sound spacing) (last : s.last = some (threads, mapper)) :
    Sound spacing ⟨(s.margin.relayoutIfDirty threads mapper).2, s.last, s.host⟩ := by
  have next := h.next (.relayoutIfDirty threads mapper)
  have same : (s.next (.relayoutIfDirty threads mapper)).last = s.last := by
    cases dirty : s.margin.dirty <;> simp [Trace.next, Event.laidOut?, dirty, last]
  rw [← same]
  exact next

end Trace.Sound

end Margin

namespace Viewer

variable {α : Type} [Coord α] {v : Viewer α} {spacing : Spacing α}

/-- The heights of the cards of some threads and nothing else, measured at a width. -/
def measuredHeights (width : Nat) (threads : List Thread) : Heights α :=
  Heights.recordAll {} (Thread.reports width threads)

/-- The margin as if it had been laid out last for the document as it is. -/
def trace (v : Viewer α) : Margin.Trace α :=
  ⟨v.margin, some (v.document.threads, v.document.mapper), v.margin.hostHeight⟩

/-- The invariant: a clean margin is laid out for the document as it is, and the heights it remembers
    are counts. -/
structure Fresh (spacing : Spacing α) (v : Viewer α) : Prop where
  sound : v.trace.Sound spacing
  counted : v.margin.heights.Counted

section Fresh

theorem Fresh.layout_of_clean (h : v.Fresh spacing) (clean : v.margin.dirty = false) :
    v.margin.layout = Layout.ofThreads v.document.threads v.document.mapper v.margin.heights
      spacing v.margin.hostHeight := by
  obtain ⟨threads, mapper, last, laidOut⟩ := h.sound.fresh clean
  obtain ⟨rfl, rfl⟩ := Prod.mk.inj (Option.some.inj last)
  rw [← h.sound.spacing]
  exact laidOut.layout

theorem Fresh.syncScroll (h : v.Fresh spacing) : v.syncScroll.Fresh spacing where
  sound := (h.sound.next (.scroll (Coord.ofNat v.scroll) (Coord.ofNat v.lineCount))).settled
  counted := by
    change (v.margin.scroll _ _).heights.Counted
    rw [Margin.heights_scroll]
    exact h.counted

theorem Fresh.keepCursorVisible (h : v.Fresh spacing) : v.keepCursorVisible.Fresh spacing :=
  syncScroll ⟨h.sound, h.counted⟩

theorem Fresh.moveCursor (h : v.Fresh spacing) (delta : Int) : (v.moveCursor delta).Fresh spacing :=
  keepCursorVisible ⟨h.sound, h.counted⟩

theorem Fresh.setViewportHeight (h : v.Fresh spacing) (height : Nat) :
    (v.setViewportHeight height).Fresh spacing :=
  keepCursorVisible ⟨h.sound, h.counted⟩

theorem Fresh.scrollBy (h : v.Fresh spacing) (delta : Int) : (v.scrollBy delta).Fresh spacing :=
  syncScroll ⟨h.sound, h.counted⟩

theorem fresh_ofDocument (path : Text) (d : Document) (spacing : Spacing α) :
    (ofDocument path d spacing).Fresh spacing :=
  -- Nothing has been laid out yet, and the margin says so.
  Fresh.syncScroll ⟨⟨rfl, .inl rfl, nofun⟩, Heights.counted_empty⟩

theorem Fresh.resolveAtCursor (h : v.Fresh spacing) (outcome : Outcome) :
    (v.resolveAtCursor outcome).Fresh spacing := by
  unfold Viewer.resolveAtCursor
  split
  · exact ⟨h.sound, h.counted⟩
  · -- The document is another one now, but the layout has been declared out of date.
    refine Fresh.moveCursor ⟨⟨?_, .inl rfl, ?_⟩, ?_⟩ 0
    · exact h.sound.spacing
    · intro clean
      cases clean
    · exact h.counted

theorem Fresh.saved (h : v.Fresh spacing) (files : FileTree) : (v.saved files).Fresh spacing := by
  rcases saved_cases files v with same | ⟨status, same⟩
  · rw [same]
    exact h
  · rw [same]
    exact ⟨h.sound, h.counted⟩

theorem Fresh.measure (h : v.Fresh spacing) (width : Nat) : (v.measure width).Fresh spacing := by
  constructor
  · change Margin.Trace.Sound spacing
      ⟨(v.measure width).margin, v.trace.last, (v.measure width).margin.hostHeight⟩
    rw [margin_measure]
    exact (h.sound.resizeCards _).settled
  · obtain ⟨dirty, told⟩ := v.exists_margin_measure width
    rw [told]
    exact h.counted.recordAll _

theorem Fresh.fit (h : v.Fresh spacing) (width height : Nat) : (v.fit width height).Fresh spacing := by
  have measured := (h.setViewportHeight (Panes.ofSize width height).document.inner.height).measure
    (Panes.ofSize width height).cardWidth
  exact ⟨(measured.sound.relayoutIfDirty rfl).settled, Margin.counted_relayoutIfDirty measured.counted _ _⟩

theorem Fresh.perform (h : v.Fresh spacing) (a : Action) : (a.perform v).Fresh spacing := by
  cases a with
  | move delta => exact h.moveCursor delta
  | scroll delta => exact h.scrollBy delta
  | page screens => exact h.scrollBy _
  | resize height => exact h.setViewportHeight height
  | resolve outcome => exact h.resolveAtCursor outcome
  | save files => exact h.saved files
  | draw width height => exact h.fit width height

theorem Fresh.run (h : v.Fresh spacing) (actions : List Action) :
    (Action.run v actions).Fresh spacing :=
  Action.run_of_perform (fun h a => h.perform a) h actions

end Fresh

section Heights

variable [Coord.Discrete α]

/-- Of the cards of a document none is mistaken for another. -/
theorem get?_recordAll_reports {h : Heights α} (counted : h.Counted) {d : Document} {t : Thread}
    (mem : t ∈ d.threads) (width : Nat) :
    (h.recordAll (Thread.reports width d.threads)).get? t.start =
      some (Coord.ofNat (t.cardHeight width)) := by
  refine counted.get?_recordAll ?_ (.inr ⟨_, List.mem_map_of_mem mem, rfl⟩)
  intro r told same
  obtain ⟨u, there, rfl⟩ := List.mem_map.mp told
  obtain rfl := Reading.thread_eq_of_start_eq there mem same
  rfl

theorem Fresh.get?_fit (h : v.Fresh spacing) (width height : Nat) {t : Thread}
    (mem : t ∈ v.document.threads) :
    (v.fit width height).margin.heights.get? t.start =
      some (Coord.ofNat (t.cardHeight (Panes.ofSize width height).cardWidth)) := by
  let sized := v.setViewportHeight (Panes.ofSize width height).document.inner.height
  obtain ⟨dirty, told⟩ := sized.exists_margin_measure (Panes.ofSize width height).cardWidth
  refine (Margin.get?_relayoutIfDirty mem _ _).trans ?_
  rw [told]
  exact get?_recordAll_reports (h.setViewportHeight _).counted mem _

end Heights

/-- Whatever has been done to a viewer, drawn it shows the layout of the threads of its document as it
    is, each card as high as its lines at the width just drawn with the border around them, beside
    as many lines as the document has. -/
theorem layout_draw_run [Coord.Discrete α] {path : Text} {content : Except FileFault (List UInt8)}
    {start : Viewer α} (opened : ofFile path content spacing = .ok start) (actions : List Action)
    (width height : Nat) :
    let cardWidth := (Panes.ofSize width height).cardWidth
    let v := ((Action.run start actions).draw width height).2
    let heights : Heights α := measuredHeights cardWidth v.document.threads
    v.margin.layout = Layout.ofThreads v.document.threads v.document.mapper heights spacing
        (Coord.ofNat v.lineCount) ∧
      ∀ t ∈ v.document.threads,
        heights.get? t.start = some (Coord.ofNat ((t.cardLines cardWidth).length + 2)) := by
  intro cardWidth v heights
  obtain ⟨d, rfl⟩ := exists_eq_ofDocument opened
  have before := (fresh_ofDocument path d spacing).run actions
  have fresh : v.Fresh spacing := before.fit width height
  have steady : v.Steady := ((steady_ofDocument path d spacing).run actions).fit width height
  have clean : v.margin.dirty = false := Margin.dirty_relayoutIfDirty _ _ _
  have measured (t : Thread) (mem : t ∈ v.document.threads) :
      heights.get? t.start = some (Coord.ofNat (t.cardHeight cardWidth)) :=
    get?_recordAll_reports Heights.counted_empty mem cardWidth
  refine ⟨?_, measured⟩
  rw [fresh.layout_of_clean clean, steady.hostHeight]
  refine Layout.ofThreads_congr (fun t mem => ?_) _ _ _
  rw [measured t mem]
  exact before.get?_fit width height mem

/-- What is left of the document begins where a longer thread began, for whose card a height is still
    remembered. -/
theorem layout_draw_run_at_inherited_start :
    let text := Kind.comment.wrap "a long remark".toList ++ Kind.deletion.wrap ['b'] ++
      Kind.comment.wrap ['x']
    let spacing : Spacing Exact := ⟨Coord.ofNat 1, Coord.ofNat 2, Coord.ofNat 9⟩
    let start := ofDocument ['f'] (Document.ofText text) spacing
    let before := Action.run start [.draw 24 6, .resolve .accept, .resolve .accept]
    let v := (before.draw 30 8).2
    ofFile ['f'] (.ok (Text.encode text)) spacing = .ok start ∧
      before.margin.heights.get? 0 = some (Coord.ofNat 7) ∧ v.document.threads.map Thread.start = [0] ∧
      v.margin.layout = Layout.ofThreads v.document.threads v.document.mapper
        (measuredHeights (Panes.ofSize 30 8).cardWidth v.document.threads) spacing
        (Coord.ofNat v.lineCount) ∧
      v.margin.layout.cards.map Card.height = [Coord.ofNat 4] := by
  intro text spacing start before v
  have opened : ofFile ['f'] (.ok (Text.encode text)) spacing = .ok start := rfl
  obtain ⟨layout, -⟩ :=
    layout_draw_run opened [.draw 24 6, .resolve .accept, .resolve .accept] 30 8
  exact ⟨opened, by decide +kernel, by decide +kernel, layout, by decide +kernel⟩

end Viewer

end Marginalia
