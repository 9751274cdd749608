import Marginalia.Proofs.Viewer.History

/-! # Drawing a viewer again

A viewer may be scrolled beyond the document's last line, into the room that the margin asks for. The
cursor stays behind on the last line then, and drawing scrolls back to it. Up to the last line a
viewer is drawn where it was scrolled to.
-/

namespace Marginalia

theorem Margin.layout_scroll {α : Type} [Coord α] (top host : α) (m : Margin α) :
    (m.scroll top host).layout = m.layout := by
  simp only [scroll]
  split <;> rfl

namespace Viewer

variable {α : Type} [Coord α]

/-- Whether the action scrolls, by lines or by screens. -/
def Action.scrolls : Action → Bool
  | .scroll _ | .page _ => true
  | _ => false

theorem exists_scrollBy_of_scrolls {a : Action} (scrolls : a.scrolls) (v : Viewer α) :
    ∃ delta, a.perform v = v.scrollBy delta := by
  cases a with
  | scroll delta => exact ⟨delta, rfl⟩
  | page screens => exact ⟨_, rfl⟩
  | move | resize | resolve | save | draw => cases scrolls

theorem maxScroll_scrollBy (delta : Int) (v : Viewer α) :
    (v.scrollBy delta).maxScroll = v.maxScroll := by
  have layout : (v.scrollBy delta).margin.layout = v.margin.layout := Margin.layout_scroll _ _ _
  rw [maxScroll, maxScroll, layout]
  rfl

theorem scroll_fit_scrollBy {v : Viewer α} {width height : Nat}
    (sized : v.viewportHeight = (Panes.ofSize width height).document.inner.height) (delta : Int) :
    ((v.scrollBy delta).fit width height).scroll =
      min (v.scrollBy delta).scroll ((v.scrollBy delta).lineCount - 1) := by
  obtain ⟨above, below⟩ := v.cursorLine_scrollBy delta
  -- The screen has the height it had, so only a cursor that stayed behind can change anything.
  have drawn : ((v.scrollBy delta).fit width height).scroll =
      min (v.scrollBy delta).scroll (v.scrollBy delta).cursorLine := by
    change ((v.scrollBy delta).setViewportHeight _).scroll = _
    rw [← sized]
    exact scroll_keepCursorVisible_of_lt (v.scrollBy delta) (cursorLine_scrollBy_lt delta v)
  rw [drawn]
  change _ = min _ (v.lineCount - 1)
  omega

/-- Scrolled and then drawn at the size that it had, a viewer keeps its cursor. It shows what it was
    scrolled to, or the last line of the document if that lies before. -/
theorem scroll_draw_of_scrolls {v : Viewer α} {a : Action} {width height : Nat}
    (sized : v.viewportHeight = (Panes.ofSize width height).document.inner.height)
    (scrolls : a.scrolls) :
    let scrolled := a.perform v
    let drawn := (scrolled.draw width height).2
    scrolled.scroll ≤ scrolled.maxScroll ∧ drawn.cursorLine = scrolled.cursorLine ∧
      drawn.scroll = min scrolled.scroll (scrolled.lineCount - 1) := by
  obtain ⟨delta, same⟩ := exists_scrollBy_of_scrolls scrolls v
  rw [same]
  refine ⟨?_, rfl, scroll_fit_scrollBy sized delta⟩
  rw [maxScroll_scrollBy]
  exact Nat.min_le_right _ _

/-- A screen further down there still are lines of the document. -/
theorem scroll_draw_of_scrolls_within_document :
    let spacing : Spacing Exact := ⟨Coord.ofNat 1, Coord.ofNat 2, Coord.ofNat 1⟩
    let start := ofDocument ['f'] (Document.ofText "a\nb\nc\nd\ne\nf\ng".toList) spacing
    let v := Action.run start [.draw 24 6]
    let scrolled := (Action.page 1).perform v
    v.viewportHeight = (Panes.ofSize 24 6).document.inner.height ∧ scrolled.scroll = 3 ∧
      (scrolled.draw 24 6).2.cursorLine = scrolled.cursorLine ∧
      (scrolled.draw 24 6).2.scroll = 3 := by
  intro spacing start v scrolled
  have sized : v.viewportHeight = (Panes.ofSize 24 6).document.inner.height := rfl
  obtain ⟨-, cursorLine, scroll⟩ := scroll_draw_of_scrolls (a := .page 1) sized rfl
  have place : min scrolled.scroll (scrolled.lineCount - 1) = 3 := by decide +kernel
  exact ⟨sized, by decide +kernel, cursorLine, scroll.trans place⟩

/-- One line stands beside a card of eight rows. Scrolled down by one line the viewer is drawn where
    it was before. -/
theorem scroll_draw_ne_of_room_below :
    let text := Kind.comment.wrap ['a'] ++ Kind.comment.wrap ['b'] ++ Kind.comment.wrap ['c']
    let spacing : Spacing Exact := ⟨Coord.ofNat 1, Coord.ofNat 2, Coord.ofNat 1⟩
    let start := ofDocument ['f'] (Document.ofText text) spacing
    let scrolled := Action.run start [.draw 24 6, .scroll 1]
    ofFile ['f'] (.ok (Text.encode text)) spacing = .ok start ∧
      scrolled.scroll = 1 ∧ scrolled.scroll ≤ scrolled.maxScroll ∧
      ¬ (scrolled.draw 24 6).2.scroll = scrolled.scroll := by
  intro text spacing start scrolled
  exact ⟨rfl, by decide +kernel, by decide +kernel, by decide +kernel⟩

end Viewer

end Marginalia
