import Marginalia.Margin.Layout

/-! # The margin beside its host

Follows the host's scrolling, remembers card heights, and lays cards out again when something they
depend on has changed.
-/

namespace Marginalia

/-- A margin and what its layout depends on. -/
structure Margin (α : Type) where
  spacing : Spacing α
  heights : Heights α
  scrollTop : α
  /-- Height of the host's content. -/
  hostHeight : α
  /-- Whether the layout is out of date. -/
  dirty : Bool
  layout : Layout α

namespace Margin

variable {α : Type} [Coord α]

/-- A margin that has not been laid out. -/
def new (spacing : Spacing α) : Margin α :=
  ⟨spacing, {}, Coord.zero, Coord.zero, true, Layout.empty⟩

/-- Follows the host to `top`, never above the start. Another host height makes the layout out of
date. -/
def scroll (top host : α) (m : Margin α) : Margin α :=
  let m := { m with scrollTop := Coord.larger top Coord.zero }
  if Coord.same host m.hostHeight then m else { m with hostHeight := host, dirty := true }

/-- Takes a measurement, and tells whether the layout is out of date for it. -/
def resizeCard (root : Nat) (height : α) (m : Margin α) : Bool × Margin α :=
  let (changed, heights) := m.heights.record root height
  (changed, { m with heights, dirty := m.dirty || changed })

/-- Declares the layout out of date. -/
def invalidate (m : Margin α) : Margin α := { m with dirty := true }

/-- Lays out anew, after forgetting the heights of threads that are gone. -/
def relayout (threads : List Thread) (mapper : Nat → α) (m : Margin α) : Margin α :=
  let (_, heights) := m.heights.retain (threads.map Thread.start)
  { m with
    heights
    layout := Layout.ofThreads threads mapper heights m.spacing m.hostHeight
    dirty := false }

/-- Lays out anew if need be, and tells whether there was need. -/
def relayoutIfDirty (threads : List Thread) (mapper : Nat → α) (m : Margin α) : Bool × Margin α :=
  if m.dirty then (true, m.relayout threads mapper) else (false, m)

/-- The cards that reach into the window of height `viewport` at the scroll position. -/
def visibleCards (viewport : α) (m : Margin α) : List (Card α) :=
  let bottom := m.scrollTop + viewport
  m.layout.cards.filter fun c => Coord.lt m.scrollTop c.bottom && Coord.lt c.top bottom

end Margin

end Marginalia
