import Marginalia.Margin.Heights
import Marginalia.Thread

/-! # Layout of the margin

Each thread has a card beside the line it belongs to. Cards keep their order and never overlap: one
goes to its target or, if the card before is in the way, `gap` below that. Nothing is moved up. Host
and margin scroll together, so both are made tall enough for the last card.
-/

namespace Marginalia

/-- Constants of a layout. -/
structure Spacing (α : Type) where
  /-- Least distance between cards. -/
  gap : α
  /-- Room below the last card. -/
  padding : α
  /-- Height of a card not yet measured. -/
  defaultHeight : α

/-- Where a card wants to be, and how tall it is. -/
structure Item (α : Type) where
  target : α
  height : α

/-- A card in its place. -/
structure Card (α : Type) where
  /-- Start of its thread. -/
  root : Nat
  target : α
  top : α
  height : α

/-- The cards of a margin and the heights they ask for. -/
structure Layout (α : Type) where
  cards : List (Card α)
  /-- Height of the margin's content. -/
  sharedHeight : α
  /-- Room the host adds below its own content. -/
  hostPadding : α

variable {α : Type} [Coord α]

/-- Spacing for a host that measures in pixels. -/
def Spacing.standard : Spacing α := ⟨Coord.ofNat 8, Coord.ofNat 64, Coord.ofNat 80⟩

namespace Item

/-- Tops of the items below one that ends at `bottom`. -/
def placeBelow (gap : α) (bottom : α) : List (Item α) → List α
  | [] => []
  | i :: rest =>
    let top := Coord.larger i.target (bottom + gap)
    top :: placeBelow gap (top + i.height) rest

/-- Tops of the items, in their order. -/
def place (gap : α) (items : List (Item α)) : List α := placeBelow gap Coord.negInf items

end Item

namespace Card

def bottom (c : Card α) : α := c.top + c.height

/-- How far the card was moved down. -/
def displacement (c : Card α) : α := c.top - c.target

end Card

namespace Layout

/-- Height of the margin beside a host of height `host` with the last card ending at `bottom`. -/
def sharedHeightFor (host bottom padding : α) : α := Coord.larger host (bottom + padding)

/-- Room a host of height `host` has to add for a last card that ends at `bottom`. -/
def hostPaddingFor (host bottom padding : α) : α :=
  Coord.larger (bottom + padding - host) Coord.zero

/-- No cards and no heights. -/
def empty : Layout α := ⟨[], Coord.zero, Coord.zero⟩

/-- Bottom of the last of some cards, zero without any. -/
def bottomOf (cards : List (Card α)) : α :=
  match cards.getLast? with
  | some c => c.bottom
  | none => Coord.zero

def lastBottom (l : Layout α) : α := bottomOf l.cards

/-- The card of a root. -/
def card? (l : Layout α) (root : Nat) : Option (Card α) := l.cards.find? (·.root == root)

/-- The item of a thread: its target by the start, its height as measured or assumed. -/
def itemOf (mapper : Nat → α) (heights : Heights α) (spacing : Spacing α) (t : Thread) : Item α :=
  ⟨mapper t.start, heights.getD t.start spacing.defaultHeight⟩

/-- One card per thread, in order, beside a host of height `host`. -/
def ofThreads (threads : List Thread) (mapper : Nat → α) (heights : Heights α)
    (spacing : Spacing α) (host : α) : Layout α :=
  let items := threads.map (itemOf mapper heights spacing)
  let tops := Item.place spacing.gap items
  let cards : List (Card α) :=
    (threads.zip (items.zip tops)).map fun (t, i, top) => ⟨t.start, i.target, top, i.height⟩
  let bottom := bottomOf cards
  ⟨cards, sharedHeightFor host bottom spacing.padding, hostPaddingFor host bottom spacing.padding⟩

end Layout

end Marginalia
