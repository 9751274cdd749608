import Mathlib.Algebra.Order.Ring.Rat
import Mathlib.Data.List.Basic
import Mathlib.Tactic.Linarith
import Marginalia.Margin.Basic
import Marginalia.Margin.Exact

/-! # Margins of numbers

Targets, heights, spacing and cards that are plain numbers are exact coordinates too, and what
layout does with coordinates is what it says of numbers.
-/

namespace Marginalia

namespace Exact

theorem larger_finite (a b : Rat) :
    Coord.larger (finite a : Exact) (finite b) = finite (max a b) := by
  change (if decide (a < b) = true then finite b else finite a) = _
  by_cases less : a < b
  · rw [if_pos (decide_eq_true less), max_eq_right less.le]
  · rw [if_neg (by simpa using less), max_eq_left (not_lt.mp less)]

theorem map_finite_injective : Function.Injective (List.map finite) :=
  List.map_injective_iff.mpr fun _ _ => finite.inj

end Exact

/-- The same item in exact coordinates. -/
def Item.exact (i : Item Rat) : Item Exact := ⟨.finite i.target, .finite i.height⟩

/-- The same card in exact coordinates. -/
def Card.exact (c : Card Rat) : Card Exact :=
  ⟨c.root, .finite c.target, .finite c.top, .finite c.height⟩

/-- The same spacing in exact coordinates. -/
def Spacing.exact (s : Spacing Rat) : Spacing Exact :=
  ⟨.finite s.gap, .finite s.padding, .finite s.defaultHeight⟩

/-- The same heights in exact coordinates. -/
def Heights.exact (h : Heights Rat) : Heights Exact :=
  ⟨h.entries.map fun e => (e.1, .finite e.2)⟩

/-- The same layout in exact coordinates. -/
def Layout.exact (l : Layout Rat) : Layout Exact :=
  ⟨l.cards.map Card.exact, .finite l.sharedHeight, .finite l.hostPadding⟩

end Marginalia
