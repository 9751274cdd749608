import Mathlib.Algebra.Order.Ring.Nat
import Mathlib.Data.List.Basic
import Mathlib.Data.List.Flatten
import Marginalia.Proofs.Viewer.Panes

/-! # What a row shows of a line

Of a line a row shows the glyphs from the first on, each in as many cells as it takes columns, up to
the first one for which there is no room; what is left of the row is blank. All that is shown is in
the line, in that order, and a line of printable ASCII is simply cut to the width.
-/

namespace Marginalia.Typography

variable {g : Typography} {width : Nat} {under : Style} {stretches : List Styled}

/-- How many columns some glyphs take. -/
def extent (g : Typography) (glyphs : List Glyph) : Nat :=
  (glyphs.map fun x => g.columns x.symbol).sum

theorem extent_cons (g : Typography) (x : Glyph) (glyphs : List Glyph) :
    g.extent (x :: glyphs) = g.columns x.symbol + g.extent glyphs := List.sum_cons

/-- A row shows as much of a line as it has room for: some of the glyphs that can be seen from the
    first on, no fewer than fit, and blanks behind them. -/
structure Shows (g : Typography) (width : Nat) (line : StyledLine) (shown : List Glyph)
    (row : List Cell) : Prop where
  cut : ∃ hidden, g.glyphsWithin width line.stretches = shown ++ hidden ∧
    ∀ next ∈ hidden.head?, width < g.extent shown + g.columns next.symbol
  fits : g.extent shown ≤ width
  row_eq : row = shown.flatMap (g.cells line.under) ++
    List.replicate (width - g.extent shown) Cell.blank

theorem exists_fitting (g : Typography) (room : Nat) (glyphs : List Glyph) :
    ∃ hidden, glyphs = g.fitting room glyphs ++ hidden ∧
      g.extent (g.fitting room glyphs) ≤ room ∧
      ∀ next ∈ hidden.head?, room < g.extent (g.fitting room glyphs) + g.columns next.symbol := by
  induction glyphs generalizing room with
  | nil => exact ⟨[], rfl, Nat.zero_le room, nofun⟩
  | cons x glyphs ih =>
      rw [fitting]
      split
      · next fits =>
          obtain ⟨hidden, parts, within, full⟩ := ih (room - g.columns x.symbol)
          rw [extent_cons]
          refine ⟨hidden, congrArg (x :: ·) parts, by omega, fun next first => ?_⟩
          have tooWide := full next first
          omega
      · next wide =>
          refine ⟨x :: glyphs, rfl, Nat.zero_le room, fun next first => ?_⟩
          obtain rfl := Option.some.inj first
          exact Nat.lt_of_lt_of_le (Nat.not_le.mp wide) (Nat.le_add_left _ _)

theorem mem_glyphs_iff {x : Glyph} :
    x ∈ g.glyphs stretches ↔ ∃ s ∈ stretches, x.style = s.style ∧
      x.symbol ∈ g.clusters s.text ∧ g.isVisible x.symbol := by
  simp only [glyphs, List.mem_flatMap, List.mem_map, List.mem_filter]
  constructor
  · rintro ⟨s, mem, cluster, seen, rfl⟩
    exact ⟨s, mem, rfl, seen⟩
  · rintro ⟨s, mem, style, seen⟩
    exact ⟨s, mem, x.symbol, seen, by rw [← style]⟩

theorem columns_pos_of_mem {x : Glyph} (mem : x ∈ g.glyphs stretches) : 0 < g.columns x.symbol := by
  obtain ⟨-, -, -, -, visible⟩ := mem_glyphs_iff.mp mem
  exact of_decide_eq_true ((Bool.and_eq_true _ _).mp visible).1

theorem mem_glyphs_of_append {shown hidden : List Glyph} {x : Glyph}
    (parts : g.glyphsWithin width stretches = shown ++ hidden) (mem : x ∈ shown) :
    x ∈ g.glyphs stretches := by
  have there : x ∈ g.glyphsWithin width stretches := parts ▸ List.mem_append_left hidden mem
  exact (List.mem_filter.mp there).1

/-- Glyphs that can be seen fill as many cells as they take columns. -/
theorem length_flatMap_cells {glyphs : List Glyph}
    (seen : ∀ x ∈ glyphs, 0 < g.columns x.symbol) :
    (glyphs.flatMap (g.cells under)).length = g.extent glyphs := by
  rw [List.length_flatMap, extent]
  refine congrArg List.sum (List.map_congr_left fun x mem => ?_)
  have pos := seen x mem
  rw [cells, List.length_cons, List.length_replicate]
  omega

theorem isVisible_of_printable {c : Char} (printable : isPrintable c) : g.isVisible [c] := by
  have one := g.columns_of_printable c printable
  have notControl : isControl c = false := by
    simp [isPrintable, isControl] at printable ⊢
    omega
  simp [isVisible, one, notControl]

section Printable

variable (printable : ∀ c ∈ stretches.flatMap Styled.text, isPrintable c)

include printable

/-- Printable ASCII is seen character by character. -/
theorem map_symbol_glyphs :
    (g.glyphs stretches).map Glyph.symbol = (stretches.flatMap Styled.text).map fun c => [c] := by
  rw [glyphs, List.map_flatMap, List.map_flatMap]
  refine List.flatMap_congr fun s mem => ?_
  have own : ∀ c ∈ s.text, isPrintable c :=
    fun c there => printable c (List.mem_flatMap.mpr ⟨s, mem, there⟩)
  have all : ∀ cluster ∈ s.text.map fun c => [c], g.isVisible cluster :=
    List.forall_mem_map.mpr fun c there => isVisible_of_printable (own c there)
  rw [g.clusters_of_printable s.text own, List.filter_eq_self.mpr all, List.map_map]
  exact List.map_id _

theorem columns_of_mem_glyphs {x : Glyph} (mem : x ∈ g.glyphs stretches) :
    g.columns x.symbol = 1 := by
  have symbol := List.mem_map_of_mem (f := Glyph.symbol) mem
  rw [map_symbol_glyphs printable] at symbol
  obtain ⟨c, there, single⟩ := List.mem_map.mp symbol
  rw [← single]
  exact g.columns_of_printable c (printable c there)

end Printable

theorem exists_shows (g : Typography) (width : Nat) (line : StyledLine) :
    ∃ shown, g.Shows width line shown (Cell.fit width (g.setLine width line)) := by
  obtain ⟨hidden, parts, fits, full⟩ := g.exists_fitting width (g.glyphsWithin width line.stretches)
  have seen : ∀ x ∈ g.fitting width (g.glyphsWithin width line.stretches),
      0 < g.columns x.symbol :=
    fun x mem => columns_pos_of_mem (mem_glyphs_of_append parts mem)
  have size : (g.setLine width line).length = _ := length_flatMap_cells seen
  refine ⟨_, ⟨hidden, parts, full⟩, fits, ?_⟩
  rw [Cell.fit, List.take_append, List.take_of_length_le (by omega), List.take_replicate, size,
    Nat.min_eq_left (Nat.sub_le _ _)]
  rfl

namespace Shows

variable {line : StyledLine} {shown : List Glyph} {row : List Cell}

theorem mem_glyphs {x : Glyph} (h : g.Shows width line shown row) (mem : x ∈ shown) :
    x ∈ g.glyphs line.stretches := by
  obtain ⟨hidden, parts, -⟩ := h.cut
  exact mem_glyphs_of_append parts mem

theorem style_of_mem {cell : Cell} (h : g.Shows width line shown row) (mem : cell ∈ row) :
    (∃ x ∈ shown, cell.style = x.style.covering line.under) ∨ cell = Cell.blank := by
  rw [h.row_eq] at mem
  rcases List.mem_append.mp mem with inside | behind
  · obtain ⟨x, there, own⟩ := List.mem_flatMap.mp inside
    refine .inl ⟨x, there, ?_⟩
    rcases List.mem_cons.mp own with rfl | covered
    · rfl
    · rw [List.eq_of_mem_replicate covered]
  · exact .inr (List.eq_of_mem_replicate behind)

theorem mem_of_shown {x : Glyph} (h : g.Shows width line shown row) (mem : x ∈ shown) :
    ⟨x.symbol, x.style.covering line.under⟩ ∈ row := by
  rw [h.row_eq]
  exact List.mem_append_left _ (List.mem_flatMap.mpr ⟨x, mem, List.mem_cons_self⟩)

/-- What is read in the row are the symbols of the glyphs shown. -/
theorem flatMap_symbol (h : g.Shows width line shown row) :
    row.flatMap Cell.symbol =
      shown.flatMap Glyph.symbol ++ List.replicate (width - g.extent shown) ' ' := by
  have alone (x : Glyph) : (g.cells line.under x).flatMap Cell.symbol = x.symbol := by
    simp [cells, List.flatMap_cons, List.flatMap_replicate]
  rw [h.row_eq, List.flatMap_append, List.flatMap_assoc]
  simp [alone, Cell.blank, List.flatMap_replicate]

/-- All that is shown of a line is in the line. -/
theorem sublist (h : g.Shows width line shown row) :
    (shown.flatMap Glyph.symbol).Sublist (line.stretches.flatMap Styled.text) := by
  obtain ⟨hidden, parts, -⟩ := h.cut
  have first : shown.Sublist (g.glyphs line.stretches) :=
    (List.sublist_append_left shown hidden).trans (parts ▸ List.filter_sublist)
  refine (first.flatMap Glyph.symbol).trans ?_
  rw [glyphs, List.flatMap_assoc]
  refine List.Sublist.flatMap_right _ fun s _ => ?_
  rw [List.flatMap_map, List.flatMap_id']
  have visible : List.Sublist _ (g.clusters s.text).flatten :=
    (List.filter_sublist (p := g.isVisible)).flatten
  rwa [g.flatten_clusters] at visible

section Printable

variable (printable : ∀ c ∈ line.stretches.flatMap Styled.text, isPrintable c)

include printable

theorem extent_eq_length (h : g.Shows width line shown row) : g.extent shown = shown.length := by
  have narrow : ∀ x ∈ shown, g.columns x.symbol = 1 :=
    fun x mem => columns_of_mem_glyphs printable (h.mem_glyphs mem)
  rw [extent, List.map_congr_left narrow, List.map_const', List.sum_replicate_nat, Nat.mul_one]

theorem map_symbol_shown (h : g.Shows width line shown row) :
    shown.map Glyph.symbol =
      ((line.stretches.flatMap Styled.text).take width).map fun c => [c] := by
  have size := h.extent_eq_length printable
  have fits := h.fits
  obtain ⟨hidden, parts, full⟩ := h.cut
  rcases Nat.eq_zero_or_pos width with rfl | pos
  · have none : shown = [] := List.eq_nil_of_length_eq_zero (by omega)
    rw [none, List.take_zero]
    rfl
  · have whole : g.glyphsWithin width line.stretches = g.glyphs line.stretches := by
      refine List.filter_eq_self.mpr fun x mem => decide_eq_true ?_
      rw [columns_of_mem_glyphs printable mem]
      exact pos
    rw [whole] at parts
    rw [List.map_take, ← map_symbol_glyphs (g := g) printable, parts, List.map_append]
    cases hidden with
    | nil => rw [List.map_nil, List.append_nil, List.take_of_length_le (by simp; omega)]
    | cons next hidden =>
        have one : g.columns next.symbol = 1 :=
          columns_of_mem_glyphs printable (parts ▸ List.mem_append_cons_self)
        have stop := full next rfl
        rw [List.take_left' (by simp; omega)]

/-- Printable ASCII is cut to the width, or filled up with blanks. -/
theorem map_symbol (h : g.Shows width line shown row) :
    row.map Cell.symbol =
      ((line.stretches.flatMap Styled.text ++ List.replicate width ' ').take width).map
        fun c => [c] := by
  have cell : ∀ x ∈ shown, (g.cells line.under x).map Cell.symbol = [x.symbol] := by
    intro x mem
    rw [cells, columns_of_mem_glyphs printable (h.mem_glyphs mem)]
    rfl
  have symbols : (shown.flatMap (g.cells line.under)).map Cell.symbol = shown.map Glyph.symbol := by
    rw [List.map_flatMap, List.flatMap_congr cell, List.map_eq_flatMap]
  have first := h.map_symbol_shown printable
  have length := congrArg List.length first
  rw [List.length_map, List.length_map, List.length_take] at length
  rw [h.row_eq, List.map_append, symbols, first, h.extent_eq_length printable, List.take_append,
    List.map_append, List.take_replicate, List.map_replicate, List.map_replicate]
  congr 2
  omega

end Printable

end Shows

end Marginalia.Typography
