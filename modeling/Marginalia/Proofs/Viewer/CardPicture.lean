import Marginalia.Proofs.Margin.Rows
import Marginalia.Proofs.Viewer.Panes

/-! # Pictures of cards

A box is drawn as a frame and as rows within it, and both together are whole rows. A card in full is a
box of its lines with an edge above and below. Of a card that a pane cuts, the rows drawn are rows of
the card in full, each at its place.
-/

namespace Marginalia

namespace Frame

/-- A row of a box: an edge at either side and cells between them, cut to a width. -/
def edged (width : Nat) (left right : Char) (inside : List Cell) : List Cell :=
  ({ symbol := [left] } :: (Cell.fit (width - 2) inside ++ [{ symbol := [right] }])).take width

/-- The row of cells above or below a box with the given corners. -/
def edge (width : Nat) (left right : Char) : List Cell :=
  edged width left right (List.replicate (width - 2) { symbol := ['─'] })

variable {f : Frame} {width x k : Nat} {left right : Char}

theorem length_edged (width : Nat) (left right : Char) (inside : List Cell) :
    (edged width left right inside).length = width := by
  simp [edged, Cell.length_fit]
  omega

theorem getElem?_edged (within : x < width) (inside : List Cell) :
    (edged width left right inside)[x]? =
      some (if x = 0 then { symbol := [left] }
        else if x + 1 = width then { symbol := [right] } else (inside[x - 1]?).getD Cell.blank) := by
  rw [edged, List.getElem?_take_of_lt within]
  cases x with
  | zero => rfl
  | succ x =>
      rw [List.getElem?_cons_succ, if_neg (Nat.succ_ne_zero x), Nat.add_sub_cancel]
      by_cases last : x + 1 + 1 = width
      · have behind : x = (Cell.fit (width - 2) inside).length := by
          rw [Cell.length_fit]
          omega
        rw [if_pos last, behind, List.getElem?_concat_length]
      · rw [if_neg last, List.getElem?_append_left (by rw [Cell.length_fit]; omega),
          Cell.getElem?_fit (by omega)]

theorem getElem?_edge (within : x < width) :
    (edge width left right)[x]? =
      some (if x = 0 then { symbol := [left] }
        else if x + 1 = width then { symbol := [right] } else { symbol := ['─'] }) := by
  rw [edge, getElem?_edged within]
  split
  · rfl
  · split
    · rfl
    · rw [List.getElem?_replicate, if_pos (by omega), Option.getD_some]

theorem char?_eq (f : Frame) (x k : Nat) :
    f.char? (f.area.left + x) (f.area.top + k) =
      if f.above ∧ k = 0 then
        some (if x = 0 then '┌' else if x + 1 = f.area.width then '┐' else '─')
      else if f.below ∧ k + 1 = f.area.height then
        some (if x = 0 then '└' else if x + 1 = f.area.width then '┘' else '─')
      else if x = 0 ∨ x + 1 = f.area.width then some '│' else none := by
  have left : f.area.left + x = f.area.left ↔ x = 0 := by omega
  have right : f.area.left + x + 1 = f.area.left + f.area.width ↔ x + 1 = f.area.width := by omega
  have top : f.area.top + k = f.area.top ↔ k = 0 := by omega
  have bottom : f.area.top + k + 1 = f.area.top + f.area.height ↔ k + 1 = f.area.height := by omega
  simp only [char?, left, right, top, bottom]
  by_cases upper : f.above ∧ k = 0
  · by_cases first : x = 0 <;> by_cases last : x + 1 = f.area.width <;> simp [upper, first, last]
  · by_cases lower : f.below ∧ k + 1 = f.area.height
    · by_cases first : x = 0 <;> by_cases last : x + 1 = f.area.width <;>
        simp [upper, lower, first, last]
    · by_cases first : x = 0 <;> by_cases last : x + 1 = f.area.width <;>
        simp [upper, lower, first, last]

theorem contains_inner_iff (across : x < f.area.width) (down : k < f.area.height) :
    f.inner.contains (f.area.left + x) (f.area.top + k) ↔
      ¬ (f.above ∧ k = 0) ∧ ¬ (f.below ∧ k + 1 = f.area.height) ∧
        ¬ (x = 0 ∨ x + 1 = f.area.width) := by
  rw [Rect.contains_iff]
  simp only [inner]
  cases f.above <;> cases f.below <;> simp <;> omega

end Frame

/-- What is drawn of a card: a frame, and rows of cells within it. -/
structure Box where
  frame : Frame
  rows : List (List Cell)

namespace Box

/-- The layers that draw the box. -/
def layers (b : Box) : List Layer := [b.frame.layer, Layer.rows b.frame.inner b.rows]

/-- Row `k` of the box, counted from its own top. -/
def row (b : Box) (k : Nat) : List Cell :=
  if b.frame.above ∧ k = 0 then Frame.edge b.frame.area.width '┌' '┐'
  else if b.frame.below ∧ k + 1 = b.frame.area.height then Frame.edge b.frame.area.width '└' '┘'
  else Frame.edged b.frame.area.width '│' '│' ((b.rows[k - b.frame.above.toNat]?).getD [])

variable {b : Box} {x k y : Nat}

/-- A box is drawn as its rows. -/
theorem getD_cell?_layers (across : x < b.frame.area.width) (down : k < b.frame.area.height) :
    ((Layer.stack b.layers).cell? (b.frame.area.left + x) (b.frame.area.top + k)).getD Cell.blank =
      ((b.row k)[x]?).getD Cell.blank := by
  have inside : b.frame.area.contains (b.frame.area.left + x) (b.frame.area.top + k) :=
    Rect.contains_add across down
  rw [layers, Layer.cell?_stack_pair, Frame.cell?_layer_of_contains inside, Frame.char?_eq, row]
  have within := Frame.contains_inner_iff across down
  by_cases upper : b.frame.above ∧ k = 0
  · rw [Layer.cell?_rows_of_not_contains (fun inner => (within.mp inner).1 upper), if_pos upper,
      if_pos upper, Frame.getElem?_edge across]
    split
    · rfl
    · split <;> rfl
  · rw [if_neg upper, if_neg upper]
    by_cases lower : b.frame.below ∧ k + 1 = b.frame.area.height
    · rw [Layer.cell?_rows_of_not_contains (fun inner => (within.mp inner).2.1 lower), if_pos lower,
        if_pos lower, Frame.getElem?_edge across]
      split
      · rfl
      · split <;> rfl
    · rw [if_neg lower, if_neg lower, Frame.getElem?_edged across]
      by_cases side : x = 0 ∨ x + 1 = b.frame.area.width
      · rw [Layer.cell?_rows_of_not_contains (fun inner => (within.mp inner).2.2 side), if_pos side]
        split
        · rfl
        · next notFirst =>
            rw [if_pos (side.resolve_left notFirst)]
            rfl
      · have place : b.frame.area.left + x - b.frame.inner.left = x - 1 := by
          simp only [Frame.inner]
          omega
        have line : b.frame.area.top + k - b.frame.inner.top = k - b.frame.above.toNat := by
          simp only [Frame.inner]
          omega
        rw [Layer.cell?_rows_of_contains (within.mpr ⟨upper, lower, side⟩), if_neg side,
          if_neg (not_or.mp side).1, if_neg (not_or.mp side).2, place, line]
        cases b.rows[k - b.frame.above.toNat]? <;> simp

/-- A box says nothing of what is outside its frame. -/
theorem silent_of_not_contains (outside : ¬ b.frame.area.contains x y) :
    ∀ l ∈ b.layers, l.cell? x y = none :=
  Frame.silent_of_not_contains outside b.rows

end Box

theorem rowCount_ofNat {n : Nat} (few : n ≤ 65535) : rowCount (Coord.ofNat n : Exact) = n := by
  rw [rowCount, Exact.truncate_ofNat, Coord.countLimit]
  omega

namespace RowCard

variable {g : Typography} {c : RowCard} {pane : Rect} {scroll x k : Nat} {lines : List (List Styled)}

/-- The card with its text in full, row by row. -/
def picture (g : Typography) (width : Nat) (lines : List (List Styled)) : List (List Cell) :=
  let set (line : List Styled) := g.setLine (width - 2) { stretches := line }
  Frame.edge width '┌' '┐' ::
    (lines.map (fun line => Frame.edged width '│' '│' (set line)) ++ [Frame.edge width '└' '┘'])

theorem length_picture (g : Typography) (width : Nat) (lines : List (List Styled)) :
    (picture g width lines).length = lines.length + 2 := by
  simp [picture]

theorem length_of_mem_picture {width : Nat} {row : List Cell} (mem : row ∈ picture g width lines) :
    row.length = width := by
  simp only [picture, List.mem_cons, List.mem_append, List.mem_map, List.not_mem_nil, or_false] at mem
  rcases mem with rfl | ⟨line, -, rfl⟩ | rfl
  · exact Frame.length_edged _ _ _ _
  · exact Frame.length_edged _ _ _ _
  · exact Frame.length_edged _ _ _ _

theorem getElem?_picture_line {width r : Nat} {line : List Styled} (here : lines[r]? = some line) :
    (picture g width lines)[r + 1]? =
      some (Frame.edged width '│' '│' (g.setLine (width - 2) { stretches := line })) := by
  have within : r < lines.length := (List.getElem?_eq_some_iff.mp here).1
  rw [picture, List.getElem?_cons_succ, List.getElem?_append_left (by simpa using within),
    List.getElem?_map, here, Option.map_some]

theorem getElem?_picture_last (g : Typography) (width : Nat) (lines : List (List Styled)) :
    (picture g width lines)[lines.length + 1]? = some (Frame.edge width '└' '┘') := by
  simp [picture]

/-- Whether the card takes a row of a pane that begins with row `scroll`. -/
def Shows (pane : Rect) (scroll : Nat) (c : RowCard) : Prop :=
  max c.top scroll < min c.stop (scroll + pane.height)

instance (pane : Rect) (scroll : Nat) : DecidablePred (Shows pane scroll) := fun _ =>
  inferInstanceAs (Decidable (_ < _))

/-- Whether the card takes row `y` of the canvas. -/
def Takes (y : Nat) (c : RowCard) : Prop :=
  c.top ≤ y ∧ y < c.stop

instance (y : Nat) : DecidablePred (Takes y) := fun _ => inferInstanceAs (Decidable (_ ∧ _))

/-- Of cards one below the other at most one takes a row. -/
theorem not_takes_of_pairwise {front back : List RowCard} {y : Nat}
    (apart : (front ++ c :: back).Pairwise fun a b => a.stop ≤ b.top) (takes : c.Takes y) :
    (∀ a ∈ front, ¬ a.Takes y) ∧ ∀ a ∈ back, ¬ a.Takes y := by
  obtain ⟨-, rest, before⟩ := List.pairwise_append.mp apart
  obtain ⟨behind, -⟩ := List.pairwise_cons.mp rest
  refine ⟨fun a earlier there => ?_, fun a later there => ?_⟩
  · exact absurd (takes.1.trans_lt there.2) (before a earlier c List.mem_cons_self).not_gt
  · exact absurd (there.1.trans_lt takes.2) (behind a later).not_gt

/-- The frame in which the card is drawn: the part of it in the pane, with the edges that are. -/
def window (pane : Rect) (scroll : Nat) (c : RowCard) : Frame where
  area := ⟨pane.left, pane.top + (c.top - scroll), pane.width,
    min c.stop (scroll + pane.height) - max c.top scroll⟩
  above := decide (scroll ≤ c.top)
  below := decide (c.stop ≤ scroll + pane.height)

/-- The lines in that frame: those behind the lines that are cut off. -/
def rowsWithin (g : Typography) (pane : Rect) (scroll : Nat) (lines : List (List Styled))
    (c : RowCard) : List (List Cell) :=
  ((lines.drop (scroll - c.top - 1)).take (c.window pane scroll).inner.height).map fun line =>
    g.setLine (pane.width - 2) { stretches := line }

/-- What a pane that begins with row `scroll` has of the card. -/
def box (g : Typography) (pane : Rect) (scroll : Nat) (lines : List (List Styled)) (c : RowCard) :
    Box where
  frame := c.window pane scroll
  rows := c.rowsWithin g pane scroll lines

/-- A card that takes a row of the pane shows in it. -/
theorem Takes.shows (takes : c.Takes (scroll + k)) (within : k < pane.height) :
    c.Shows pane scroll := by
  obtain ⟨top, bottom⟩ := takes
  unfold Shows
  omega

theorem layers_card (reaches : scroll < c.stop) (low : pane.height ≤ 65535)
    (short : c.height ≤ 65537) :
    c.card.layers g pane (Coord.ofNat scroll) lines =
      if c.Shows pane scroll then (c.box g pane scroll lines).layers else [] := by
  have bottom : (c.card.bottom - Coord.ofNat scroll : Exact) = Coord.ofNat (c.stop - scroll) := by
    rw [bottom_card, Exact.sub_ofNat reaches.le]
  have top : (c.card.top : Exact) = Coord.ofNat c.top := rfl
  have shows_iff : min (c.stop - scroll) pane.height ≤ c.top - scroll ↔ ¬ c.Shows pane scroll := by
    unfold Shows
    omega
  unfold Card.layers
  simp only [bottom, top, Exact.larger_sub_zero, Exact.smaller_ofNat, Exact.le_ofNat,
    Exact.le_zero_sub, Exact.lt_sub_zero, decide_eq_true_eq, shows_iff]
  by_cases shows : c.Shows pane scroll
  · have order : max c.top scroll < min c.stop (scroll + pane.height) := shows
    have first : rowCount (Coord.ofNat (c.top - scroll) : Exact) = c.top - scroll :=
      rowCount_ofNat (by omega)
    have size : rowCount (Coord.ofNat (min (c.stop - scroll) pane.height) -
          Coord.ofNat (c.top - scroll) : Exact) =
        min c.stop (scroll + pane.height) - max c.top scroll := by
      rw [Exact.sub_ofNat (by omega), rowCount_ofNat (by omega)]
      omega
    have below : (c.stop - scroll ≤ pane.height) = (c.stop ≤ scroll + pane.height) := by
      rw [Nat.sub_le_iff_le_add']
    have hidden : (if c.top < scroll then
        rowCount (Coord.zero - (Coord.ofNat c.top - Coord.ofNat scroll) - Coord.ofNat 1 : Exact)
        else 0) = scroll - c.top - 1 := by
      by_cases cut : c.top < scroll
      · have less : c.top + c.height = c.stop := rfl
        rw [if_pos cut, Exact.zero_sub_sub cut.le, Exact.sub_ofNat (by omega),
          rowCount_ofNat (by omega)]
      · rw [if_neg cut]
        omega
    rw [if_neg (not_not.mpr shows), if_pos shows]
    simp only [first, size, below, hidden]
    rfl
  · rw [if_pos shows, if_neg shows]

theorem getElem?_rowsWithin {n r : Nat} {line : List Styled}
    (within : n < (c.window pane scroll).inner.height) (place : scroll - c.top - 1 + n = r)
    (here : lines[r]? = some line) :
    (c.rowsWithin g pane scroll lines)[n]? =
      some (g.setLine (pane.width - 2) { stretches := line }) := by
  rw [rowsWithin, List.getElem?_map, List.getElem?_take_of_lt within, List.getElem?_drop, place, here,
    Option.map_some]

/-- A row of the box in the pane is the row of the card in full that belongs there. -/
theorem getElem?_picture_box (full : c.height = lines.length + 2) (takes : c.Takes (scroll + k))
    (within : k < pane.height) :
    (picture g pane.width lines)[scroll + k - c.top]? =
      some ((c.box g pane scroll lines).row (k - (c.top - scroll))) := by
  obtain ⟨top, bottom⟩ := takes
  have stop : c.stop = c.top + lines.length + 2 := by
    rw [RowCard.stop, full, Nat.add_assoc]
  have upper : (c.window pane scroll).above ∧ k - (c.top - scroll) = 0 ↔ scroll + k = c.top := by
    simp [window]
    omega
  have lower : (c.window pane scroll).below ∧
      k - (c.top - scroll) + 1 = (c.window pane scroll).area.height ↔ scroll + k + 1 = c.stop := by
    simp [window]
    omega
  simp only [Box.row, box, upper, lower]
  by_cases first : scroll + k = c.top
  · rw [if_pos first, first, Nat.sub_self]
    rfl
  · rw [if_neg first]
    by_cases last : scroll + k + 1 = c.stop
    · have place : scroll + k - c.top = lines.length + 1 := by omega
      rw [if_pos last, place, getElem?_picture_last]
      rfl
    · -- Between the edges stands the line that as many rows of the card stand above.
      let r := scroll + k - c.top - 1
      have place : scroll + k - c.top = r + 1 := by omega
      have here : lines[r]? = some lines[r] := List.getElem?_eq_getElem (by omega)
      have inside : k - (c.top - scroll) - (c.window pane scroll).above.toNat <
          (c.window pane scroll).inner.height := by
        by_cases above : scroll ≤ c.top <;> by_cases below : c.stop ≤ scroll + pane.height <;>
          simp [window, Frame.inner, above, below] <;> omega
      have number :
          scroll - c.top - 1 + (k - (c.top - scroll) - (c.window pane scroll).above.toNat) = r := by
        by_cases above : scroll ≤ c.top <;> simp [window, above] <;> omega
      rw [if_neg last, place, getElem?_picture_line here, getElem?_rowsWithin inside number here]
      rfl

/-- A box says nothing of rows that the card does not take. -/
theorem silent_box (outside : ¬ c.Takes (scroll + k)) :
    ∀ l ∈ (c.box g pane scroll lines).layers, l.cell? x (pane.top + k) = none := by
  have notThere : ¬ (c.box g pane scroll lines).frame.area.contains x (pane.top + k) := by
    rw [Rect.contains_iff]
    simp only [box, window]
    unfold Takes at outside
    omega
  exact Box.silent_of_not_contains notThere

/-- A box in the pane is drawn as the rows of the card in full that belong there. -/
theorem getD_cell?_box {row : List Cell} (full : c.height = lines.length + 2)
    (takes : c.Takes (scroll + k)) (within : k < pane.height)
    (here : (picture g pane.width lines)[scroll + k - c.top]? = some row) (across : x < pane.width) :
    ((Layer.stack (c.box g pane scroll lines).layers).cell? (pane.left + x) (pane.top + k)).getD
        Cell.blank =
      (row[x]?).getD Cell.blank := by
  obtain rfl := Option.some.inj (here.symm.trans (getElem?_picture_box full takes within))
  obtain ⟨top, bottom⟩ := takes
  have place : pane.top + k = (c.window pane scroll).area.top + (k - (c.top - scroll)) := by
    simp only [window]
    omega
  rw [place]
  refine Box.getD_cell?_layers (b := c.box g pane scroll lines) across ?_
  simp only [box, window]
  omega

/-- The box of a card that shows has rows, all of them in the pane. -/
theorem area_box (shows : c.Shows pane scroll) :
    (c.box g pane scroll lines).frame.area.left = pane.left ∧
      (c.box g pane scroll lines).frame.area.width = pane.width ∧
      pane.top ≤ (c.box g pane scroll lines).frame.area.top ∧
      0 < (c.box g pane scroll lines).frame.area.height ∧
      (c.box g pane scroll lines).frame.area.top + (c.box g pane scroll lines).frame.area.height ≤
        pane.top + pane.height := by
  have order : max c.top scroll < min c.stop (scroll + pane.height) := shows
  simp only [box, window, true_and]
  omega

/-- The box of a card ends above the box of a card below it. -/
theorem area_box_le {below : RowCard} {lines' : List (List Styled)} (shows : c.Shows pane scroll)
    (le : c.stop ≤ below.top) :
    (c.box g pane scroll lines).frame.area.top + (c.box g pane scroll lines).frame.area.height ≤
      (below.box g pane scroll lines').frame.area.top := by
  have order : max c.top scroll < min c.stop (scroll + pane.height) := shows
  simp only [box, window]
  omega

end RowCard

end Marginalia
