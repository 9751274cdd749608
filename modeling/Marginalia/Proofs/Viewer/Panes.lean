import Marginalia.Viewer.Drawing

/-! # What a pane shows

Layers of one pane say nothing of places in another. Within its frame a pane shows nothing but what it
is there for, and of that as much as there is room.
-/

namespace Marginalia

theorem Rect.contains_iff {r : Rect} {x y : Nat} :
    r.contains x y ↔ (r.left ≤ x ∧ x < r.left + r.width) ∧ r.top ≤ y ∧ y < r.top + r.height := by
  simp [contains, and_assoc]

theorem Rect.contains_add {r : Rect} {x y : Nat} (across : x < r.width) (down : y < r.height) :
    r.contains (r.left + x) (r.top + y) :=
  contains_iff.mpr (by omega)

namespace Cell

/-- Cells cut to a width, or filled up to it. -/
def fit (width : Nat) (cells : List Cell) : List Cell :=
  (cells ++ List.replicate width blank).take width

theorem length_fit (width : Nat) (cells : List Cell) : (fit width cells).length = width := by
  simp [fit]

theorem getElem?_fit {width x : Nat} (within : x < width) (cells : List Cell) :
    (fit width cells)[x]? = some ((cells[x]?).getD blank) := by
  rw [fit, List.getElem?_take_of_lt within]
  cases here : cells[x]? with
  | some cell =>
      have inside : x < cells.length := (List.getElem?_eq_some_iff.mp here).1
      rw [List.getElem?_append_left inside, here, Option.getD_some]
  | none =>
      have behind : cells.length ≤ x := List.getElem?_eq_none_iff.mp here
      rw [List.getElem?_append_right behind, List.getElem?_replicate, if_pos (by omega),
        Option.getD_none]

theorem fit_of_length {width : Nat} {cells : List Cell} (exact : cells.length = width) :
    fit width cells = cells := by
  rw [fit, List.take_append_of_le_length (by omega), List.take_of_length_le (by omega)]

theorem fit_nil (width : Nat) : fit width [] = List.replicate width blank := by
  simp [fit]

end Cell

namespace Layer

variable {layers front shown back : List Layer} {r : Rect} {x y : Nat}

/-- Of several layers the one drawn last that says something counts. -/
theorem cell?_stack (layers : List Layer) (x y : Nat) :
    (stack layers).cell? x y = layers.reverse.findSome? fun l => l.cell? x y := by
  have onTop (base : Layer) : (layers.foldl (fun drawn l => l.covering drawn) base).cell? x y =
      (layers.reverse.findSome? fun l => l.cell? x y).or (base.cell? x y) := by
    induction layers generalizing base with
    | nil => rfl
    | cons l layers ih =>
        rw [List.foldl_cons, ih]
        simp [covering, List.findSome?_append, Option.or_assoc]
  rw [stack, onTop, empty, Option.or_none]

theorem cell?_stack_eq_none (silent : ∀ l ∈ layers, l.cell? x y = none) :
    (stack layers).cell? x y = none := by
  rw [cell?_stack, List.findSome?_eq_none_iff]
  exact fun l mem => silent l (List.mem_reverse.mp mem)

theorem cell?_stack_of_silent (below : ∀ l ∈ front, l.cell? x y = none)
    (above : ∀ l ∈ back, l.cell? x y = none) :
    (stack (front ++ shown ++ back)).cell? x y = (stack shown).cell? x y := by
  have below' := cell?_stack_eq_none below
  have above' := cell?_stack_eq_none above
  rw [cell?_stack] at below' above'
  simp [cell?_stack, List.findSome?_append, below', above']

theorem cell?_stack_singleton (l : Layer) : (stack [l]).cell? x y = l.cell? x y := by
  simp [cell?_stack]

theorem cell?_stack_pair (below above : Layer) :
    (stack [below, above]).cell? x y = (above.cell? x y).or (below.cell? x y) := by
  cases here : above.cell? x y <;> simp [cell?_stack, here]

theorem cell?_rows_of_contains (inside : r.contains x y) (lines : List (List Cell)) :
    (rows r lines).cell? x y = (lines[y - r.top]?).bind (·[x - r.left]?) := if_pos inside

theorem cell?_rows_of_not_contains (outside : ¬ r.contains x y) (lines : List (List Cell)) :
    (rows r lines).cell? x y = none := if_neg outside

end Layer

namespace Frame

variable {f : Frame} {x y : Nat}

theorem contains_area_of_inner (inside : f.inner.contains x y) : f.area.contains x y := by
  rw [Rect.contains_iff] at inside ⊢
  simp only [inner] at inside
  omega

theorem cell?_layer_of_contains (inside : f.area.contains x y) :
    f.layer.cell? x y = (f.char? x y).map fun c => { symbol := [c] } := if_pos inside

theorem cell?_layer_of_not_contains (outside : ¬ f.area.contains x y) :
    f.layer.cell? x y = none := if_neg outside

/-- A box, a frame and what is in it, says nothing outside its area. -/
theorem silent_of_not_contains (outside : ¬ f.area.contains x y) (lines : List (List Cell)) :
    ∀ l ∈ [f.layer, Layer.rows f.inner lines], l.cell? x y = none := by
  simp [cell?_layer_of_not_contains outside,
    Layer.cell?_rows_of_not_contains (mt contains_area_of_inner outside)]

theorem char?_of_inner (inside : f.inner.contains x y) : f.char? x y = none := by
  obtain ⟨⟨left, right⟩, top, bottom⟩ := Rect.contains_iff.mp inside
  simp only [inner] at left right top bottom
  have notLeft : ¬ x = f.area.left := by omega
  have notRight : ¬ x + 1 = f.area.left + f.area.width := by omega
  cases above : f.above <;> cases below : f.below <;> simp [above, below] at top bottom <;>
    simp [char?, above, below, notLeft, notRight] <;> omega

theorem cell?_layer_of_inner (inside : f.inner.contains x y) : f.layer.cell? x y = none := by
  rw [layer]
  simp [char?_of_inner inside]

theorem cell?_title_of_not_contains (outside : ¬ f.area.contains x y) (g : Typography) (t : Text) :
    (f.title g t).cell? x y = none := by
  refine Layer.cell?_rows_of_not_contains (fun inside => outside ?_) _
  rw [Rect.contains_iff] at inside ⊢
  dsimp only at inside
  omega

/-- Under its upper edge a frame has no title. -/
theorem cell?_title_of_inner (edged : f.above) (inside : f.inner.contains x y) (g : Typography)
    (t : Text) : (f.title g t).cell? x y = none := by
  refine Layer.cell?_rows_of_not_contains (fun edge => ?_) _
  rw [Rect.contains_iff] at inside edge
  simp [inner, edged] at inside edge
  omega

theorem silent_of_inner (edged : f.above) (inside : f.inner.contains x y) (g : Typography)
    (t : Text) : ∀ l ∈ [f.layer, f.title g t], l.cell? x y = none := by
  simp [cell?_layer_of_inner inside, cell?_title_of_inner edged inside]

end Frame

namespace Screen

variable {g : Typography} {s : Screen} {r : Rect} {k : Nat}

/-- The cells of a row of a rectangle. -/
def rowOf (g : Typography) (s : Screen) (r : Rect) (k : Nat) : List Cell :=
  (List.range r.width).map fun x => s.cell g (r.left + x) (r.top + k)

theorem rowOf_eq_fit {cells : List Cell}
    (each : ∀ x, x < r.width → s.cell g (r.left + x) (r.top + k) = (cells[x]?).getD Cell.blank) :
    s.rowOf g r k = Cell.fit r.width cells := by
  refine List.ext_getElem? fun x => ?_
  by_cases within : x < r.width
  · rw [rowOf, List.getElem?_map, List.getElem?_range within, Option.map_some,
      Cell.getElem?_fit within, each x within]
  · have beyond := Nat.not_lt.mp within
    rw [List.getElem?_eq_none (by simpa [rowOf] using beyond),
      List.getElem?_eq_none (by simpa [Cell.length_fit] using beyond)]

end Screen

variable {α : Type} {g : Typography}

theorem Viewer.cell?_documentLayers_of_not_contains {v : Viewer α} {f : Frame} {l : Layer} {x y : Nat}
    (mem : l ∈ v.documentLayers g f)
    (outside : ¬ f.area.contains x y) : l.cell? x y = none := by
  simp only [documentLayers, List.mem_cons, List.not_mem_nil, or_false] at mem
  rcases mem with rfl | rfl | rfl
  · exact Frame.cell?_layer_of_not_contains outside
  · exact Frame.cell?_title_of_not_contains outside _ _
  · exact Layer.cell?_rows_of_not_contains (mt Frame.contains_area_of_inner outside) _

variable [Coord α]

/-- A card is drawn between the left and the right of its pane. -/
theorem Card.cell?_layers_of_beside {pane : Rect} {scroll : α} {lines : List (List Styled)}
    {c : Card α} {l : Layer} (mem : l ∈ c.layers g pane scroll lines) {x y : Nat}
    (beside : ¬ (pane.left ≤ x ∧ x < pane.left + pane.width)) : l.cell? x y = none := by
  unfold layers at mem
  simp only at mem
  split at mem
  · cases mem
  · exact Frame.silent_of_not_contains (fun inside => beside (Rect.contains_iff.mp inside).1) _ l mem

namespace Viewer

variable (v : Viewer α) {width height x y : Nat}

/-- The layers of the visible cards. -/
def cardLayers (g : Typography) (pane : Rect) (cardWidth : Nat) (v : Viewer α) : List Layer :=
  (v.margin.visibleCards (Coord.ofNat pane.height)).flatMap fun c =>
    match v.document.threads.find? (·.start == c.root) with
    | none => []
    | some t => c.layers g pane v.margin.scrollTop (t.cardLines cardWidth)

theorem marginLayers_eq (g : Typography) (f : Frame) (cardWidth : Nat) :
    v.marginLayers g f cardWidth =
      [f.layer, f.title g "Comments".toList] ++ v.cardLayers g f.inner cardWidth := rfl

theorem cell?_cardLayers_of_beside {pane : Rect} {cardWidth : Nat} {l : Layer}
    (mem : l ∈ v.cardLayers g pane cardWidth)
    (beside : ¬ (pane.left ≤ x ∧ x < pane.left + pane.width)) : l.cell? x y = none := by
  obtain ⟨c, -, own⟩ := List.mem_flatMap.mp mem
  split at own
  · cases own
  · exact Card.cell?_layers_of_beside own beside

theorem cell?_marginLayers_of_not_contains {f : Frame} {cardWidth : Nat} {l : Layer}
    (mem : l ∈ v.marginLayers g f cardWidth)
    (beside : ¬ (f.area.left ≤ x ∧ x < f.area.left + f.area.width)) : l.cell? x y = none := by
  have outside : ¬ f.area.contains x y := fun inside => beside (Rect.contains_iff.mp inside).1
  rw [marginLayers_eq] at mem
  rcases List.mem_append.mp mem with own | card
  · rcases List.mem_cons.mp own with rfl | title
    · exact Frame.cell?_layer_of_not_contains outside
    · obtain rfl := List.mem_singleton.mp title
      exact Frame.cell?_title_of_not_contains outside _ _
  · refine v.cell?_cardLayers_of_beside card fun between => beside ?_
    simp only [Frame.inner] at between
    omega

/-- The panes of the document and the margin stand side by side, and the status line below them. -/
theorem beside_of_contains_document (inside : (Panes.ofSize width height).document.area.contains x y) :
    ¬ ((Panes.ofSize width height).margin.area.left ≤ x) ∧
      ¬ (Panes.ofSize width height).status.contains x y := by
  rw [Rect.contains_iff] at inside ⊢
  simp only [Panes.ofSize] at inside ⊢
  omega

theorem beside_of_contains_margin (inside : (Panes.ofSize width height).margin.area.contains x y) :
    ¬ (Panes.ofSize width height).document.area.contains x y ∧
      ¬ (Panes.ofSize width height).status.contains x y := by
  rw [Rect.contains_iff] at inside ⊢
  rw [Rect.contains_iff]
  simp only [Panes.ofSize] at inside ⊢
  omega

/-- Within its frame the document's pane shows lines of the document. -/
theorem cell_screen_of_document
    (inside : (Panes.ofSize width height).document.inner.contains x y) :
    (v.screen width height).cell g x y =
      ((Layer.rows (Panes.ofSize width height).document.inner
        ((v.documentLines v.paneScroll (Panes.ofSize width height).document.inner.height).map
          (g.setLine (Panes.ofSize width height).document.inner.width))).cell? x y).getD
        Cell.blank := by
  let f := (Panes.ofSize width height).document
  obtain ⟨notMargin, notStatus⟩ :=
    beside_of_contains_document (Frame.contains_area_of_inner inside)
  have below := Frame.silent_of_inner (f := f) rfl inside g v.title
  have above : ∀ l ∈ v.marginLayers g (Panes.ofSize width height).margin
      (Panes.ofSize width height).cardWidth ++ [v.statusLayer g (Panes.ofSize width height).status],
      l.cell? x y = none := by
    intro l mem
    rcases List.mem_append.mp mem with margin | status
    · exact v.cell?_marginLayers_of_not_contains margin fun between => notMargin between.1
    · obtain rfl := List.mem_singleton.mp status
      exact Layer.cell?_rows_of_not_contains notStatus _
  let lines := v.documentLines v.paneScroll f.inner.height
  let rows := Layer.rows f.inner (lines.map (g.setLine f.inner.width))
  have shown : (Layer.stack ([f.layer, f.title g v.title] ++ [rows] ++ _)).cell? x y = _ :=
    Layer.cell?_stack_of_silent below above
  rw [Layer.cell?_stack_singleton] at shown
  rw [Screen.cell, ← shown]
  simp [screen, documentLayers, f, rows, lines]

/-- Within its frame the margin's pane shows cards. -/
theorem cell_screen_of_margin (inside : (Panes.ofSize width height).margin.inner.contains x y) :
    (v.screen width height).cell g x y =
      ((Layer.stack (v.cardLayers g (Panes.ofSize width height).margin.inner
        (Panes.ofSize width height).cardWidth)).cell? x y).getD Cell.blank := by
  let f := (Panes.ofSize width height).margin
  obtain ⟨notDocument, notStatus⟩ :=
    beside_of_contains_margin (Frame.contains_area_of_inner inside)
  have below : ∀ l ∈ v.documentLayers g (Panes.ofSize width height).document ++
      [f.layer, f.title g "Comments".toList], l.cell? x y = none := by
    intro l mem
    rcases List.mem_append.mp mem with document | own
    · exact cell?_documentLayers_of_not_contains document notDocument
    · exact Frame.silent_of_inner rfl inside _ _ l own
  have above : ∀ l ∈ [v.statusLayer g (Panes.ofSize width height).status],
      l.cell? x y = none := by
    simp [statusLayer, Layer.cell?_rows_of_not_contains notStatus]
  rw [Screen.cell, ← Layer.cell?_stack_of_silent below above]
  simp [screen, marginLayers_eq, f]

end Viewer

end Marginalia
