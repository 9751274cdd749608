import Marginalia.Margin.Exact
import Marginalia.Proofs.Review.Soundness
import Marginalia.Proofs.Text.Lines
import Marginalia.Proofs.Thread.Partition
import Marginalia.Viewer.Basic

/-! # Offsets that an older text had

A host that measures in lines places a card at the line of its thread. An offset past the end is on
the last line, but an offset inside a character has no line, and threads of an older text may begin
at one. Threads of the text as it is begin at boundaries, on lines in their order.
-/

namespace Marginalia

theorem Item.length_place {α : Type} [Coord α] (gap : α) (items : List (Item α)) :
    (Item.place gap items).length = items.length := by
  have below (bottom : α) : (placeBelow gap bottom items).length = items.length := by
    induction items generalizing bottom with
    | nil => rfl
    | cons i items ih => exact congrArg (· + 1) (ih _)
  exact below Coord.negInf

namespace Layout

variable {α : Type} {threads : List Thread} {mapper? : Nat → Option α} {mapper : Nat → α}

/-- The item of a thread, if its start has a height. -/
def itemOf? (mapper? : Nat → Option α) (heights : Heights α) (spacing : Spacing α) (t : Thread) :
    Option (Item α) :=
  (mapper? t.start).map fun target => ⟨target, heights.getD t.start spacing.defaultHeight⟩

theorem mapM_itemOf? (heights : Heights α) (spacing : Spacing α)
    (placed : ∀ t ∈ threads, mapper? t.start = some (mapper t.start)) :
    threads.mapM (itemOf? mapper? heights spacing) =
      some (threads.map (itemOf mapper heights spacing)) := by
  induction threads with
  | nil => rfl
  | cons t threads ih =>
      obtain ⟨here, later⟩ := List.forall_mem_cons.mp placed
      have item : itemOf? mapper? heights spacing t = some (itemOf mapper heights spacing t) := by
        rw [itemOf?, here]
        rfl
      rw [List.mapM_cons, item, ih later]
      rfl

section Place

variable [Coord α]

/-- One card per thread, placed by the items of the threads. -/
def ofItems (threads : List Thread) (spacing : Spacing α) (host : α) (items : List (Item α)) :
    Layout α :=
  let tops := Item.place spacing.gap items
  let cards : List (Card α) :=
    (threads.zip (items.zip tops)).map fun (t, i, top) => ⟨t.start, i.target, top, i.height⟩
  let bottom := bottomOf cards
  ⟨cards, sharedHeightFor host bottom spacing.padding, hostPaddingFor host bottom spacing.padding⟩

/-- One card per thread, if every thread has an item. -/
def ofThreads? (threads : List Thread) (mapper? : Nat → Option α) (heights : Heights α)
    (spacing : Spacing α) (host : α) : Option (Layout α) :=
  (threads.mapM (itemOf? mapper? heights spacing)).map (ofItems threads spacing host)

variable (heights : Heights α) (spacing : Spacing α) (host : α)

theorem ofThreads_eq_ofItems :
    ofThreads threads mapper heights spacing host =
      ofItems threads spacing host (threads.map (itemOf mapper heights spacing)) := rfl

theorem ofThreads?_eq_some (placed : ∀ t ∈ threads, mapper? t.start = some (mapper t.start)) :
    ofThreads? threads mapper? heights spacing host =
      some (ofThreads threads mapper heights spacing host) := by
  rw [ofThreads?, mapM_itemOf? heights spacing placed, Option.map_some, ofThreads_eq_ofItems]

theorem ofThreads?_eq_none {t : Thread} (mem : t ∈ threads) (unplaced : mapper? t.start = none) :
    ofThreads? threads mapper? heights spacing host = none := by
  rw [ofThreads?, Option.map_eq_none_iff]
  induction threads with
  | nil => cases mem
  | cons u threads ih =>
      rw [List.mapM_cons]
      rcases List.mem_cons.mp mem with rfl | later
      · rw [itemOf?, unplaced]
        rfl
      · rw [ih later]
        cases itemOf? mapper? heights spacing u <;> rfl

/-- Threads cannot be laid out when one of them has no place. -/
theorem ofThreads?_eq_none_iff :
    ofThreads? threads mapper? heights spacing host = none ↔
      ∃ t ∈ threads, mapper? t.start = none := by
  constructor
  · intro failed
    by_contra! placed
    let mapper offset := (mapper? offset).getD Coord.zero
    have known : ∀ t ∈ threads, mapper? t.start = some (mapper t.start) := by
      intro t mem
      obtain ⟨height, here⟩ := Option.ne_none_iff_exists'.mp (placed t mem)
      simp [mapper, here]
    have made := ofThreads?_eq_some heights spacing host known
    rw [failed] at made
    cases made
  · intro h
    obtain ⟨t, mem, unplaced⟩ := h
    exact ofThreads?_eq_none heights spacing host mem unplaced

theorem map_target_ofThreads :
    (ofThreads threads mapper heights spacing host).cards.map Card.target =
      threads.map fun t => mapper t.start := by
  let items := threads.map (itemOf mapper heights spacing)
  let tops := Item.place spacing.gap items
  have each : tops.length = items.length := Item.length_place spacing.gap items
  have count : (items.zip tops).length = threads.length := by simp [each, items]
  calc
    (ofThreads threads mapper heights spacing host).cards.map Card.target =
        (threads.zip (items.zip tops)).map (Item.target ∘ Prod.fst ∘ Prod.snd) := by
      rw [ofThreads, List.map_map]
      rfl
    _ = items.map Item.target := by
      rw [← List.map_map, ← List.map_map, List.map_snd_zip count.le, List.map_fst_zip each.ge]
    _ = threads.map fun t => mapper t.start := List.map_map

end Place

end Layout

namespace Document

section Lines

variable {d : Document} {offset : Nat}

/-- Height of an offset in lines, if it has one. -/
def mapper? {α : Type} [Coord α] (d : Document) (offset : Nat) : Option α :=
  (d.lineOf? offset).map Coord.ofNat

theorem lineOf?_eq_none_iff : d.lineOf? offset = none ↔ d.text.Splits offset := by
  rw [lineOf?, Text.lineOf?_eq_none_iff, Text.splits_iff, length]
  rcases Nat.lt_or_ge offset d.text.byteLength with inside | beyond
  · rw [Nat.min_eq_left (Nat.le_of_lt inside)]
    exact (and_iff_right inside).symm
  · have last : d.text.isBoundary d.text.byteLength := by
      simpa using Text.isBoundary_append d.text []
    rw [Nat.min_eq_right beyond]
    exact ⟨fun h => absurd last h, fun h => absurd h.1 (Nat.not_lt.mpr beyond)⟩

/-- Line ends count up to the offset, or up to the end of the text. -/
theorem lineOf?_eq_some (whole : ¬ d.text.Splits offset) :
    d.lineOf? offset = some (Text.newlines (d.text.takeWithin offset)) := by
  have boundary : d.text.isBoundary (min offset d.length) := by
    by_contra inside
    exact whole (lineOf?_eq_none_iff.mp (Text.lineOf?_eq_none_iff.mpr inside))
  rw [lineOf?, Text.lineOf?_of_isBoundary boundary, length, Text.takeWithin_min]

theorem lineOf?_mono {first last line line' : Nat} (le : first ≤ last)
    (here : d.lineOf? first = some line) (there : d.lineOf? last = some line') : line ≤ line' := by
  have whole {offset line : Nat} (known : d.lineOf? offset = some line) :
      line = Text.newlines (d.text.takeWithin offset) := by
    have outside : ¬ d.text.Splits offset := by
      rw [← lineOf?_eq_none_iff, known]
      exact Option.some_ne_none line
    exact Option.some.inj (known.symm.trans (lineOf?_eq_some outside))
  rw [whole here, whole there]
  exact Text.newlines_takeWithin_mono d.text le

theorem isBoundary_start {t : Thread} (mem : t ∈ d.threads) : d.text.isBoundary t.start := by
  have root : t.root ∈ Markup.parse d.text := (Thread.mem_of_mem_group mem List.mem_cons_self).1
  exact (Markup.liesIn_of_mem_parse root).full_boundaries.1

theorem lineOf?_start {t : Thread} (mem : t ∈ d.threads) :
    d.lineOf? t.start = some (Text.newlines (d.text.takeWithin t.start)) :=
  lineOf?_eq_some fun inside => (Text.splits_iff.mp inside).2 (isBoundary_start mem)

theorem pairwise_start_threads (d : Document) :
    d.threads.Pairwise fun t u => t.start < u.start :=
  Thread.pairwise_root_group (Markup.pairwise_start_lt d.text)

/-- The heights of the lines that the threads of a document begin on. -/
theorem ofThreads?_threads {α : Type} [Coord α] (d : Document) (heights : Heights α)
    (spacing : Spacing α) (host : α) :
    Layout.ofThreads? d.threads d.mapper? heights spacing host =
      some (Layout.ofThreads d.threads d.mapper heights spacing host) := by
  refine Layout.ofThreads?_eq_some heights spacing host fun t mem => ?_
  rw [mapper?, mapper, lineOf?_start mem]
  rfl

theorem map_target_threads {α : Type} [Coord α] (d : Document) (heights : Heights α)
    (spacing : Spacing α) (host : α) :
    (Layout.ofThreads d.threads d.mapper heights spacing host).cards.map Card.target =
      d.threads.map fun t => Coord.ofNat (Text.newlines (d.text.takeWithin t.start)) := by
  rw [Layout.map_target_ofThreads]
  refine List.map_congr_left fun t mem => ?_
  rw [mapper, lineOf?_start mem, Option.getD_some]

/-- An offset has a line unless it lies inside a character: as many line ends as stand in front of
    it, past the end as many as there are; further on there are no fewer. Threads can be laid out
    along the lines unless one begins inside a character. The threads of the document itself always
    can, and their cards want to be at lines in ascending order. -/
theorem lines_of_offsets {α : Type} [Coord α] (d : Document) :
    (∀ offset, d.lineOf? offset = none ↔ d.text.Splits offset) ∧
      (∀ offset, ¬ d.text.Splits offset →
        d.lineOf? offset = some (Text.newlines (d.text.takeWithin offset))) ∧
      (∀ first last line line', first ≤ last → d.lineOf? first = some line →
        d.lineOf? last = some line' → line ≤ line') ∧
      (∀ (threads : List Thread) (heights : Heights α) (spacing : Spacing α) (host : α),
        Layout.ofThreads? threads d.mapper? heights spacing host = none ↔
          ∃ t ∈ threads, d.text.Splits t.start) ∧
      ∀ (heights : Heights α) (spacing : Spacing α) (host : α), ∃ (l : Layout α) (lines : List Nat),
        Layout.ofThreads? d.threads d.mapper? heights spacing host = some l ∧
          l.cards.map Card.target = lines.map Coord.ofNat ∧ lines.Pairwise (· ≤ ·) := by
  refine ⟨fun offset => lineOf?_eq_none_iff, fun offset => lineOf?_eq_some,
    fun first last line line' => lineOf?_mono,
    fun threads heights spacing host => ?stale, fun heights spacing host => ?fresh⟩
  case stale =>
    rw [Layout.ofThreads?_eq_none_iff]
    refine exists_congr fun t => and_congr_right fun _ => ?_
    rw [mapper?, Option.map_eq_none_iff, lineOf?_eq_none_iff]
  case fresh =>
    refine ⟨_, d.threads.map fun t => Text.newlines (d.text.takeWithin t.start),
      d.ofThreads?_threads heights spacing host, ?_, ?_⟩
    · rw [map_target_threads, List.map_map]
      rfl
    · refine List.pairwise_map.mpr (d.pairwise_start_threads.imp fun before => ?_)
      exact Text.newlines_takeWithin_mono d.text (Nat.le_of_lt before)

/-- Behind an accented letter and its line end a comment stands on the second line. An offset inside
    the letter has no line, and a thread that begins there no place. -/
theorem lines_of_offsets_behind_accent :
    let d := ofText (['é', '\n'] ++ Kind.comment.wrap ['x'])
    let stale : Thread := ⟨⟨⟨1, 8⟩, ⟨4, 5⟩, ['y'], .comment none⟩, []⟩
    (d.text.Splits 1 ∧ d.lineOf? 1 = none) ∧
      (¬ d.text.Splits 3 ∧ d.lineOf? 3 = some 1 ∧ d.lineOf? 99 = some 1) ∧
      Layout.ofThreads? [stale] d.mapper? {} (Spacing.standard : Spacing Exact) (.finite 9) = none ∧
      ∃ (l : Layout Exact) (lines : List Nat),
        Layout.ofThreads? d.threads d.mapper? {} Spacing.standard (.finite 9) = some l ∧
          l.cards.map Card.target = lines.map Coord.ofNat ∧ lines.Pairwise (· ≤ ·) := by
  intro d stale
  obtain ⟨unknown, known, -, placed, fresh⟩ := lines_of_offsets (α := Exact) d
  have inside : d.text.Splits 1 :=
    ⟨[], 'é', '\n' :: Kind.comment.wrap ['x'], rfl, by decide, by decide⟩
  have outside : ¬ d.text.Splits 3 := mt Text.splits_iff.mp (by decide)
  have line : Text.newlines (d.text.takeWithin 3) = 1 := by decide
  have past : ¬ d.text.Splits 99 := mt Text.splits_iff.mp (by decide)
  have lines : Text.newlines (d.text.takeWithin 99) = 1 := by decide
  exact ⟨⟨inside, (unknown 1).mpr inside⟩,
    ⟨outside, line ▸ known 3 outside, lines ▸ known 99 past⟩,
    (placed [stale] {} Spacing.standard (.finite 9)).mpr ⟨stale, List.mem_cons_self, inside⟩,
    fresh {} Spacing.standard (.finite 9)⟩

/-- An older text has a comment behind one letter, where the letter of the text as it is has its
    second byte. -/
theorem lineOf?_eq_none_of_stale :
    let d := ofText ['é']
    let older := ofText ('a' :: Kind.comment.wrap ['b'])
    older.threads.map Thread.start = [1] ∧ d.lineOf? 1 = none ∧
      Layout.ofThreads? older.threads d.mapper? {} (Spacing.standard : Spacing Exact) (.finite 1) =
        none := by
  intro d older
  exact ⟨by decide +kernel, by decide +kernel,
    Option.isNone_iff_eq_none.mp (by decide +kernel)⟩

end Lines

end Document

end Marginalia
