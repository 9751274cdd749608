import Marginalia.CommandLine.Batch
import Marginalia.Proofs.Json.RoundTrip
import Marginalia.Proofs.Text.Lines

/-! # The lines of a listing

A listing has an entry for each token and for each thread, and ends every entry. Of an entry all but
what is shown of a payload or an author is without line ends. What is shown is shown as it is, with
the line ends that it has, and each of these begins a line that is no entry.
-/

namespace Marginalia

namespace Text

theorem newlines_preview (limit : Nat) (t : Text) :
    newlines (t.preview limit) = newlines (t.takeWithin limit) := by
  unfold preview
  split
  · next fits => rw [takeWithin_of_le fits]
  · rw [newlines_append]
    rfl

theorem newline_not_mem_ofNat (n : Nat) : '\n' ∉ Numeral.ofNat n := fun mem =>
  absurd (Numeral.isDigit_of_mem_ofNat mem) (by decide)

theorem mem_alignRight {c : Char} {width : Nat} {t : Text} (mem : c ∈ t.alignRight width) :
    c = ' ' ∨ c ∈ t := by
  rcases List.mem_append.mp mem with pad | inside
  · exact .inl (List.eq_of_mem_replicate pad)
  · exact .inr inside

theorem mem_alignLeft {c : Char} {width : Nat} {t : Text} (mem : c ∈ t.alignLeft width) :
    c = ' ' ∨ c ∈ t := by
  rcases List.mem_append.mp mem with inside | pad
  · exact .inr inside
  · exact .inl (List.eq_of_mem_replicate pad)

end Text

namespace Markup

/-- What stands in front of the summary in a token's entry: where it lies, and its kind. -/
def heading (m : Markup) : Text :=
  (Numeral.ofNat m.full.start).alignRight 6 ++ ['.', '.'] ++
    (Numeral.ofNat m.full.stop).alignLeft 6 ++ [' '] ++
    Text.alignLeft 12 m.kind.name.toList ++ [' ']

/-- What is shown of a token as it stands in the document: its payload or the halves of that, as far
    as there is room, and the author of a comment. -/
def displayed (m : Markup) : List Text :=
  match m.detail with
  | .substitution old new => [old.takeWithin 30, new.takeWithin 30]
  | .comment (some d) => [d.author, m.content.takeWithin 50]
  | _ => [m.content.takeWithin 60]

theorem listing_eq (m : Markup) : m.listing = m.heading ++ m.summary := rfl

theorem newline_not_mem_heading (m : Markup) : '\n' ∉ m.heading := by
  have start : '\n' ∉ (Numeral.ofNat m.full.start).alignRight 6 := fun mem =>
    (Text.mem_alignRight mem).elim (by decide) (Text.newline_not_mem_ofNat _)
  have stop : '\n' ∉ (Numeral.ofNat m.full.stop).alignLeft 6 := fun mem =>
    (Text.mem_alignLeft mem).elim (by decide) (Text.newline_not_mem_ofNat _)
  have kind : '\n' ∉ Text.alignLeft 12 m.kind.name.toList := by
    cases m.kind <;> decide
  simp [heading, start, stop, kind]

theorem newlines_summary (m : Markup) :
    Text.newlines m.summary = (m.displayed.map Text.newlines).sum := by
  unfold summary displayed
  cases m.detail with
  | substitution old new => simp [Text.newlines_append, Text.newlines_preview, Text.newlines]
  | comment metadata =>
      cases metadata with
      | none => simp [Text.newlines_preview]
      | some d => simp [Text.newlines_append, Text.newlines_preview, Text.newlines]
  | addition | deletion | highlight => simp [Text.newlines_preview]

theorem newlines_listing (m : Markup) :
    Text.newlines m.listing = (m.displayed.map Text.newlines).sum := by
  rw [listing_eq, Text.newlines_append, Text.newlines_eq_zero m.newline_not_mem_heading,
    newlines_summary, Nat.zero_add]

end Markup

theorem Thread.newline_not_mem_listing (index : Nat) (t : Thread) : '\n' ∉ t.listing index := by
  have digits (n : Nat) : '\n' ∉ Numeral.ofNat n := Text.newline_not_mem_ofNat n
  unfold listing
  simp only [List.mem_append, not_or]
  exact ⟨⟨⟨⟨⟨⟨by decide, digits index⟩, by decide⟩, digits t.start⟩, by decide⟩, digits t.size⟩,
    by decide⟩

namespace Reading

variable (r : Reading)

theorem length_listing : r.listing.length = r.markup.length + r.threads.length := by
  simp [listing]

theorem getElem?_listing_markup {i : Nat} {m : Markup} (here : r.markup[i]? = some m) :
    r.listing[i]? = some (m.heading ++ m.summary) := by
  have before : i < (r.markup.map Markup.listing).length := by
    rw [List.length_map]
    exact (List.getElem?_eq_some_iff.mp here).1
  rw [listing, List.getElem?_append_left before, List.getElem?_map, here, Option.map_some,
    Markup.listing_eq]

theorem getElem?_listing_thread {j : Nat} {t : Thread} (here : r.threads[j]? = some t) :
    r.listing[r.markup.length + j]? = some (t.listing j) := by
  rw [listing, List.getElem?_append_right (by simp)]
  simp [here]

/-- The line ends within entries. -/
theorem newlines_listing :
    (r.listing.map Text.newlines).sum =
      (r.markup.map fun m => (m.displayed.map Text.newlines).sum).sum := by
  have threads : r.threads.zipIdx.map (fun p => Text.newlines (p.1.listing p.2)) =
      List.replicate r.threads.zipIdx.length 0 :=
    List.map_eq_replicate_iff.mpr fun p _ =>
      Text.newlines_eq_zero (Thread.newline_not_mem_listing p.2 p.1)
  simp [listing, Function.comp_def, Markup.newlines_listing, threads]

theorem newlines_displayed_eq_zero_iff :
    (r.markup.map fun m => (m.displayed.map Text.newlines).sum).sum = 0 ↔
      ∀ m ∈ r.markup, ∀ part ∈ m.displayed, '\n' ∉ part := by
  simp [List.sum_eq_zero_iff_forall_eq_nat, Text.newlines_eq_zero_iff]

theorem newline_not_mem_listing (plain : ∀ m ∈ r.markup, ∀ part ∈ m.displayed, '\n' ∉ part) :
    ∀ entry ∈ r.listing, '\n' ∉ entry := by
  have none := r.newlines_displayed_eq_zero_iff.mpr plain
  rw [← newlines_listing, List.sum_eq_zero_iff_forall_eq_nat, List.forall_mem_map] at none
  exact fun entry mem => Text.newlines_eq_zero_iff.mp (none entry mem)

end Reading

namespace Request

/-- A listing is entries, each ended: one for each token, which begins with its place and kind, and
    behind them one for each thread, with its start and size. Its lines are those of the entries, one
    after the other. Beyond the ends of the entries it has the line ends that are shown from within
    tokens, and unless there are any its lines are the entries. -/
theorem run_list (t path author : Text) (now : Int) :
    let r := Reading.ofText t
    let entries := r.listing
    ∃ out, run t author now (.list path) = .ok out ∧ out = Text.ended entries ∧
      entries.length = r.markup.length + r.threads.length ∧
      (∀ (i : Nat) (m : Markup), r.markup[i]? = some m →
        entries[i]? = some (m.heading ++ m.summary) ∧ '\n' ∉ m.heading) ∧
      (∀ (j : Nat) (u : Thread), r.threads[j]? = some u →
        entries[r.markup.length + j]? = some (u.listing j) ∧ '\n' ∉ u.listing j) ∧
      List.splitOn '\n' out = entries.flatMap (List.splitOn '\n') ++ [[]] ∧
      Text.newlines out = r.markup.length + r.threads.length +
        (r.markup.map fun m => (m.displayed.map Text.newlines).sum).sum ∧
      (Text.newlines out = r.markup.length + r.threads.length ↔
        ∀ m ∈ r.markup, ∀ part ∈ m.displayed, '\n' ∉ part) ∧
      ((∀ m ∈ r.markup, ∀ part ∈ m.displayed, '\n' ∉ part) →
        List.splitOn '\n' out = entries ++ [[]]) := by
  intro r entries
  have lines : List.splitOn '\n' (Text.ended entries) =
      entries.flatMap (List.splitOn '\n') ++ [[]] := by
    have same : Text.lines = List.splitOn '\n' := funext Text.lines_eq_splitOn
    simpa only [same] using Text.lines_ended entries
  have ends : Text.newlines (Text.ended entries) = r.markup.length + r.threads.length +
      (r.markup.map fun m => (m.displayed.map Text.newlines).sum).sum := by
    rw [Text.newlines_ended, r.length_listing, r.newlines_listing]
  refine ⟨Text.ended entries, rfl, rfl, r.length_listing,
    fun i m here => ⟨r.getElem?_listing_markup here, m.newline_not_mem_heading⟩,
    fun j u here => ⟨r.getElem?_listing_thread here, u.newline_not_mem_listing j⟩, lines, ends,
    ?_, fun plain => ?_⟩
  · rw [ends, Nat.add_eq_left, r.newlines_displayed_eq_zero_iff]
  · rw [← Text.lines_eq_splitOn, Text.lines_ended,
      Text.flatMap_lines_of_whole (r.newline_not_mem_listing plain)]

/-- A substitution in front of a thread of two comments, the first of them with an author. -/
theorem run_list_with_author :
    let first := Draft.comment "me".toList 5 "why?".toList
    let t := Kind.substitution.wrap "a~>b".toList ++ [' '] ++ first ++ Kind.comment.wrap ['x']
    let r := Reading.ofText t
    ∃ out, run t [] 0 (.list ['f']) = .ok out ∧
      (∀ m ∈ r.markup, ∀ part ∈ m.displayed, '\n' ∉ part) ∧
      List.splitOn '\n' out = r.listing ++ [[]] ∧ Text.newlines out = 4 ∧
      r.listing[0]? = some "     0..10     substitution a -> b".toList ∧
      r.listing[3]? = some "thread 0 at 11: 2 comment(s)".toList := by
  intro first t r
  obtain ⟨out, answer, -, -, -, -, -, -, exactly, plainly⟩ := run_list t ['f'] [] 0
  have plain : ∀ m ∈ r.markup, ∀ part ∈ m.displayed, '\n' ∉ part := by decide +kernel
  refine ⟨out, answer, plain, plainly plain, (exactly.mpr plain).trans ?_, ?_, ?_⟩ <;>
    decide +kernel

/-- The one entry of an addition with a line end takes two lines. -/
theorem newlines_run_list_ne_of_line_end :
    let t := Kind.addition.wrap ['a', '\n', 'b']
    let r := Reading.ofText t
    ∃ out, run t [] 0 (.list ['f']) = .ok out ∧
      List.splitOn '\n' out = ["     0..9      addition     a".toList, ['b'], []] ∧
      r.markup.length = 1 ∧ r.threads.length = 0 ∧
      Text.newlines out ≠ r.markup.length + r.threads.length := by
  intro t r
  refine ⟨_, rfl, ?_⟩
  decide +kernel

end Request

end Marginalia
