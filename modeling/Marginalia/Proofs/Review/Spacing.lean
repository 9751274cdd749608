import Marginalia.Proofs.Markup.Search
import Marginalia.Proofs.Review.Neutral
import Marginalia.Proofs.Text.Boundary

/-! # Where neutralising puts its spaces

The sequences of one payload do not get in each other's way: none stands across the first character
of another that is broken up later. So each place where one of them stands gets a space of its own,
no matter how they overlap, and nothing else changes. Taken out again, the spaces leave the text.
-/

namespace Marginalia

namespace Text

/-- `q` can stand behind the first character of `p` and in front of its last, so that the space that
    breaks it up would break up `p` as well. -/
def Interrupts (q p : Text) : Prop :=
  ∃ w, w <:+ p.tail ∧ 2 ≤ w.length ∧ (q <+: w ∨ w <+: q)

theorem not_interrupts_of_length_le {p : Text} (q : Text) (short : p.length ≤ 2) :
    ¬ Interrupts q p := by
  rintro ⟨w, suffix, long, -⟩
  have le := suffix.length_le
  rw [List.length_tail] at le
  omega

/-- An opener is no hindrance to a sequence that has its brace at most in front. -/
theorem not_interrupts_opener {p : Text} (k : Kind) (absent : '{' ∉ p.tail) :
    ¬ Interrupts k.opener p := by
  obtain ⟨tail, same, -⟩ := k.exists_opener_eq_cons
  rw [same]
  rintro ⟨w, suffix, long, front | front⟩
  · exact absent (suffix.subset (front.subset List.mem_cons_self))
  · cases w with
    | nil => simp at long
    | cons c w =>
        obtain ⟨rfl, -⟩ := List.cons_prefix_cons.mp front
        exact absent (suffix.subset List.mem_cons_self)

theorem not_interrupts_closer (k : Kind) : ¬ Interrupts k.closer k.closer := by
  rintro ⟨w, suffix, long, meet⟩
  obtain rfl : w = k.closer.tail := suffix.eq_of_length_le (by simpa using long)
  cases k <;> simp [Kind.closer] at meet

/-- Sequences that can be broken up in this order without one getting in the way of another. -/
structure Separable (patterns : List Text) : Prop where
  breakable : ∀ p ∈ patterns, Breakable p
  /-- A space behind the first character is one behind the first byte. -/
  narrow : ∀ p ∈ patterns, p.all fun c => c.utf8Size == 1
  apart : patterns.Pairwise fun q p => ¬ Interrupts q p
  steady : ∀ p ∈ patterns, ¬ Interrupts p p

theorem Separable.narrow_head {patterns : List Text} {p t : Text} {c : Char}
    (separable : Separable patterns) (mem : p ∈ patterns) (stands : p <+: c :: t) :
    c.utf8Size = 1 := by
  cases p with
  | nil => exact absurd rfl (separable.breakable [] mem).ne_nil
  | cons d tail =>
      obtain ⟨rfl, -⟩ := List.cons_prefix_cons.mp stands
      exact beq_iff_eq.mp (List.all_eq_true.mp (separable.narrow _ mem) d List.mem_cons_self)

namespace Spaced

variable {settled pending patterns : List Text} {p t u v : Text}

theorem refl (pending : List Text) (t : Text) : Spaced [] pending t t := by
  induction t with
  | nil => exact .nil
  | cons c t ih => exact .kept (by simp) ih

theorem extend (h : Spaced settled [] t u) (pending : List Text) : Spaced settled pending t u := by
  induction h with
  | nil => exact .nil
  | kept absent _ ih => exact .kept absent ih
  | broken mem stands _ ih =>
      rw [List.append_nil] at mem
      exact .broken (List.mem_append_left pending mem) stands ih

/-- A pass finds a sequence only where it stood from the start. -/
theorem pass (breakable : Breakable p) (h : Spaced settled [p] t u) (inside : Nat) :
    Spaced settled [p] t (breakUpFrom p inside u) := by
  induction h generalizing inside with
  | nil => exact .nil
  | @kept c t u absent h ih =>
      obtain ⟨next, ⟨same, -⟩ | ⟨spaced, stands⟩⟩ := breakUpFrom_cons p inside c u
      · rw [same]
        exact .kept absent (ih next)
      · have stood := (Spaced.kept absent h).prefix_of_right breakable.spaceless stands
        rw [spaced]
        exact .broken (List.mem_append_right settled List.mem_cons_self) stood (ih next)
  | @broken c t u q mem stands h ih =>
      -- Neither the character nor the space behind it begins a place that is left.
      obtain ⟨next, ⟨same, -⟩ | ⟨-, front⟩⟩ := breakUpFrom_cons p inside c (' ' :: u)
      · obtain ⟨further, ⟨again, -⟩ | ⟨-, front⟩⟩ := breakUpFrom_cons p next ' ' u
        · rw [same, again]
          exact .broken mem stands (ih further)
        · exact absurd front (breakable.not_prefix_space u)
      · exact absurd front (breakable.not_prefix_broken c u)

theorem clears (breakable : Breakable p) (h : Spaced settled [p] t u) (run : Clears p u v) :
    Spaced settled [p] t v := by
  induction run with
  | absent => exact h
  | pass _ _ ih => exact ih (h.pass breakable 0)

/-- What stands in the text still stands if no place of a sequence can begin in it. -/
theorem prefix_kept (h : Spaced settled pending t u) (stands : v <+: t)
    (apart : ∀ q ∈ settled ++ pending, ∀ w, w <:+ v → 2 ≤ w.length → ¬ (q <+: w ∨ w <+: q)) :
    v <+: u := by
  induction h generalizing v with
  | nil => exact stands
  | kept _ _ ih =>
      cases v with
      | nil => exact List.nil_prefix
      | cons d v =>
          obtain ⟨rfl, further⟩ := List.cons_prefix_cons.mp stands
          have rest := ih further fun q mem w behind =>
            apart q mem w (behind.trans (List.suffix_cons d v))
          exact List.cons_prefix_cons.mpr ⟨rfl, rest⟩
  | broken mem front _ _ =>
      rcases v with _ | ⟨d, _ | ⟨e, v⟩⟩
      · exact List.nil_prefix
      · obtain ⟨rfl, -⟩ := List.cons_prefix_cons.mp stands
        exact List.cons_prefix_cons.mpr ⟨rfl, List.nil_prefix⟩
      · have meet := List.prefix_or_prefix_of_prefix front stands
        exact absurd meet (apart _ mem _ List.suffix_rfl (by simp))

/-- Once a sequence is gone, every place of it has its space. -/
theorem settle (h : Spaced settled [p] t u) (gone : ¬ p <:+: u)
    (apart : ∀ q ∈ settled ++ [p], ¬ Interrupts q p) : Spaced (settled ++ [p]) [] t u := by
  induction h with
  | nil => exact .nil
  | @kept c t u absent h ih =>
      refine .kept ?_ (ih fun further => gone (List.infix_cons further))
      intro q mem stands
      rcases List.mem_append.mp mem with before | here
      · exact absent q before stands
      obtain rfl := List.mem_singleton.mp here
      cases q with
      | nil => exact gone List.nil_infix
      | cons d tail =>
          obtain ⟨rfl, behind⟩ := List.cons_prefix_cons.mp stands
          have still : tail <+: u := h.prefix_kept behind fun q mem w suffix long meet =>
            apart q mem ⟨w, suffix, long, meet⟩
          exact gone (List.cons_prefix_cons.mpr ⟨rfl, still⟩).isInfix
  | broken mem stands _ ih =>
      refine .broken (by rwa [List.append_nil]) stands (ih fun further => ?_)
      exact gone (List.infix_cons (List.infix_cons further))

theorem clearsEach (h : Spaced settled [] t u) (run : ClearsEach patterns u v)
    (breakable : ∀ p ∈ patterns, Breakable p)
    (apart : (settled ++ patterns).Pairwise fun q p => ¬ Interrupts q p)
    (steady : ∀ p ∈ patterns, ¬ Interrupts p p) : Spaced (settled ++ patterns) [] t v := by
  induction run generalizing settled with
  | nil => rwa [List.append_nil]
  | @cons p patterns u m v first more ih =>
      obtain ⟨-, -, across⟩ := List.pairwise_append.mp apart
      have before : ∀ q ∈ settled ++ [p], ¬ Interrupts q p := by
        intro q mem
        rcases List.mem_append.mp mem with earlier | here
        · exact across q earlier p List.mem_cons_self
        · rw [List.mem_singleton.mp here]
          exact steady p List.mem_cons_self
      have cleared := (h.extend [p]).clears (breakable p List.mem_cons_self) first
      have shape : settled ++ p :: patterns = settled ++ [p] ++ patterns := by simp
      rw [shape] at apart ⊢
      exact ih (cleared.settle first.not_infix_right before)
        (fun q mem => breakable q (List.mem_cons_of_mem p mem)) apart
        (fun q mem => steady q (List.mem_cons_of_mem p mem))

end Spaced

section Places

variable {patterns : List Text} {t u : Text} {start : Nat}

/-- The text with a space put behind the first byte of each of some places, from the last to the
    first so that offsets stay valid. -/
def putSpaces (places : List Nat) (t : Text) : Text :=
  places.foldr (fun place t => t.splice ⟨place + 1, place + 1⟩ [' ']) t

/-- The text with what follows the first byte of each of some places taken out, from the first to the
    last so that the places are those of the text without. -/
def dropSpaces (places : List Nat) (t : Text) : Text :=
  places.foldl (fun t place => t.splice ⟨place + 1, place + 2⟩ []) t

theorem splice_space {front : Text} (here : front.byteLength = start) (t : Text) :
    (front ++ t).splice ⟨start, start⟩ [' '] = front ++ ' ' :: t := by
  subst here
  simpa using splice_append front [] t [' ']

theorem splice_nil_of_space {front : Text} (here : front.byteLength = start) (t : Text) :
    (front ++ ' ' :: t).splice ⟨start, start + 1⟩ [] = front ++ t := by
  subst here
  have one : byteLength [' '] = 1 := rfl
  simpa [one] using splice_append front [' '] t []

/-- From the start of a character on, a sequence stands there or behind the character. -/
theorem standsAt_cons_iff {front pattern : Text} {c : Char} {place : Nat}
    (here : front.byteLength = start) :
    start ≤ place ∧ (front ++ c :: t).StandsAt pattern place ↔
      place = start ∧ pattern <+: c :: t ∨
        start + c.utf8Size ≤ place ∧ (front ++ c :: t).StandsAt pattern place := by
  subst here
  constructor
  · rintro ⟨le, stands⟩
    rcases Nat.eq_or_lt_of_le le with rfl | lt
    · exact .inl ⟨rfl, standsAt_byteLength_iff.mp stands⟩
    · exact .inr ⟨stands.skip lt, stands⟩
  · rintro (⟨rfl, begins⟩ | ⟨le, stands⟩)
    · exact ⟨Nat.le_refl _, standsAt_byteLength_iff.mpr begins⟩
    · exact ⟨by omega, stands⟩

/-- The spaces lie at the places where the sequences stand in the text. -/
theorem Spaced.exists_places (separable : Separable patterns) (h : Spaced patterns [] t u)
    (front : Text) (here : front.byteLength = start) :
    ∃ places : List Nat, places.Pairwise (· < ·) ∧
      (∀ place, place ∈ places ↔
        ∃ p ∈ patterns, start ≤ place ∧ (front ++ t).StandsAt p place) ∧
      (front ++ t).putSpaces places = front ++ u ∧
      (front ++ u).dropSpaces places = front ++ t := by
  induction h generalizing front start with
  | nil =>
      refine ⟨[], .nil, fun place => ⟨by simp, ?_⟩, rfl, rfl⟩
      rintro ⟨p, mem, le, stands⟩
      have within := stands.le_byteLength
      rw [List.append_nil] at within
      exact absurd (byteLength_eq_zero (by omega)) (separable.breakable p mem).ne_nil
  | @kept c t u absent h ih =>
      have next : (front ++ [c]).byteLength = start + c.utf8Size := by
        simp [byteLength_append, here]
      obtain ⟨places, ascending, mem_iff, put, drop⟩ := ih (front ++ [c]) next
      simp only [List.append_assoc, List.singleton_append] at mem_iff put drop
      refine ⟨places, ascending, fun place => (mem_iff place).trans ?_, put, drop⟩
      refine exists_congr fun p => and_congr_right fun mem => ?_
      rw [standsAt_cons_iff here, or_iff_right fun begins => absent p mem begins.2]
  | @broken c t u p mem stands h ih =>
      rw [List.append_nil] at mem
      have next : (front ++ [c]).byteLength = start + c.utf8Size := by
        simp [byteLength_append, here]
      obtain ⟨places, ascending, mem_iff, put, drop⟩ := ih (front ++ [c]) next
      have narrow := separable.narrow_head mem stands
      rw [narrow] at next mem_iff
      refine ⟨start :: places, ?_, fun place => ?_, ?_, ?_⟩
      · refine List.pairwise_cons.mpr ⟨fun place later => ?_, ascending⟩
        obtain ⟨-, -, le, -⟩ := (mem_iff place).mp later
        omega
      · simp only [List.append_assoc, List.singleton_append] at mem_iff
        simp only [standsAt_cons_iff here, narrow, and_or_left, exists_or, List.mem_cons, mem_iff]
        have begins : (∃ q ∈ patterns, place = start ∧ q <+: c :: t) ↔ place = start :=
          ⟨fun ⟨_, _, at_start, _⟩ => at_start, fun at_start => ⟨p, mem, at_start, stands⟩⟩
        rw [begins]
      · rw [List.append_cons, putSpaces, List.foldr_cons, ← putSpaces, put, splice_space next]
        simp
      · rw [List.append_cons, dropSpaces, List.foldl_cons, splice_nil_of_space next, ← dropSpaces,
          drop]
        simp

end Places

end Text

namespace Draft

open Text

namespace Payload

/-- All sequences that are broken up in the payload, in that order. -/
def sequences (payload : Payload) : List Text := Kind.all.map Kind.opener ++ payload.closers

theorem brace_not_mem_tail {payload : Payload} {p : Text} (mem : p ∈ payload.sequences) :
    '{' ∉ p.tail := by
  rcases List.mem_append.mp mem with opener | closer
  · obtain ⟨k, -, rfl⟩ := List.mem_map.mp opener
    obtain ⟨tail, same, absent⟩ := k.exists_opener_eq_cons
    rwa [same]
  · rcases of_mem_closers closer with ⟨k, rfl⟩ | rfl | rfl
    · exact fun brace => k.brace_not_mem_closer (List.mem_of_mem_tail brace)
    · decide
    · decide

theorem separable (payload : Payload) : Separable payload.sequences where
  breakable _ mem := breakable_of_mem payload.breakable_of_mem_closers mem
  narrow p mem := by
    rcases List.mem_append.mp mem with opener | closer
    · obtain ⟨k, -, rfl⟩ := List.mem_map.mp opener
      cases k <;> decide
    · rcases of_mem_closers closer with ⟨k, rfl⟩ | rfl | rfl
      · cases k <;> decide
      · decide
      · decide
  apart := by
    refine List.pairwise_append.mpr ⟨?_, ?_, fun q opener p closer => ?_⟩
    · refine List.pairwise_map.mpr (List.pairwise_of_forall_mem_list fun j _ k mem => ?_)
      exact not_interrupts_opener j
        (brace_not_mem_tail (List.mem_append_left payload.closers (List.mem_map_of_mem mem)))
    · cases payload with
      | last k => exact List.pairwise_singleton _ _
      | old | author => exact List.pairwise_pair.mpr (not_interrupts_of_length_le _ (by decide))
    · obtain ⟨k, -, rfl⟩ := List.mem_map.mp opener
      exact not_interrupts_opener k (brace_not_mem_tail (List.mem_append_right _ closer))
  steady p mem := by
    rcases List.mem_append.mp mem with opener | closer
    · obtain ⟨k, -, rfl⟩ := List.mem_map.mp opener
      exact not_interrupts_opener k (brace_not_mem_tail mem)
    · rcases of_mem_closers closer with ⟨k, rfl⟩ | rfl | rfl
      · exact not_interrupts_closer k
      · exact not_interrupts_of_length_le _ (by decide)
      · exact not_interrupts_of_length_le _ (by decide)

theorem spaced_neutralize (payload : Payload) (t : Text) :
    Spaced payload.sequences [] t (neutralize payload.closers t) := by
  obtain ⟨breakable, -, apart, steady⟩ := payload.separable
  have run : ClearsEach payload.sequences t (neutralize payload.closers t) :=
    (clearsEach_iff breakable).mpr rfl
  exact (Spaced.refl [] t).clearsEach run breakable apart steady

end Payload

/-- Whatever the text, the passes over it come to an end, with the neutralised text and no other. None
    of the sequences is left in that. It is the text with a single space behind the first byte of
    each place where one of the sequences stands, and without these spaces it is the text again. So
    it is the text itself just when that has none of the sequences, and it stays as it is. -/
theorem neutralize_spaces (payload : Payload) (t : Text) :
    let result := neutralize payload.closers t
    (∀ u, ClearsEach payload.sequences t u ↔ u = result) ∧
      (∀ p ∈ payload.sequences, ¬ p <:+: result) ∧
      (∃ places : List Nat, places.Pairwise (· < ·) ∧
        (∀ place, place ∈ places ↔ ∃ p ∈ payload.sequences, t.StandsAt p place) ∧
        t.putSpaces places = result ∧ result.dropSpaces places = t) ∧
      (result = t ↔ ∀ p ∈ payload.sequences, ¬ p <:+: t) ∧
      neutralize payload.closers result = result := by
  intro result
  have breakable := payload.separable.breakable
  have none : ∀ p ∈ payload.sequences, ¬ p <:+: result :=
    fun p mem => not_infix_foldl_without breakable mem t
  have unchanged {t : Text} := neutralize_eq_self_iff payload.breakable_of_mem_closers (t := t)
  refine ⟨fun u => clearsEach_iff breakable, none, ?_, unchanged, unchanged.mpr none⟩
  obtain ⟨places, ascending, mem_iff, put, drop⟩ :=
    (payload.spaced_neutralize t).exists_places payload.separable [] rfl
  refine ⟨places, ascending, fun place => ?_, put, drop⟩
  simpa using mem_iff place

/-- Of a sequence that overlaps itself each place has its space, next to an opener and a closer. -/
theorem neutralize_spaces_of_overlapping :
    let payload := Payload.author
    let t : Text := "@@@\x7b++<<\x7d".toList
    let result : Text := "@ @ @\x7b ++< <\x7d".toList
    ClearsEach payload.sequences t result ∧ t.putSpaces [0, 1, 3, 6] = result ∧
      result.dropSpaces [0, 1, 3, 6] = t ∧ neutralize payload.closers result = result := by
  intro payload t result
  have made : neutralize payload.closers t = result := by decide +kernel
  obtain ⟨ends, -, -, -, again⟩ := neutralize_spaces payload t
  rw [made] at again
  exact ⟨(ends result).mpr made.symm, by decide +kernel, by decide +kernel, again⟩

end Draft

end Marginalia
