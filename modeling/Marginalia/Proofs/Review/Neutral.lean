import Marginalia.Review.Draft
import Marginalia.Proofs.Text.Occurrence

/-! # Neutralised text

Breaking a sequence up only puts spaces in, so it creates no sequence without a space. Each pass
leaves fewer places where the sequence stands, which is why the passes end (`Clears` is a run of them
to the end, without a bound), and once they have all ended none of the sequences is left.
-/

namespace Marginalia

namespace Text

/-- A sequence that a space behind its first character breaks up. -/
structure Breakable (pattern : Text) : Prop where
  long : 2 ≤ pattern.length
  spaceless : ' ' ∉ pattern

theorem Breakable.ne_nil {pattern : Text} (breakable : Breakable pattern) : pattern ≠ [] :=
  List.ne_nil_of_length_pos (Nat.lt_of_lt_of_le Nat.two_pos breakable.long)

theorem breakable_opener (k : Kind) : Breakable k.opener := by
  cases k <;> exact ⟨by decide, by decide⟩

theorem breakable_closer (k : Kind) : Breakable k.closer := by
  cases k <;> exact ⟨by decide, by decide⟩

theorem breakable_separator : Breakable Kind.separator := ⟨by decide, by decide⟩

theorem breakable_metadataEnd : Breakable Kind.metadataEnd := ⟨by decide, by decide⟩

/-- Number of places where `pattern` stands. -/
def places (pattern : Text) : Text → Nat
  | [] => 0
  | c :: rest => (if startsWith (c :: rest) pattern then 1 else 0) + places pattern rest

section Places

variable {pattern : Text} {c : Char} {t : Text}

theorem places_cons_of_front (h : pattern <+: c :: t) :
    places pattern (c :: t) = places pattern t + 1 := by
  rw [places, if_pos (startsWith_eq_true_iff.mpr h), Nat.add_comm]

theorem places_cons_of_absent (h : ¬ pattern <+: c :: t) :
    places pattern (c :: t) = places pattern t := by
  rw [places, if_neg fun starts => h (startsWith_eq_true_iff.mp starts), Nat.zero_add]

theorem places_le_places_cons (pattern : Text) (c : Char) (t : Text) :
    places pattern t ≤ places pattern (c :: t) :=
  Nat.le_add_left _ _

theorem places_cons_mono {u : Text} (front : pattern <+: c :: u → pattern <+: c :: t)
    (le : places pattern u ≤ places pattern t) :
    places pattern (c :: u) ≤ places pattern (c :: t) := by
  by_cases h : pattern <+: c :: u
  · rw [places_cons_of_front h, places_cons_of_front (front h)]
    omega
  · rw [places_cons_of_absent h]
    exact Nat.le_trans le (places_le_places_cons pattern c t)

theorem places_le_length (pattern t : Text) : places pattern t ≤ t.length := by
  induction t with
  | nil => simp [places]
  | cons c t ih =>
      simp only [places, List.length_cons]
      split <;> omega

theorem places_pos_of_infix (ne : pattern ≠ []) (h : pattern <:+: t) : 0 < places pattern t := by
  induction t with
  | nil => exact absurd (List.infix_nil.mp h) ne
  | cons c t ih =>
      rcases List.infix_cons_iff.mp h with front | further
      · rw [places_cons_of_front front]
        omega
      · exact Nat.lt_of_lt_of_le (ih further) (places_le_places_cons pattern c t)

theorem Breakable.not_prefix_space (breakable : Breakable pattern) (t : Text) :
    ¬ pattern <+: ' ' :: t := by
  intro h
  cases pattern with
  | nil => exact breakable.ne_nil rfl
  | cons d tail =>
      obtain ⟨rfl, -⟩ := List.cons_prefix_cons.mp h
      exact breakable.spaceless List.mem_cons_self

theorem Breakable.not_prefix_broken (breakable : Breakable pattern) (c : Char) (t : Text) :
    ¬ pattern <+: c :: ' ' :: t := by
  intro h
  rcases pattern with _ | ⟨d, _ | ⟨e, tail⟩⟩
  · exact breakable.ne_nil rfl
  · exact absurd breakable.long (by simp)
  · obtain ⟨-, h⟩ := List.cons_prefix_cons.mp h
    obtain ⟨rfl, -⟩ := List.cons_prefix_cons.mp h
    exact breakable.spaceless (by simp)

theorem Breakable.places_broken (breakable : Breakable pattern) (c : Char) (t : Text) :
    places pattern (c :: ' ' :: t) = places pattern t := by
  rw [places_cons_of_absent (breakable.not_prefix_broken c t),
    places_cons_of_absent (breakable.not_prefix_space t)]

end Places

/-- The second text is the first one with single spaces put in, each behind the first character of a
    place where a sequence stands: at every place of one of `settled`, and at as many as there
    happen to be of one of `pending`. -/
inductive Spaced (settled pending : List Text) : Text → Text → Prop where
  | nil : Spaced settled pending [] []
  | kept {c : Char} {t u : Text} : (∀ p ∈ settled, ¬ p <+: c :: t) →
      Spaced settled pending t u → Spaced settled pending (c :: t) (c :: u)
  | broken {c : Char} {t u p : Text} : p ∈ settled ++ pending → p <+: c :: t →
      Spaced settled pending t u → Spaced settled pending (c :: t) (c :: ' ' :: u)

section Spaced

variable {settled pending : List Text} {t u v : Text}

theorem infix_of_infix_space (spaceless : ' ' ∉ u) (h : u <:+: ' ' :: t) : u <:+: t := by
  rcases List.infix_cons_iff.mp h with front | further
  · cases u with
    | nil => exact List.nil_infix
    | cons d u =>
        obtain ⟨rfl, -⟩ := List.cons_prefix_cons.mp front
        exact absurd List.mem_cons_self spaceless
  · exact further

/-- Spaces create no sequence without a space at the front. -/
theorem Spaced.prefix_of_right (h : Spaced settled pending t u) (spaceless : ' ' ∉ v)
    (front : v <+: u) : v <+: t := by
  induction h generalizing v with
  | nil => exact front
  | kept _ _ ih =>
      cases v with
      | nil => exact List.nil_prefix
      | cons d v =>
          obtain ⟨rfl, further⟩ := List.cons_prefix_cons.mp front
          have tail : ' ' ∉ v := fun mem => spaceless (List.mem_cons_of_mem d mem)
          exact List.cons_prefix_cons.mpr ⟨rfl, ih tail further⟩
  | broken =>
      rcases v with _ | ⟨d, _ | ⟨e, v⟩⟩
      · exact List.nil_prefix
      · obtain ⟨rfl, -⟩ := List.cons_prefix_cons.mp front
        exact List.cons_prefix_cons.mpr ⟨rfl, List.nil_prefix⟩
      · obtain ⟨-, further⟩ := List.cons_prefix_cons.mp front
        obtain ⟨rfl, -⟩ := List.cons_prefix_cons.mp further
        exact absurd (by simp) spaceless

/-- Spaces create no sequence without a space anywhere. -/
theorem Spaced.infix_of_right (h : Spaced settled pending t u) (spaceless : ' ' ∉ v)
    (inside : v <:+: u) : v <:+: t := by
  induction h with
  | nil => exact inside
  | kept absent h ih =>
      rcases List.infix_cons_iff.mp inside with front | further
      · exact ((Spaced.kept absent h).prefix_of_right spaceless front).isInfix
      · exact List.infix_cons (ih further)
  | broken mem stands h ih =>
      rcases List.infix_cons_iff.mp inside with front | further
      · exact ((Spaced.broken mem stands h).prefix_of_right spaceless front).isInfix
      · exact List.infix_cons (ih (infix_of_infix_space spaceless further))

end Spaced

section BreakUp

variable {pattern u : Text}

/-- What becomes of one character: it is kept, or it is kept and a space follows. -/
theorem breakUpFrom_cons (pattern : Text) (inside : Nat) (c : Char) (rest : Text) :
    ∃ next, breakUpFrom pattern inside (c :: rest) = c :: breakUpFrom pattern next rest ∧
        (inside = 0 → next = 0 ∧ ¬ pattern <+: c :: rest) ∨
      breakUpFrom pattern inside (c :: rest) = c :: ' ' :: breakUpFrom pattern next rest ∧
        pattern <+: c :: rest := by
  cases inside with
  | succ inside => exact ⟨inside, .inl ⟨rfl, by simp⟩⟩
  | zero =>
      rw [breakUpFrom]
      split
      · next starts => exact ⟨_, .inr ⟨rfl, startsWith_eq_true_iff.mp starts⟩⟩
      · next absent =>
          exact ⟨0, .inl ⟨rfl, fun _ => ⟨rfl, fun h => absent (startsWith_eq_true_iff.mpr h)⟩⟩⟩

theorem spaced_breakUpFrom (pattern : Text) (inside : Nat) (t : Text) :
    Spaced [] [pattern] t (breakUpFrom pattern inside t) := by
  induction t generalizing inside with
  | nil => exact .nil
  | cons c t ih =>
      obtain ⟨next, ⟨kept, -⟩ | ⟨broken, stands⟩⟩ := breakUpFrom_cons pattern inside c t
      · rw [kept]
        exact .kept (by simp) (ih next)
      · rw [broken]
        exact .broken List.mem_cons_self stands (ih next)

theorem prefix_of_prefix_breakUpFrom {inside : Nat} {t : Text} (spaceless : ' ' ∉ u)
    (h : u <+: breakUpFrom pattern inside t) : u <+: t :=
  (spaced_breakUpFrom pattern inside t).prefix_of_right spaceless h

/-- Breaking up adds no place. -/
theorem places_breakUpFrom_le (breakable : Breakable pattern) (inside : Nat) (t : Text) :
    places pattern (breakUpFrom pattern inside t) ≤ places pattern t := by
  induction t generalizing inside with
  | nil => simp [breakUpFrom]
  | cons c t ih =>
      obtain ⟨next, ⟨kept, -⟩ | ⟨broken, -⟩⟩ := breakUpFrom_cons pattern inside c t
      · have front : pattern <+: c :: breakUpFrom pattern next t → pattern <+: c :: t := by
          rw [← kept]
          exact prefix_of_prefix_breakUpFrom breakable.spaceless
        rw [kept]
        exact places_cons_mono front (ih next)
      · rw [broken, breakable.places_broken]
        exact Nat.le_trans (ih next) (places_le_places_cons pattern c t)

/-- A pass that finds the sequence removes a place, the first one at least. -/
theorem places_breakUp_lt (breakable : Breakable pattern) {t : Text} (h : pattern <:+: t) :
    places pattern (breakUp pattern t) < places pattern t := by
  unfold breakUp
  induction t with
  | nil => exact absurd (List.infix_nil.mp h) breakable.ne_nil
  | cons c t ih =>
      obtain ⟨next, ⟨kept, first⟩ | ⟨broken, front⟩⟩ := breakUpFrom_cons pattern 0 c t
      · obtain ⟨rfl, absent⟩ := first rfl
        have further := (List.infix_cons_iff.mp h).resolve_left absent
        have absent' : ¬ pattern <+: c :: breakUpFrom pattern 0 t := by
          rw [← kept]
          exact fun front => absent (prefix_of_prefix_breakUpFrom breakable.spaceless front)
        rw [kept, places_cons_of_absent absent', places_cons_of_absent absent]
        exact ih further
      · rw [broken, breakable.places_broken, places_cons_of_front front]
        exact Nat.lt_succ_of_le (places_breakUpFrom_le breakable next t)

end BreakUp

/-- Passes over the first text, made as long as `pattern` is in it, end with the second. -/
inductive Clears (pattern : Text) : Text → Text → Prop where
  | absent {t : Text} : ¬ holds pattern t → Clears pattern t t
  | pass {t u : Text} : holds pattern t → Clears pattern (breakUp pattern t) u → Clears pattern t u

/-- The passes for one sequence after the other. -/
inductive ClearsEach : List Text → Text → Text → Prop where
  | nil {t : Text} : ClearsEach [] t t
  | cons {pattern : Text} {patterns : List Text} {t u v : Text} :
      Clears pattern t u → ClearsEach patterns u v → ClearsEach (pattern :: patterns) t v

section Without

variable {pattern t u v : Text} {patterns : List Text}

theorem Clears.not_infix_right (h : Clears pattern t u) : ¬ pattern <:+: u := by
  induction h with
  | absent none => exact fun found => none (holds_eq_true_iff.mpr found)
  | pass _ _ ih => exact ih

theorem Clears.unique (h : Clears pattern t u) (h' : Clears pattern t v) : u = v := by
  induction h with
  | absent none =>
      cases h' with
      | absent => rfl
      | pass found => exact absurd found none
  | pass found _ ih =>
      cases h' with
      | absent none => exact absurd found none
      | pass _ more => exact ih more

/-- As many passes as there are places suffice. -/
theorem clears_breakUpAll (breakable : Breakable pattern) {fuel : Nat}
    (enough : places pattern t ≤ fuel) : Clears pattern t (breakUpAll pattern fuel t) := by
  induction fuel generalizing t with
  | zero =>
      refine .absent fun found => ?_
      have pos := places_pos_of_infix breakable.ne_nil (holds_eq_true_iff.mp found)
      omega
  | succ fuel ih =>
      rw [breakUpAll]
      split
      · next found =>
          have fewer := places_breakUp_lt breakable (holds_eq_true_iff.mp found)
          exact .pass found (ih (by omega))
      · next none => exact .absent none

theorem clears_iff (breakable : Breakable pattern) :
    Clears pattern t u ↔ u = without pattern t := by
  have ends : Clears pattern t (without pattern t) :=
    clears_breakUpAll breakable (places_le_length pattern t)
  exact ⟨fun h => h.unique ends, fun h => h ▸ ends⟩

/-- The passes end, whatever the text, and with what is computed. -/
theorem clearsEach_iff (all : ∀ p ∈ patterns, Breakable p) :
    ClearsEach patterns t u ↔ u = patterns.foldl (fun t pattern => without pattern t) t := by
  induction patterns generalizing t with
  | nil => exact ⟨fun h => by cases h; rfl, fun h => h ▸ .nil⟩
  | cons pattern patterns ih =>
      obtain ⟨breakable, rest⟩ := List.forall_mem_cons.mp all
      rw [List.foldl_cons, ← ih rest]
      constructor
      · intro h
        cases h with
        | cons first more => exact (clears_iff breakable).mp first ▸ more
      · exact .cons ((clears_iff breakable).mpr rfl)

theorem infix_of_infix_breakUpAll {fuel : Nat} (spaceless : ' ' ∉ u)
    (h : u <:+: breakUpAll pattern fuel t) : u <:+: t := by
  induction fuel generalizing t with
  | zero => exact h
  | succ fuel ih =>
      rw [breakUpAll] at h
      split at h
      · exact (spaced_breakUpFrom pattern 0 t).infix_of_right spaceless (ih h)
      · exact h

theorem not_infix_without (breakable : Breakable pattern) (t : Text) :
    ¬ pattern <:+: without pattern t :=
  ((clears_iff breakable).mpr rfl).not_infix_right

theorem infix_of_infix_foldl_without {patterns : List Text} (spaceless : ' ' ∉ u)
    (h : u <:+: patterns.foldl (fun t pattern => without pattern t) t) : u <:+: t := by
  induction patterns generalizing t with
  | nil => exact h
  | cons pattern patterns ih => exact infix_of_infix_breakUpAll spaceless (ih h)

/-- Of sequences broken up one after the other none is left: later ones restore no earlier one. -/
theorem not_infix_foldl_without {patterns : List Text} (all : ∀ p ∈ patterns, Breakable p)
    (mem : pattern ∈ patterns) (t : Text) :
    ¬ pattern <:+: patterns.foldl (fun t pattern => without pattern t) t := by
  induction patterns generalizing t with
  | nil => cases mem
  | cons first patterns ih =>
      rw [List.foldl_cons]
      have breakable := all first List.mem_cons_self
      rcases List.mem_cons.mp mem with rfl | mem
      · exact fun h => not_infix_without breakable t
          (infix_of_infix_foldl_without breakable.spaceless h)
      · exact ih (fun p hp => all p (List.mem_cons_of_mem first hp)) mem _

theorem without_of_not_infix (absent : ¬ pattern <:+: t) : without pattern t = t := by
  unfold without
  cases t.length with
  | zero => rfl
  | succ fuel => rw [breakUpAll, if_neg (mt holds_eq_true_iff.mp absent)]

theorem foldl_without_of_not_infix {patterns : List Text} (absent : ∀ p ∈ patterns, ¬ p <:+: t) :
    patterns.foldl (fun t pattern => without pattern t) t = t := by
  induction patterns with
  | nil => rfl
  | cons first patterns ih =>
      obtain ⟨here, later⟩ := List.forall_mem_cons.mp absent
      rw [List.foldl_cons, without_of_not_infix here, ih later]

end Without

section Neutralize

variable {closers : List Text}

theorem breakable_of_mem (all : ∀ p ∈ closers, Breakable p) {pattern : Text}
    (mem : pattern ∈ Kind.all.map Kind.opener ++ closers) : Breakable pattern := by
  rcases List.mem_append.mp mem with opener | closer
  · obtain ⟨k, -, rfl⟩ := List.mem_map.mp opener
    exact breakable_opener k
  · exact all pattern closer

/-- Neutralised text holds no opener. -/
theorem not_opener_infix_neutralize (all : ∀ p ∈ closers, Breakable p) (k : Kind) (t : Text) :
    ¬ k.opener <:+: neutralize closers t := by
  refine not_infix_foldl_without (fun p => breakable_of_mem all) ?_ t
  have mem : k ∈ Kind.all := by cases k <;> decide
  exact List.mem_append_left _ (List.mem_map_of_mem mem)

/-- Neutralised text holds none of the sequences it was neutralised for. -/
theorem not_infix_neutralize (all : ∀ p ∈ closers, Breakable p) {pattern : Text}
    (mem : pattern ∈ closers) (t : Text) : ¬ pattern <:+: neutralize closers t :=
  not_infix_foldl_without (fun _ => breakable_of_mem all) (List.mem_append_right _ mem) t

theorem neutralize_nil (all : ∀ p ∈ closers, Breakable p) : neutralize closers [] = [] := by
  apply foldl_without_of_not_infix
  intro p mem h
  have long := (breakable_of_mem all mem).long
  rw [List.infix_nil.mp h] at long
  exact absurd long (by decide)

/-- A text that has none of the sequences, and no other, is left as it is. -/
theorem neutralize_eq_self_iff (all : ∀ p ∈ closers, Breakable p) {t : Text} :
    neutralize closers t = t ↔ ∀ p ∈ Kind.all.map Kind.opener ++ closers, ¬ p <:+: t := by
  constructor
  · intro same p mem
    have absent := not_infix_foldl_without (fun _ => breakable_of_mem all) mem t
    rwa [← neutralize, same] at absent
  · exact foldl_without_of_not_infix

end Neutralize

end Text

namespace Draft

open Text

/-- What is written between delimiters. -/
inductive Payload where
  /-- What the closer of kind `k` follows: all that the token encloses or, behind the other parts,
      the new half of a substitution or the content of a comment. -/
  | last (k : Kind)
  /-- The old half of a substitution. -/
  | old
  | author

/-- The sequences, openers apart, that would end the payload too soon. -/
def Payload.closers : Payload → List Text
  | .last k => [k.closer]
  | .old => [Kind.substitution.closer, Kind.separator]
  | .author => [Kind.comment.closer, Kind.metadataEnd]

theorem Payload.of_mem_closers {payload : Payload} {p : Text} (mem : p ∈ payload.closers) :
    (∃ k : Kind, p = k.closer) ∨ p = Kind.separator ∨ p = Kind.metadataEnd := by
  cases payload with
  | last k => exact .inl ⟨k, List.mem_singleton.mp mem⟩
  | old =>
      rcases List.mem_cons.mp mem with closer | mem
      · exact .inl ⟨.substitution, closer⟩
      · exact .inr (.inl (List.mem_singleton.mp mem))
  | author =>
      rcases List.mem_cons.mp mem with closer | mem
      · exact .inl ⟨.comment, closer⟩
      · exact .inr (.inr (List.mem_singleton.mp mem))

theorem Payload.breakable_of_mem_closers (payload : Payload) :
    ∀ p ∈ payload.closers, Breakable p := by
  intro p mem
  rcases of_mem_closers mem with ⟨k, rfl⟩ | rfl | rfl
  · exact breakable_closer k
  · exact breakable_separator
  · exact breakable_metadataEnd

end Draft

end Marginalia
