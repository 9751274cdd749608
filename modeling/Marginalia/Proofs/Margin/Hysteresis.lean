import Mathlib.Data.List.Nodup
import Marginalia.Proofs.Margin.Counts
import Marginalia.Proofs.Margin.Freshness

/-! # Reports that pass for the same

A report is compared with what is remembered, and not with the report before it. So however many
reports are passed over, what is remembered is close to the last of them. The last height that was
told of each root is kept beside the remembered heights to say so.
-/

namespace Marginalia

/-- The height that a report tells: a number that is not negative. -/
def Exact.height? : Exact → Option Rat
  | .finite q => if 0 ≤ q then some q else none
  | _ => none

theorem Exact.height?_eq_some_iff {report : Exact} {q : Rat} :
    report.height? = some q ↔ 0 ≤ q ∧ report = .finite q := by
  cases report with
  | finite r =>
      by_cases real : 0 ≤ r
      · simp only [height?, if_pos real, Option.some.injEq, finite.injEq]
        exact ⟨fun same => ⟨same ▸ real, same⟩, And.right⟩
      · simp only [height?, if_neg real, reduceCtorEq, finite.injEq, false_iff, not_and]
        exact fun real' same => real (same ▸ real')
  | nan | negInf | posInf => simp [height?]

namespace Heights

section Roots

variable {α : Type} {h : Heights α} {root : Nat}

/-- The roots that have a height. -/
def roots (h : Heights α) : List Nat := h.entries.map Prod.fst

theorem get?_eq_none_iff : h.get? root = none ↔ root ∉ h.roots := by
  rw [get?, List.lookup_eq_none_iff, roots]
  simp only [List.mem_map, not_exists, not_and, bne_iff_ne, ne_eq]
  exact forall₂_congr fun e _ => ⟨Ne.symm, Ne.symm⟩

theorem roots_insert (root : Nat) (height : α) (h : Heights α) :
    (h.insert root height).roots = root :: h.roots.filter (· ≠ root) := by
  rw [roots, roots, List.filter_map]
  rfl

theorem roots_retain (live : List Nat) (h : Heights α) :
    (h.retain live).2.roots = h.roots.filter live.contains := by
  rw [roots, roots, List.filter_map]
  rfl

theorem get?_retain_eq (live : List Nat) (h : Heights α) (root : Nat) :
    (h.retain live).2.get? root = if root ∈ live then h.get? root else none := by
  split
  · next mem => exact get?_retain mem
  · next absent =>
      rw [get?_eq_none_iff, roots_retain]
      intro kept
      exact absent (List.contains_iff_mem.mp (List.mem_filter.mp kept).2)

/-- As many roots are told to be gone as had a height and have none any more. -/
theorem fst_retain (live : List Nat) (h : Heights α) :
    (h.retain live).1 =
      (h.roots.filter fun root => ((h.retain live).2.get? root).isNone).length := by
  have gone : h.roots.filter (fun root => ((h.retain live).2.get? root).isNone) =
      h.roots.filter fun root => !live.contains root := by
    refine List.filter_congr fun root mem => Bool.eq_iff_iff.mpr ?_
    rw [Option.isNone_iff_eq_none, get?_eq_none_iff, roots_retain, List.mem_filter,
      Bool.not_eq_true', not_and, Bool.not_eq_true]
    exact ⟨fun absent => absent mem, fun absent _ => absent⟩
  have total := h.roots.length_eq_length_filter_add live.contains
  have told : (h.retain live).1 = h.roots.length - (h.retain live).2.roots.length := by
    rw [roots, roots, List.length_map, List.length_map]
    rfl
  rw [told, gone, roots_retain]
  omega

end Roots

section Record

variable {h : Heights Exact} {root : Nat} {report : Exact}

theorem isHeight_iff : isHeight report ↔ report.height? ≠ none := by
  cases report with
  | finite q =>
      have finite : isHeight (Exact.finite q) = !decide (q < 0) := rfl
      by_cases real : 0 ≤ q
      · simp [finite, Exact.height?, real]
      · simp [finite, Exact.height?, real, not_le.mp real]
  | nan | negInf | posInf => decide

/-- A report tells no height, or is close to what is remembered, or is remembered. -/
theorem record_exact_cases (root : Nat) (report : Exact) (h : Heights Exact) :
    (report.height? = none ∧ h.record root report = (false, h)) ∨
      (∃ q old, report.height? = some q ∧ h.get? root = some old ∧ close old report ∧
        h.record root report = (false, h)) ∨
      ∃ q, report.height? = some q ∧ h.get? root ≠ some report ∧
        h.record root report = (true, h.insert root report) := by
  cases told : report.height? with
  | none =>
      have refused : isHeight report = false := by
        rw [← Bool.not_eq_true, isHeight_iff, told]
        exact not_not_intro rfl
      exact .inl ⟨rfl, by rw [record, refused, Bool.not_false, if_pos rfl]⟩
  | some q =>
      have taken : isHeight report := isHeight_iff.mpr (told ▸ Option.some_ne_none q)
      have compared : h.record root report =
          if (h.get? root).any (close · report) then (false, h)
          else (true, h.insert root report) := by
        rw [record, taken, Bool.not_true, if_neg Bool.false_ne_true]
      cases near : (h.get? root).any (close · report) with
      | true =>
          obtain ⟨old, found, close⟩ := (Option.any_eq_true _ _).mp near
          exact .inr (.inl ⟨q, old, rfl, found, close, by rw [compared, near, if_pos rfl]⟩)
      | false =>
          refine .inr (.inr ⟨q, rfl, fun found => ?_,
            by rw [compared, near, if_neg Bool.false_ne_true]⟩)
          obtain ⟨-, rfl⟩ := Exact.height?_eq_some_iff.mp told
          have self : close (.finite q : Exact) (.finite q) :=
            Exact.close_finite_iff.mpr (by norm_num)
          rw [found, Option.any_some, self] at near
          cases near

/-- To have been remembered is to have changed the height of some root. -/
theorem fst_record_iff (root : Nat) (report : Exact) (h : Heights Exact) :
    (h.record root report).1 ↔
      ∃ other, (h.record root report).2.get? other ≠ h.get? other := by
  rcases record_exact_cases root report h with ⟨-, same⟩ | ⟨q, old, -, -, -, same⟩ | ⟨q, -, new, taken⟩
  · simp [same]
  · simp [same]
  · rw [taken]
    refine ⟨fun _ => ⟨root, ?_⟩, fun _ => rfl⟩
    rw [get?_insert_self]
    exact new.symm

end Record

/-- What happens to remembered heights. -/
inductive Event where
  | record (root : Nat) (report : Exact)
  | retain (live : List Nat)
  | clear

namespace Event

def run (h : Heights Exact) : Event → Heights Exact
  | .record root report => (h.record root report).2
  | .retain live => (h.retain live).2
  | .clear => h.clear

/-- The height told last of a root since it was dropped last, if any was. -/
def latest? (before : Nat → Option Rat) : Event → Nat → Option Rat
  | .record root report, other =>
    if other = root then report.height?.or (before other) else before other
  | .retain live, root => if root ∈ live then before root else none
  | .clear, _ => none

end Event

/-- What is remembered of a root is close to what was told of it last, and is nothing if nothing
    was. -/
inductive Near : Option Rat → Option Exact → Prop where
  | none : Near none none
  | some {latest kept : Rat} : 0 ≤ kept → |kept - latest| ≤ 1 / 2 →
      Near (some latest) (some (.finite kept))

namespace Near

theorem eq_none {kept? : Option Exact} (h : Near Option.none kept?) : kept? = Option.none := by
  cases h
  rfl

theorem exists_of_latest {latest : Rat} {kept? : Option Exact}
    (h : Near (Option.some latest) kept?) :
    ∃ kept, kept? = Option.some (.finite kept) ∧ |kept - latest| ≤ 1 / 2 := by
  cases h with
  | some _ close => exact ⟨_, rfl, close⟩

theorem exists_of_kept {latest? : Option Rat} {height : Exact}
    (h : Near latest? (Option.some height)) : ∃ kept, 0 ≤ kept ∧ height = .finite kept := by
  cases h with
  | some real _ => exact ⟨_, real, rfl⟩

end Near

/-- Remembered heights, and the height told last of each root. -/
structure Trace where
  heights : Heights Exact
  latest? : Nat → Option Rat

namespace Trace

variable {s : Trace}

def start : Trace := ⟨{}, fun _ => none⟩

def next (s : Trace) (e : Event) : Trace := ⟨e.run s.heights, e.latest? s.latest?⟩

/-- What has come of no heights. -/
def after (events : List Event) : Trace := events.foldl next start

/-- The invariant: each root has one height at most, and one that is near to what was told last. -/
structure Sound (s : Trace) : Prop where
  nodup_roots : s.heights.roots.Nodup
  near : ∀ root, Near (s.latest? root) (s.heights.get? root)

theorem latest?_record (s : Trace) (root : Nat) (report : Exact) (other : Nat) :
    (s.next (.record root report)).latest? other =
      if other = root then report.height?.or (s.latest? other) else s.latest? other := rfl

theorem latest?_retain (s : Trace) (live : List Nat) (root : Nat) :
    (s.next (.retain live)).latest? root = if root ∈ live then s.latest? root else none := rfl

theorem sound_start : start.Sound where
  nodup_roots := .nil
  near _ := .none

theorem Sound.record (h : s.Sound) (root : Nat) (report : Exact) :
    (s.next (.record root report)).Sound := by
  rcases record_exact_cases root report s.heights with
    ⟨told, same⟩ | ⟨q, old, told, found, close, same⟩ | ⟨q, told, -, taken⟩
  · have heights : (s.next (.record root report)).heights = s.heights := congrArg Prod.snd same
    refine ⟨heights ▸ h.nodup_roots, fun other => ?_⟩
    rw [heights, latest?_record, told, Option.none_or, ite_self]
    exact h.near other
  · -- What is remembered stays, and the report is the one that it has to be near to now.
    have heights : (s.next (.record root report)).heights = s.heights := congrArg Prod.snd same
    refine ⟨heights ▸ h.nodup_roots, fun other => ?_⟩
    rw [heights, latest?_record]
    split
    · next here =>
        subst here
        obtain ⟨-, rfl⟩ := Exact.height?_eq_some_iff.mp told
        obtain ⟨kept, real, rfl⟩ := Near.exists_of_kept (found ▸ h.near other)
        rw [told, Option.some_or, found]
        exact .some real (Exact.close_finite_iff.mp close)
    · exact h.near other
  · have heights : (s.next (.record root report)).heights = s.heights.insert root report :=
      congrArg Prod.snd taken
    refine ⟨?_, fun other => ?_⟩
    · rw [heights, roots_insert, List.nodup_cons]
      exact ⟨by simp, h.nodup_roots.filter _⟩
    · rw [heights, latest?_record]
      split
      · next here =>
          subst here
          obtain ⟨real, rfl⟩ := Exact.height?_eq_some_iff.mp told
          rw [told, Option.some_or, get?_insert_self]
          exact .some real (by norm_num)
      · next elsewhere =>
          rw [get?_insert_of_ne elsewhere]
          exact h.near other

theorem Sound.retain (h : s.Sound) (live : List Nat) : (s.next (.retain live)).Sound where
  nodup_roots := by
    change (s.heights.retain live).2.roots.Nodup
    rw [roots_retain]
    exact h.nodup_roots.filter _
  near root := by
    change Near _ ((s.heights.retain live).2.get? root)
    rw [latest?_retain, get?_retain_eq]
    split
    · exact h.near root
    · exact .none

/-- Every event keeps the invariant. -/
theorem Sound.next (h : s.Sound) (e : Event) : (s.next e).Sound := by
  cases e with
  | record root report => exact h.record root report
  | retain live => exact h.retain live
  | clear => exact ⟨.nil, fun _ => .none⟩

theorem Sound.foldl (h : s.Sound) (events : List Event) : (events.foldl Trace.next s).Sound := by
  induction events generalizing s with
  | nil => exact h
  | cons e events ih => exact ih (h.next e)

/-- Whatever is reported, kept and forgotten, a root has one height at most, a number that is not
    negative and no further than one half from what was told of it last; it has none if nothing was
    told since it was dropped. A report is said to be remembered exactly when it changes a height,
    and forgetting tells how many roots have lost theirs and leaves the others alone. -/
theorem near_latest_after (events : List Event) :
    let s := after events
    let h := s.heights
    (h.roots.Nodup ∧ ∀ root, root ∈ h.roots ↔ h.get? root ≠ none) ∧
      (∀ root height, h.get? root = some height → ∃ q, 0 ≤ q ∧ height = .finite q) ∧
      (∀ root, s.latest? root = none → h.get? root = none) ∧
      (∀ root latest, s.latest? root = some latest →
        ∃ kept, h.get? root = some (.finite kept) ∧ |kept - latest| ≤ 1 / 2) ∧
      (∀ root report, (h.record root report).1 ↔
        ∃ other, (h.record root report).2.get? other ≠ h.get? other) ∧
      ∀ live,
        (h.retain live).1 =
            (h.roots.filter fun root => ((h.retain live).2.get? root).isNone).length ∧
          ∀ root, (h.retain live).2.get? root = if root ∈ live then h.get? root else none := by
  intro s h
  have sound : s.Sound := sound_start.foldl events
  refine ⟨⟨sound.nodup_roots, fun root => ?_⟩,
    fun root height found => Near.exists_of_kept (found ▸ sound.near root),
    fun root untold => Near.eq_none (untold ▸ sound.near root),
    fun root latest told => Near.exists_of_latest (told ▸ sound.near root),
    fun root report => fst_record_iff root report h,
    fun live => ⟨fst_retain live h, get?_retain_eq live h⟩⟩
  rw [ne_eq, get?_eq_none_iff, not_not]

/-- Two small steps up together pass for the same, reports that tell no height count for nothing, and
    a root that was dropped is not known. -/
theorem near_latest_after_drift :
    let events : List Event := [.record 3 (.finite 40), .record 3 (.finite (403 / 10)),
      .record 5 (.finite 7), .record 3 (.finite (809 / 20)), .record 3 .nan, .retain [3],
      .record 5 .posInf, .record 3 (.finite (-1))]
    let s := after events
    s.latest? 3 = some (809 / 20) ∧ s.latest? 5 = none ∧ s.heights.get? 5 = none ∧
      s.heights.get? 3 = some (.finite 40) ∧ |(40 : Rat) - 809 / 20| ≤ 1 / 2 ∧
      ¬ ∃ other, (s.heights.record 3 (.finite (79 / 2))).2.get? other ≠ s.heights.get? other := by
  intro events s
  obtain ⟨-, -, absent, close, changed, -⟩ := near_latest_after events
  have told : s.latest? 3 = some (809 / 20) := by decide +kernel
  have dropped : s.latest? 5 = none := by decide +kernel
  have found : s.heights.get? 3 = some (.finite 40) := by decide +kernel
  obtain ⟨kept, found', near⟩ := close 3 _ told
  obtain rfl : kept = 40 := Exact.finite.inj (Option.some.inj (found'.symm.trans found))
  have same : (s.heights.record 3 (.finite (79 / 2))).1 = false := by decide +kernel
  exact ⟨told, dropped, absent 5 dropped, found, near,
    mt (changed 3 _).mpr (Bool.not_eq_true _ ▸ same)⟩

end Trace

end Heights

end Marginalia
