import Marginalia.Text.Basic

/-! # How text is set

A screen has columns, and a text takes them cluster by cluster, a cluster being characters that are
shown as one, such as a letter with its marks. Where a cluster ends and how many columns it takes is
a matter of scripts and of the tables that describe them. Drawing is written for all such tables, as
long as they cut a text without loss and leave ASCII alone.
-/

namespace Marginalia

namespace Typography

/-- Whether a character is one of ASCII that prints. -/
def isPrintable (c : Char) : Bool := 0x20 ≤ c.toNat && c.toNat < 0x7F

/-- Whether a character is a control and takes no place on a screen. -/
def isControl (c : Char) : Bool := c.toNat < 0x20 || (0x7F ≤ c.toNat && c.toNat < 0xA0)

end Typography

/-- How texts are set in columns. -/
structure Typography where
  /-- The clusters of a text, in order. -/
  clusters : Text → List Text
  /-- How many columns a cluster takes. -/
  columns : Text → Nat
  /-- A text is cut into its clusters without loss. -/
  flatten_clusters (t : Text) : (clusters t).flatten = t
  /-- Printable characters of ASCII are not joined. -/
  clusters_of_printable (t : Text) (printable : ∀ c ∈ t, Typography.isPrintable c) :
    clusters t = t.map fun c => [c]
  columns_of_printable (c : Char) (printable : Typography.isPrintable c) : columns [c] = 1

namespace Typography

/-- A character in front of clusters, joined to the first of them if that begins with a mark. -/
def attach (mark : Char → Bool) (c : Char) : List Text → List Text
  | (d :: cluster) :: rest =>
    if mark d then (c :: d :: cluster) :: rest else [c] :: (d :: cluster) :: rest
  | clusters => [c] :: clusters

/-- The text with every mark joined to what is in front of it. -/
def joinMarks (mark : Char → Bool) (t : Text) : List Text := t.foldr (attach mark) []

section JoinMarks

variable {mark : Char → Bool}

theorem flatten_attach (c : Char) (clusters : List Text) :
    (attach mark c clusters).flatten = c :: clusters.flatten := by
  unfold attach
  split
  · split <;> rfl
  · rfl

theorem flatten_joinMarks (t : Text) : (joinMarks mark t).flatten = t := by
  induction t with
  | nil => rfl
  | cons c t ih => exact (flatten_attach c _).trans (congrArg (c :: ·) ih)

theorem joinMarks_of_unmarked {t : Text} (unmarked : ∀ c ∈ t, mark c = false) :
    joinMarks mark t = t.map fun c => [c] := by
  induction t with
  | nil => rfl
  | cons c t ih =>
    obtain ⟨-, further⟩ := List.forall_mem_cons.mp unmarked
    have alone : joinMarks mark (c :: t) = attach mark c (t.map fun c => [c]) :=
      congrArg (attach mark c) (ih further)
    rw [alone]
    cases t with
    | nil => rfl
    | cons d t => simp [attach, further d]

end JoinMarks

/-- The typography in which marks join what is in front of them, and wide characters take two
columns. -/
def ofMarks (mark wide : Char → Bool)
    (plain : ∀ c, isPrintable c → mark c = false ∧ wide c = false) : Typography where
  clusters := joinMarks mark
  columns
    | [] => 0
    | c :: _ => if mark c then 0 else if wide c then 2 else 1
  flatten_clusters := flatten_joinMarks
  clusters_of_printable _ printable :=
    joinMarks_of_unmarked fun c mem => (plain c (printable c mem)).1
  columns_of_printable c printable := by
    obtain ⟨unmarked, narrow⟩ := plain c printable
    simp [unmarked, narrow]

/-- Whether a character lies in one of some ranges of code points. -/
def within (ranges : List (Nat × Nat)) (c : Char) : Bool :=
  ranges.any fun r => r.1 ≤ c.toNat && c.toNat ≤ r.2

/-- The blocks of combining marks. -/
def markBlocks : List (Nat × Nat) :=
  [(0x300, 0x36F), (0x1AB0, 0x1AFF), (0x1DC0, 0x1DFF), (0x20D0, 0x20FF), (0xFE20, 0xFE2F)]

/-- The blocks of ideographs, kana, Hangul syllables, full-width forms and pictographs. -/
def wideBlocks : List (Nat × Nat) :=
  [(0x2E80, 0x303E), (0x3041, 0x4DBF), (0x4E00, 0xA4CF), (0xAC00, 0xD7A3), (0xF900, 0xFAFF),
    (0xFE30, 0xFE6F), (0xFF01, 0xFF60), (0xFFE0, 0xFFE6), (0x1F300, 0x1F64F), (0x1F900, 0x1F9FF),
    (0x20000, 0x3FFFD)]

theorem within_of_printable {ranges : List (Nat × Nat)} (above : ∀ r ∈ ranges, 0x7F ≤ r.1) {c : Char}
    (printable : isPrintable c) : within ranges c = false := by
  simp only [isPrintable, Bool.and_eq_true, decide_eq_true_eq] at printable
  refine List.any_eq_false.mpr fun r mem => ?_
  have start := above r mem
  simp only [Bool.and_eq_true, decide_eq_true_eq]
  omega

/-- A typography that goes by blocks of characters. It joins marks and nothing else, so it does for
text without the longer sequences that some scripts and pictographs form. -/
def standard : Typography :=
  ofMarks (within markBlocks) (within wideBlocks) fun _ printable =>
    ⟨within_of_printable (by decide) printable, within_of_printable (by decide) printable⟩

end Typography

end Marginalia
