import Marginalia.Proofs.Markup.Stability
import Marginalia.Proofs.Text.Boundary

/-! # Where reading begins

A scan carries along what it remembers, in offsets of the larger text. Neither those offsets nor the
memory have a say in what is found: a text is read alike wherever it begins, and behind each of its
tokens reading might as well begin anew.
-/

namespace Marginalia.Markup

/-- `read` finds in `t` the same markup wherever `t` begins, here at `base`, and behind each token
    what it finds in the rest alone. -/
structure Restarts (read : Nat → Text → List Markup) (base : Nat) (t : Text) : Prop where
  moved : read base t = (read 0 t).map (shift base)
  behind : ∀ before m after, read 0 t = before ++ m :: after →
    ∃ front rest, t.cut? m.full.stop = some (front, rest) ∧
      read 0 t = before ++ m :: read m.full.stop rest

section

variable {read : Nat → Text → List Markup} {base : Nat} {t : Text}

theorem Restarts.of_parseAfresh (whole : read base t = parseAfresh base t)
    (rests : ∀ front rest, t = front ++ rest →
      read front.byteLength rest = parseAfresh front.byteLength rest) : Restarts read base t := by
  have start : read 0 t = parseAfresh 0 t := rests [] t rfl
  constructor
  · rw [whole, start, ← parseAfresh_shift, Nat.add_zero]
  · intro before m after scanned
    rw [start] at scanned
    obtain ⟨front, rest, rfl, stop, -, behind⟩ := exists_cut_behind scanned
    rw [Nat.zero_add] at stop
    have again : read m.full.stop rest = after := by
      rw [← stop, rests front rest rfl, stop, behind]
    exact ⟨front, rest, Text.cut?_eq_some_iff.mpr ⟨rfl, stop⟩, by rw [start, scanned, again]⟩

theorem scanFrom_wordCovers_eq (fits : base + t.byteLength ≤ lastWord) :
    scanFrom DeadZones.wordCovers {} base t = parseAfresh base t :=
  (scanFrom_wordCovers {} base t fits).trans (parseAt_eq base t)

end

/-- Wherever a text begins, the markup found in it is that of the text alone with every span moved,
    and behind each token it is what is found in the rest when that is read from there on. As long
    as words hold the offsets, the same goes for a memory of words. -/
theorem parseAt_restarts (base : Nat) (t : Text) :
    Restarts parseAt base t ∧
      (base + t.byteLength ≤ lastWord → Restarts (scanFrom DeadZones.wordCovers {}) base t) := by
  constructor
  · exact .of_parseAfresh (parseAt_eq base t) fun front rest _ => parseAt_eq front.byteLength rest
  · intro fits
    refine .of_parseAfresh (scanFrom_wordCovers_eq fits) ?_
    intro front rest cut
    rw [cut, Text.byteLength_append] at fits
    exact scanFrom_wordCovers_eq (by omega)

/-- Two failures are remembered when the addition is found, of a comment that it interrupts and of a
    deletion that is never closed. The text ends at the last offset. -/
theorem parseAt_restarts_behind_failures :
    let rest : Text := "\x7b>>é<<\x7d".toList
    let t : Text := "\x7b--\x7b>>\x7b++a++\x7d".toList ++ rest
    let base := lastWord - t.byteLength
    let read := scanFrom DeadZones.wordCovers {}
    base + t.byteLength ≤ lastWord ∧ read base t = (read 0 t).map (shift base) ∧
      read 0 t = ⟨⟨6, 13⟩, ⟨9, 10⟩, ['a'], .addition⟩ :: read 13 rest := by
  intro rest t base read
  have fits : base + t.byteLength ≤ lastWord := by decide +kernel
  obtain ⟨-, inWords⟩ := parseAt_restarts base t
  obtain ⟨moved, behind⟩ := inWords fits
  have scanned : read 0 t = [] ++ ⟨⟨6, 13⟩, ⟨9, 10⟩, ['a'], .addition⟩ ::
      [⟨⟨13, 21⟩, ⟨16, 18⟩, ['é'], .comment none⟩] := by decide +kernel
  obtain ⟨front, rest', cut, split⟩ := behind _ _ _ scanned
  have here : t.cut? 13 = some ("\x7b--\x7b>>\x7b++a++\x7d".toList, rest) := by decide +kernel
  obtain ⟨-, rfl⟩ := Prod.mk.inj (Option.some.inj (here.symm.trans cut))
  exact ⟨fits, moved, split⟩

end Marginalia.Markup
