import Marginalia.Markup.Metadata

/-! # What is written as JSON reads back

An escaped string reads as the string, whatever characters it has, and the decimal digits of a
signed 64-bit number read as the number in front of a closing brace. So the metadata of a comment
survive being written and read.
-/

namespace Marginalia

namespace Numeral

theorem isDigit_of_mem_ofNat {n : Nat} {c : Char} (h : c ∈ ofNat n) : isDigit c := by
  have digit := Nat.isDigit_of_mem_toDigits (by decide) (by decide) h
  simp only [Char.isDigit, Bool.and_eq_true, decide_eq_true_eq] at digit
  have within : '0' ≤ c ∧ c ≤ '9' := digit
  simp [isDigit, digit?, within]

theorem hexDigit?_of_isDigit {c : Char} (h : isDigit c) :
    hexDigit? c = some (c.toNat - '0'.toNat) := by
  unfold isDigit digit? at h
  split at h
  · next within => simp only [hexDigit?, if_pos within]
  · cases h

theorem valueIn_ofNat (n : Nat) : valueIn 10 (ofNat n) = n := by
  have agree (digits : Text) (all : ∀ c ∈ digits, isDigit c) (value : Nat) :
      digits.foldl (fun n c => n * 10 + (hexDigit? c).getD 0) value =
        Nat.ofDigitChars 10 digits value := by
    induction digits generalizing value with
    | nil => simp
    | cons c digits ih =>
        rw [List.foldl_cons, Nat.ofDigitChars_cons, hexDigit?_of_isDigit (all c List.mem_cons_self),
          Option.getD_some, ih (fun d hd => all d (List.mem_cons_of_mem c hd)), Nat.mul_comm]
  rw [valueIn, agree _ fun c => isDigit_of_mem_ofNat]
  exact Nat.ofDigitChars_ten_toDigits

/-- Only zero has a leading zero. -/
theorem head?_ofNat {n : Nat} (pos : 0 < n) : (ofNat n).head? ≠ some '0' := by
  induction n using Nat.strongRecOn with
  | ind n ih =>
      rw [ofNat]
      by_cases small : n < 10
      · rw [Nat.toDigits_of_lt_base small]
        have table : ∀ n, n < 10 → 0 < n → n.digitChar ≠ '0' := by decide
        simpa using table n small pos
      · rw [Nat.toDigits_of_base_le (by decide) (by omega)]
        have more := ih (n / 10) (by omega) (by omega)
        unfold ofNat at more
        cases h : Nat.toDigits 10 (n / 10) with
        | nil => exact absurd h Nat.toDigits_ne_nil
        | cons d ds =>
            rw [h] at more
            exact more

end Numeral

namespace Json

open Numeral

theorem digits?_append {ds rest : Text} (all : ∀ c ∈ ds, isDigit c) (ne : ds ≠ [])
    (lead : ds = ['0'] ∨ ds.head? ≠ some '0')
    (stop : ∀ c more, rest = c :: more → isDigit c = false) :
    digits? (ds ++ rest) = some (ds, rest) := by
  have take : (ds ++ rest).takeWhile isDigit = ds := by
    rw [List.takeWhile_append_of_pos all]
    cases rest with
    | nil => simp
    | cons c more => simp [stop c more rfl]
  have drop : (ds ++ rest).dropWhile isDigit = rest := by
    rw [List.dropWhile_append_of_pos all]
    cases rest with
    | nil => simp
    | cons c more => simp [stop c more rfl]
  unfold digits?
  split
  · next c more same =>
      rcases lead with rfl | lead
      · obtain ⟨-, rfl⟩ := List.cons.inj same
        simp [stop c more rfl]
      · cases ds with
        | nil => exact absurd rfl ne
        | cons d ds =>
            obtain ⟨rfl, -⟩ := List.cons.inj same
            exact absurd rfl lead
  · rw [take, drop]
    cases ds with
    | nil => exact absurd rfl ne
    | cons d ds => rfl

theorem digits?_ofNat (n : Nat) {rest : Text}
    (stop : ∀ c more, rest = c :: more → isDigit c = false) :
    digits? (ofNat n ++ rest) = some (ofNat n, rest) := by
  refine digits?_append (fun c => isDigit_of_mem_ofNat) Nat.toDigits_ne_nil ?_ stop
  rcases Nat.eq_zero_or_pos n with rfl | pos
  · exact .inl (Nat.toDigits_zero 10)
  · exact .inr (head?_ofNat pos)

/-- A written number reads back in front of a closing brace. -/
theorem integer?_ofInt {n : Int} (fits : inSigned64 n) (rest : Text) :
    integer? (ofInt n ++ '}' :: rest) = some (n, '}' :: rest) := by
  have stop : ∀ c more, '}' :: rest = c :: more → isDigit c = false := by
    intro c more same
    obtain ⟨rfl, -⟩ := List.cons.inj same
    decide
  revert fits
  unfold integer?
  -- the bounds are too large for the kernel to compare
  generalize inSigned64 = within
  intro fits
  cases n with
  | ofNat n =>
      have unsigned (more : Text) : ofNat n ++ '}' :: rest ≠ '-' :: more := by
        intro same
        cases hds : ofNat n with
        | nil => exact absurd hds Nat.toDigits_ne_nil
        | cons d ds =>
            rw [hds] at same
            obtain ⟨rfl, -⟩ := List.cons.inj same
            have mem : '-' ∈ ofNat n := by simp [hds]
            exact absurd (isDigit_of_mem_ofNat mem) (by decide)
      split
      next sign =>
        split at sign
        · next same => exact absurd same (unsigned _)
        · cases sign
          rw [ofInt, digits?_ofNat n stop, Option.bind_eq_bind, Option.bind_some]
          simp only [valueIn_ofNat]
          rw [if_pos ⟨fits, by simp⟩]
          rfl
  | negSucc n =>
      simp only [ofInt, List.cons_append]
      rw [digits?_ofNat (n + 1) stop, Option.bind_eq_bind, Option.bind_some]
      simp only [valueIn_ofNat]
      rw [if_pos ⟨fits, by simp⟩]
      rfl

/-- The hex digits of a control character are two zeros and two more. -/
theorem hexFour?_hexOf {n : Nat} (low : n < 0x20) (rest : Text) :
    hexFour? (hexOf 4 false n ++ rest) = some (n, rest) := by
  have digits : ∀ n, n < 0x20 → hexOf 4 false n =
      ['0', '0', Nat.digitChar (n / 16), Nat.digitChar (n % 16)] := by decide
  have values : ∀ d, d < 16 → hexDigit? (Nat.digitChar d) = some d := by decide
  have zero : hexDigit? '0' = some 0 := by decide
  rw [digits n low]
  simp only [List.cons_append, List.nil_append, hexFour?, zero, values (n / 16) (by omega),
    values (n % 16) (by omega), Option.bind_eq_bind, Option.bind_some, Option.pure_def,
    Option.some.injEq, Prod.mk.injEq, and_true]
  omega

/-- An escaped character reads back. -/
theorem character?_escape (c : Char) (rest : Text) :
    character? (escape c ++ rest) = some (c, rest) := by
  unfold escape
  split
  all_goals first | rfl | skip
  split
  · next low =>
      have value : Char.ofNat c.toNat = c := Char.ofNat_toNat c
      have small : c.toNat < 0xD800 := by omega
      simp only [List.cons_append, List.nil_append, character?, unicodeEscape?, hexFour?_hexOf low,
        Option.bind_eq_bind, Option.bind_some, small, true_or, if_true, value]
      rfl
  · next quote backslash _ _ _ _ _ high =>
      unfold character?
      split
      · next same => cases same
      · next same => exact absurd (List.cons.inj same).1 backslash
      · next same => exact absurd (List.cons.inj same).1 backslash
      · next d more _ _ same =>
          obtain ⟨rfl, rfl⟩ := List.cons.inj same
          rw [if_neg (fun h => h.elim high backslash)]
          rfl

theorem exists_escape_eq_cons (c : Char) : ∃ d ds, escape c = d :: ds ∧ d ≠ '"' := by
  unfold escape
  split
  all_goals first | exact ⟨_, _, rfl, by decide⟩ | skip
  split
  · exact ⟨_, _, rfl, by decide⟩
  · next quote _ _ _ _ _ _ _ => exact ⟨_, _, rfl, quote⟩

theorem stringWithin?_succ {fuel : Nat} {c d : Char} {t rest more tail : Text} (quote : d ≠ '"')
    (first : character? (d :: t) = some (c, rest))
    (further : stringWithin? fuel rest = some (more, tail)) :
    stringWithin? (fuel + 1) (d :: t) = some (c :: more, tail) := by
  rw [stringWithin?.eq_def]
  split
  · next same => exact absurd (List.cons.inj same).1 quote
  · next impossible _ => cases impossible
  · next same _ =>
      obtain rfl := Nat.succ.inj same
      simp only [first, further, Option.bind_eq_bind, Option.bind_some, Option.pure_def]

theorem stringWithin?_escape {s : Text} {fuel : Nat} (rest : Text) (le : s.length ≤ fuel) :
    stringWithin? fuel (s.flatMap escape ++ '"' :: rest) = some (s, rest) := by
  induction s generalizing fuel with
  | nil => cases fuel <;> rfl
  | cons c s ih =>
      cases fuel with
      | zero => simp at le
      | succ fuel =>
          have first := character?_escape c (s.flatMap escape ++ '"' :: rest)
          obtain ⟨d, ds, hd, quote⟩ := exists_escape_eq_cons c
          rw [List.flatMap_cons, List.append_assoc]
          rw [hd, List.cons_append] at first ⊢
          exact stringWithin?_succ quote first (ih (Nat.le_of_succ_le_succ le))

theorem length_le_length_flatMap_escape (s : Text) : s.length ≤ (s.flatMap escape).length := by
  induction s with
  | nil => simp
  | cons c s ih =>
      obtain ⟨d, ds, hd, -⟩ := exists_escape_eq_cons c
      simp only [List.flatMap_cons, hd, List.length_append, List.length_cons]
      omega

/-- A written string reads back, whatever characters it has. -/
theorem string?_escape (s rest : Text) :
    string? (s.flatMap escape ++ '"' :: rest) = some (s, rest) := by
  refine stringWithin?_escape rest ?_
  have le := length_le_length_flatMap_escape s
  simp only [List.length_append]
  omega

theorem skipBlank_cons {c : Char} (ink : isBlank c = false) (t : Text) :
    skipBlank (c :: t) = c :: t := by
  simp [skipBlank, ink]

theorem quote_ink : isBlank '"' = false := rfl

theorem colon_ink : isBlank ':' = false := rfl

theorem comma_ink : isBlank ',' = false := rfl

theorem brace_ink : isBlank '}' = false := rfl

theorem opening_ink : isBlank '{' = false := rfl

theorem skipBlank_ofInt (n : Int) (rest : Text) :
    skipBlank (ofInt n ++ rest) = ofInt n ++ rest := by
  have digit {c : Char} (digit : isDigit c) : isBlank c = false := by
    by_cases blank : isBlank c
    · simp only [isBlank, Bool.or_eq_true, beq_iff_eq] at blank
      rcases blank with ((rfl | rfl) | rfl) | rfl <;> exact absurd digit (by decide)
    · simpa using blank
  cases n with
  | ofNat n =>
      cases hds : ofNat n with
      | nil => exact absurd hds Nat.toDigits_ne_nil
      | cons d ds =>
          have mem : d ∈ ofNat n := by simp [hds]
          rw [ofInt, hds, List.cons_append, skipBlank_cons (digit (isDigit_of_mem_ofNat mem))]
  | negSucc n => exact skipBlank_cons rfl _

end Json

namespace Metadata

open Json

namespace Partial

variable {fuel : Nat} {seen now : Partial} {key value rest : Text}

theorem readMembers?_comma (plain : key.flatMap escape = key)
    (read : seen.readValue? key value = some (now, ',' :: rest)) :
    readMembers? (fuel + 1) seen ('"' :: (key ++ '"' :: ':' :: value)) =
      readMembers? fuel now rest := by
  have name := string?_escape key (':' :: value)
  rw [plain] at name
  simp only [readMembers?, skipBlank_cons quote_ink, skipBlank_cons colon_ink,
    skipBlank_cons comma_ink, name, read, Option.bind_eq_bind, Option.bind_some]

theorem readMembers?_brace (plain : key.flatMap escape = key)
    (read : seen.readValue? key value = some (now, '}' :: rest)) :
    readMembers? (fuel + 1) seen ('"' :: (key ++ '"' :: ':' :: value)) = some (now, rest) := by
  have name := string?_escape key (':' :: value)
  rw [plain] at name
  simp only [readMembers?, skipBlank_cons quote_ink, skipBlank_cons colon_ink,
    skipBlank_cons brace_ink, name, read, Option.bind_eq_bind, Option.bind_some]

theorem readValue?_author (author : Text) :
    readValue? {} "author".toList (quote author ++ rest) = some ({ author := some author }, rest) := by
  simp only [readValue?, if_true, quote, List.cons_append, List.append_assoc, List.nil_append,
    skipBlank_cons quote_ink, string?_escape, Option.map_some]

theorem readValue?_timestamp {author : Text} {n : Int} (fits : inSigned64 n) :
    readValue? { author := some author } "timestamp".toList (Numeral.ofInt n ++ '}' :: rest) =
      some (⟨some author, some n⟩, '}' :: rest) := by
  have other : "timestamp".toList ≠ "author".toList := by decide
  simp only [readValue?, if_neg other, if_true, skipBlank_ofInt, integer?_ofInt fits,
    Option.map_some]

end Partial

theorem render_eq (m : Metadata) :
    m.render = '{' :: '"' :: ("author".toList ++ '"' :: ':' :: (quote m.author ++
      ',' :: '"' :: ("timestamp".toList ++ '"' :: ':' :: (Numeral.ofInt m.timestamp ++ ['}'])))) := by
  have first : "\x7b\"author\":".toList = '{' :: '"' :: ("author".toList ++ ['"', ':']) := by rfl
  have second : ",\"timestamp\":".toList = ',' :: '"' :: ("timestamp".toList ++ ['"', ':']) := by
    rfl
  unfold render
  simp only [first, second, List.append_assoc, List.cons_append, List.nil_append]

/-- The metadata of a comment read back from what is written for them. -/
theorem read?_render {m : Metadata} (fits : inSigned64 m.timestamp) : read? m.render = some m := by
  rw [render_eq, read?, skipBlank_cons opening_ink, readEither?, readObject?]
  rw [List.length_cons, Partial.readMembers?_comma rfl (Partial.readValue?_author m.author)]
  rw [List.length_append, List.length_cons, ← Nat.add_assoc,
    Partial.readMembers?_brace rfl (Partial.readValue?_timestamp fits)]
  rfl

end Metadata

end Marginalia
