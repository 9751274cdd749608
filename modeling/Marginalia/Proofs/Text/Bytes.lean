import Marginalia.Proofs.Text.Boundary
import Marginalia.Text.Cursor
import Marginalia.Text.Utf8

/-! # Text seen in bytes

An ASCII character is one byte, and no byte of any other character is an ASCII one. So a cursor that
walks over bytes sees an ASCII sequence just where its characters stand, and never from inside a
character. A first byte tells itself from the others too, so boundaries can be told by single bytes.
-/

namespace Marginalia

namespace Text

/-- All characters are ASCII ones. -/
def Ascii (t : Text) : Prop := ∀ c ∈ t, c.toNat < 0x80

theorem utf8EncodeChar_of_lt {c : Char} (ascii : c.toNat < 0x80) :
    String.utf8EncodeChar c = [UInt8.ofNat c.toNat] := by
  have small : c.val.toNat ≤ 0x7F := Nat.le_of_lt_succ ascii
  rw [String.utf8EncodeChar]
  exact if_pos small

theorem le_of_mem_utf8EncodeChar {c : Char} (high : 0x80 ≤ c.toNat) {b : UInt8}
    (mem : b ∈ String.utf8EncodeChar c) : 0x80 ≤ b.toNat := by
  have large : ¬ c.val.toNat ≤ 0x7F := Nat.not_le.mpr high
  simp only [String.utf8EncodeChar, large, if_false] at mem
  split at mem
  · simp only [List.mem_cons, List.not_mem_nil, or_false] at mem
    rcases mem with rfl | rfl <;> simp only [UInt8.toNat_ofNat'] <;> omega
  split at mem
  · simp only [List.mem_cons, List.not_mem_nil, or_false] at mem
    rcases mem with rfl | rfl | rfl <;> simp only [UInt8.toNat_ofNat'] <;> omega
  · simp only [List.mem_cons, List.not_mem_nil, or_false] at mem
    rcases mem with rfl | rfl | rfl | rfl <;> simp only [UInt8.toNat_ofNat'] <;> omega

theorem exists_utf8EncodeChar_eq_cons (c : Char) :
    ∃ b bytes, String.utf8EncodeChar c = b :: bytes := by
  cases h : String.utf8EncodeChar c with
  | nil =>
      have := String.length_utf8EncodeChar c
      have := c.utf8Size_pos
      simp_all
  | cons b bytes => exact ⟨b, bytes, rfl⟩

theorem length_flatMap_utf8EncodeChar (t : Text) :
    (t.flatMap String.utf8EncodeChar).length = t.byteLength := by
  induction t with
  | nil => rfl
  | cons c t ih =>
      rw [List.flatMap_cons, List.length_append, ih, String.length_utf8EncodeChar, byteLength_cons]

/-- Bytes begin with those of an ASCII sequence when the characters begin with it. -/
theorem isPrefixOf_flatMap_utf8EncodeChar_iff {pattern t : Text} (ascii : pattern.Ascii) :
    (pattern.flatMap String.utf8EncodeChar).isPrefixOf (t.flatMap String.utf8EncodeChar) ↔
      pattern <+: t := by
  rw [List.isPrefixOf_iff_prefix]
  induction pattern generalizing t with
  | nil => simp
  | cons p pattern ih =>
      obtain ⟨small, ascii⟩ := List.forall_mem_cons.mp ascii
      rw [List.flatMap_cons, utf8EncodeChar_of_lt small, List.singleton_append]
      cases t with
      | nil => simp
      | cons c t =>
          rw [List.flatMap_cons, List.cons_prefix_cons, ← ih ascii]
          -- The first byte tells an ASCII character from any other.
          by_cases low : c.toNat < 0x80
          · rw [utf8EncodeChar_of_lt low, List.singleton_append, List.cons_prefix_cons]
            have same : UInt8.ofNat p.toNat = UInt8.ofNat c.toNat ↔ p = c := by
              constructor
              · intro h
                have := congrArg UInt8.toNat h
                simp only [UInt8.toNat_ofNat'] at this
                apply Char.toNat_inj.mp
                omega
              · exact fun h => h ▸ rfl
            rw [same]
          · obtain ⟨b, bytes, hbytes⟩ := exists_utf8EncodeChar_eq_cons c
            have high := le_of_mem_utf8EncodeChar (Nat.le_of_not_lt low) (b := b) (by simp [hbytes])
            rw [hbytes, List.cons_append, List.cons_prefix_cons]
            constructor
            · intro h
              have := congrArg UInt8.toNat h.1
              simp only [UInt8.toNat_ofNat'] at this
              omega
            · intro h
              exact absurd (h.1 ▸ small) low

/-- A character of UTF-8 text begins at byte `place`, or its bytes end there. -/
def ByteBoundary (bytes : List UInt8) (place : Nat) : Prop :=
  place = bytes.length ∨ ∃ b, bytes[place]? = some b ∧ b.IsUTF8FirstByte

theorem isBoundary_cons_iff {c : Char} {t : Text} {place : Nat} :
    isBoundary (c :: t) place ↔
      place = 0 ∨ c.utf8Size ≤ place ∧ t.isBoundary (place - c.utf8Size) := by
  have pos := c.utf8Size_pos
  simp only [isBoundary, beq_iff_eq, floorBoundary]
  split <;> omega

/-- The byte at a place tells whether it is a boundary. -/
theorem isBoundary_iff_byteBoundary (t : Text) (place : Nat) :
    t.isBoundary place ↔ ByteBoundary t.encode place := by
  induction t generalizing place with
  | nil =>
      rw [isBoundary, floorBoundary, beq_iff_eq, eq_comm]
      constructor
      · exact .inl
      · rintro (last | ⟨b, found, -⟩)
        · exact last
        · simp [encode] at found
  | cons c t ih =>
      have size := String.length_utf8EncodeChar c
      have pos := c.utf8Size_pos
      have bytes : encode (c :: t) = String.utf8EncodeChar c ++ encode t := List.flatMap_cons
      rw [isBoundary_cons_iff, ih, ByteBoundary, ByteBoundary, bytes, List.length_append]
      rcases Nat.lt_or_ge place c.utf8Size with inside | behind
      · -- Of the bytes of one character only the first is a first byte.
        have here : place < (String.utf8EncodeChar c).length := by omega
        rw [List.getElem?_append_left here, List.getElem?_eq_getElem here]
        simp only [Option.some.injEq, exists_eq_left', UInt8.isUTF8FirstByte_getElem_utf8EncodeChar]
        omega
      · have last : place - c.utf8Size = (encode t).length ↔
            place = c.utf8Size + (encode t).length := by omega
        rw [List.getElem?_append_right (by omega), size, last, or_iff_right (by omega),
          and_iff_right behind]

end Text

namespace Cursor

/-- The cursor between the two sides of a text. -/
def between (base : Nat) (front rest : Text) : Cursor := ⟨front ++ rest, base, front.byteLength⟩

variable {base i : Nat} {front rest pattern : Text} {c : Char}

theorem ahead_between (base : Nat) (front rest : Text) :
    (between base front rest).ahead = rest.flatMap String.utf8EncodeChar := by
  rw [ahead, between, List.flatMap_append, ← Text.length_flatMap_utf8EncodeChar front,
    List.drop_left]

theorem ahead_skip (n : Nat) (c : Cursor) : (c.skip n).ahead = c.ahead.drop n := by
  rw [ahead, ahead, skip, List.drop_drop]

theorem startsWith_between (ascii : pattern.Ascii) :
    (between base front rest).startsWith pattern ↔ pattern <+: rest := by
  have inside : (between base front rest).passed ≤ (between base front rest).text.byteLength := by
    rw [between, Text.byteLength_append]
    exact Nat.le_add_right _ _
  rw [startsWith, ahead_between, decide_eq_true inside, Bool.true_and]
  exact Text.isPrefixOf_flatMap_utf8EncodeChar_iff ascii

theorem not_startsWith_inside (ascii : pattern.Ascii) (ne : pattern ≠ []) (pos : 0 < i)
    (lt : i < c.utf8Size) :
    ¬ ((between base front (c :: rest)).skip i).startsWith pattern := by
  intro h
  obtain ⟨p, pattern, rfl⟩ := List.exists_cons_of_ne_nil ne
  have small := ascii p List.mem_cons_self
  have high : 0x80 ≤ c.toNat := by
    apply Nat.le_of_not_lt
    intro low
    have one := String.length_utf8EncodeChar c
    rw [Text.utf8EncodeChar_of_lt low, List.length_singleton] at one
    omega
  rw [startsWith, ahead_skip, ahead_between, List.flatMap_cons, List.flatMap_cons,
    Text.utf8EncodeChar_of_lt small, List.singleton_append, Bool.and_eq_true,
    List.isPrefixOf_iff_prefix, List.drop_append_of_le_length] at h
  · cases hb : (String.utf8EncodeChar c).drop i with
    | nil =>
        have := List.drop_eq_nil_iff.mp hb
        rw [String.length_utf8EncodeChar] at this
        omega
    | cons b bytes =>
        rw [hb, List.cons_append, List.cons_prefix_cons] at h
        have mem : b ∈ (String.utf8EncodeChar c).drop i := by simp [hb]
        have := Text.le_of_mem_utf8EncodeChar high (List.mem_of_mem_drop mem)
        rw [← h.2.1, UInt8.toNat_ofNat'] at this
        omega
  · rw [String.length_utf8EncodeChar]
    exact Nat.le_of_lt lt

theorem skip_utf8Size (base : Nat) (front : Text) (c : Char) (rest : Text) :
    (between base front (c :: rest)).skip c.utf8Size = between base (front ++ [c]) rest := by
  simp [between, skip, Text.byteLength_append]

end Cursor

end Marginalia
