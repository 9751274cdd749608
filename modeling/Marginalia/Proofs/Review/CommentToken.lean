import Marginalia.Proofs.Json.RoundTrip
import Marginalia.Proofs.Markup.Memory
import Marginalia.Proofs.Review.Neutral

/-! # The token of a comment

Whatever author and content a comment is written with, its token is read as one comment, by any text
that follows. Neutralising keeps delimiters out of author and content, escaping and the rest of the
metadata bring none in, and none comes about where the parts meet.
-/

namespace Marginalia

namespace Kind

/-- The characters that delimiters are made of. -/
def marks : Text := ['{', '}', '+', '-', '~', '=', '<', '>', '@']

theorem mem_marks_of_all {t : Text} (all : t.all fun c => marks.contains c) {c : Char}
    (h : c ∈ t) : c ∈ marks := by
  simpa using List.all_eq_true.mp all c h

theorem mem_marks_of_mem_opener {k : Kind} {c : Char} (h : c ∈ k.opener) : c ∈ marks :=
  mem_marks_of_all (by cases k <;> rfl) h

theorem mem_marks_of_mem_closer {k : Kind} {c : Char} (h : c ∈ k.closer) : c ∈ marks :=
  mem_marks_of_all (by cases k <;> rfl) h

theorem mem_marks_of_mem_metadataEnd {c : Char} (h : c ∈ metadataEnd) : c ∈ marks :=
  mem_marks_of_all rfl h

end Kind

namespace Json

open Kind

/-- A character is left as it is, or what is written for it has no mark. -/
theorem escape_eq_or_not_mem_marks (d : Char) : escape d = [d] ∨ ∀ c ∈ escape d, c ∉ marks := by
  have unmarked {t : Text} (none : t.all fun c => !marks.contains c) : ∀ c ∈ t, c ∉ marks := by
    intro c mem
    simpa using List.all_eq_true.mp none c mem
  unfold escape
  split
  all_goals first | exact .inr (unmarked rfl) | skip
  split
  · next low =>
      have table : ∀ n, n < 0x20 →
          (['\\', 'u'] ++ Numeral.hexOf 4 false n).all fun c => !marks.contains c := by
        decide
      exact .inr (unmarked (table _ low))
  · exact .inl rfl

section

variable {p t : Text}

theorem prefix_of_prefix_flatMap_escape (made : ∀ c ∈ p, c ∈ marks)
    (h : p <+: t.flatMap escape) : p <+: t := by
  induction t generalizing p with
  | nil => simpa using h
  | cons d t ih =>
      cases p with
      | nil => exact List.nil_prefix
      | cons c p =>
          rw [List.flatMap_cons] at h
          rcases escape_eq_or_not_mem_marks d with same | apart
          · rw [same] at h
            obtain ⟨rfl, further⟩ := List.cons_prefix_cons.mp h
            have rest := ih (fun c mem => made c (List.mem_cons_of_mem _ mem)) further
            exact List.cons_prefix_cons.mpr ⟨rfl, rest⟩
          · obtain ⟨e, more, he, -⟩ := exists_escape_eq_cons d
            rw [he] at h apart
            obtain ⟨rfl, -⟩ := List.cons_prefix_cons.mp h
            exact absurd (made c List.mem_cons_self) (apart c List.mem_cons_self)

/-- Escaping creates no sequence of marks. -/
theorem infix_of_infix_flatMap_escape (made : ∀ c ∈ p, c ∈ marks)
    (h : p <:+: t.flatMap escape) : p <:+: t := by
  induction t with
  | nil => simpa using h
  | cons d t ih =>
      by_cases ne : p = []
      · exact ne ▸ List.nil_infix
      rcases escape_eq_or_not_mem_marks d with same | apart
      · rw [List.flatMap_cons, same] at h
        rcases List.infix_cons_iff.mp h with front | further
        · have whole : p <+: (d :: t).flatMap escape := by simpa [same] using front
          exact (prefix_of_prefix_flatMap_escape made whole).isInfix
        · exact List.infix_cons (ih further)
      · rw [List.flatMap_cons] at h
        have further := Text.infix_of_infix_append ne
          (fun c mem part => apart c mem (made c part)) h
        exact List.infix_cons (ih further)

end

end Json

namespace Numeral

theorem mem_ofInt {n : Int} {c : Char} (h : c ∈ ofInt n) : c = '-' ∨ isDigit c := by
  cases n with
  | ofNat n => exact .inr (isDigit_of_mem_ofNat h)
  | negSucc n =>
      rcases List.mem_cons.mp h with minus | digit
      · exact .inl minus
      · exact .inr (isDigit_of_mem_ofNat digit)

end Numeral

namespace Metadata

open Kind Json

/-- Written metadata end in a brace. -/
theorem exists_render_eq_concat (m : Metadata) : ∃ front, m.render = front ++ ['}'] := ⟨_, rfl⟩

/-- A sequence of marks that stands in written metadata stands in the author. -/
theorem infix_author_of_infix_render {author p : Text} {timestamp : Int} {c : Char}
    (made : ∀ c ∈ p, c ∈ marks) (long : 2 ≤ p.length) (mem : c ∈ p)
    (rare : c = '{' ∨ c = '<' ∨ c = '@') (h : p <:+: render ⟨author, timestamp⟩) :
    p <:+: author := by
  have quote : '"' ∉ p := fun mem => absurd (made _ mem) (by decide)
  have pieces : render ⟨author, timestamp⟩ = ['{'] ++ '"' :: ("author".toList ++ '"' :: ([':'] ++ '"' ::
      (author.flatMap escape ++ '"' :: ([','] ++ '"' :: ("timestamp".toList ++ '"' ::
        (':' :: (Numeral.ofInt timestamp ++ ['}']))))))) := by
    rw [render_eq, Json.quote]
    simp only [List.append_assoc, List.cons_append, List.nil_append]
  rw [pieces] at h
  simp only [Text.infix_separator_iff quote] at h
  have outside {part : Text} (absent : ∀ c, c = '{' ∨ c = '<' ∨ c = '@' → c ∉ part) :
      ¬ p <:+: part := fun h => absent c rare (h.subset mem)
  rcases h with brace | key | colon | author | comma | key | value
  · exact absurd brace.length_le (Nat.not_le.mpr long)
  · exact absurd key (outside (by rintro _ (rfl | rfl | rfl) <;> decide))
  · exact absurd colon (outside (by rintro _ (rfl | rfl | rfl) <;> decide))
  · exact infix_of_infix_flatMap_escape made author
  · exact absurd comma (outside (by rintro _ (rfl | rfl | rfl) <;> decide))
  · exact absurd key (outside (by rintro _ (rfl | rfl | rfl) <;> decide))
  · refine absurd value (outside ?_)
    intro c rare mem
    simp only [List.mem_cons, List.mem_append, List.not_mem_nil, or_false] at mem
    rcases mem with rfl | written | rfl
    · revert rare
      decide
    · rcases Numeral.mem_ofInt written with rfl | digit
      · revert rare
        decide
      · rcases rare with rfl | rfl | rfl <;> exact absurd digit (by decide)
    · revert rare
      decide

end Metadata

namespace Draft

open Kind

/-- The author as it is written. -/
def signature (author : Text) : Text :=
  Text.neutralize [Kind.comment.closer, metadataEnd] author

/-- What a comment encloses, metadata included. -/
def body (author : Text) (timestamp : Int) (content : Text) : Text :=
  Metadata.render ⟨signature author, timestamp⟩ ++ metadataEnd ++ Kind.comment.safe content

/-- What the token of a comment says when it stands at `start`. -/
def commentAt (start : Nat) (author : Text) (timestamp : Int) (content : Text) : Markup where
  full := ⟨start, start + (comment author timestamp content).byteLength⟩
  inner :=
    ⟨start + delimiterLength +
        (Metadata.render ⟨signature author, timestamp⟩ ++ metadataEnd).byteLength,
      start + delimiterLength + (body author timestamp content).byteLength⟩
  content := Kind.comment.safe content
  detail := .comment (some ⟨signature author, timestamp⟩)

section

variable (author : Text) (timestamp : Int) (content : Text)

theorem comment_eq :
    comment author timestamp content =
      Kind.comment.opener ++ body author timestamp content ++ Kind.comment.closer := rfl

theorem byteLength_comment :
    (comment author timestamp content).byteLength =
      delimiterLength + (body author timestamp content).byteLength + delimiterLength := by
  rw [comment_eq, Text.byteLength_append, Text.byteLength_append, byteLength_opener,
    byteLength_closer]

theorem byteLength_comment_pos : 0 < (comment author timestamp content).byteLength := by
  rw [byteLength_comment]
  exact Nat.add_pos_right _ (by decide)

/-- A delimiter that author and content are free of is not in the body either. -/
theorem not_infix_body {p : Text} {c : Char} (made : ∀ c ∈ p, c ∈ marks) (long : 2 ≤ p.length)
    (mem : c ∈ p) (rare : c = '{' ∨ c = '<') (noEnd : '@' ∉ p)
    (hauthor : ¬ p <:+: signature author) (hcontent : ¬ p <:+: Kind.comment.safe content) :
    ¬ p <:+: body author timestamp content := by
  intro h
  have whole : body author timestamp content =
      Metadata.render ⟨signature author, timestamp⟩ ++ '@' ::
        ([] ++ '@' :: Kind.comment.safe content) := by
    simp only [body, metadataEnd, List.append_assoc, List.cons_append, List.nil_append]
  rw [whole, Text.infix_separator_iff noEnd, Text.infix_separator_iff noEnd] at h
  rcases h with metadata | between | inside
  · have rare' : c = '{' ∨ c = '<' ∨ c = '@' := by
      rcases rare with h | h
      · exact .inl h
      · exact .inr (.inl h)
    have written := Metadata.infix_author_of_infix_render made long mem rare' metadata
    exact hauthor written
  · exact absurd between.length_le (by simp only [List.length_nil]; omega)
  · exact hcontent inside

theorem not_opener_infix_body (k : Kind) : ¬ k.opener <:+: body author timestamp content := by
  obtain ⟨tail, same, -⟩ := exists_opener_eq_cons k
  have mem : '{' ∈ k.opener := by simp [same]
  have noEnd : '@' ∉ k.opener := by cases k <;> decide
  have hauthor : ¬ k.opener <:+: signature author :=
    Text.not_opener_infix_neutralize Payload.author.breakable_of_mem_closers k author
  have hcontent : ¬ k.opener <:+: Kind.comment.safe content :=
    Text.not_opener_infix_neutralize (Payload.last .comment).breakable_of_mem_closers k content
  exact not_infix_body author timestamp content (fun _ => mem_marks_of_mem_opener) (by simp) mem
    (.inl rfl) noEnd hauthor hcontent

theorem not_closer_infix_body : ¬ Kind.comment.closer <:+: body author timestamp content := by
  have mem : '<' ∈ Kind.comment.closer := by decide
  have noEnd : '@' ∉ Kind.comment.closer := by decide
  have hauthor : ¬ Kind.comment.closer <:+: signature author :=
    Text.not_infix_neutralize Payload.author.breakable_of_mem_closers List.mem_cons_self author
  have hcontent : ¬ Kind.comment.closer <:+: Kind.comment.safe content :=
    Text.not_infix_neutralize (Payload.last .comment).breakable_of_mem_closers List.mem_cons_self content
  exact not_infix_body author timestamp content (fun _ => mem_marks_of_mem_closer) (by simp) mem
    (.inr rfl) noEnd hauthor hcontent

theorem clear_body : Kind.comment.Clear (body author timestamp content) [] :=
  clear_of_absent (fun k _ => not_opener_infix_body author timestamp content k)
    (not_closer_infix_body author timestamp content)

/-- The metadata end at the first place where they can. -/
theorem firstSplit_body :
    Text.FirstSplit metadataEnd (body author timestamp content)
      (Metadata.render ⟨signature author, timestamp⟩) (Kind.comment.safe content) := by
  have absent : ¬ metadataEnd <:+: Metadata.render ⟨signature author, timestamp⟩ := by
    intro h
    have written := Metadata.infix_author_of_infix_render (c := '@')
      (fun _ => mem_marks_of_mem_metadataEnd) (by decide) (by decide) (.inr (.inr rfl)) h
    exact Text.not_infix_neutralize Payload.author.breakable_of_mem_closers
      (by simp [Payload.closers]) author written
  apply Text.FirstSplit.of_not_infix absent
  intro c last
  obtain ⟨front, same⟩ := Metadata.exists_render_eq_concat ⟨signature author, timestamp⟩
  rw [same, List.getLast?_concat] at last
  obtain rfl := Option.some.inj last
  decide

variable {timestamp}

/-- The token of a comment is read as that comment, whatever follows. -/
theorem begins_comment (fits : Json.inSigned64 timestamp) (start : Nat) (after : Text) :
    Markup.Begins start (comment author timestamp content ++ after)
      (commentAt start author timestamp content) after := by
  refine ⟨.comment, body author timestamp content, ?_, ?_, ?_⟩
  · rw [comment_eq]
  · exact (clear_closer_append_iff after).mpr (clear_body author timestamp content)
  · have split := Text.splitOnce?_eq_some_iff.mpr (firstSplit_body author timestamp content)
    have read := Metadata.read?_render (m := ⟨signature author, timestamp⟩) fits
    simp only [Markup.ofPayload?, Markup.splitComment, split, read, commentAt, byteLength_comment,
      Nat.add_assoc]

/-- The token of a comment is read as one comment that takes all of it and says what it was written
    for, with author and content neutralised. -/
theorem parse_comment (fits : Json.inSigned64 timestamp) :
    ∃ m, Markup.parse (comment author timestamp content) = [m] ∧ m.isComment ∧
      m.full = ⟨0, (comment author timestamp content).byteLength⟩ ∧
      m.metadata? = some ⟨Text.neutralize [Kind.comment.closer, metadataEnd] author, timestamp⟩ ∧
      m.content = Text.neutralize [Kind.comment.closer] content := by
  have begins := begins_comment author content fits 0 []
  rw [List.append_nil] at begins
  refine ⟨commentAt 0 author timestamp content, ?_, rfl, ?_, rfl, rfl⟩
  · rw [Markup.parse_eq, Markup.parseAfresh_of_begins begins, Markup.parseAfresh_nil]
  · rw [commentAt, Nat.zero_add]

end

/-- An author that ends the metadata too soon and quotes, and a content that opens, closes and ends
    in half a closer. -/
theorem parse_comment_full_of_delimiters :
    ∃ m, Markup.parse (comment "a@@\"".toList (-1) "\x7b++<<\x7d<".toList) = [m] ∧
      m.metadata? = some ⟨"a@ @\"".toList, -1⟩ ∧ m.content = "\x7b ++< <\x7d<".toList := by
  have fits : Json.inSigned64 (-1) := by decide
  obtain ⟨m, scanned, -, -, metadata, content⟩ :=
    parse_comment "a@@\"".toList "\x7b++<<\x7d<".toList fits
  refine ⟨m, scanned, metadata.trans ?_, content.trans ?_⟩
  · decide +kernel
  · decide +kernel

end Draft

end Marginalia
