import Marginalia.CommandLine.Batch
import Marginalia.Proofs.Document.Exchange
import Marginalia.Proofs.Markup.Stability
import Marginalia.Proofs.Review.CommentToken

/-! # Comments put into a text

A comment put at a boundary leaves the tokens on both sides as they are. It is a token of its own
there unless a comment has been opened in front of it and is still open: then it ends that one.
-/

namespace Marginalia

namespace Markup

/-- A comment opened in `front` is still open at its end: a closer there would close it. -/
def OpenFrom (start : Nat) (front : Text) : Prop :=
  ∃ m ∈ parseAfresh start (front ++ Kind.comment.closer),
    m.full.stop = start + front.byteLength + Kind.delimiterLength

/-- No comment is open where all that is found begins further on. -/
theorem not_openFrom_of_le {start : Nat} {front : Text}
    (behind : ∀ m ∈ parseAfresh start (front ++ Kind.comment.closer),
      m.full.stop = start + front.byteLength + Kind.delimiterLength →
        start + front.byteLength ≤ m.full.start) : ¬ OpenFrom start front := by
  intro h
  obtain ⟨m, hm, stop⟩ := h
  obtain ⟨u, v, after, -, begins⟩ := exists_begins_of_mem_parseAfresh hm
  have long := begins.delimiters_le
  have := behind m hm stop
  simp only [Kind.delimiterLength] at stop long
  omega

theorem openFrom_of_begins {start : Nat} {front after : Text} {m : Markup}
    (h : Begins start front m after) : OpenFrom start front ↔ OpenFrom m.full.stop after := by
  have total := h.stop_add
  unfold OpenFrom
  rw [parseAfresh_of_begins (h.append Kind.comment.closer), total]
  constructor
  · intro h
    obtain ⟨x, hx, stop⟩ := h
    rcases List.mem_cons.mp hx with rfl | hx
    · simp only [Kind.delimiterLength] at stop
      omega
    · exact ⟨x, hx, stop⟩
  · intro h
    obtain ⟨x, hx, stop⟩ := h
    exact ⟨x, List.mem_cons_of_mem m hx, stop⟩

theorem openFrom_cons {start : Nat} {c : Char} {front : Text}
    (plain : ∀ m after, ¬ Begins start (c :: (front ++ Kind.comment.closer)) m after) :
    OpenFrom start (c :: front) ↔ OpenFrom (start + c.utf8Size) front := by
  unfold OpenFrom
  rw [List.cons_append, parseAfresh_cons plain, Text.byteLength_cons, ← Nat.add_assoc]

theorem exists_ofPayload?_comment (start : Nat) (payload : Text) :
    ∃ m, ofPayload? .comment start payload = some m := by
  have shape : ofPayload? .comment start payload ≠ none := by simp [ofPayload?_eq_none_iff]
  exact Option.ne_none_iff_exists'.mp shape

/-- A comment that lies open in `front` is closed by the next closer. -/
theorem openFrom_of_clear {start : Nat} {v : Text} (clear : Kind.comment.Clear v []) :
    OpenFrom start (Kind.comment.opener ++ v) := by
  obtain ⟨m, hm⟩ := exists_ofPayload?_comment start v
  have begins : Begins start (Kind.comment.opener ++ v ++ Kind.comment.closer) m [] :=
    Begins.iff_clear.mpr ⟨.comment, v, by simp, clear, hm⟩
  refine ⟨m, ?_, ?_⟩
  · rw [parseAfresh_of_begins begins]
    exact List.mem_cons_self
  · have total := begins.stop_add
    rw [Text.byteLength_append, Kind.byteLength_closer] at total
    simpa [Nat.add_assoc] using total

/-- The closer of a comment has no brace before its end. -/
theorem eq_comment_closer_of_getLast? {u after : Text} (part : Kind.comment.closer = u ++ after)
    (last : u.getLast? = some '}') : u = Kind.comment.closer := by
  rcases u with _ | ⟨a, _ | ⟨b, _ | ⟨c, w⟩⟩⟩
  · cases last
  · simp only [Kind.closer, List.cons_append, List.cons.injEq] at part
    obtain ⟨rfl, -⟩ := part
    exact absurd last (by decide)
  · simp only [Kind.closer, List.cons_append, List.cons.injEq] at part
    obtain ⟨rfl, rfl, -⟩ := part
    exact absurd last (by decide)
  · simp only [Kind.closer, List.cons_append, List.cons.injEq] at part
    obtain ⟨rfl, rfl, rfl, rest⟩ := part
    obtain ⟨rfl, -⟩ := List.append_eq_nil_iff.mp rest.symm
    rfl

/-- What a closer behind a text closes is a comment that lies open in it. -/
theorem Begins.of_append_closer {start : Nat} {front after : Text} {m : Markup}
    (h : Begins start (front ++ Kind.comment.closer) m after)
    (beyond : start + front.byteLength < m.full.stop) :
    ∃ v, front = Kind.comment.opener ++ v ∧ Kind.comment.Clear v [] := by
  obtain ⟨k, payload, same, clear, hm⟩ := Begins.iff_clear.mp h
  have longer : front.byteLength < (k.opener ++ payload ++ k.closer).byteLength := by
    simp only [full_of_ofPayload? hm, stopOf] at beyond
    simp only [Text.byteLength_append, Kind.byteLength_opener, Kind.byteLength_closer]
    omega
  obtain ⟨u, token, part⟩ := Text.exists_between same (Nat.le_of_lt longer)
  have ne : u ≠ [] := by
    intro empty
    subst empty
    rw [token, List.append_nil] at longer
    exact absurd longer (Nat.lt_irrefl _)
  have last : u.getLast? = some '}' := by
    have ends := congrArg List.getLast? token
    have brace : k.closer.getLast? = some '}' := by cases k <;> rfl
    simp only [List.getLast?_append, brace, List.getLast?_eq_some_getLast ne, Option.some_or] at ends
    rw [List.getLast?_eq_some_getLast ne]
    exact ends.symm
  have whole := eq_comment_closer_of_getLast? part last
  rw [whole] at token
  obtain ⟨same, closer⟩ := List.append_inj' token (by simp)
  obtain rfl : k = .comment := by
    cases k <;> first | rfl | simp [Kind.closer] at closer
  exact ⟨payload, same.symm, clear⟩

/-- An opener behind the start of a token that reaches beyond it lies in a comment if it opens a
    comment: any other token would have been stopped by it. -/
theorem Begins.of_append_opener {start : Nat} {front rest after : Text} {m : Markup}
    (h : Begins start (front ++ (Kind.comment.opener ++ rest)) m after)
    (beyond : start + front.byteLength < m.full.stop) (ne : front ≠ []) :
    ∃ v, front = Kind.comment.opener ++ v ∧ Kind.comment.Clear v [] := by
  obtain ⟨k, payload, same, clear, hm⟩ := h
  simp only [List.append_assoc] at same
  obtain ⟨v, rfl⟩ := Kind.exists_of_opener_append ne same
  rw [List.append_assoc] at same
  have same := List.append_cancel_left same
  have longer : v.byteLength < payload.byteLength + Kind.delimiterLength := by
    simp only [full_of_ofPayload? hm, stopOf, Text.byteLength_append, Kind.byteLength_opener,
      Kind.delimiterLength] at beyond ⊢
    omega
  have lt : v.byteLength < payload.byteLength := by
    apply Nat.lt_of_not_le
    intro le
    obtain ⟨w, rfl, hw⟩ := Text.exists_between same.symm le
    have closes : k.closer <+: w ++ (Kind.comment.opener ++ rest) := hw ▸ List.prefix_append _ _
    have inside : k.closer <+: w := by
      refine Text.prefix_of_prefix_append (fun c head => ?_) closes
      obtain rfl := Option.some.inj head
      exact Kind.brace_not_mem_closer k
    obtain ⟨w', rfl⟩ := inside
    simp only [Text.byteLength_append, Kind.byteLength_closer] at longer
    omega
  obtain ⟨w, rfl, hw⟩ := Text.exists_between same (Nat.le_of_lt lt)
  obtain ⟨clear, crossed⟩ := Kind.clear_append_iff.mp clear
  rw [← hw] at clear
  have native : k = .comment := by
    apply Classical.byContradiction
    intro other
    cases w with
    | nil => simp at lt
    | cons c w =>
        rw [Kind.Clear] at crossed
        refine crossed.1 (.inr ⟨.comment, Ne.symm other, ?_⟩)
        rw [← List.cons_append, ← hw]
        exact List.prefix_append _ _
  subst native
  exact ⟨v, rfl, (Kind.clear_opener_append_iff .comment rest).mp clear⟩

theorem clear_comment_opener (rest : Text) : Kind.comment.Clear Kind.comment.opener rest := by
  have native (j : Kind) (other : j ≠ .comment) (t : Text) :
      ¬ j.opener <+: Kind.comment.opener ++ t := fun opens =>
    other (Kind.opener_prefix_unique opens (List.prefix_append _ t))
  refine ⟨?_, ?_, ?_, trivial⟩
  · intro h
    rcases h with closes | ⟨j, other, opens⟩
    · simp [Kind.closer] at closes
    · exact native j other rest opens
  · intro h
    rcases h with closes | ⟨j, -, opens⟩
    · simp [Kind.closer] at closes
    · obtain ⟨tail, same, -⟩ := j.exists_opener_eq_cons
      simp [same] at opens
  · intro h
    rcases h with closes | ⟨j, -, opens⟩
    · simp [Kind.closer] at closes
    · obtain ⟨tail, same, -⟩ := j.exists_opener_eq_cons
      simp [same] at opens

section

variable (author : Text) (timestamp : Int) (content : Text)

/-- What becomes of a comment put behind `front`. -/
inductive Lands (start : Nat) (front : Text) : Markup → Prop where
  /-- It is a token of its own. -/
  | alone (closed : ¬ OpenFrom start front) :
      Lands start front (Draft.commentAt (start + front.byteLength) author timestamp content)
  /-- It ends the comment that lies open in front of it. -/
  | swallowed {m : Markup} {u v : Text} (opened : OpenFrom start front) (comment : m.isComment)
      (cut : front = u ++ (Kind.comment.opener ++ v))
      (full : m.full = ⟨start + u.byteLength,
        start + front.byteLength + (Draft.comment author timestamp content).byteLength⟩) :
      Lands start front m

/-- A comment put where another lies open ends that one and becomes part of it. -/
theorem exists_begins_swallowing (start : Nat) {v : Text} (clear : Kind.comment.Clear v [])
    (rest : Text) :
    ∃ m, Begins start (Kind.comment.opener ++ v ++ (Draft.comment author timestamp content ++ rest))
        m rest ∧ m.isComment := by
  let payload := v ++ (Kind.comment.opener ++ Draft.body author timestamp content)
  have crossed : Kind.comment.Clear payload [] := by
    refine Kind.clear_append_iff.mpr ⟨?_, Kind.clear_append_iff.mpr ⟨?_, ?_⟩⟩
    · rw [List.append_assoc]
      exact (Kind.clear_opener_append_iff .comment _).mpr clear
    · exact clear_comment_opener _
    · exact Draft.clear_body author timestamp content
  obtain ⟨m, hm⟩ := exists_ofPayload?_comment start payload
  refine ⟨m, Begins.iff_clear.mpr ⟨.comment, payload, ?_, crossed, hm⟩, ?_⟩
  · simp only [payload, Draft.comment_eq, List.append_assoc]
  · simp [isComment, kind_of_ofPayload? hm]

variable {author timestamp content} {start : Nat} {c : Char} {front rest after : Text} {m x : Markup}

theorem Lands.behind_token (hm : Begins start front m after)
    (lands : Lands author timestamp content m.full.stop after x) :
    Lands author timestamp content start front x := by
  have total := hm.stop_add
  cases lands with
  | alone closed =>
      rw [total]
      exact .alone (mt (openFrom_of_begins hm).mp closed)
  | @swallowed _ u v opened comment cut full =>
      obtain ⟨token, rfl, stop, -⟩ := hm.exists_cut
      refine .swallowed (u := token ++ u) (v := v) ((openFrom_of_begins hm).mpr opened) comment ?_ ?_
      · rw [cut, List.append_assoc]
      · rw [full, total, stop, Text.byteLength_append token u, Nat.add_assoc start]

theorem Lands.behind_char
    (plain : ∀ m after, ¬ Begins start (c :: (front ++ Kind.comment.closer)) m after)
    (lands : Lands author timestamp content (start + c.utf8Size) front x) :
    Lands author timestamp content start (c :: front) x := by
  have total : start + c.utf8Size + front.byteLength = start + Text.byteLength (c :: front) := by
    rw [Text.byteLength_cons, Nat.add_assoc]
  cases lands with
  | alone closed =>
      rw [total]
      exact .alone (mt (openFrom_cons plain).mp closed)
  | @swallowed _ u v opened comment cut full =>
      refine .swallowed (u := c :: u) (v := v) ((openFrom_cons plain).mpr opened) comment ?_ ?_
      · rw [cut, List.cons_append]
      · rw [full, total, Text.byteLength_cons c u, Nat.add_assoc start]

theorem Begins.stop_of_comment
    (hm : Begins start (front ++ (Draft.comment author timestamp content ++ rest)) m rest) :
    m.full.stop =
      start + front.byteLength + (Draft.comment author timestamp content).byteLength := by
  have total := hm.stop_add
  simp only [Text.byteLength_append] at total
  omega

/-- A token that begins in `front` and takes in a comment behind it is a comment that ends there. -/
theorem Begins.lands (ne : front ≠ [])
    (hm : Begins start (front ++ (Draft.comment author timestamp content ++ rest)) m after)
    (beyond : start + front.byteLength < m.full.stop) :
    after = rest ∧ Lands author timestamp content start front m := by
  have opener : Draft.comment author timestamp content ++ rest = Kind.comment.opener ++
      (Draft.body author timestamp content ++ Kind.comment.closer ++ rest) := by
    simp only [Draft.comment_eq, List.append_assoc]
  have located := hm
  rw [opener] at located
  obtain ⟨v, rfl, clear⟩ := located.of_append_opener beyond ne
  obtain ⟨m', swallows, comment⟩ :=
    exists_begins_swallowing author timestamp content start clear rest
  obtain ⟨rfl, rfl⟩ := hm.unique swallows
  refine ⟨rfl, .swallowed (u := []) (v := v) (openFrom_of_clear clear) comment rfl ?_⟩
  rw [← hm.stop_of_comment, Text.byteLength_nil, Nat.add_zero, ← hm.start_eq]

/-- Scanning a text with a comment put into it: what was found on both sides is found again, and in
    between there is what has become of the comment. -/
theorem exists_parseAfresh_insert (fits : Json.inSigned64 timestamp) (start : Nat)
    (front rest : Text) :
    ∃ m, parseAfresh start (front ++ (Draft.comment author timestamp content ++ rest)) =
        parseAfresh start front ++ m ::
          parseAfresh (start + front.byteLength +
            (Draft.comment author timestamp content).byteLength) rest ∧
      Lands author timestamp content start front m := by
  induction start, front using scan_induction with
  | done start =>
      have begins := Draft.begins_comment author content fits start rest
      refine ⟨Draft.commentAt start author timestamp content, ?_, .alone ?_⟩
      · rw [List.nil_append, parseAfresh_of_begins begins, parseAfresh_nil]
        rfl
      · exact not_openFrom_of_le fun m hm _ => (bounds_of_mem_parseAfresh hm).1
  | token start front m after hm ih =>
      obtain ⟨x, scanned, lands⟩ := ih
      refine ⟨x, ?_, lands.behind_token hm⟩
      rw [parseAfresh_of_begins (hm.append _), parseAfresh_of_begins hm, scanned, ← hm.stop_add]
      rfl
  | skip start c front plain ih =>
      by_cases found : ∃ m after, Begins start
          (c :: front ++ (Draft.comment author timestamp content ++ rest)) m after
      · obtain ⟨m, after, hm⟩ := found
        have beyond := hm.lt_stop_of_plain plain
        obtain ⟨rfl, lands⟩ := hm.lands (by simp) beyond
        refine ⟨m, ?_, lands⟩
        rw [hm.parseAfresh_front beyond, parseAfresh_of_begins hm, hm.stop_of_comment]
        rfl
      · have plain' : ∀ m after, ¬ Begins start
            (c :: (front ++ (Draft.comment author timestamp content ++ rest))) m after :=
          fun m after hm => found ⟨m, after, hm⟩
        -- A closer would have ended a comment that the new one would have ended as well.
        have closed : ∀ m after,
            ¬ Begins start (c :: (front ++ Kind.comment.closer)) m after := by
          intro m after hm
          rw [← List.cons_append] at hm
          obtain ⟨v, cut, clear⟩ := hm.of_append_closer (hm.lt_stop_of_plain plain)
          obtain ⟨m', swallows, -⟩ :=
            exists_begins_swallowing author timestamp content start clear rest
          exact found ⟨m', rest, cut ▸ swallows⟩
        obtain ⟨m, scanned, lands⟩ := ih
        refine ⟨m, ?_, lands.behind_char closed⟩
        rw [List.cons_append, parseAfresh_cons plain', parseAfresh_cons plain, scanned,
          Text.byteLength_cons, Nat.add_assoc start]

end

/-- A comment opened in `front` is still open at its end. -/
def CommentOpen (front : Text) : Prop :=
  ∃ m ∈ parse (front ++ Kind.comment.closer),
    m.full.stop = front.byteLength + Kind.delimiterLength

instance (front : Text) : Decidable (CommentOpen front) :=
  inferInstanceAs (Decidable (∃ m ∈ parse (front ++ Kind.comment.closer),
    m.full.stop = front.byteLength + Kind.delimiterLength))

theorem commentOpen_iff {front : Text} : CommentOpen front ↔ OpenFrom 0 front := by
  simp only [CommentOpen, OpenFrom, parse_eq, Nat.zero_add]

/-- The tokens in front of a cut are those that end there or before, those behind it the others. -/
theorem filter_parseAfresh_append (front rest : Text) :
    (parseAfresh 0 front ++ parseAfresh front.byteLength rest).filter
          (fun m => m.full.stop ≤ front.byteLength) = parseAfresh 0 front ∧
      (parseAfresh 0 front ++ parseAfresh front.byteLength rest).filter
          (fun m => front.byteLength < m.full.stop) = parseAfresh front.byteLength rest := by
  have before (m : Markup) (hm : m ∈ parseAfresh 0 front) : m.full.stop ≤ front.byteLength := by
    have := (bounds_of_mem_parseAfresh hm).2.2
    omega
  have after (m : Markup) (hm : m ∈ parseAfresh front.byteLength rest) :
      front.byteLength < m.full.stop := by
    have := bounds_of_mem_parseAfresh hm
    omega
  rw [List.filter_append, List.filter_append]
  constructor
  · rw [List.filter_eq_self.mpr (by simpa using before), List.filter_eq_nil_iff.mpr, List.append_nil]
    simpa using after
  · rw [List.filter_eq_nil_iff.mpr, List.filter_eq_self.mpr (by simpa using after), List.nil_append]
    simpa using before

end Markup

namespace Document

/-- A comment put between two sides that are scanned apart, where none lies open, joins the tokens of
    both. -/
theorem markup_apply_insert {d : Document} {front rest : Text} (cut : d.text = front ++ rest)
    (sides : d.markup = Markup.parseAfresh 0 front ++ Markup.parseAfresh front.byteLength rest)
    (closed : ¬ Markup.OpenFrom 0 front) (author : Text) {timestamp : Int}
    (fits : Json.inSigned64 timestamp) (content : Text) :
    let token := Draft.comment author timestamp content
    (d.apply (.insert front.byteLength token)).1.markup =
      d.markup.filter (fun m => m.full.stop ≤ front.byteLength) ++
        Draft.commentAt front.byteLength author timestamp content ::
          (d.markup.filter (fun m => front.byteLength < m.full.stop)).map
            (Markup.shift token.byteLength) := by
  intro token
  obtain ⟨m, scanned, lands⟩ := Markup.exists_parseAfresh_insert fits 0 front rest
  cases lands with
  | alone =>
      obtain ⟨before, after⟩ := Markup.filter_parseAfresh_append front rest
      rw [Nat.zero_add] at scanned
      rw [markup_eq, text_apply_insert cut, List.append_assoc, Markup.parse_eq, scanned, sides,
        before, after, Nat.add_comm, Markup.parseAfresh_shift]
  | swallowed opened => exact absurd opened closed

/-- Put where a comment lies open, a comment is no token of its own but ends that one. -/
theorem exists_mem_markup_apply_insert {d : Document} {front rest : Text}
    (cut : d.text = front ++ rest) (opened : Markup.OpenFrom 0 front) (author : Text)
    {timestamp : Int} (fits : Json.inSigned64 timestamp) (content : Text) :
    let token := Draft.comment author timestamp content
    let next := (d.apply (.insert front.byteLength token)).1
    (∀ m ∈ next.markup, m.full.start ≠ front.byteLength) ∧
      ∃ m ∈ next.markup, m.isComment ∧ ∃ u v, front = u ++ (Kind.comment.opener ++ v) ∧
        m.full = ⟨u.byteLength, front.byteLength + token.byteLength⟩ := by
  intro token next
  obtain ⟨m, scanned, lands⟩ := Markup.exists_parseAfresh_insert fits 0 front rest
  have markup : next.markup = Markup.parseAfresh 0 front ++ m ::
      Markup.parseAfresh (0 + front.byteLength + token.byteLength) rest := by
    rw [markup_eq, text_apply_insert cut, List.append_assoc, Markup.parse_eq]
    exact scanned
  cases lands with
  | alone closed => exact absurd opened closed
  | @swallowed _ u v _ comment shape full =>
      rw [Nat.zero_add, Nat.zero_add] at full
      rw [markup]
      refine ⟨?_, m, by simp, comment, u, v, shape, full⟩
      intro x hx
      rcases List.mem_append.mp hx with before | here
      · have := Markup.bounds_of_mem_parseAfresh before
        omega
      · rcases List.mem_cons.mp here with rfl | after
        · apply Nat.ne_of_lt
          simp only [full, shape, Text.byteLength_append, Kind.byteLength_opener,
            Kind.delimiterLength]
          omega
        · have := Markup.bounds_of_mem_parseAfresh after
          have long : 0 < token.byteLength :=
            Draft.byteLength_comment_pos author timestamp content
          apply Nat.ne_of_gt
          omega

/-- What a new comment does to the markup of a text that has no token across its place. Where no
    comment lies open, it joins the others, which stay as they are. Where one does, it ends there. -/
theorem markup_addComment {d : Document} {front rest : Text} (cut : d.text = front ++ rest)
    (apart : ∀ m ∈ d.markup,
      ¬ (m.full.start < front.byteLength ∧ front.byteLength < m.full.stop))
    (author : Text) {timestamp : Int} (fits : Json.inSigned64 timestamp) (content : Text) :
    let token := Draft.comment author timestamp content
    let next := (d.addComment front.byteLength author timestamp content).1
    next.text = front ++ token ++ rest ∧
      Request.addComment d.text front.byteLength author timestamp content = .ok next.text ∧
      (¬ Markup.CommentOpen front →
        next.markup = d.markup.filter (fun m => m.full.stop ≤ front.byteLength) ++
          Draft.commentAt front.byteLength author timestamp content ::
            (d.markup.filter (fun m => front.byteLength < m.full.stop)).map
              (Markup.shift token.byteLength)) ∧
      (Markup.CommentOpen front →
        (∀ m ∈ next.markup, m.full.start ≠ front.byteLength) ∧
          ∃ m ∈ next.markup, m.isComment ∧ ∃ u v, front = u ++ (Kind.comment.opener ++ v) ∧
            m.full = ⟨u.byteLength, front.byteLength + token.byteLength⟩) := by
  intro token next
  refine ⟨text_apply_insert cut token, ?_, ?_, ?_⟩
  · have boundary : d.text.isBoundary front.byteLength := cut ▸ Text.isBoundary_append front rest
    rw [Request.addComment, if_pos boundary]
    rfl
  · intro closed
    rw [Markup.commentOpen_iff] at closed
    have sides : d.markup =
        Markup.parseAfresh 0 front ++ Markup.parseAfresh front.byteLength rest := by
      rw [markup_eq, cut, Markup.parse_eq] at apart ⊢
      rw [← Nat.zero_add front.byteLength] at apart ⊢
      exact Markup.parseAfresh_append apart
    exact markup_apply_insert cut sides closed author fits content
  · intro opened
    rw [Markup.commentOpen_iff] at opened
    exact exists_mem_markup_apply_insert cut opened author fits content

/-- Behind an addition a comment stands alone; in a comment left open it ends that one. -/
theorem markup_addComment_behind_addition_in_comment :
    ((ofText (Kind.addition.wrap ['a'] ++ ['b'])).addComment 7 "me".toList 5 "why?".toList).1.markup =
        [⟨⟨0, 7⟩, ⟨3, 4⟩, ['a'], .addition⟩, Draft.commentAt 7 "me".toList 5 "why?".toList] ∧
      ∀ m ∈ ((ofText (Kind.comment.opener ++ ['a'] ++ ['b'])).addComment 4 "me".toList 5
          "why?".toList).1.markup, m.full.start ≠ 4 := by
  have addition : (ofText (Kind.addition.wrap ['a'] ++ ['b'])).text =
      Kind.addition.wrap ['a'] ++ ['b'] := rfl
  have comment : (ofText (Kind.comment.opener ++ ['a'] ++ ['b'])).text =
      Kind.comment.opener ++ ['a'] ++ ['b'] := rfl
  have fits : Json.inSigned64 5 := by decide
  obtain ⟨-, -, fresh, -⟩ :=
    markup_addComment addition (by decide +kernel) "me".toList fits "why?".toList
  obtain ⟨-, -, -, swallowed⟩ :=
    markup_addComment comment (by decide +kernel) "me".toList fits "why?".toList
  refine ⟨(fresh (by decide +kernel)).trans ?_, (swallowed (by decide +kernel)).1⟩
  decide +kernel

end Document

end Marginalia
