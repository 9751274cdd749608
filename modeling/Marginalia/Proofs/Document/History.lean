import Marginalia.Proofs.Document.Checked

/-! # What a document goes through

A document is opened and then selected in and edited, with whatever offsets, spans and threads. Each
edit carries the ends of the selection across its delta. An end that was a boundary comes to lie at
a boundary again, in what was kept, behind what was inserted, or in front of what follows.
-/

namespace Marginalia

namespace Delta

variable {start stop : Nat}

/-- An offset in front of the end of a copied stretch is carried there, any other goes on. -/
theorem carry_copying (offset done : Nat) (more : Delta) :
    carry offset done (copying start stop ++ more) =
      if start < stop ∧ offset < stop then done + (offset - start)
      else carry offset (done + (stop - start)) more := by
  by_cases some : start < stop
  · rw [copying, if_pos some, List.singleton_append, carry]
    by_cases front : offset ≤ start
    · rw [if_pos front, if_pos ⟨some, by omega⟩, Nat.sub_eq_zero_of_le front, Nat.add_zero]
    · rw [if_neg front]
      split
      · next inside => rw [if_pos ⟨some, inside⟩, Nat.add_sub_assoc (Nat.le_of_not_le front)]
      · next behind => rw [if_neg fun inside => behind inside.2]
  · rw [copying, if_neg some, if_neg fun inside => some inside.1,
      Nat.sub_eq_zero_of_le (Nat.le_of_not_lt some)]
    rfl

/-- An offset lies in a copied stretch or in front of it, or else it is carried on. -/
theorem carry_copying_cases (offset done : Nat) (more : Delta) :
    (offset < stop ∧ carry offset done (copying start stop ++ more) = done + (offset - start)) ∨
      carry offset done (copying start stop ++ more) =
        carry offset (done + (stop - start)) more := by
  rw [carry_copying]
  split
  · next inside => exact .inl ⟨inside.2, rfl⟩
  · exact .inr rfl

theorem carry_inserting (offset done : Nat) (text : Text) (more : Delta) :
    carry offset done (inserting text ++ more) = carry offset (done + text.byteLength) more := by
  cases text <;> rfl

/-- Carried across a delta, a boundary of the old text is a boundary of the new one. -/
theorem exists_carry_ofReplacements {offset : Nat} {t result : Text} {rs : List Replacement}
    (h : Exchange start t rs result) (boundary : t.isBoundary (offset - start)) (done : Nat) :
    ∃ place, result.isBoundary place ∧
      carry offset done (ofReplacements (start + t.byteLength) start rs) = done + place := by
  -- An offset in front of what is left counts as its start, hence the truncated difference.
  induction h generalizing done with
  | @kept start rest =>
      rw [ofReplacements, ← List.append_nil (copying _ _)]
      rcases carry_copying_cases offset done [] with ⟨-, here⟩ | behind
      · exact ⟨offset - start, boundary, here⟩
      · have last := Text.isBoundary_append rest []
        rw [List.append_nil] at last
        rw [behind, Nat.add_sub_cancel_left]
        exact ⟨rest.byteLength, last, rfl⟩
  | @replaced start gap old new rest result more h ih =>
      rw [ofReplacements_replaced]
      rcases carry_copying_cases offset done _ with ⟨lt, here⟩ | behind
      · rw [here]
        refine ⟨offset - start, ?_, rfl⟩
        rw [List.append_assoc] at boundary ⊢
        exact Text.isBoundary_append_left (Text.isBoundary_of_append boundary (by omega)) _
      · have further := Text.isBoundary_sub_of_append boundary
        rw [Text.byteLength_append, Nat.sub_sub, ← Nat.add_assoc] at further
        obtain ⟨place, boundary, carried⟩ := ih further (done + gap.byteLength + new.byteLength)
        rw [behind, Nat.add_sub_cancel_left, carry_inserting, carried]
        refine ⟨(gap ++ new).byteLength + place, Text.isBoundary_append_right _ boundary, ?_⟩
        rw [Text.byteLength_append]
        omega

end Delta

namespace Document

/-- Replaces the text under a span by what a policy makes of the old text and the new one. -/
def editWith (policy : Text → Text → Text) (range : Span) (new : Text) (d : Document) :
    Document × Patch :=
  let range := range.clamp d.text
  d.apply (.replace range (policy (d.slice range) new))

theorem edit_eq_editWith (range : Span) (new : Text) (tracked : Bool) (d : Document) :
    d.edit range new tracked = d.editWith (Draft.compose tracked) range new := rfl

/-- The selection lies in the text, in order and between characters. -/
structure Settled (d : Document) : Prop where
  ordered : d.selection.start ≤ d.selection.stop
  start_boundary : d.text.isBoundary d.selection.start
  stop_boundary : d.text.isBoundary d.selection.stop

theorem settled_ofText (t : Text) : (ofText t).Settled where
  ordered := Nat.le_refl _
  start_boundary := by simpa [ofText] using Text.isBoundary_append t []
  stop_boundary := by simpa [ofText] using Text.isBoundary_append t []

theorem settled_select (range : Span) (d : Document) : (d.select range).Settled := by
  obtain ⟨front, inside, rest, cut⟩ := Span.exists_cuts_clamp d.text range
  exact ⟨cut.start_le_stop, cut.isBoundary.1, cut.isBoundary.2⟩

theorem isBoundary_carry (e : Edit) {d : Document} {offset : Nat}
    (boundary : d.text.isBoundary offset) :
    (d.apply e).1.text.isBoundary ((Delta.ofEdit d.text e).carry offset 0) := by
  obtain ⟨result, made⟩ := e.exists_exchange d.text
  obtain ⟨place, there, carried⟩ := Delta.exists_carry_ofReplacements made boundary 0
  rw [Nat.zero_add, Nat.zero_add] at carried
  rw [text_apply_of_replacements made, Delta.ofEdit, carried]
  exact there

theorem Settled.apply {d : Document} (h : d.Settled) (e : Edit) : (d.apply e).1.Settled := by
  have start := isBoundary_carry e h.start_boundary
  have stop := isBoundary_carry e h.stop_boundary
  refine ⟨Nat.le_max_left _ _, start, ?_⟩
  change (d.apply e).1.text.isBoundary (max _ _)
  rcases Nat.le_total ((Delta.ofEdit d.text e).carry d.selection.start 0)
    ((Delta.ofEdit d.text e).carry d.selection.stop 0) with le | le
  · rw [Nat.max_eq_right le]
    exact stop
  · rw [Nat.max_eq_left le]
    exact start

/-- A document as it is opened. -/
inductive Opened : Document → Prop where
  | ofText (t : Text) : Opened (Document.ofText t)
  | ofBytes {bytes : List UInt8} {d : Document} : Document.ofBytes bytes = .ok d → Opened d

theorem Opened.exists_eq_ofText {d : Document} (opened : d.Opened) :
    ∃ t, d = Document.ofText t := by
  cases opened with
  | ofText t => exact ⟨t, rfl⟩
  | @ofBytes bytes _ read =>
      rw [Document.ofBytes] at read
      cases decoded : Text.decode bytes with
      | error fault =>
          rw [decoded] at read
          cases read
      | ok t =>
          rw [decoded] at read
          exact ⟨t, (Except.ok.inj read).symm⟩

end Document

/-- What can be done to a document, at offsets, spans, tokens and threads of whatever text. -/
inductive Operation where
  | select (range : Span)
  | apply (e : Edit)
  | resolve (m : Markup) (outcome : Outcome)
  | resolveAll (outcome : Outcome)
  | addComment (offset : Nat) (author : Text) (timestamp : Int) (content : Text)
  | commentOnSelection (author : Text) (timestamp : Int) (content : Text)
  | reply (thread : Thread) (author : Text) (timestamp : Int) (content : Text)
  | edit (policy : Text → Text → Text) (range : Span) (new : Text)

namespace Operation

/-- Whether the operation counts as an edit. -/
def isEdit : Operation → Bool
  | .select _ => false
  | _ => true

/-- The document afterwards. -/
def perform (d : Document) : Operation → Document
  | .select range => d.select range
  | .apply e => (d.apply e).1
  | .resolve m outcome => (d.resolve m outcome).1
  | .resolveAll outcome => (d.resolveAll outcome).1
  | .addComment offset author timestamp content => (d.addComment offset author timestamp content).1
  | .commentOnSelection author timestamp content =>
    (d.commentOnSelection author timestamp content).1
  | .reply thread author timestamp content => (d.reply thread author timestamp content).1
  | .edit policy range new => (d.editWith policy range new).1

/-- The document afterwards, made step by step: slices taken, markup read and edits made as far as
    their demands are met. -/
def perform? (d : Document) : Operation → Option Document
  | .select range => some (d.select range)
  | .apply e => Prod.fst <$> d.commit? e
  | .resolve m outcome => Prod.fst <$> d.commit? (.replace m.full (m.replacement outcome))
  | .resolveAll outcome => do
    let ms ← d.markup?
    Prod.fst <$> d.commit? (.replaceMany (ms.map fun m => (m.full, m.replacement outcome)))
  | .addComment offset author timestamp content =>
    Prod.fst <$> d.commit? (Draft.insertComment offset (Draft.comment author timestamp content))
  | .commentOnSelection author timestamp content => do
    let selected ← d.slice? d.selection
    Prod.fst <$> d.commit? (Draft.commentSelection d.selection selected
      (Draft.comment author timestamp content))
  | .reply thread author timestamp content =>
    Prod.fst <$> d.commit? (Draft.insertReply thread (Draft.comment author timestamp content))
  | .edit policy range new => do
    let old ← d.slice? (range.clamp d.text)
    Prod.fst <$> d.commit? (.replace (range.clamp d.text) (policy old new))

def run (d : Document) : List Operation → Document
  | [] => d
  | op :: ops => run (op.perform d) ops

def run? (d : Document) : List Operation → Option Document
  | [] => some d
  | op :: ops => do run? (← op.perform? d) ops

variable {d : Document}

theorem perform?_eq_some (d : Document) (op : Operation) : op.perform? d = some (op.perform d) := by
  cases op with
  | select range => rfl
  | apply | resolve | addComment | reply =>
      rw [perform?, Document.commit?_eq_some]
      rfl
  | resolveAll outcome =>
      rw [perform?, Document.markup?_eq_some, Option.bind_eq_bind, Option.bind_some,
        Document.commit?_eq_some]
      rfl
  | commentOnSelection | edit =>
      rw [perform?, Document.slice?_eq_some, Option.bind_eq_bind, Option.bind_some,
        Document.commit?_eq_some]
      rfl

theorem run?_eq_some (d : Document) (ops : List Operation) : run? d ops = some (run d ops) := by
  induction ops generalizing d with
  | nil => rfl
  | cons op ops ih =>
      rw [run?, perform?_eq_some, Option.bind_eq_bind, Option.bind_some, ih]
      rfl

theorem settled_perform (h : d.Settled) (op : Operation) : (op.perform d).Settled := by
  cases op with
  | select range => exact d.settled_select range
  | apply | resolve | resolveAll | addComment | commentOnSelection | reply | edit =>
      -- Each comes down to one edit.
      exact h.apply _

theorem version_perform (d : Document) (op : Operation) :
    (op.perform d).version = d.version + if op.isEdit then 1 else 0 := by
  cases op <;> rfl

theorem settled_run (h : d.Settled) (ops : List Operation) : (run d ops).Settled := by
  induction ops generalizing d with
  | nil => exact h
  | cons op ops ih => exact ih (settled_perform h op)

theorem version_run (d : Document) (ops : List Operation) :
    (run d ops).version = d.version + ops.countP isEdit := by
  induction ops generalizing d with
  | nil => rfl
  | cons op ops ih =>
      rw [run, ih, version_perform, List.countP_cons, Nat.add_assoc, Nat.add_comm (ops.countP isEdit)]

end Operation

namespace Document

/-- Whatever is done to a document, no step misses a demand. The selection lies in the text, in order
    and between characters, and the version says how many edits there have been. -/
theorem run_sound {start : Document} (opened : start.Opened)
    (ops : List Operation) :
    let d := Operation.run start ops
    Operation.run? start ops = some d ∧
      (d.selection.start ≤ d.selection.stop ∧ d.selection.stop ≤ d.length) ∧
      (d.text.isBoundary d.selection.start ∧ d.text.isBoundary d.selection.stop) ∧
      d.version = ops.countP Operation.isEdit := by
  intro d
  obtain ⟨t, rfl⟩ := opened.exists_eq_ofText
  have settled := Operation.settled_run (settled_ofText t) ops
  refine ⟨Operation.run?_eq_some _ ops, ⟨settled.ordered, ?_⟩,
    ⟨settled.start_boundary, settled.stop_boundary⟩, ?_⟩
  · exact Text.le_byteLength_of_isBoundary settled.stop_boundary
  · exact (Operation.version_run _ ops).trans (Nat.zero_add _)

/-- A selection that is reversed and ends inside a character, a deletion from inside a character to
    beyond the text, a reply to a thread that is gone by then, a suggestion for a reversed span. -/
theorem run_sound_at_stale_offsets :
    let start := ofText ("aé".toList ++ Kind.comment.wrap ['x'] ++ ['é'])
    let gone : Thread := ⟨⟨⟨3, 10⟩, ⟨6, 7⟩, ['x'], .comment none⟩, []⟩
    let ops : List Operation := [.select ⟨9, 2⟩, .apply (.delete ⟨2, 400⟩),
      .reply gone "me".toList 5 "yes".toList, .edit (Draft.compose true) ⟨7, 3⟩ ['é'],
      .resolveAll .reject]
    let d := Operation.run start ops
    Operation.run? start ops = some d ∧ d.selection = ⟨41, 41⟩ ∧
      d.text.isBoundary d.selection.stop ∧ d.version = 4 := by
  intro start gone ops d
  have opened : start.Opened := .ofText _
  obtain ⟨made, -, ⟨-, boundary⟩, version⟩ := run_sound opened ops
  exact ⟨made, by decide +kernel, boundary, version.trans rfl⟩

end Document

end Marginalia
