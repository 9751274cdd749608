import Marginalia.Proofs.Markup.Bytewise
import Marginalia.Proofs.Markup.Tiling
import Marginalia.Proofs.Thread.Adjacency
import Marginalia.Review.Soundness

/-! # Readings are sound

What the check of a reading accepts, part by part, and that it accepts the reading of any text.
-/

namespace Marginalia

namespace Flaw

theorem ensure_eq_ok_iff {holds : Bool} {flaw : Flaw} :
    ensure holds flaw = .ok () ↔ holds = true := by
  cases holds <;> simp [ensure]

theorem bind_eq_ok_iff {first second : Except Flaw Unit} :
    (first >>= fun _ => second) = .ok () ↔ first = .ok () ∧ second = .ok () := by
  cases first <;> simp [bind, Except.bind]

theorem forM_eq_ok_iff {α : Type} {check : α → Except Flaw Unit} {l : List α} :
    l.forM check = .ok () ↔ ∀ a ∈ l, check a = .ok () := by
  induction l with
  | nil => simp [List.forM, pure, Except.pure]
  | cons a l ih => rw [List.forM, bind_eq_ok_iff, ih, List.forall_mem_cons]

theorem eachPair_eq_ok_iff {α : Type} {check : α → α → Except Flaw Unit} {l : List α} :
    eachPair check l = .ok () ↔ l.IsChain fun a b => check a b = .ok () := by
  induction l with
  | nil => simp [eachPair]
  | cons a l ih =>
      cases l with
      | nil => simp [eachPair]
      | cons b l => rw [eachPair, bind_eq_ok_iff, ih, List.isChain_cons_cons]

theorem checkMarkup_eq_ok_iff {t : Text} {m : Markup} :
    checkMarkup t m = .ok () ↔
      m.full.start ≤ m.full.stop ∧ m.full.stop ≤ t.byteLength ∧
        m.full.start ≤ m.inner.start ∧ m.inner.start ≤ m.inner.stop ∧
          m.inner.stop ≤ m.full.stop ∧ t.slice? m.inner = some m.content := by
  cases beneath : t.slice? m.inner with
  | none => simp [checkMarkup, bind_eq_ok_iff, ensure_eq_ok_iff, beneath]
  | some inside => simp [checkMarkup, bind_eq_ok_iff, ensure_eq_ok_iff, beneath, and_assoc]

theorem checkThread_eq_ok_iff {comments : List Markup} :
    checkThread comments = .ok () ↔
      comments ≠ [] ∧ (∀ m ∈ comments, m.isComment) ∧
        comments.IsChain fun a b => a.full.stop = b.full.start := by
  simp [checkThread, bind_eq_ok_iff, ensure_eq_ok_iff, eachPair_eq_ok_iff, Span.touches]

theorem checkThread_comments_eq_ok_iff {t : Thread} :
    checkThread t.comments = .ok () ↔ t.Joined := by
  rw [checkThread_eq_ok_iff]
  exact ⟨fun ⟨_, comments, touching⟩ => ⟨comments, touching⟩,
    fun ⟨comments, touching⟩ => ⟨List.cons_ne_nil _ _, comments, touching⟩⟩

/-- A reading passes when its tokens do and ascend, and its threads do and are apart. -/
theorem check_eq_ok_iff {t : Text} {ms : List Markup} {threads : List Thread} :
    check t ms (threads.map Thread.comments) = .ok () ↔
      (∀ m ∈ ms, checkMarkup t m = .ok ()) ∧
        (ms.IsChain fun a b => a.full.stop ≤ b.full.start) ∧
          (∀ u ∈ threads, u.Joined) ∧ threads.IsChain fun u v => u.stop < v.start := by
  have span (u : Thread) : spanOf u.comments = u.span := rfl
  simp only [check, bind_eq_ok_iff, forM_eq_ok_iff, eachPair_eq_ok_iff, ensure_eq_ok_iff,
    List.forall_mem_map, List.isChain_map, checkThread_comments_eq_ok_iff, span, Thread.span,
    decide_eq_true_eq]

end Flaw

theorem Markup.liesIn_of_mem_parse {t : Text} {m : Markup} (mem : m ∈ Markup.parse t) :
    m.LiesIn t := by
  rw [Markup.parse_eq] at mem
  exact (Markup.tiles_parseAfresh 0 t).liesIn [] rfl m mem

theorem Markup.LiesIn.checkMarkup {t : Text} {m : Markup} (h : m.LiesIn t) :
    Flaw.checkMarkup t m = .ok () := by
  obtain ⟨first, second, third⟩ := h.nested
  exact Flaw.checkMarkup_eq_ok_iff.mpr
    ⟨by omega, h.inBounds, first, second, third, h.beneath⟩

namespace Reading

/-- The reading of any text comes about without cutting a character, passes every check, and has all
    of the text in its tokens and the gaps around them. -/
theorem ofText_sound (t : Text) :
    Cursor.markup? {} ⟨t, 0, 0⟩ = some (ofText t).markup ∧
      Flaw.check t (ofText t).markup ((ofText t).threads.map Thread.comments) = .ok () ∧
      (∀ m ∈ (ofText t).markup, m.LiesIn t ∧
        (t.isBoundary m.full.start ∧ t.isBoundary m.full.stop) ∧
        t.isBoundary m.inner.start ∧ t.isBoundary m.inner.stop) ∧
      ((ofText t).markup.Pairwise fun a b => a.full.stop ≤ b.full.start) ∧
      Markup.Tiles 0 t (ofText t).markup := by
  have scanned : (ofText t).markup = Markup.parseAfresh 0 t := Markup.parse_eq t
  have tiles := Markup.tiles_parseAfresh 0 t
  have lies := tiles.liesIn [] rfl
  have ascending := Markup.pairwise_parseAfresh 0 t
  rw [← scanned] at tiles lies ascending
  refine ⟨Markup.markup?_eq_parse t, ?check, fun m mem => ?places, ascending, tiles⟩
  case check =>
    refine Flaw.check_eq_ok_iff.mpr ⟨fun m hm => (lies m hm).checkMarkup, ascending.isChain, ?_, ?_⟩
    · exact Thread.joined_of_mem_group ascending
    · exact Thread.isChain_group _
  case places =>
    exact ⟨lies m mem, (lies m mem).full_boundaries, (lies m mem).inner_boundaries⟩

end Reading

end Marginalia
