import Marginalia.Proofs.Document.Insertion
import Marginalia.Proofs.Thread.Grouping

/-! # Replies

A reply stands behind the last comment of its thread. No comment lies open there, since one has just
been closed, so the reply is a token of its own, and it touches that thread and no other.
-/

namespace Marginalia

namespace Markup

/-- Nothing lies open behind a token. -/
theorem not_openFrom_of_getLast? {start : Nat} {front : Text} {a : Markup}
    (last : (parseAfresh start front).getLast? = some a)
    (stop : a.full.stop = start + front.byteLength) : ¬ OpenFrom start front := by
  apply not_openFrom_of_le
  intro m hm beyond
  obtain ⟨more, scanned⟩ := parseAfresh_prefix_append start front Kind.comment.closer
  have order := pairwise_parseAfresh start (front ++ Kind.comment.closer)
  rw [← scanned] at hm order
  rcases List.mem_append.mp hm with before | after
  · have := (bounds_of_mem_parseAfresh before).2.2
    simp only [Kind.delimiterLength] at beyond
    omega
  · have behind := (List.pairwise_append.mp order).2.2 a (List.mem_of_getLast? last) m after
    omega

end Markup

/-- A text cut behind the last comment of a thread. -/
structure Thread.CutBehind (t : Text) (before : List Thread) (thread : Thread)
    (after : List Thread) (front rest : Text) : Prop where
  parts : t = front ++ rest
  place : front.byteLength = thread.stop
  closed : ¬ Markup.OpenFrom 0 front
  sides : Markup.parse t =
    Markup.parseAfresh 0 front ++ Markup.parseAfresh front.byteLength rest
  takes : TakesReply (Markup.parseAfresh 0 front) before thread
  behind : group (Markup.parseAfresh front.byteLength rest) = after
  apart : ∀ u ∈ after.head?, thread.stop < u.start

theorem Thread.exists_cutBehind {t : Text} {before after : List Thread} {thread : Thread}
    (threads : group (Markup.parse t) = before ++ thread :: after) :
    ∃ front rest, CutBehind t before thread after front rest := by
  obtain ⟨earlier, a, later, markup, stop, takes, behind, apart⟩ := exists_takesReply threads
  rw [Markup.parse_eq] at markup
  obtain ⟨front, rest, parts, there, scanned, onward⟩ := Markup.exists_cut_behind markup
  rw [← there, Nat.zero_add] at onward
  rw [Nat.zero_add] at there
  refine ⟨front, rest, parts, there.trans stop, ?_, ?_, scanned ▸ takes, onward ▸ behind, apart⟩
  · apply Markup.not_openFrom_of_getLast? (a := a)
    · rw [scanned, List.getLast?_concat]
    · rw [Nat.zero_add, there]
  · rw [Markup.parse_eq, markup, scanned, onward, List.append_assoc]
    rfl

namespace Document

theorem threads_eq (d : Document) : d.threads = Thread.group d.markup := rfl

theorem group_markup_of_getElem? {d : Document} {i : Nat} {thread : Thread}
    (here : d.threads[i]? = some thread) :
    Thread.group d.markup = d.threads.take i ++ thread :: d.threads.drop (i + 1) := by
  obtain ⟨inside, rfl⟩ := List.getElem?_eq_some_iff.mp here
  rw [List.getElem_cons_drop, List.take_append_drop]
  rfl

theorem addReply_eq_ok {d : Document} {i : Nat} {thread : Thread}
    (here : d.threads[i]? = some thread) (author : Text) (timestamp : Int) (content : Text) :
    Request.addReply d.text i author timestamp content =
      .ok (d.reply thread author timestamp content).1.text := by
  have found : (ofText d.text).threads[i]? = some thread := here
  simp only [Request.addReply, found]
  rfl

/-- A reply joins its thread and disturbs nothing else: the tokens in front of it are as they were,
    those behind it have moved, and so have the threads. -/
theorem threads_reply {d : Document} {i : Nat} {thread : Thread}
    (here : d.threads[i]? = some thread) (author : Text) {timestamp : Int}
    (fits : Json.inSigned64 timestamp) (content : Text) :
    let token := Draft.comment author timestamp content
    let comment := Draft.commentAt thread.stop author timestamp content
    let next := (d.reply thread author timestamp content).1
    Request.addReply d.text i author timestamp content = .ok next.text ∧
      (∃ front rest, d.text = front ++ rest ∧ front.byteLength = thread.stop ∧
        next.text = front ++ token ++ rest) ∧
      next.markup = d.markup.filter (fun m => m.full.stop ≤ thread.stop) ++ comment ::
        (d.markup.filter (fun m => thread.stop < m.full.stop)).map
          (Markup.shift token.byteLength) ∧
      next.threads = d.threads.take i ++ thread.withReply comment ::
        (d.threads.drop (i + 1)).map (Thread.shift token.byteLength) := by
  intro token comment next
  obtain ⟨front, rest, cut⟩ := Thread.exists_cutBehind (group_markup_of_getElem? here)
  have edited : next = (d.apply (.insert front.byteLength token)).1 := by
    rw [cut.place]
    rfl
  have fresh : next.markup = d.markup.filter (fun m => m.full.stop ≤ thread.stop) ++ comment ::
      (d.markup.filter (fun m => thread.stop < m.full.stop)).map
        (Markup.shift token.byteLength) := by
    rw [edited]
    unfold comment
    rw [← cut.place]
    exact markup_apply_insert cut.parts cut.sides cut.closed author fits content
  refine ⟨addReply_eq_ok here author timestamp content, ⟨front, rest, cut.parts, cut.place, ?_⟩,
    fresh, ?_⟩
  · rw [edited]
    exact text_apply_insert cut.parts token
  · obtain ⟨before, after⟩ := Markup.filter_parseAfresh_append front rest
    rw [← cut.sides, cut.place] at before after
    have moved : Thread.group ((Markup.parseAfresh thread.stop rest).map
        (Markup.shift token.byteLength)) =
          (d.threads.drop (i + 1)).map (Thread.shift token.byteLength) := by
      rw [Thread.group_map_shift, ← cut.place, cut.behind]
    rw [threads_eq next, fresh, markup_eq d, before, after, ← moved]
    apply cut.takes comment _ rfl (Nat.le_refl _)
    intro u hu
    rw [moved, List.head?_map] at hu
    obtain ⟨v, hv, rfl⟩ := Option.map_eq_some_iff.mp hu
    have := cut.apart v hv
    rw [Thread.start_shift]
    change thread.stop + token.byteLength < token.byteLength + v.start
    omega

/-- Of two threads the first takes the reply, and the second moves on. -/
theorem threads_reply_first_of_two :
    let d := ofText (Kind.comment.wrap ['a'] ++ [' '] ++ Kind.comment.wrap ['b'])
    let first : Thread := ⟨⟨⟨0, 7⟩, ⟨3, 4⟩, ['a'], .comment none⟩, []⟩
    let second : Thread := ⟨⟨⟨8, 15⟩, ⟨11, 12⟩, ['b'], .comment none⟩, []⟩
    let token := Draft.comment "me".toList 5 "yes".toList
    (d.reply first "me".toList 5 "yes".toList).1.threads =
      [first.withReply (Draft.commentAt 7 "me".toList 5 "yes".toList),
        second.shift token.byteLength] := by
  intro d first second token
  have here : d.threads[0]? = some first := by decide +kernel
  have fits : Json.inSigned64 5 := by decide
  obtain ⟨-, -, -, joined⟩ := threads_reply here "me".toList fits "yes".toList
  refine joined.trans ?_
  decide +kernel

end Document

end Marginalia
