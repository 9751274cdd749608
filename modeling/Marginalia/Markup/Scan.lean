import Marginalia.Markup.Basic

/-! # Finding the markup of a text

One pass from left to right. An opener starts a token if its closer comes before any opener of
another kind; otherwise it is plain text, and the search goes on right after its first character, so
a whole token inside the debris is still found. Half-written markup is never an error.

A failed search is remembered: an opener of the same kind further on, up to the place where that
search stopped, would stop there as well and is not searched again.
-/

namespace Marginalia

/-- How the search for a closer ends. -/
inductive Search where
  /-- The closer was found after `payload`; `after` follows it. -/
  | closed (payload after : Text)
  /-- An opener of another kind stands `bytes` further on. -/
  | interrupted (bytes : Nat)
  /-- The text ends first. -/
  | unclosed

/-- Puts one more character before what was searched. -/
def Search.behind (c : Char) : Search → Search
  | .closed payload after => .closed (c :: payload) after
  | .interrupted bytes => .interrupted (c.utf8Size + bytes)
  | .unclosed => .unclosed

/-- Looks for the closer of kind `k`; openers of that kind itself are payload. -/
def Kind.search (k : Kind) : Text → Search
  | [] => .unclosed
  | c :: rest =>
    match Text.dropPrefix? k.closer (c :: rest) with
    | some after => .closed [] after
    | none => if k.foreignAt (c :: rest) then .interrupted 0 else (k.search rest).behind c

/-- How far openers of one kind are known to fail. -/
inductive Reach where
  /-- Up to an offset. -/
  | upTo (stop : Nat)
  /-- Up to the end of the text. -/
  | throughout

/-- Whether a payload that begins at `start` is known to fail. -/
def Reach.covers : Reach → Nat → Bool
  | .upTo stop, start => start ≤ stop
  | .throughout, _ => true

/-- The farther of two reaches. -/
def Reach.extend : Reach → Reach → Reach
  | .upTo a, .upTo b => .upTo (max a b)
  | _, _ => .throughout

/-- The failed searches so far, by kind. -/
structure DeadZones where
  addition : Reach := .upTo 0
  deletion : Reach := .upTo 0
  substitution : Reach := .upTo 0
  highlight : Reach := .upTo 0
  comment : Reach := .upTo 0

namespace DeadZones

def reach (z : DeadZones) : Kind → Reach
  | .addition => z.addition
  | .deletion => z.deletion
  | .substitution => z.substitution
  | .highlight => z.highlight
  | .comment => z.comment

/-- Remembers that a search for kind `k` failed as far as `r`. -/
def mark (z : DeadZones) (k : Kind) (r : Reach) : DeadZones :=
  match k with
  | .addition => { z with addition := z.addition.extend r }
  | .deletion => { z with deletion := z.deletion.extend r }
  | .substitution => { z with substitution := z.substitution.extend r }
  | .highlight => { z with highlight := z.highlight.extend r }
  | .comment => { z with comment := z.comment.extend r }

/-- Whether an opener of kind `k` whose payload begins at `start` is known to fail. -/
def covers (z : DeadZones) (k : Kind) (start : Nat) : Bool := (z.reach k).covers start

end DeadZones

theorem Kind.search_closed {k : Kind} {t payload after : Text}
    (h : k.search t = .closed payload after) : t = payload ++ k.closer ++ after := by
  induction t generalizing payload with
  | nil => simp [Kind.search] at h
  | cons c t ih =>
    unfold Kind.search at h
    split at h
    · next after' hdrop =>
      obtain ⟨rfl, rfl⟩ := Search.closed.inj h
      simpa using Text.dropPrefix?_eq_some_iff.1 hdrop
    · split at h
      · simp at h
      · cases hs : k.search t with
        | closed p a =>
          rw [hs] at h
          obtain ⟨rfl, rfl⟩ := Search.closed.inj h
          simp [ih hs]
        | interrupted _ => simp [hs, Search.behind] at h
        | unclosed => simp [hs, Search.behind] at h

/-- What one step at an opener comes to. -/
inductive Attempt where
  /-- A token, and the text after it. -/
  | token (m : Markup) (after : Text)
  /-- No token; what was learnt from that. -/
  | dropped (zones : DeadZones)

/-- Tries the opener of kind `k` at `start`, with `t` the text after it, unless `known` says that it
fails. -/
def Kind.attempt (known : DeadZones → Kind → Nat → Bool) (k : Kind) (zones : DeadZones)
    (start : Nat) (t : Text) : Attempt :=
  let payloadStart := start + Kind.delimiterLength
  if known zones k payloadStart then .dropped zones
  else match k.search t with
    | .unclosed => .dropped (zones.mark k .throughout)
    | .interrupted bytes => .dropped (zones.mark k (.upTo (payloadStart + bytes)))
    | .closed payload after =>
      match Markup.ofPayload? k start payload with
      | some m => .token m after
      | none => .dropped (zones.mark k (.upTo (payloadStart + payload.byteLength)))

theorem Kind.attempt_token {known : DeadZones → Kind → Nat → Bool} {k : Kind} {zones : DeadZones}
    {start : Nat} {t after : Text} {m : Markup}
    (h : k.attempt known zones start t = .token m after) :
    ∃ payload, t = payload ++ k.closer ++ after ∧ Markup.ofPayload? k start payload = some m := by
  unfold Kind.attempt at h
  simp only at h
  split at h
  · simp at h
  · split at h
    · simp at h
    · simp at h
    · next payload after' hsearch =>
      split at h
      · next m' hm =>
        obtain ⟨rfl, rfl⟩ := Attempt.token.inj h
        exact ⟨payload, Kind.search_closed hsearch, hm⟩
      · simp at h

/-- The token that begins at `start` with the text `t`, if one does. -/
def Markup.attemptAt (known : DeadZones → Kind → Nat → Bool) (zones : DeadZones) (start : Nat)
    (t : Text) : Attempt :=
  match Kind.openerAt? t with
  | none => .dropped zones
  | some k => k.attempt known zones start (t.drop k.opener.length)

theorem Markup.length_of_attemptAt {known : DeadZones → Kind → Nat → Bool} {zones : DeadZones}
    {start : Nat} {t after : Text} {m : Markup}
    (h : Markup.attemptAt known zones start t = .token m after) : after.length < t.length := by
  unfold Markup.attemptAt at h
  split at h
  · simp at h
  · next k _ =>
    obtain ⟨payload, ht, _⟩ := Kind.attempt_token h
    have := congrArg List.length ht
    cases k <;> simp [Kind.opener, Kind.closer] at this <;> omega

/-- Every token from `start` on, `t` being the text there. Openers that `known` rejects are not
searched. -/
def Markup.scanFrom (known : DeadZones → Kind → Nat → Bool) (zones : DeadZones) (start : Nat) :
    Text → List Markup
  | [] => []
  | c :: rest =>
    match h : Markup.attemptAt known zones start (c :: rest) with
    | .token m after =>
      have : after.length < rest.length + 1 := Markup.length_of_attemptAt h
      m :: Markup.scanFrom known zones m.full.stop after
    | .dropped zones => Markup.scanFrom known zones (start + c.utf8Size) rest
termination_by t => t.length

/-- The markup of a text that begins at `base` in a larger one. -/
def Markup.parseAt (base : Nat) (t : Text) : List Markup :=
  Markup.scanFrom DeadZones.covers {} base t

/-- The markup of a text. -/
def Markup.parse (t : Text) : List Markup := Markup.parseAt 0 t

/-- The same search without memory: every opener is searched from its own payload. -/
def Markup.parseAfresh (base : Nat) (t : Text) : List Markup :=
  Markup.scanFrom (fun _ _ _ => false) {} base t

end Marginalia
