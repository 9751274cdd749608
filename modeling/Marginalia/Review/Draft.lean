import Marginalia.Document.Edit

/-! # Writing annotations

Builds the text of comments, highlights and suggestions. Delimiters inside a payload are broken up
by a space after their first character, so a written token always ends where it was meant to.
-/

namespace Marginalia

namespace Text

/-- Puts a space after the first character of each `pattern`, from left to right; the next one is
looked for behind the last. `inside` counts the characters of the last one still to pass. -/
def breakUpFrom (pattern : Text) : Nat → Text → Text
  | _, [] => []
  | inside + 1, c :: rest => c :: breakUpFrom pattern inside rest
  | 0, c :: rest =>
    if startsWith (c :: rest) pattern then c :: ' ' :: breakUpFrom pattern (pattern.length - 1) rest
    else c :: breakUpFrom pattern 0 rest

/-- One pass of breaking up `pattern`. -/
def breakUp (pattern : Text) (t : Text) : Text := breakUpFrom pattern 0 t

/-- Passes until `pattern` is absent, at most `fuel` of them. -/
def breakUpAll (pattern : Text) : Nat → Text → Text
  | 0, t => t
  | fuel + 1, t => if holds pattern t then breakUpAll pattern fuel (breakUp pattern t) else t

/-- The text without `pattern`. Each pass leaves fewer places where it stands, so there are no more
passes than characters. -/
def without (pattern : Text) (t : Text) : Text := breakUpAll pattern t.length t

/-- The text with every opener and each of `closers` broken up, one after the other. -/
def neutralize (closers : List Text) (t : Text) : Text :=
  (Kind.all.map Kind.opener ++ closers).foldl (fun t pattern => without pattern t) t

end Text

/-- A token of kind `k` around a payload. -/
def Kind.wrap (k : Kind) (payload : Text) : Text := k.opener ++ payload ++ k.closer

/-- A payload of kind `k` with nothing in it that could end or open a token. -/
def Kind.safe (k : Kind) (payload : Text) : Text := Text.neutralize [k.closer] payload

namespace Draft

/-- A comment with its metadata. -/
def comment (author : Text) (timestamp : Int) (content : Text) : Text :=
  let author := Text.neutralize [Kind.comment.closer, Kind.metadataEnd] author
  Kind.comment.wrap
    (Metadata.render ⟨author, timestamp⟩ ++ Kind.metadataEnd ++ Kind.comment.safe content)

/-- The suggestion that `old` become `new`; equal texts need none. -/
def suggest (old new : Text) : Text :=
  if old.isEmpty ∧ new.isEmpty then []
  else if old.isEmpty then Kind.addition.wrap (Kind.addition.safe new)
  else if new.isEmpty then Kind.deletion.wrap (Kind.deletion.safe old)
  else if old = new then new
  else
    Kind.substitution.wrap
      (Text.neutralize [Kind.substitution.closer, Kind.separator] old ++ Kind.separator ++
        Kind.substitution.safe new)

/-- What an edit writes: the new text itself, or a suggestion when edits are `tracked`. -/
def compose (tracked : Bool) (old new : Text) : Text := if tracked then suggest old new else new

/-- A new comment at `offset`. -/
def insertComment (offset : Nat) (token : Text) : Edit := .insert offset token

/-- A reply right behind a thread, so that it joins. -/
def insertReply (thread : Thread) (token : Text) : Edit := .insert thread.stop token

/-- A highlight around the selected text with a comment behind it; only the comment when nothing is
selected. -/
def commentSelection (range : Span) (selected : Text) (token : Text) : Edit :=
  if selected.isEmpty then .replace range token
  else .replace range (Kind.highlight.wrap (Kind.highlight.safe selected) ++ token)

end Draft

end Marginalia
