import Marginalia.Text.Span
import Marginalia.Markup.Kind
import Marginalia.Markup.Metadata

/-! # Markup found in a text

A `Markup` is one token: where it lies, what it encloses, and what its kind says beyond that.
-/

namespace Marginalia

/-- What one token says, by kind. -/
inductive Detail where
  | addition
  | deletion
  /-- The halves of the payload around its first separator. -/
  | substitution (old new : Text)
  | highlight
  /-- Metadata, when the payload began with some. -/
  | comment (metadata : Option Metadata)
  deriving Repr, DecidableEq

def Detail.kind : Detail → Kind
  | .addition => .addition
  | .deletion => .deletion
  | .substitution _ _ => .substitution
  | .highlight => .highlight
  | .comment _ => .comment

/-- One token of markup. -/
structure Markup where
  /-- The whole token, delimiters included. -/
  full : Span
  /-- The payload, without delimiters and metadata. -/
  inner : Span
  /-- The text under `inner`. -/
  content : Text
  detail : Detail
  deriving Repr, DecidableEq

namespace Markup

def kind (m : Markup) : Kind := m.detail.kind

def isComment (m : Markup) : Bool := m.kind = .comment

/-- Metadata of a comment that has some. -/
def metadata? (m : Markup) : Option Metadata :=
  match m.detail with
  | .comment metadata => metadata
  | _ => none

/-- Whether `offset` lies in the token, delimiters included. -/
def covers (m : Markup) (offset : Nat) : Bool := m.full.contains offset

/-- The same token, `distance` bytes further on. -/
def shift (distance : Nat) (m : Markup) : Markup :=
  { m with full := m.full.shift distance, inner := m.inner.shift distance }

/-- A comment's payload as metadata, the text that leads up to the body, and the body. -/
def splitComment (payload : Text) : Option Metadata × Text × Text :=
  match Text.splitOnce? Kind.metadataEnd payload with
  | none => (none, [], payload)
  | some (before, body) =>
    match Metadata.read? before with
    | none => (none, [], payload)
    | some m => (some m, before ++ Kind.metadataEnd, body)

/-- The token of kind `k` at `start` around `payload`; a substitution without a separator is none.
-/
def ofPayload? (k : Kind) (start : Nat) (payload : Text) : Option Markup :=
  let first := start + Kind.delimiterLength
  let last := first + payload.byteLength
  let token (detail : Detail) : Markup :=
    ⟨⟨start, last + Kind.delimiterLength⟩, ⟨first, last⟩, payload, detail⟩
  match k with
  | .addition => some (token .addition)
  | .deletion => some (token .deletion)
  | .highlight => some (token .highlight)
  | .substitution =>
    (Text.splitOnce? Kind.separator payload).map fun (old, new) => token (.substitution old new)
  | .comment =>
    let (metadata, lead, body) := splitComment payload
    some
      { token (.comment metadata) with
        inner := ⟨first + lead.byteLength, last⟩
        content := body }

end Markup

end Marginalia
