/-! # Text and byte offsets

A text is a list of characters; a position in it is a byte offset into its UTF-8 form. An offset
between two characters is a boundary. `takeWithin` and `dropWithin` cut at the last boundary not
beyond an offset, `cut?` only at a boundary itself.
-/

namespace Marginalia

/-- Document text, as its characters in order. -/
abbrev Text := List Char

namespace Text

/-- Length of the UTF-8 form. -/
def byteLength : Text → Nat
  | [] => 0
  | c :: rest => c.utf8Size + byteLength rest

/-- The longest part from the front that has at most so many bytes. -/
def takeWithin : Nat → Text → Text
  | _, [] => []
  | room, c :: rest =>
    if c.utf8Size ≤ room then c :: takeWithin (room - c.utf8Size) rest else []

/-- What `takeWithin` leaves. -/
def dropWithin : Nat → Text → Text
  | _, [] => []
  | room, c :: rest =>
    if c.utf8Size ≤ room then dropWithin (room - c.utf8Size) rest else c :: rest

/-- The greatest boundary that is not beyond `offset`. -/
def floorBoundary : Text → Nat → Nat
  | [], _ => 0
  | c :: rest, offset =>
    if c.utf8Size ≤ offset then c.utf8Size + floorBoundary rest (offset - c.utf8Size) else 0

/-- The two sides of a boundary; nothing inside a character or past the end. -/
def cut? (t : Text) (offset : Nat) : Option (Text × Text) :=
  if floorBoundary t offset = offset then some (takeWithin offset t, dropWithin offset t) else none

/-- Whether `offset` lies between two characters of the text. -/
def isBoundary (t : Text) (offset : Nat) : Bool :=
  floorBoundary t offset == offset

/-- How many line ends the text holds. -/
def newlines : Text → Nat
  | [] => 0
  | c :: rest => (if c = '\n' then 1 else 0) + newlines rest

/-- The pieces between line ends: one more than there are line ends. -/
def lines : Text → List Text
  | [] => [[]]
  | c :: rest =>
    if c = '\n' then [] :: lines rest
    else match lines rest with
      | [] => [[c]]
      | line :: more => (c :: line) :: more

/-- How many line ends stand before a boundary. -/
def lineOf? (t : Text) (offset : Nat) : Option Nat :=
  (t.cut? offset).map fun sides => newlines sides.1

theorem byteLength_append (a b : Text) :
    byteLength (a ++ b) = byteLength a + byteLength b := by
  induction a with
  | nil => simp [byteLength]
  | cons c a ih => simp [byteLength, ih, Nat.add_assoc]

theorem takeWithin_append_dropWithin (room : Nat) (t : Text) :
    takeWithin room t ++ dropWithin room t = t := by
  induction t generalizing room with
  | nil => rfl
  | cons c t ih =>
    unfold takeWithin dropWithin
    split <;> simp [ih]

theorem byteLength_takeWithin (t : Text) (room : Nat) :
    byteLength (takeWithin room t) = floorBoundary t room := by
  induction t generalizing room with
  | nil => rfl
  | cons c t ih =>
    unfold takeWithin floorBoundary
    split <;> simp [byteLength, ih]

theorem floorBoundary_le (t : Text) (offset : Nat) : floorBoundary t offset ≤ offset := by
  induction t generalizing offset with
  | nil => simp [floorBoundary]
  | cons c t ih =>
    unfold floorBoundary
    split
    · have := ih (offset - c.utf8Size)
      omega
    · omega

theorem lines_ne_nil (t : Text) : lines t ≠ [] := by
  cases t with
  | nil => simp [lines]
  | cons c t =>
    unfold lines
    split
    · simp
    · split <;> simp

end Text

end Marginalia
