import Marginalia.Text.Basic

/-! # Spans

A span is a pair of byte offsets, in either order and perhaps computed against an older text.
Clamping brings it into a text: both ends go down to boundaries and the start does not pass the
stop.
-/

namespace Marginalia

/-- Byte offsets `[start, stop)`. -/
structure Span where
  start : Nat
  stop : Nat
  deriving Repr, DecidableEq, BEq

namespace Span

/-- Length in bytes, zero when reversed. -/
def length (s : Span) : Nat := s.stop - s.start

def isEmpty (s : Span) : Bool := s.length == 0

/-- Whether `other` begins exactly where `s` stops. -/
def touches (s other : Span) : Bool := s.stop == other.start

/-- Lexicographic order: by start, then by stop. -/
def precedes (s other : Span) : Bool :=
  s.start < other.start || (s.start == other.start && s.stop < other.stop)

/-- Whether the span holds `offset`. -/
def contains (s : Span) (offset : Nat) : Bool := s.start ≤ offset && offset < s.stop

/-- The same span, `by` bytes further on. -/
def shift (distance : Nat) (s : Span) : Span := ⟨distance + s.start, distance + s.stop⟩

/-- Both ends snapped down into `t`, the start not past the stop. -/
def clamp (t : Text) (s : Span) : Span :=
  let stop := t.floorBoundary s.stop
  ⟨min (t.floorBoundary s.start) stop, stop⟩

/-- How a span is written in reports. -/
def describe (s : Span) : String :=
  s!"Span \x7b start: {s.start}, end: {s.stop} \x7d"

end Span

namespace Text

/-- The text under a span whose ends are boundaries in order; otherwise nothing. -/
def slice? (t : Text) (s : Span) : Option Text :=
  if s.start ≤ s.stop then do
    let (_, after) ← t.cut? s.start
    let (inside, _) ← after.cut? (s.stop - s.start)
    return inside
  else none

/-- The text under a span once clamped. -/
def under (t : Text) (s : Span) : Text :=
  let c := s.clamp t
  takeWithin (c.stop - c.start) (t.dropWithin c.start)

/-- Like `slice?` with the ends first brought inside the text; an empty span is empty wherever it
lies. -/
def extract? (t : Text) (s : Span) : Option Text :=
  let stop := min s.stop t.byteLength
  let start := min s.start stop
  if start = stop then some [] else t.slice? ⟨start, stop⟩

/-- The text with the part under a clamped span exchanged for `new`. -/
def splice (t : Text) (s : Span) (new : Text) : Text :=
  t.takeWithin s.start ++ new ++ t.dropWithin s.stop

end Text

theorem Span.clamp_start_le_stop (t : Text) (s : Span) : (s.clamp t).start ≤ (s.clamp t).stop :=
  Nat.min_le_right _ _

end Marginalia
