import Marginalia.Thread
import Marginalia.Text.Column

/-! # Listings

A line for each token of markup, then a line for each thread.
-/

namespace Marginalia

/-- What a listing tells of a token beside its place and kind. -/
def Markup.summary (m : Markup) : Text :=
  match m.detail with
  | .substitution old new => old.preview 30 ++ " -> ".toList ++ new.preview 30
  | .comment (some d) => d.author ++ [':', ' '] ++ m.content.preview 50
  | _ => m.content.preview 60

/-- The line of a token. -/
def Markup.listing (m : Markup) : Text :=
  (Numeral.ofNat m.full.start).alignRight 6 ++ ['.', '.'] ++
    (Numeral.ofNat m.full.stop).alignLeft 6 ++ [' '] ++
    Text.alignLeft 12 m.kind.name.toList ++ [' '] ++ m.summary

/-- The line of the thread with number `index`. -/
def Thread.listing (index : Nat) (t : Thread) : Text :=
  "thread ".toList ++ Numeral.ofNat index ++ " at ".toList ++ Numeral.ofNat t.start ++ [':', ' '] ++
    Numeral.ofNat t.size ++ " comment(s)".toList

/-- The lines of a reading. -/
def Reading.listing (r : Reading) : List Text :=
  r.markup.map Markup.listing ++ r.threads.zipIdx.map fun (t, index) => t.listing index

end Marginalia
