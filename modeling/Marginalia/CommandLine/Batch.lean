import Marginalia.CommandLine.Listing
import Marginalia.CommandLine.Request
import Marginalia.Document.Basic

/-! # Requests answered without a screen

Each takes the text of the file and gives the text to print: a listing, or the file as it would be
after the change. The file itself stays as it is.
-/

namespace Marginalia

/-- Why a request cannot be answered. -/
inductive BatchFault where
  /-- A comment would cut a character or lie past the end. -/
  | offBoundary (offset length : Nat)
  /-- There is no such thread. -/
  | noThread (index count : Nat)
  /-- Viewing takes a screen. -/
  | needsTerminal (path : Text)
  deriving Repr, DecidableEq

/-- Wording of a fault. -/
def BatchFault.message : BatchFault → Text
  | .offBoundary offset length =>
    "offset ".toList ++ Numeral.ofNat offset ++ " is not a character boundary in a ".toList ++
      Numeral.ofNat length ++ " byte document".toList
  | .noThread index count =>
    "no thread ".toList ++ Numeral.ofNat index ++ "; document has ".toList ++ Numeral.ofNat count
  | .needsTerminal path => path ++ " needs an interactive terminal".toList

namespace Request

/-- The text with a comment at an offset. -/
def addComment (t : Text) (offset : Nat) (author : Text) (now : Int) (content : Text) :
    Except BatchFault Text :=
  if t.isBoundary offset then .ok ((Document.ofText t).addComment offset author now content).1.text
  else .error (.offBoundary offset t.byteLength)

/-- The text with a reply to a thread. -/
def addReply (t : Text) (index : Nat) (author : Text) (now : Int) (content : Text) :
    Except BatchFault Text :=
  let d := Document.ofText t
  match d.threads[index]? with
  | some thread => .ok (d.reply thread author now content).1.text
  | none => .error (.noThread index d.threads.length)

/-- The answer to a request about a file that holds `t`. -/
def run (t : Text) (author : Text) (now : Int) : Request → Except BatchFault Text
  | .view path => .error (.needsTerminal path)
  | .list _ => .ok ((Reading.ofText t).listing.flatMap (· ++ ['\n']))
  | .resolve _ outcome => .ok (t.resolveAll outcome)
  | .comment _ offset content => addComment t offset author now content
  | .reply _ index content => addReply t index author now content

end Request

end Marginalia
