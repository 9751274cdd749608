import Marginalia.CommandLine.Report
import Marginalia.Review.Resolution
import Marginalia.Text.Numeral

/-! # Requests

What the arguments of the command line ask for. The command and the file come first; of several
faults the one met first from the left is reported, and arguments too many come last.
-/

namespace Marginalia

/-- What a user can ask for, each of one file. -/
inductive Request where
  /-- Review the file on the screen. -/
  | view (path : Text)
  /-- Name its markup and its threads. -/
  | list (path : Text)
  /-- Accept or reject all suggestions. -/
  | resolve (path : Text) (outcome : Outcome)
  /-- Comment at an offset. -/
  | comment (path : Text) (offset : Nat) (content : Text)
  /-- Reply to a thread, counted from zero. -/
  | reply (path : Text) (thread : Nat) (content : Text)
  deriving Repr, DecidableEq

/-- Why arguments ask for nothing. -/
inductive RequestFault where
  /-- An argument is not there. -/
  | missing (what : String)
  /-- There is no such command. -/
  | unknown (command : Text)
  /-- An argument has to be a number. -/
  | notANumber (demand : String) (fault : Numeral.Fault)
  /-- There is an argument too many. -/
  | unexpected (argument : Text)
  deriving Repr, DecidableEq

/-- Wording of a fault. -/
def RequestFault.report : RequestFault → Report
  | .missing what => { what := "missing ".toList ++ what.toList }
  | .unknown command => { what := "unknown command '".toList ++ command ++ ['\''] }
  | .notANumber demand fault => { what := demand.toList, cause := some fault.message.toList }
  | .unexpected argument => { what := "unexpected argument '".toList ++ argument ++ ['\''] }

namespace Request

/-- The file that is asked about. -/
def path : Request → Text
  | .view path => path
  | .list path => path
  | .resolve path _ => path
  | .comment path _ _ => path
  | .reply path _ _ => path

/-- A request, if nothing follows it. -/
def alone (r : Request) : List Text → Except RequestFault Request
  | [] => .ok r
  | extra :: _ => .error (.unexpected extra)

/-- A request with a number and a text, and nothing after them. -/
def withNumber (request : Nat → Text → Request) (number demand content : String) :
    List Text → Except RequestFault Request
  | [] => .error (.missing number)
  | n :: rest =>
    match Numeral.unsigned n with
    | .error fault => .error (.notANumber demand fault)
    | .ok n =>
      match rest with
      | [] => .error (.missing content)
      | t :: rest => (request n t).alone rest

/-- The request that arguments make. -/
def read : List Text → Except RequestFault Request
  | [] => .error (.missing "command")
  | [_] => .error (.missing "file")
  | command :: path :: rest =>
    if command = "view".toList then (view path).alone rest
    else if command = "list".toList then (list path).alone rest
    else if command = "accept-all".toList then (resolve path .accept).alone rest
    else if command = "reject-all".toList then (resolve path .reject).alone rest
    else if command = "comment".toList then
      withNumber (comment path) "offset" "offset must be a byte offset" "comment text" rest
    else if command = "reply".toList then
      withNumber (reply path) "thread index" "thread index must be a number" "reply text" rest
    else .error (.unknown command)

end Request

end Marginalia
