import Marginalia.CommandLine.Batch
import Marginalia.Settings.Store
import Marginalia.Viewer.Drawing

/-! # The program

What a run comes to, given its arguments, its environment, the files it can read and the time: text
and an exit status, or a viewer to be shown. Arguments are judged first, then the settings, then the
file.
-/

namespace Marginalia

/-- How the program is used. -/
def Request.usage : Text :=
  "Usage:
  critic-margin-cli view <file>
  critic-margin-cli list <file>
  critic-margin-cli accept-all <file>
  critic-margin-cli reject-all <file>
  critic-margin-cli comment <file> <offset> <text>
  critic-margin-cli reply <file> <thread-index> <text>".toList

/-- What a run comes to. -/
inductive Run where
  /-- It ends with an exit status, what it prints and what it complains of. -/
  | ends (status : Nat) (output complaint : Text)
  /-- It shows a document. -/
  | views (viewer : Viewer Float)

namespace Run

/-- A run that fails. -/
def fails (complaint : Text) : Run := .ends 1 [] ("Error: ".toList ++ complaint ++ ['\n'])

/-- The text of the file that a request is about, from what reading it came to. -/
def input (path : Text) (content : Except FileFault (List UInt8)) : Except Report Text :=
  match FileFault.decode content with
  | .ok t => .ok t
  | .error fault => .error { what := "reading ".toList ++ path, cause := some fault.message.toList }

/-- Answers a request. -/
def answer (settings : Settings) (read : Text → Except FileFault (List UInt8)) (now : Int)
    (r : Request) : Run :=
  match r with
  | .view path =>
    match Viewer.ofFile path (read path) settings.spacing with
    | .error report => fails report.full
    | .ok v => .views v
  | r =>
    match input r.path (read r.path) with
    | .error report => fails report.full
    | .ok t =>
      match r.run t settings.author now with
      | .error fault => fails fault.message
      | .ok output => .ends 0 output []

/-- Runs the program. -/
def ofArguments (args : List Text) (env : Environment)
    (read : Text → Except FileFault (List UInt8)) (now : Int) : Run :=
  match Request.read args with
  | .error fault => fails (fault.report.what ++ ['\n'] ++ Request.usage)
  | .ok r =>
    let path := Settings.path env
    match Settings.ofFileOrDefault env path (read path) with
    | .error fault =>
      fails
        ("Failed to load config file: ".toList ++ fault.message ++ "\nFix or remove ".toList ++ path)
    | .ok settings => answer settings read now r

end Run

end Marginalia
