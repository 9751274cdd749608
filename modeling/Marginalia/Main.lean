import Std.Time.DateTime.Timestamp
import Marginalia.CommandLine.Program

/-! # The command line

Reads the two files a run can ask for, its environment and the clock, and carries out what the run
comes to. A document to be viewed is shown as its first screen.
-/

namespace Marginalia.CommandLine

/-- The system's fault as a fault of files. -/
def faultOf : IO.Error → FileFault
  | .noFileOrDirectory _ _ _ => .missing
  | .permissionDenied _ _ _ => .denied
  | .invalidArgument _ 36 _ => .nameTooLong
  | .inappropriateType _ code _ => if code = 20 then .notADirectory else .isADirectory
  | e => .other (toString e)

/-- The bytes of a file. -/
def readFile (path : Text) : IO (Except FileFault (List UInt8)) := do
  try
    let bytes ← IO.FS.readBinFile (String.ofList path)
    return .ok bytes.toList
  catch e => return .error (faultOf e)

/-- Names of the variables that a text mentions. -/
def variableNames (t : Text) : List Text :=
  (Piece.ofText t).filterMap fun
    | .variable name _ => some name
    | _ => none

/-- The variables of some names, as far as they are set. -/
def environmentOf (names : List Text) : IO Environment := do
  let mut found := []
  for name in names do
    if let some value ← IO.getEnv (String.ofList name) then
      found := (name, value.toList) :: found
  return .ofBindings found

/-- Milliseconds since 1970. -/
def now : IO Int := do
  return (← Std.Time.Timestamp.now).toMillisecondsSinceUnixEpoch.val

/-- Runs the program on arguments. -/
def run (args : List Text) : IO UInt32 := do
  let path := Settings.path (← environmentOf ["HOME".toList])
  let settings ← readFile path
  let mentioned := match FileFault.decode settings with
    | .ok t => ((Settings.read? t).map Settings.author).getD Settings.defaultAuthor
    | .error _ => Settings.defaultAuthor
  let env ← environmentOf ("HOME".toList :: variableNames mentioned)
  let content ← match Request.read args with
    | .ok r => readFile r.path
    | .error _ => pure (.error .missing)
  let read (asked : Text) : Except FileFault (List UInt8) :=
    if asked = path then settings else content
  match Run.ofArguments args env read (← now) with
  | .ends status output complaint =>
    (← IO.getStdout).putStr (String.ofList output)
    (← IO.getStderr).putStr (String.ofList complaint)
    return status.toUInt32
  | .views v =>
    for row in (v.draw 80 24).1.rows do
      (← IO.getStdout).putStrLn (String.ofList row)
    return 0

end Marginalia.CommandLine

/-- Entry point. -/
def main (args : List String) : IO UInt32 := Marginalia.CommandLine.run (args.map String.toList)
