import Marginalia.Settings.Basic
import Marginalia.FileTree.Basic

/-! # Loading and saving settings

A file that is not there is no fault: the defaults hold. One that is there has to be readable, UTF-8
and well formed.
-/

namespace Marginalia

/-- Why settings cannot be loaded. -/
inductive SettingsFault where
  /-- The file at `path` cannot be read. -/
  | unreadable (path : Text) (fault : FileFault)
  /-- The file at `path` does not hold settings. -/
  | malformed (path : Text)
  deriving Repr, DecidableEq

/-- Wording of a fault. -/
def SettingsFault.message : SettingsFault → Text
  | .unreadable path fault =>
    "Failed to read config file at ".toList ++ path ++ [':', ' '] ++ fault.message.toList
  | .malformed path => "Failed to parse config file at ".toList ++ path ++ [':', ' ']

namespace Settings

/-- The settings in the file at `path`, given what reading it came to. -/
def ofFile (env : Environment) (path : Text) (content : Except FileFault (List UInt8)) :
    Except SettingsFault (Option Settings) :=
  match FileFault.decode content with
  | .error fault => if fault.isAbsence then .ok none else .error (.unreadable path fault)
  | .ok t =>
    match read? t with
    | none => .error (.malformed path)
    | some s => .ok (some (s.expand env))

/-- The settings in the file at `path`, or the defaults without it. -/
def ofFileOrDefault (env : Environment) (path : Text) (content : Except FileFault (List UInt8)) :
    Except SettingsFault Settings := do
  return (← ofFile env path content).getD (default.expand env)

/-- Writes settings to a file. -/
def save (path : Text) (s : Settings) (files : FileTree) : Except FileFault FileTree :=
  files.install path s.render.encode

end Settings

end Marginalia
