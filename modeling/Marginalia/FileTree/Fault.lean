import Marginalia.Text.Utf8

/-! # Faults of files

Why a path cannot be read or written, with the system's wording.
-/

namespace Marginalia

/-- Why a path cannot be read or written. -/
inductive FileFault where
  /-- Nothing is there. -/
  | missing
  /-- A name on the way is a file. -/
  | notADirectory
  /-- A directory is where a file is wanted. -/
  | isADirectory
  | denied
  /-- A path or a name in it is longer than any can be. -/
  | nameTooLong
  /-- A path holds the character zero. -/
  | zeroInPath
  /-- The bytes of a file are not UTF-8. -/
  | notText
  /-- Anything else, in the system's words. -/
  | other (reason : String)
  deriving Repr, DecidableEq

namespace FileFault

/-- Wording of a fault. -/
def message : FileFault → String
  | .missing => "No such file or directory (os error 2)"
  | .notADirectory => "Not a directory (os error 20)"
  | .isADirectory => "Is a directory (os error 21)"
  | .denied => "Permission denied (os error 13)"
  | .nameTooLong => "File name too long (os error 36)"
  | .zeroInPath => "file name contained an unexpected NUL byte"
  | .notText => "stream did not contain valid UTF-8"
  | .other reason => reason

/-- Whether a fault says that there can be no such file. -/
def isAbsence (fault : FileFault) : Bool :=
  fault ∈ [.missing, .notADirectory, .nameTooLong, .zeroInPath]

/-- What reading a file came to, as text. -/
def decode (content : Except FileFault (List UInt8)) : Except FileFault Text :=
  content.bind fun bytes =>
    match Text.decode bytes with
    | .ok t => .ok t
    | .error _ => .error .notText

end FileFault

end Marginalia
