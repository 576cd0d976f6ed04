/-!
# File errors

The causes for which a file cannot be read or written, and their wording.
-/

namespace Interpose.CommandLine

inductive FileError where
  | notFound
  | noDevice
  | outOfMemory
  | notPermitted
  | notADirectory
  | isADirectory
  | noSpace
  | nameTooLong
  deriving DecidableEq, Repr

def FileError.message : FileError → String
  | .notFound => "No such file or directory (os error 2)"
  | .noDevice => "No such device or address (os error 6)"
  | .outOfMemory => "out of memory"
  | .notPermitted => "Permission denied (os error 13)"
  | .notADirectory => "Not a directory (os error 20)"
  | .isADirectory => "Is a directory (os error 21)"
  | .noSpace => "No space left on device (os error 28)"
  | .nameTooLong => "File name too long (os error 36)"

def FileError.ofCode? : Nat → Option FileError
  | 2 => some .notFound
  | 6 => some .noDevice
  | 12 => some .outOfMemory
  | 13 => some .notPermitted
  | 20 => some .notADirectory
  | 21 => some .isADirectory
  | 28 => some .noSpace
  | 36 => some .nameTooLong
  | _ => none

end Interpose.CommandLine
