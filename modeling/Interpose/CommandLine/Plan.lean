/-!
# Plans

A command as a plan: files to read and write, and what to print in the end. A plan does nothing by
itself.
-/

namespace Interpose.CommandLine

/-- The end of a command: its exit code, what it printed, and what it told about its errors. -/
structure Exit where
  code : Nat
  output : String
  errors : String
  deriving DecidableEq, Repr

/-- A command. Failures of the file system come as the text that describes them. -/
inductive Plan where
  | done (exit : Exit)
  | read (path : String) (next : Except String (List UInt8) → Plan)
  | write (path : String) (bytes : List UInt8) (next : Except String Unit → Plan)
  /-- A command that never comes to its end. -/
  | endless

end Interpose.CommandLine
