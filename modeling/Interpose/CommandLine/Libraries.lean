import Interpose.Module

/-!
# What the program takes from libraries

Three things that the commands show are made by libraries: the digest of a file, the indented JSON
text of a module, and what a terminal shows of a line that may hold sequences for it. The commands
are stated for any libraries.
-/

namespace Interpose.CommandLine

structure Libraries where
  digest : List UInt8 → String
  /-- The text of an object with a fingerprint and a module. -/
  inspection : String → Module → String
  visible : String → String

end Interpose.CommandLine
