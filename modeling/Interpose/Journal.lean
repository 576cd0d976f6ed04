/-!
# The journal

Lines that a run leaves for its operator, each with its importance and the activity it comes from.
-/

namespace Interpose

inductive Level where
  | debug
  | info
  | warn
  deriving DecidableEq, Repr

inductive Topic where
  | expansion
  | redirection
  | logger
  deriving DecidableEq, Repr

structure JournalLine where
  level : Level
  topic : Topic
  text : String
  deriving DecidableEq, Repr

def Level.text : Level → String
  | .debug => "DEBUG"
  | .info => "INFO"
  | .warn => "WARN"

end Interpose
