import Interpose.CommandLine.FileError
import Interpose.CommandLine.Program
import Interpose.Digest.Sha256
import Interpose.Json.ModuleForm
import Interpose.Text.Terminal

/-!
# The executable

Carries out the plan of the command line on real files, with libraries that follow the standards of
SHA-256, JSON and terminals.
-/

namespace Interpose.CommandLine

def Libraries.standard : Libraries where
  digest := Digest.sha256
  inspection fingerprint m :=
    (Json.object [("fingerprint", .str fingerprint), ("module", Json.ofModule m)]).indented
  visible := Text.visible

/-- The number under which the system reported a failure. It comes with either sign. -/
def systemCode? : IO.Error → Option Nat
  | .noFileOrDirectory _ c _ | .noSuchThing _ c _ | .resourceExhausted _ c _
  | .permissionDenied _ c _ | .inappropriateType _ c _ | .invalidArgument _ c _
  | .otherError c _ => some (min c.toNat (-c).toNat)
  | _ => none

def failureText (e : IO.Error) : String :=
  match (systemCode? e).bind FileError.ofCode? with
  | some cause => cause.message
  | none => toString e

def Plan.execute : Plan → IO Exit
  | .done e => pure e
  | .read path next => do
    let found ← (IO.FS.readBinFile path).toBaseIO
    match found with
    | .ok bytes => (next (.ok bytes.data.toList)).execute
    | .error e => (next (.error (failureText e))).execute
  | .write path bytes next => do
    let written ← (IO.FS.writeBinFile path bytes.toByteArray).toBaseIO
    match written with
    | .ok () => (next (.ok ())).execute
    | .error e => (next (.error (failureText e))).execute
  | .endless => throw (IO.userError "the command never ends")

end Interpose.CommandLine

def main (args : List String) : IO UInt32 := do
  let e ← (Interpose.CommandLine.plan .standard args).execute
  IO.eprint e.errors
  IO.print e.output
  return UInt32.ofNat e.code
