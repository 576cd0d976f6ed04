import Interpose.CommandLine.Arguments
import Interpose.CommandLine.Libraries
import Interpose.CommandLine.Plan
import Interpose.Image.Decode
import Interpose.Interception.Redirector
import Interpose.Session.Sample

/-!
# The program

The four commands as plans: list a module (`inspect_command`), redirect the calls of a method
(`rewrite_command`), run a method (`run_command`), write the sample module (`sample_command`).
-/

namespace Interpose.CommandLine

variable (L : Libraries)

/-! ### Errors and the journal -/

/-- Puts four blanks in front of every line of a text but the first. -/
def indentRest (text : String) : String := String.intercalate "\n    " (text.splitOn "\n")

def originText : Topic → String
  | .expansion => "callweave::rewrite::rewriter"
  | .redirection => "callweave::rewrite"
  | .logger => "callweave::runtime::logger"

def levelText (l : Level) : String :=
  let word := l.text
  word ++ String.ofList (List.replicate (5 - word.length) ' ')

/-- A journal line as the operator sees it. Names in it may carry sequences for a terminal, which
are taken out; one that does not end may take the end of the line with it. -/
def journalText (line : JournalLine) : String :=
  L.visible ("[" ++ levelText line.level ++ " " ++ originText line.topic ++ "] "
    ++ indentRest line.text ++ "\n")

/-- The journal as it is shown: lines for debugging only on request. -/
def shownText (verbose : Bool) (lines : List JournalLine) : String :=
  String.join ((lines.filter fun l => verbose || l.level ≠ .debug).map (journalText L))

def linesText (lines : List String) : String := String.join (lines.map (· ++ "\n"))

def success (errors : String) (output : List String) : Plan := .done ⟨0, linesText output, errors⟩

def failure (errors message : String) : Plan :=
  .done ⟨1, "", errors ++ "Error: " ++ message ++ "\n"⟩

/-- The end of a command that failed for a reason that has a cause of its own. -/
def failureBecause (errors message cause : String) : Plan :=
  failure errors (message ++ "\n\nCaused by:\n    " ++ indentRest cause)

def withModule (path : String) (next : Module → List UInt8 → Plan) : Plan :=
  .read path fun
    | .error e => failureBecause "" ("Failed to read " ++ path) e
    | .ok bytes =>
      match Image.decode bytes with
      | .error e => failureBecause "" ("Failed to decode " ++ path) e.message
      | .ok m => next m bytes

/-! ### Listing -/

def signatureText (s : Signature) : String :=
  "(" ++ s.paramText ++ ") -> " ++ s.returns.text ++ if s.isStatic then " static" else ""

def positionText (n : Nat) : String :=
  let digits := Nat.toDigits 10 n
  String.ofList (List.replicate (4 - digits.length) '0' ++ digits)

/-- An instruction with its position. A call of a known method shows the name of the method. -/
def instrLine (m : Module) (i : Instr) (position : Nat) : String :=
  "    " ++ positionText position ++ "  " ++
    match i with
    | .call (.direct t) => "call " ++ m.qualifiedName t
    | i => i.text

def methodLines (m : Module) (method : MethodDef) : List String :=
  ("  " ++ method.name ++ signatureText method.signature) ::
    match method.body with
    | none => ["    native"]
    | some b =>
      (b.locals.zipIdx.map fun p => "    .local " ++ Nat.repr p.2 ++ " " ++ p.1.text)
        ++ b.code.zipIdx.map fun p => instrLine m p.1 p.2

def moduleLines (m : Module) (fingerprint : String) : List String :=
  ("module " ++ m.name ++ " (" ++ fingerprint ++ ")") ::
    m.types.flatMap fun t => ("type " ++ t.name) ::
      (t.methods.filterMap m.method?).flatMap (methodLines m)

def inspect (path : String) (json : Bool) : Plan :=
  withModule path fun m bytes =>
    let fingerprint := L.digest bytes
    if json then success "" [L.inspection fingerprint m]
    else success "" (moduleLines m fingerprint)

/-! ### Redirecting -/

def reportLines (m : Module) (r : Report) (before after : String) : List String := [
  "rewrote " ++ m.qualifiedName r.method,
  "  call sites:   " ++ Nat.repr r.callSites,
  "  locals added: " ++ Nat.repr r.localsAdded,
  "  instructions: " ++ Nat.repr r.instructionsBefore ++ " -> " ++ Nat.repr r.instructionsAfter,
  "  before: " ++ before,
  "  after:  " ++ after]

def redirect (verbose : Bool) (path typeName methodName : String) (output : Option String) : Plan :=
  withModule path fun m bytes =>
    let attempt := Redirector.standard.redirectNamed m typeName methodName
    let errors := shownText L verbose attempt.journal
    match attempt.result with
    | .error e => failure errors e.message
    | .ok (.notFound missing) => success errors ["nothing rewritten: " ++ missing.message]
    | .ok (.redirected report) =>
      let image := Image.encode attempt.module
      let target := output.getD path
      .write target image fun
        | .error e => failureBecause errors ("Failed to write " ++ target) e
        | .ok () =>
          success errors
            (reportLines attempt.module report (L.digest bytes) (L.digest image))

/-! ### Running -/

/-- Runs a method without parameters; an instance method gets a fresh object. -/
def runMethod (verbose : Bool) (errors : String) (m : Module) (token : MethodToken)
    (typeName methodName : String) (signature : Signature) (declaringType : TypeToken) : Plan :=
  let (id, session) := Session.start.addInterceptor (Sample.interceptor .journal)
  let (_, session) := session.install id
  let machine := Machine.load m (Session.hostWith (Sample.registerConsole [] m)) .standard
  let (receiver, heap) := Heap.empty.newObject declaringType
  let args := if signature.isStatic then [] else [Value.object receiver]
  if signature.params ≠ [] then
    failure errors (typeName ++ "::" ++ methodName
      ++ " takes parameters; only parameterless methods can be run")
  else
    let completion := machine.invoke token args ⟨heap, session⟩
    let errors := errors ++ shownText L verbose completion.world.host.takeJournal.1
    match completion.outcome with
    | .ok none => success errors ["returned"]
    | .ok (some v) =>
      match completion.world.heap.write? .text v with
      | some shown => success errors ["returned " ++ shown]
      | none => .endless
    | .error (.fault e) => failure errors e.message
    | .error (.breach _) => failure errors "internal error"
    | .error .endless => .endless

def runNamed (verbose : Bool) (errors : String) (m : Module) (typeName methodName : String) :
    Plan :=
  match Machine.lookup m typeName methodName with
  | .error e => failure errors e.message
  | .ok token =>
    match m.method? token with
    | none => failure errors ("Method " ++ typeName ++ "::" ++ methodName ++ " not found")
    | some method =>
      runMethod L verbose errors m token typeName methodName method.signature method.declaringType

def run (verbose : Bool) (path typeName methodName : String) (redirectFirst : Bool) : Plan :=
  withModule path fun m _ =>
    if redirectFirst then
      let attempt := Redirector.standard.redirectNamed m typeName methodName
      let errors := shownText L verbose attempt.journal
      match attempt.result with
      | .error e => failure errors e.message
      | .ok (.notFound missing) => failure errors ("Cannot rewrite: " ++ missing.message)
      | .ok (.redirected _) => runNamed L verbose errors attempt.module typeName methodName
    else runNamed L verbose "" m typeName methodName

/-! ### The sample -/

def writeSample (path : String) : Plan :=
  let image := Image.encode Sample.module
  .write path image fun
    | .error e => failureBecause "" ("Failed to write " ++ path) e
    | .ok () => success "" ["wrote " ++ path ++ " (" ++ L.digest image ++ ")"]

/-! ### Commands -/

def Command.plan (verbose : Bool) : Command → Plan
  | .inspect path json => CommandLine.inspect L path json
  | .redirect path typeName methodName output =>
    CommandLine.redirect L verbose path typeName methodName output
  | .run path typeName methodName redirectFirst =>
    CommandLine.run L verbose path typeName methodName redirectFirst
  | .sample output => writeSample L output

def usage : List String := [
  "Redirect method calls through an interceptor",
  "",
  "Commands:",
  "  inspect <MODULE> [--json]",
  "  rewrite <MODULE> --type <TYPE> --method <METHOD> [-o <OUTPUT>]",
  "  run <MODULE> --type <TYPE> --method <METHOD> [--rewrite]",
  "  sample -o <OUTPUT>"]

def plan (words : List String) : Plan :=
  match read words with
  | .command verbose c => c.plan L verbose
  | .help => success "" usage
  | .misuse => .done ⟨2, "", linesText ("error: the arguments do not form a command" :: usage)⟩

end Interpose.CommandLine
