import Interpose.Execution.Machine
import Interpose.Journal
import Interpose.Session.Recorder
import Interpose.Text.Template

/-!
# Sessions

A session is the state of a host, its `ExecutionContext`: its interceptors and which one is
installed, its loggers and which one is installed, and its journal. Installing another interceptor
or logger (`InterceptorRegistry::install`, `LoggerRegistry::install`) takes effect at the next call,
without touching any code. `LoggingInterceptor`, `LogLogger` and `MemoryLogger` are told here.
-/

namespace Interpose

inductive LoggerRef where
  /-- To the journal, at the level of information. -/
  | journal
  /-- To a list of lines kept in memory. -/
  | memory (id : Nat)
  deriving DecidableEq, Repr

inductive Interceptor where
  /-- Keeps the call and answers from a table. -/
  | recording (recorder : Recorder)
  /-- Writes the call to a logger and gives a fixed answer. -/
  | logging (logger : LoggerRef) (response : Value)
  | computing (answer : Value → List Value → MethodIdentity → Except InterceptError Value)

structure Session where
  /-- The lines of the journal, the latest in front. -/
  journal : List JournalLine
  /-- The lines of the loggers that write to memory, the latest in front. -/
  memories : Array (List String)
  logger : LoggerRef
  interceptors : Array Interceptor
  interceptor : InterceptorId

namespace Session

/-- The interceptor of a session that none is installed in. It logs to the journal and answers
null. -/
def defaultInterceptor : InterceptorId := ⟨0⟩

/-- A session with nothing but the default interceptor and the default logger. -/
def start : Session := ⟨[], #[], .journal, #[.logging .journal .null], defaultInterceptor⟩

/-! ### Loggers -/

def addMemory (s : Session) : LoggerRef × Session :=
  (.memory s.memories.size, { s with memories := s.memories.push [] })

def write (s : Session) (logger : LoggerRef) (line : String) : Session :=
  match logger with
  | .journal =>
    { s with journal := ⟨.info, .logger, "From Logger: " ++ line⟩ :: s.journal }
  | .memory id => { s with memories := s.memories.modify id (line :: ·) }

def writeWith (s : Session) (logger : LoggerRef) (template argument : String) : Session :=
  s.write logger (Text.fill template argument)

def lines (s : Session) : LoggerRef → List String
  | .journal => []
  | .memory id => (s.memories.getD id []).reverse

def clearLines (s : Session) : LoggerRef → Session
  | .journal => s
  | .memory id => { s with memories := s.memories.modify id fun _ => [] }

def installLogger (s : Session) (logger : LoggerRef) : LoggerRef × Session :=
  (s.logger, { s with logger := logger })

def takeJournal (s : Session) : List JournalLine × Session :=
  (s.journal.reverse, { s with journal := [] })

/-! ### Interceptors -/

def addInterceptor (s : Session) (i : Interceptor) : InterceptorId × Session :=
  (⟨s.interceptors.size⟩, { s with interceptors := s.interceptors.push i })

def install (s : Session) (i : InterceptorId) : InterceptorId × Session :=
  (s.interceptor, { s with interceptor := i })

def calls (s : Session) (i : InterceptorId) : List RecordedCall :=
  match s.interceptors[i.id]? with
  | some (.recording r) => r.calls
  | _ => []

def clearCalls (s : Session) (i : InterceptorId) : Session :=
  match s.interceptors[i.id]? with
  | some (.recording r) =>
    { s with interceptors := s.interceptors.setIfInBounds i.id (.recording r.clear) }
  | _ => s

/-- The arguments of a call, numbered and between angle brackets. -/
def argumentsLine? (h : Heap) (args : List Value) : Option String := do
  let shown ← args.zipIdx.mapM fun p => do
    let text ← h.write? .text p.1
    return "arg" ++ Nat.repr p.2 ++ ": <" ++ text ++ ">"
  return String.intercalate ", " shown

/-- Writes a call to a logger, if its target and arguments can be written to their end. -/
def logCall? (s : Session) (h : Heap) (logger : LoggerRef) (target : Value) (args : List Value)
    (m : MethodIdentity) : Option Session := do
  let s := s.write logger ("method: " ++ m.text)
  let s := s.write logger ("target: " ++ (← h.write? .text target))
  return s.write logger (← argumentsLine? h args)

def intercept (i : InterceptorId) (target : Value) (args : List Value) (m : MethodIdentity)
    (w : World Session) : Except (NoAnswer InterceptError) Value × World Session :=
  match w.host.interceptors[i.id]? with
  | none => (.error (.error (.failed "no such interceptor")), w)
  | some (.recording r) =>
    let (answer, r) := r.intercept target args m
    (.ok answer, { w with host :=
      { w.host with interceptors := w.host.interceptors.setIfInBounds i.id (.recording r) } })
  | some (.logging logger response) =>
    match w.host.logCall? w.heap logger target args m with
    | some s => (.ok response, { w with host := s })
    | none => (.error .endless, w)
  | some (.computing answer) => ((answer target args m).mapError .error, w)

end Session

/-! ### Methods of the host -/

abbrev Native :=
  List Value → World Session → Except (NoAnswer Fault) (Option Value) × World Session

/-- Implementations by method, those registered last in front. -/
abbrev NativeTable := List (MethodToken × Native)

def NativeTable.register (table : NativeTable) (m : Module) (typeName methodName : String)
    (native : Native) : Except Fault (MethodToken × NativeTable) :=
  match Machine.lookup m typeName methodName with
  | .ok token => .ok (token, (token, native) :: table)
  | .error e => .error e

def Session.hostWith (natives : NativeTable) : Host Session :=
  { installed := fun s => s.interceptor
    intercept := Session.intercept
    native? := fun t => natives.lookup t }

end Interpose
