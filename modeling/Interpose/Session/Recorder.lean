import Interpose.Execution.Fault
import Interpose.Execution.Value

/-!
# Recorders

A `RecordingInterceptor` keeps every call that is handed to it and answers from a table of responses
(`respond`, `respond_by_default`). The table is keyed by the qualified name of a method.
-/

namespace Interpose

structure RecordedCall where
  target : Value
  args : List Value
  method : MethodIdentity
  deriving DecidableEq, Repr

structure Recorder where
  /-- Responses by qualified name, those given last in front. -/
  responses : List (String × Value)
  fallback : Value
  /-- The calls kept so far, the latest in front. -/
  history : List RecordedCall
  deriving DecidableEq, Repr

namespace Recorder

def start : Recorder := ⟨[], .null, []⟩

def respond (r : Recorder) (typeName methodName : String) (answer : Value) : Recorder :=
  { r with responses := (typeName ++ "::" ++ methodName, answer) :: r.responses }

def respondByDefault (r : Recorder) (answer : Value) : Recorder := { r with fallback := answer }

def response (r : Recorder) (m : MethodIdentity) : Value :=
  (r.responses.lookup m.qualifiedName).getD r.fallback

def intercept (r : Recorder) (target : Value) (args : List Value) (m : MethodIdentity) :
    Value × Recorder :=
  (r.response m, { r with history := ⟨target, args, m⟩ :: r.history })

def calls (r : Recorder) : List RecordedCall := r.history.reverse

def clear (r : Recorder) : Recorder := { r with history := [] }

@[simp] theorem calls_clear (r : Recorder) : r.clear.calls = [] := rfl

@[simp] theorem calls_intercept (r : Recorder) (target : Value) (args : List Value)
    (m : MethodIdentity) :
    (r.intercept target args m).2.calls = r.calls ++ [⟨target, args, m⟩] := by
  simp only [intercept, calls, List.reverse_cons]

end Recorder

end Interpose
