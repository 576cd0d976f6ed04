import Interpose.Module.Builder
import Interpose.Session.State

/-!
# A sample

`sample_module` is a small module to try things on: a class with one method that writes two lines to
the console, the second one through a template. The console belongs to the host, which sends its
lines to the installed logger (`register_console`).
-/

namespace Interpose.Sample

def consoleName : String := "Console"

def typeName : String := "SampleClassWithInstanceMethod"

def methodName : String := "DoSomething"

def answer : Int32 := 1

def code (writeLine writeLineFormat : MethodToken) : List Instr := [
  .op (.ldstr "Hello from DoSomething"),
  .call (.direct writeLine),
  .op (.ldstr "Hello, \x7b0\x7d"),
  .op (.ldstr "world"),
  .call (.direct writeLineFormat),
  .op .ret]

def module : Module :=
  let b := Builder.start "SampleLibrary"
  let (console, b) := b.addType consoleName
  let (writeLine, b) := b.addNative console "WriteLine" ⟨[.string], .void, true⟩
  let (writeLineFormat, b) :=
    b.addNative console "WriteLineFormat" ⟨[.string, .string], .void, true⟩
  let (sample, b) := b.addType typeName
  let (_, b) :=
    b.addMethod sample methodName ⟨[], .void, false⟩ ⟨[], code writeLine writeLineFormat⟩
  b.finish

/-! ### The console -/

/-- The text of an argument. Null counts as the empty text, and any other value is refused with a
message that shows it. -/
def textArgument (method : String) (h : Heap) (args : List Value) (index : Nat) :
    Except (NoAnswer Fault) String :=
  let refuse (found : String) : Except (NoAnswer Fault) String :=
    .error (.error (.native method
      ("argument " ++ Nat.repr index ++ " is not a string: " ++ found)))
  match args[index]? with
  | some (.str s) => .ok s
  | some .null => .ok ""
  | none => refuse "None"
  | some v =>
    match h.write? .form v with
    | some form => refuse ("Some(" ++ form ++ ")")
    | none => .error .endless

def writeLine : Native := fun args w =>
  match textArgument "Console::WriteLine" w.heap args 0 with
  | .error e => (.error e, w)
  | .ok text => (.ok none, { w with host := w.host.write w.host.logger text })

def writeLineFormat : Native := fun args w =>
  match textArgument "Console::WriteLineFormat" w.heap args 0 with
  | .error e => (.error e, w)
  | .ok template =>
    match textArgument "Console::WriteLineFormat" w.heap args 1 with
    | .error e => (.error e, w)
    | .ok text => (.ok none, { w with host := w.host.writeWith w.host.logger template text })

def registerIfDeclared (table : NativeTable) (m : Module) (methodName : String)
    (native : Native) : NativeTable :=
  match table.register m consoleName methodName native with
  | .ok (_, table) => table
  | .error _ => table

def registerConsole (table : NativeTable) (m : Module) : NativeTable :=
  registerIfDeclared (registerIfDeclared table m "WriteLine" writeLine) m
    "WriteLineFormat" writeLineFormat

/-- Logs every call and gives the number of the sample as its answer. Calls of void methods drop it,
calls with an int32 result unbox it, and most other calls fail on it. -/
def interceptor (logger : LoggerRef) : Interceptor := .logging logger (.boxed (.int32 answer))

end Interpose.Sample
