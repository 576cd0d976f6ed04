import Interpose.Execution.Frame
import Interpose.Execution.Host
import Interpose.Execution.Identity

/-!
# The machine

A run is a chain of states: the frame that is running, the frames that wait for it, the world around
them, and the number of instructions executed so far. `Machine.step` leads from a state to the next
or ends the run, as `Machine::execute` does for one instruction with `Machine::execute_call` and
`Machine::call`. Limits bound the number of open frames and the number of executed instructions.
-/

namespace Interpose

structure ExecutionLimits where
  callDepth : Nat
  steps : Nat
  /-- The count of a run goes up to one above the limit, and it is a 64-bit word. -/
  steps_lt : steps + 1 < UInt64.size
  deriving DecidableEq, Repr

def ExecutionLimits.standard : ExecutionLimits := ⟨256, 10000000, by decide⟩

structure Machine (σ : Type) where
  module : Module
  identities : IdentityTable
  host : Host σ
  limits : ExecutionLimits

def Machine.load {σ : Type} (module : Module) (host : Host σ) (limits : ExecutionLimits) :
    Machine σ :=
  ⟨module, .build module, host, limits⟩

structure State (σ : Type) where
  frame : Frame
  /-- The frames that wait for a result, the latest in front. -/
  callers : List Frame
  world : World σ
  steps : Nat

/-- How a run ended: with a result, which void methods do not have, or without one. -/
structure Completion (σ : Type) where
  outcome : Except Stop (Option Value)
  world : World σ
  steps : Nat

inductive Next (σ : Type) where
  | running (state : State σ)
  | ended (completion : Completion σ)

/-- What an instruction asks of the machine. -/
inductive Request (σ : Type) where
  | proceed (frame : Frame) (world : World σ)
  /-- To call a method and then go on in the frame. -/
  | call (frame : Frame) (method : MethodToken) (args : List Value) (world : World σ)
  | leave (result : Option Value) (world : World σ)
  | stop (why : Stop) (world : World σ)

inductive Entry (σ : Type) where
  | body (frame : Frame) (world : World σ)
  | result (value : Option Value) (world : World σ)
  | stop (why : Stop) (world : World σ)

namespace Machine

variable {σ : Type}

/-! ### Looking up methods -/

def lookup (m : Module) (typeName methodName : String) : Except Fault MethodToken :=
  match (m.findType? typeName).bind fun t => m.findMethod? t methodName with
  | some token => .ok token
  | none => .error (.methodNotFound (typeName ++ "::" ++ methodName))

def arityOf (M : Machine σ) (t : MethodToken) : Except Stop Nat :=
  match M.module.method? t with
  | some method => .ok method.signature.arity
  | none => .error (.fault (.methodNotFound t.text))

/-! ### Entering methods -/

/-- Compares arguments with the types of their parameters, up to the first that does not conform. -/
def checkArgs (h : Heap) (method : String) : List DataType → List Value → Except Stop Unit
  | t :: types, v :: values =>
    if v.fits t then checkArgs h method types values
    else h.refuse .text v fun shown => .typeMismatch (.argument shown method t v.kind)
  | _, _ => .ok ()

def withoutReceiver (s : Signature) (args : List Value) : Except Stop (List Value) :=
  if args.length < s.receivers then .error (.breach .receiverSplit)
  else .ok (args.drop s.receivers)

/-- Compares the arguments of a call with the signature of the callee. The receiver is not
compared with anything. -/
def checkCall (h : Heap) (method : String) (s : Signature) (args : List Value) :
    Except Stop Unit := do
  if args.length ≠ s.arity then .error (.fault (.arityMismatch method s.arity args.length))
  else checkArgs h method s.params (← withoutReceiver s args)

/-- Enters a method whose arguments conform to its signature. -/
def enterChecked (M : Machine σ) (t : MethodToken) (d : MethodDef) (args : List Value)
    (w : World σ) : Entry σ :=
  match d.body with
  | some body =>
    match Frame.enter (M.module.qualifiedName t) d.signature body args with
    | .error e => .stop (.fault e) w
    | .ok frame => .body frame w
  | none =>
    match M.host.native? t with
    | none => .stop (.fault (.missingNative (M.module.qualifiedName t))) w
    | some run =>
      match run args w with
      | (.error e, w) => .stop e.stop w
      | (.ok v, w) => .result v w

/-- Enters a method below `depth` other frames. -/
def enter (M : Machine σ) (t : MethodToken) (args : List Value) (depth : Nat) (w : World σ) :
    Entry σ :=
  if M.limits.callDepth ≤ depth then
    .stop (.fault (.callDepthExceeded M.limits.callDepth)) w
  else
    match M.module.method? t with
    | none => .stop (.fault (.methodNotFound t.text)) w
    | some method =>
      match checkCall w.heap (M.module.qualifiedName t) method.signature args with
      | .error e => .stop e w
      | .ok () => M.enterChecked t method args w

/-! ### Instructions -/

/-- The callee of a call instruction. An indirect call takes a function value from the stack and
must name the number of values that the function takes. -/
def callee (M : Machine σ) (f : Frame) : CallTarget → Except Stop (MethodToken × Frame)
  | .direct t => .ok (t, f)
  | .indirect arity => do
    let (v, f) ← f.pop
    match v with
    | .function t =>
      let expected ← M.arityOf t
      if expected ≠ arity.toNat then
        .error (.fault (.arityMismatch (M.module.qualifiedName t) expected arity.toNat))
      else return (t, f)
    | _ => Frame.mismatch .function

def callArgs (M : Machine σ) (f : Frame) (target : CallTarget) :
    Except Stop (MethodToken × List Value × Frame) := do
  let (t, f) ← M.callee f target
  let (args, f) ← f.popMany (← M.arityOf t)
  return (t, args, f)

/-- Takes a type token and a method token, gives the identity they name. -/
def resolveMethod (M : Machine σ) (f : Frame) : Except Stop Frame := do
  let (method, f) ← f.pop
  let (type, f) ← f.pop
  match type, method with
  | .token (.type t), .token (.method m) =>
    match M.identities.resolve? t m with
    | some identity => return f.push (.method identity)
    | none => .error (.fault (.unknownIdentity t m))
  | type, method => Frame.mismatch (.tokens type.kind method.kind)

structure Dispatch where
  interceptor : InterceptorId
  receiver : Value
  arguments : ArrayRef
  identity : MethodIdentity

/-- Takes an interceptor, a receiver, an argument array and a method identity. -/
def popDispatch (f : Frame) : Except Stop (Dispatch × Frame) := do
  let (identity, f) ← f.pop
  let (arguments, f) ← f.popArray
  let (receiver, f) ← f.pop
  let (interceptor, f) ← f.pop
  match interceptor, identity with
  | .interceptor i, .method m => return (⟨i, receiver, arguments, m⟩, f)
  | _, _ => Frame.mismatch .dispatch

/-- Hands the elements of the argument array to the interceptor and pushes its answer. -/
def ask (M : Machine σ) (f : Frame) (w : World σ) (d : Dispatch) : Request σ :=
  match M.host.intercept d.interceptor d.receiver (w.heap.items d.arguments).toList d.identity w
  with
  | (.ok v, w) => .proceed (f.push v) w
  | (.error e, w) => .stop (e.map Fault.intercept).stop w

def intercept (M : Machine σ) (f : Frame) (w : World σ) : Request σ :=
  match popDispatch f with
  | .error e => .stop e w
  | .ok (d, f) => M.ask f w d

/-- A change of the frame alone, or the end of the run. -/
def inFrame (w : World σ) : Except Stop Frame → Request σ
  | .ok f => .proceed f w
  | .error e => .stop e w

/-- Executes an operation in a frame that already points behind it. -/
def execOp (M : Machine σ) (f : Frame) (w : World σ) : Op → Request σ
  | .nop | .label _ => .proceed f w
  | .ldarg i => inFrame w (f.loadArg i.toNat)
  | .starg i => inFrame w (f.storeArg i.toNat)
  | .ldloc s => inFrame w (f.loadLocal s.position)
  | .stloc s => inFrame w (f.storeLocal s.position)
  | .ldnull => .proceed (f.push .null) w
  | .ldcI4 v => .proceed (f.push (.int32 v)) w
  | .ldcI8 v => .proceed (f.push (.int64 v)) w
  | .ldcR8 v => .proceed (f.push (.float64 v)) w
  | .ldstr s => .proceed (f.push (.str s)) w
  | .dup => inFrame w f.duplicate
  | .pop => inFrame w (f.pop.map (·.2))
  | .add => inFrame w (f.binary .add)
  | .sub => inFrame w (f.binary .sub)
  | .mul => inFrame w (f.binary .mul)
  | .clt => inFrame w (f.binary .clt)
  | .ceq => inFrame w f.compareEqual
  | .br l => inFrame w (f.jump l)
  | .brtrue l => inFrame w (f.branchIf true l)
  | .brfalse l => inFrame w (f.branchIf false l)
  | .ret =>
    match f.result with
    | .ok v => .leave v w
    | .error e => .stop e w
  | .box t => inFrame w (f.box t)
  | .unboxAny t => inFrame w (f.unbox w.heap t)
  | .newobj t =>
    let (r, w) := w.newObject t
    .proceed (f.push (.object r)) w
  | .newarr t =>
    match f.popLength w.heap with
    | .error e => .stop e w
    | .ok (n, f) =>
      let (r, w) := w.newArray t n
      .proceed (f.push (.array r)) w
  | .stelemRef =>
    match f.popStore w.heap with
    | .error e => .stop e w
    | .ok (s, f) => .proceed f (w.store s.array s.index s.value)
  | .ldelemRef => inFrame w (f.loadElement w.heap)
  | .ldlen => inFrame w (f.arrayLength w.heap)
  | .ldtoken t => .proceed (f.push (.token t)) w
  | .ldftn m => .proceed (f.push (.function m)) w
  | .resolveMethod => inFrame w (M.resolveMethod f)
  | .getInterceptor => .proceed (f.push (.interceptor (M.host.installed w.host))) w
  | .intercept => M.intercept f w

/-- Executes an instruction in a frame that already points behind it. -/
def exec (M : Machine σ) (f : Frame) (w : World σ) : Instr → Request σ
  | .op o => M.execOp f w o
  | .call target =>
    match M.callArgs f target with
    | .ok (t, args, f) => .call f t args w
    | .error e => .stop e w

/-! ### Steps -/

def resume (f : Frame) : Option Value → Frame
  | some v => f.push v
  | none => f

def leave (callers : List Frame) (steps : Nat) (v : Option Value) (w : World σ) : Next σ :=
  match callers with
  | [] => .ended ⟨.ok v, w, steps⟩
  | f :: callers => .running ⟨resume f v, callers, w, steps⟩

def serve (M : Machine σ) (callers : List Frame) (steps : Nat) : Request σ → Next σ
  | .proceed f w => .running ⟨f, callers, w, steps⟩
  | .leave v w => leave callers steps v w
  | .stop e w => .ended ⟨.error e, w, steps⟩
  | .call f t args w =>
    match M.enter t args (callers.length + 1) w with
    | .body callee w => .running ⟨callee, f :: callers, w, steps⟩
    | .result v w => .running ⟨resume f v, callers, w, steps⟩
    | .stop e w => .ended ⟨.error e, w, steps⟩

/-- The state after the next instruction, or the end of the run. A frame behind the last instruction
is left without executing anything. -/
def step (M : Machine σ) : State σ → Next σ
  | ⟨frame, callers, world, steps⟩ =>
    match frame.code[frame.next]? with
    | none =>
      match frame.ending with
      | .ok v => leave callers steps v world
      | .error e => .ended ⟨.error e, world, steps⟩
    | some i =>
      if M.limits.steps ≤ steps then
        .ended ⟨.error (.fault (.stepLimitExceeded M.limits.steps)), world, steps⟩
      else M.serve callers (steps + 1) (M.exec frame.advance world i)

/-! ### Runs -/

/-- Steps from a state to the end of the run, at most `fuel` times. -/
def runFor (M : Machine σ) : Nat → State σ → Completion σ
  | 0, s => ⟨.error (.fault (.stepLimitExceeded M.limits.steps)), s.world, s.steps⟩
  | fuel + 1, s =>
    match M.step s with
    | .running s => runFor M fuel s
    | .ended c => c

/-- Enough steps for any run: two for each instruction, since each instruction opens at most one
frame and each frame is left at most once without an instruction, and two for the first frame. -/
def fuel (M : Machine σ) : Nat := 2 * M.limits.steps + 2

/-- Calls a method from outside. The receiver, if the method has one, is the first argument. -/
def invoke (M : Machine σ) (t : MethodToken) (args : List Value) (w : World σ) : Completion σ :=
  match M.enter t args 0 w with
  | .body frame w => M.runFor M.fuel ⟨frame, [], w, 0⟩
  | .result v w => ⟨.ok v, w, 0⟩
  | .stop e w => ⟨.error e, w, 0⟩

end Machine

end Interpose
