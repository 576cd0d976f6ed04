import Interpose.Execution.Fault
import Interpose.Execution.Heap

/-!
# Frames

A frame is one running method body: its arguments, its locals, its evaluation stack and the place of
the next instruction. This module holds what instructions do inside one frame and the heap: `push`,
`pop`, `peek`, `pop_n`, `pop_array` and `finish` of `Frame`, `index_labels`, `arithmetic`, `is_true`
and `array_index`. Calls, results and the dealings with the host are left to the machine.
-/

namespace Interpose

/-! ### Branch targets -/

/-- The places of the labels of a body, one for each label. -/
abbrev LabelIndex := List (Label × Nat)

namespace LabelIndex

def place? (labels : LabelIndex) (l : Label) : Option Nat := labels.lookup l

/-- Gives a label its place, which takes the place of an earlier one. -/
def define (l : Label) (position : Nat) : LabelIndex → LabelIndex
  | [] => [(l, position)]
  | (k, place) :: rest =>
    if k = l then (l, position) :: rest else (k, place) :: define l position rest

theorem place?_define (labels : LabelIndex) (l k : Label) (position : Nat) :
    (define l position labels).place? k = if k = l then some position else labels.place? k := by
  unfold place?
  induction labels with
  | nil =>
    simp only [define, List.lookup_cons, List.lookup_nil]
    by_cases h : k = l
    · simp [h]
    · rw [beq_eq_false_iff_ne.2 h, if_neg h]
  | cons entry rest ih =>
    obtain ⟨m, place⟩ := entry
    unfold define
    by_cases hm : m = l
    · subst hm
      simp only [if_true, List.lookup_cons]
      by_cases h : k = m
      · simp [h]
      · rw [beq_eq_false_iff_ne.2 h, if_neg h]
    · simp only [if_neg hm, List.lookup_cons, ih]
      by_cases h : k = m
      · simp [h, hm]
      · rw [beq_eq_false_iff_ne.2 h]

/-- Adds the labels of code that starts at a position; of two definitions, the last one stands. -/
def collect : LabelIndex → Nat → List Instr → LabelIndex
  | labels, _, [] => labels
  | labels, position, .op (.label l) :: rest =>
    collect (define l position labels) (position + 1) rest
  | labels, position, _ :: rest => collect labels (position + 1) rest

end LabelIndex

def Instr.target? : Instr → Option Label
  | .op (.br l) | .op (.brtrue l) | .op (.brfalse l) => some l
  | _ => none

/-- The first label that code branches to and `labels` does not have. -/
def missingLabel? (labels : LabelIndex) (code : List Instr) : Option Label :=
  (code.filterMap Instr.target?).find? fun l => (labels.place? l).isNone

/-- The places of the labels of a body; branching to a label that is not there is a fault of the
body as a whole. -/
def indexLabels (method : String) (code : List Instr) : Except Fault LabelIndex :=
  let labels := LabelIndex.collect [] 0 code
  match missingLabel? labels code with
  | some l => .error (.unknownLabel method l.id)
  | none => .ok labels

/-! ### Frames -/

structure Frame where
  /-- The qualified name of the method, for messages. -/
  method : String
  returns : ReturnType
  code : Array Instr
  labels : LabelIndex
  declared : Array DataType
  args : Array Value
  locals : Array Value
  /-- The evaluation stack, its top in front. -/
  stack : List Value
  next : Nat

namespace Frame

/-- A frame at the start of a body: every local holds the zero of its type, the stack is empty. -/
def enter (method : String) (signature : Signature) (body : Body) (args : List Value) :
    Except Fault Frame :=
  match indexLabels method body.code with
  | .error e => .error e
  | .ok labels =>
    .ok {
      method := method
      returns := signature.returns
      code := body.code.toArray
      labels := labels
      declared := body.locals.toArray
      args := args.toArray
      locals := (body.locals.map Value.default).toArray
      stack := []
      next := 0 }

def advance (f : Frame) : Frame := { f with next := f.next + 1 }

def push (f : Frame) (v : Value) : Frame := { f with stack := v :: f.stack }

/-- The fault of an instruction that finds too few values. The frame already points behind it. -/
def underflow (f : Frame) : Stop := .fault (.stackUnderflow f.method (f.next - 1))

def mismatch {α : Type} (cause : Mismatch) : Except Stop α := .error (.fault (.typeMismatch cause))

def pop (f : Frame) : Except Stop (Value × Frame) :=
  match f.stack with
  | v :: rest => .ok (v, { f with stack := rest })
  | [] => .error f.underflow

/-- Splits a stack behind its top `n` values. -/
def splitStack (stack : List Value) (n : Nat) : Except Stop (List Value × List Value) :=
  if n ≤ (stack.take n).length then .ok (stack.take n, stack.drop n)
  else .error (.breach .stackSplit)

/-- Takes `n` values; the one pushed first comes first. The stack below them is not walked over. -/
def popMany (f : Frame) (n : Nat) : Except Stop (List Value × Frame) := do
  if (f.stack.take n).length < n then .error f.underflow
  else
    let (top, rest) ← splitStack f.stack n
    return (top.reverse, { f with stack := rest })

def popArray (f : Frame) : Except Stop (ArrayRef × Frame) := do
  let (v, f) ← f.pop
  match v with
  | .array r => return (r, f)
  | v => mismatch (.array v.kind)

/-- The result of a frame that returns now: nothing for void methods, else the top of the stack,
which must conform to the declared type. -/
def result (f : Frame) : Except Stop (Option Value) :=
  match f.returns with
  | .void => .ok none
  | .value t => do
    let (v, f) ← f.pop
    if v.fits t then return some v else mismatch (.result f.method t v.kind)

/-- The result of a frame that runs off the end of its code. -/
def ending (f : Frame) : Except Stop (Option Value) :=
  match f.returns with
  | .void => .ok none
  | .value _ => .error (.fault (.missingReturn f.method))

/-- Continues at a label. Every target was looked up when the frame was entered. -/
def jump (f : Frame) (l : Label) : Except Stop Frame :=
  match f.labels.place? l with
  | some place => .ok { f with next := place }
  | none => .error (.breach .branchTarget)

end Frame

/-! ### Operations on values -/

def Value.ofTruth (b : Bool) : Value := .int32 (if b then 1 else 0)

/-- The operations that need two numbers of the same type. -/
inductive BinaryOp where
  | add
  | sub
  | mul
  | clt
  deriving DecidableEq, Repr

def BinaryOp.text : BinaryOp → String
  | .add => "add"
  | .sub => "sub"
  | .mul => "mul"
  | .clt => "clt"

/-- Whole numbers wrap around at the width of their type. -/
def BinaryOp.apply : BinaryOp → Value → Value → Except Stop Value
  | .add, .int32 a, .int32 b => .ok (.int32 (a + b))
  | .sub, .int32 a, .int32 b => .ok (.int32 (a - b))
  | .mul, .int32 a, .int32 b => .ok (.int32 (a * b))
  | .clt, .int32 a, .int32 b => .ok (.ofTruth (a < b))
  | .add, .int64 a, .int64 b => .ok (.int64 (a + b))
  | .sub, .int64 a, .int64 b => .ok (.int64 (a - b))
  | .mul, .int64 a, .int64 b => .ok (.int64 (a * b))
  | .clt, .int64 a, .int64 b => .ok (.ofTruth (a < b))
  | .add, .float64 a, .float64 b => .ok (.float64 (a.add b))
  | .sub, .float64 a, .float64 b => .ok (.float64 (a.sub b))
  | .mul, .float64 a, .float64 b => .ok (.float64 (a.mul b))
  | .clt, .float64 a, .float64 b => .ok (.ofTruth (a.lessThan b))
  | o, a, b => Frame.mismatch (.arithmetic o.text a.kind b.kind)

/-- Whether a branch on a value is taken: null and zero are false, other references are true. -/
def Value.truth : Value → Except Stop Bool
  | .bool b => .ok b
  | .int32 v => .ok (v ≠ 0)
  | .int64 v => .ok (v ≠ 0)
  | .null => .ok false
  | v => if v.isReference then .ok true else Frame.mismatch (.condition v.kind)

/-- Ends a run on a fault that shows a value. Where writing the value never ends, the run does not
come to its end either. -/
def Heap.refuse {α : Type} (h : Heap) (wording : Wording) (v : Value) (fault : String → Fault) :
    Except Stop α :=
  match h.write? wording v with
  | some shown => .error (.fault (fault shown))
  | none => .error .endless

/-- Gives a reference the form of a type: value types are taken out of their box, and references
must conform to the type. -/
def Heap.coerce (h : Heap) (v : Value) (t : DataType) : Except Stop Value :=
  match v, t.isValueType with
  | .boxed inner, true =>
    if inner.fits t then .ok inner else h.refuse .form v fun shown => .invalidCast shown t
  | _, true => h.refuse .form v fun shown => .invalidCast shown t
  | _, false => if v.fits t then .ok v else h.refuse .form v fun shown => .invalidCast shown t

/-- A number that counts or numbers elements. Another value is refused with a message. -/
def Heap.count (h : Heap) (message : String → Mismatch) (v : Value) : Except Stop Nat :=
  match v with
  | .int32 n =>
    if 0 ≤ n then .ok n.toInt.toNat else h.refuse .text v fun shown => .typeMismatch (message shown)
  | _ => h.refuse .text v fun shown => .typeMismatch (message shown)

def Heap.arrayLength (h : Heap) (v : Value) : Except Stop Nat := h.count .arrayLength v

def Heap.arrayIndex (h : Heap) (v : Value) : Except Stop Nat := h.count .arrayIndex v

/-! ### Instructions inside a frame -/

namespace Frame

def loadArg (f : Frame) (index : Nat) : Except Stop Frame :=
  match f.args[index]? with
  | some v => .ok (f.push v)
  | none => .error (.fault (.invalidIndex (.argument index)))

/-- Overwrites an argument. Its declared type is not looked at. -/
def storeArg (f : Frame) (index : Nat) : Except Stop Frame := do
  let (v, f) ← f.pop
  if index < f.args.size then return { f with args := f.args.setIfInBounds index v }
  else .error (.fault (.invalidIndex (.argument index)))

def loadLocal (f : Frame) (index : Nat) : Except Stop Frame :=
  match f.locals[index]? with
  | some v => .ok (f.push v)
  | none => .error (.fault (.invalidIndex (.local index)))

/-- Overwrites a local with a value that conforms to its declared type. -/
def storeLocal (f : Frame) (index : Nat) : Except Stop Frame := do
  let (v, f) ← f.pop
  match f.declared[index]? with
  | none => .error (.fault (.invalidIndex (.local index)))
  | some t =>
    if v.fits t then
      if index < f.locals.size then return { f with locals := f.locals.setIfInBounds index v }
      else .error (.breach .localSlot)
    else mismatch (.storeLocal v.kind index t)

def duplicate (f : Frame) : Except Stop Frame := do
  let (v, _) ← f.pop
  return f.push v

def binary (f : Frame) (o : BinaryOp) : Except Stop Frame := do
  let (right, f) ← f.pop
  let (left, f) ← f.pop
  return f.push (← o.apply left right)

def compareEqual (f : Frame) : Except Stop Frame := do
  let (right, f) ← f.pop
  let (left, f) ← f.pop
  return f.push (.ofTruth (left.equals right))

/-- Branches if the top of the stack is as true as `wanted`. -/
def branchIf (f : Frame) (wanted : Bool) (l : Label) : Except Stop Frame := do
  let (v, f) ← f.pop
  if (← v.truth) = wanted then f.jump l else return f

def box (f : Frame) (t : DataType) : Except Stop Frame := do
  let (v, f) ← f.pop
  if v.fits t then return f.push (if t.isValueType then .boxed v else v)
  else mismatch (.box v.kind t)

def unbox (f : Frame) (h : Heap) (t : DataType) : Except Stop Frame := do
  let (v, f) ← f.pop
  return f.push (← h.coerce v t)

def popLength (f : Frame) (h : Heap) : Except Stop (Nat × Frame) := do
  let (v, f) ← f.pop
  return (← h.arrayLength v, f)

/-- A reference, the array it is to be stored in, and the place in the array. -/
structure Store where
  array : ArrayRef
  index : Nat
  value : Value

/-- Takes an array, an index and a reference that the array can hold there. -/
def popStore (f : Frame) (h : Heap) : Except Stop (Store × Frame) := do
  let (v, f) ← f.pop
  let (i, f) ← f.pop
  let (r, f) ← f.popArray
  let index ← h.arrayIndex i
  if v.isReference && v.fits (h.elem r) then
    if index < h.length r then return (⟨r, index, v⟩, f)
    else .error (.fault (.indexOutOfRange index (h.length r)))
  else mismatch (.storeElement v.kind (h.elem r))

def loadElement (f : Frame) (h : Heap) : Except Stop Frame := do
  let (i, f) ← f.pop
  let (r, f) ← f.popArray
  let index ← h.arrayIndex i
  match h.get? r index with
  | some v => return f.push v
  | none => .error (.fault (.indexOutOfRange index (h.length r)))

def arrayLength (f : Frame) (h : Heap) : Except Stop Frame := do
  let (r, f) ← f.popArray
  return f.push (.int32 (Int32.ofNat (h.length r)))

end Frame

end Interpose
