import Interpose.Module
import Interpose.Image.Reader
import Interpose.Image.Writer

/-!
# Reading images

The reader of the binary form of a module, `decode_with_limits`. It accepts an input only as a
whole, and only if every token and every local slot in it lies inside the table it points into,
which `validate_tokens` looks at in the end.
-/

namespace Interpose.Image

structure Limits where
  bufferSize : Nat
  types : Nat
  /-- Bounds the method table and also the method list of each type. -/
  methods : Nat
  instructions : Nat
  stringLength : Nat
  deriving DecidableEq, Repr

def Limits.standard : Limits :=
  { bufferSize := 64 * 1024 * 1024
    types := 1024 * 1024
    methods := 1024 * 1024
    instructions := 4 * 1024 * 1024
    stringLength := 1024 * 1024 }

/-- The most locals that one method body can declare in an image. -/
def maxLocals : Nat := 65535

/-- The most parameters that one signature can declare in an image. -/
def maxParams : Nat := 65535

namespace Reader

def type : Reader TypeToken := do return ⟨← u32⟩

def method : Reader MethodToken := do return ⟨← u32⟩

def slot : Reader LocalSlot := do return ⟨← u32⟩

def label : Reader Label := do return ⟨← u32⟩

def dataType : Reader DataType := do
  let tag ← u8
  match tag.toNat with
  | 0x01 => return .bool
  | 0x02 => return .int32
  | 0x03 => return .int64
  | 0x04 => return .float64
  | 0x05 => return .string
  | 0x06 => return .object
  | 0x07 => return .objectArray
  | 0x08 => return .classType (← type)
  | _ => fail (.invalidTag .dataType tag)

def returnType : Reader ReturnType := do
  let tag ← u8
  match tag.toNat with
  | 0 => return .void
  | 1 => return .value (← dataType)
  | _ => fail (.invalidTag .returnType tag)

def staticFlag : Reader Bool := do
  let tag ← u8
  match tag.toNat with
  | 0 => return false
  | 1 => return true
  | _ => fail (.invalidTag .staticFlag tag)

def signature : Reader Signature := do
  let params ← list .params maxParams dataType
  let returns ← returnType
  let isStatic ← staticFlag
  return ⟨params, returns, isStatic⟩

def operand (limits : Limits) (opcode : UInt8) : Reader Instr :=
  match opcode.toNat with
  | 0x00 => return .op .nop
  | 0x01 => return .op (.ldarg (← u16))
  | 0x02 => return .op (.starg (← u16))
  | 0x03 => return .op (.ldloc (← slot))
  | 0x04 => return .op (.stloc (← slot))
  | 0x05 => return .op .ldnull
  | 0x06 => return .op (.ldcI4 (← u32).toInt32)
  | 0x07 => return .op (.ldcI8 (← u64).toInt64)
  | 0x08 => return .op (.ldcR8 ⟨← u64⟩)
  | 0x09 => return .op (.ldstr (← string limits.stringLength))
  | 0x0a => return .op .dup
  | 0x0b => return .op .pop
  | 0x0c => return .op .add
  | 0x0d => return .op .sub
  | 0x0e => return .op .mul
  | 0x0f => return .op .ceq
  | 0x10 => return .op .clt
  | 0x11 => return .op (.label (← label))
  | 0x12 => return .op (.br (← label))
  | 0x13 => return .op (.brtrue (← label))
  | 0x14 => return .op (.brfalse (← label))
  | 0x15 => return .op .ret
  | 0x16 => return .op (.box (← dataType))
  | 0x17 => return .op (.unboxAny (← dataType))
  | 0x18 => return .op (.newobj (← type))
  | 0x19 => return .op (.newarr (← dataType))
  | 0x1a => return .op .stelemRef
  | 0x1b => return .op .ldelemRef
  | 0x1c => return .op .ldlen
  | 0x1d => return .op (.ldtoken (.type (← type)))
  | 0x1e => return .op (.ldtoken (.method (← method)))
  | 0x1f => return .op (.ldftn (← method))
  | 0x20 => return .op .resolveMethod
  | 0x21 => return .op .getInterceptor
  | 0x22 => return .op .intercept
  | 0x40 => return .call (.direct (← method))
  | 0x41 => return .call (.indirect (← u16))
  | _ => fail (.invalidTag .opcode opcode)

def instr (limits : Limits) : Reader Instr := do
  let opcode ← u8
  operand limits opcode

def body (limits : Limits) : Reader (Option Body) := do
  let tag ← u8
  match tag.toNat with
  | 0 => return none
  | 1 =>
    let locals ← list .locals maxLocals dataType
    let code ← list .instructions limits.instructions (instr limits)
    return some ⟨locals, code⟩
  | _ => fail (.invalidTag .body tag)

def typeDef (limits : Limits) : Reader TypeDef := do
  let name ← string limits.stringLength
  let methods ← list .typeMethods limits.methods method
  return ⟨name, methods⟩

def methodDef (limits : Limits) : Reader MethodDef := do
  let declaringType ← type
  let name ← string limits.stringLength
  let signature ← signature
  let body ← body limits
  return ⟨declaringType, name, signature, body⟩

/-- The magic number, the version, and two bytes of flags that are not looked at. -/
def header : Reader Unit := do
  let m ← bytes 4
  if m ≠ magic then fail (.invalidEncoding .badMagic)
  else
    let v ← u16
    if v ≠ version then fail (.invalidEncoding .badVersion)
    else
      let _ ← u16
      return ()

/-- The tables of a module, whatever they point to. -/
def module (limits : Limits) : Reader Module := do
  header
  let name ← string limits.stringLength
  let types ← list .types limits.types (typeDef limits)
  let methods ← list .methods limits.methods (methodDef limits)
  return ⟨name, types, methods⟩

end Reader

/-! ### References inside a module -/

def checkAll {α : Type} (check : α → Except DecodeError Unit) : List α → Except DecodeError Unit
  | [] => .ok ()
  | a :: rest =>
    match check a with
    | .ok () => checkAll check rest
    | .error e => .error e

/-- The sizes of the tables that parts of a module point into, and the words for the place a bad
reference is reported at. -/
structure Bounds where
  types : Nat
  methods : Nat
  locals : Nat
  context : String

namespace Bounds

def checkType (b : Bounds) (t : TypeToken) : Except DecodeError Unit :=
  if t.position < b.types then .ok () else .error (.outOfRange .types t.index b.context)

def checkMethod (b : Bounds) (m : MethodToken) : Except DecodeError Unit :=
  if m.position < b.methods then .ok () else .error (.outOfRange .methods m.index b.context)

def checkLocal (b : Bounds) (s : LocalSlot) : Except DecodeError Unit :=
  if s.position < b.locals then .ok () else .error (.outOfRange .locals s.index b.context)

def checkDataType (b : Bounds) : DataType → Except DecodeError Unit
  | .classType t => b.checkType t
  | _ => .ok ()

def checkReturnType (b : Bounds) : ReturnType → Except DecodeError Unit
  | .void => .ok ()
  | .value t => b.checkDataType t

def checkInstr (b : Bounds) : Instr → Except DecodeError Unit
  | .call (.direct m) => b.checkMethod m
  | .op (.ldloc s) | .op (.stloc s) => b.checkLocal s
  | .op (.box t) | .op (.unboxAny t) | .op (.newarr t) => b.checkDataType t
  | .op (.newobj t) | .op (.ldtoken (.type t)) => b.checkType t
  | .op (.ldtoken (.method m)) | .op (.ldftn m) => b.checkMethod m
  | _ => .ok ()

/-- The locals of a body, then its instructions. -/
def checkBody (b : Bounds) : Option Body → Except DecodeError Unit
  | none => .ok ()
  | some body => do
    checkAll b.checkDataType body.locals
    checkAll { b with locals := body.locals.length }.checkInstr body.code

/-- The declaring type, the parameters, the result and the body of a method. -/
def checkMethodDef (b : Bounds) (m : MethodDef) : Except DecodeError Unit := do
  b.checkType m.declaringType
  checkAll b.checkDataType m.signature.params
  b.checkReturnType m.signature.returns
  b.checkBody m.body

end Bounds

/-- Checks the methods of a table from a position on; a method is named by position and name. -/
def checkMethods (types methods : Nat) : Nat → List MethodDef → Except DecodeError Unit
  | _, [] => .ok ()
  | position, m :: rest =>
    let context := "method " ++ Nat.repr position ++ " (" ++ m.name ++ ")"
    match Bounds.checkMethodDef ⟨types, methods, 0, context⟩ m with
    | .ok () => checkMethods types methods (position + 1) rest
    | .error e => .error e

/-- Checks every reference of a module: the method lists of all types first, then method by
method. -/
def checkReferences (m : Module) : Except DecodeError Unit := do
  let types := m.types.length
  let methods := m.methods.length
  checkAll (fun t => checkAll (Bounds.checkMethod ⟨types, methods, 0, t.name⟩) t.methods) m.types
  checkMethods types methods 0 m.methods

/-! ### The whole image -/

def decodeWithin (limits : Limits) (bytes : List UInt8) : Except DecodeError Module :=
  if limits.bufferSize < bytes.length then .error (.invalidEncoding .tooLarge)
  else
    match Reader.module limits (.start bytes) with
    | .error e => .error e
    | .ok (m, c) =>
      if !c.rest.isEmpty then .error (.invalidEncoding .trailingBytes)
      else
        match checkReferences m with
        | .error e => .error e
        | .ok () => .ok m

def decode (bytes : List UInt8) : Except DecodeError Module := decodeWithin .standard bytes

end Interpose.Image
