import Interpose.Json.Number
import Interpose.Json.Parser
import Interpose.Json.Printer
import Interpose.Json.Serde
import Interpose.Decimal.Layout

/-!
# The JSON form of a module

The documented conduct of `serde` and `serde_json` on the types of a module, for the executable.
Records are objects with one entry per field, and lists are arrays. A choice without content is the
name of its case; a choice with content is an object whose only entry has the name of the case as
its key. Reading accepts a little more than is written: unknown fields are passed over, a missing
body is no body, a record may be an array of its fields, and a case without content may also be an
object that maps its name to null.
-/

namespace Interpose

namespace Json

/-! ### Writing -/

def case (name : String) (content : Json) : Json := .object [(name, content)]

def ofType (t : TypeToken) : Json := nat t.position

def ofMethod (m : MethodToken) : Json := nat m.position

def ofDataType : DataType → Json
  | .bool => .str "Bool"
  | .int32 => .str "I32"
  | .int64 => .str "I64"
  | .float64 => .str "F64"
  | .string => .str "String"
  | .object => .str "Object"
  | .objectArray => .str "ObjectArray"
  | .classType t => case "Class" (ofType t)

def ofReturnType : ReturnType → Json
  | .void => .str "Void"
  | .value t => case "Type" (ofDataType t)

def ofSignature (s : Signature) : Json :=
  .object [("params", .array (s.params.map ofDataType)), ("ret", ofReturnType s.returns),
    ("is_static", .bool s.isStatic)]

def ofMetadataToken : MetadataToken → Json
  | .type t => case "Type" (ofType t)
  | .method m => case "Method" (ofMethod m)

/-- The numeral of a decimal text with an optional sign, point and signed exponent. -/
def numeralOfText (s : List Char) : Numeral :=
  let negative := s.head? == some '-'
  let s := if negative then s.drop 1 else s
  let mantissa := s.takeWhile (· != 'e')
  let exponent := (s.dropWhile (· != 'e')).drop 1
  { negative := negative
    whole := mantissa.takeWhile (· != '.')
    fraction := (mantissa.dropWhile (· != '.')).drop 1
    exponent := if exponent.isEmpty then none
      else some (exponent.head? == some '-', exponent.drop 1) }

/-- A finite number as the shortest decimal; other numbers have no JSON form but null. -/
def ofBinary64 (x : Binary64) : Json :=
  if x.isFinite then .number (numeralOfText (Decimal.data.finiteText x).toList) else .null

def ofOp : Op → Json
  | .nop => .str "Nop"
  | .ldarg i => case "LdArg" (nat i.toNat)
  | .starg i => case "StArg" (nat i.toNat)
  | .ldloc s => case "LdLoc" (nat s.position)
  | .stloc s => case "StLoc" (nat s.position)
  | .ldnull => .str "LdNull"
  | .ldcI4 v => case "LdcI4" (int v.toInt)
  | .ldcI8 v => case "LdcI8" (int v.toInt)
  | .ldcR8 v => case "LdcR8" (ofBinary64 v)
  | .ldstr s => case "LdStr" (.str s)
  | .dup => .str "Dup"
  | .pop => .str "Pop"
  | .add => .str "Add"
  | .sub => .str "Sub"
  | .mul => .str "Mul"
  | .ceq => .str "Ceq"
  | .clt => .str "Clt"
  | .label l => case "Label" (nat l.id.toNat)
  | .br l => case "Br" (nat l.id.toNat)
  | .brtrue l => case "BrTrue" (nat l.id.toNat)
  | .brfalse l => case "BrFalse" (nat l.id.toNat)
  | .ret => .str "Ret"
  | .box t => case "Box" (ofDataType t)
  | .unboxAny t => case "UnboxAny" (ofDataType t)
  | .newobj t => case "NewObj" (ofType t)
  | .newarr t => case "NewArr" (ofDataType t)
  | .stelemRef => .str "StElemRef"
  | .ldelemRef => .str "LdElemRef"
  | .ldlen => .str "LdLen"
  | .ldtoken t => case "LdToken" (ofMetadataToken t)
  | .ldftn m => case "LdFtn" (ofMethod m)
  | .resolveMethod => .str "ResolveMethod"
  | .getInterceptor => .str "GetInterceptor"
  | .intercept => .str "Intercept"

def ofCallTarget : CallTarget → Json
  | .direct m => case "Direct" (ofMethod m)
  | .indirect arity => case "Indirect" (.object [("arity", nat arity.toNat)])

def ofInstr : Instr → Json
  | .call t => case "Call" (ofCallTarget t)
  | .op o => case "Other" (ofOp o)

def ofLocal (t : DataType) : Json := .object [("ty", ofDataType t)]

def ofBody (b : Body) : Json :=
  .object [("locals", .array (b.locals.map ofLocal)),
    ("instructions", .array (b.code.map ofInstr))]

def ofMethodDef (m : MethodDef) : Json :=
  .object [("declaring_type", ofType m.declaringType), ("name", .str m.name),
    ("signature", ofSignature m.signature),
    ("body", match m.body with
      | none => .null
      | some b => ofBody b)]

def ofTypeDef (t : TypeDef) : Json :=
  .object [("name", .str t.name), ("methods", .array (t.methods.map ofMethod))]

def ofModule (m : Module) : Json :=
  .object [("name", .str m.name), ("types", .array (m.types.map ofTypeDef)),
    ("methods", .array (m.methods.map ofMethodDef))]

/-! ### Reading -/

def natBelow? (bound : Nat) : Json → Option Nat
  | .number n =>
    match n.int? with
    | some (.ofNat v) => if v < bound then some v else none
    | _ => none
  | _ => none

/-- The whole number that a value is, if it is one in the range of signed numbers of `bits` bits. -/
def intWithin? (bits : Nat) : Json → Option Int
  | .number n =>
    match n.int? with
    | some v =>
      let bound : Int := Int.ofNat (1 <<< (bits - 1))
      if -bound ≤ v && v < bound then some v else none
    | none => none
  | _ => none

def word16? (v : Json) : Option UInt16 := (natBelow? UInt16.size v).map UInt16.ofNat

def word32? (v : Json) : Option UInt32 := (natBelow? UInt32.size v).map UInt32.ofNat

def binary64? : Json → Option Binary64
  | .number n => n.binary64?
  | _ => none

def string? : Json → Option String
  | .str s => some s
  | _ => none

def bool? : Json → Option Bool
  | .bool b => some b
  | _ => none

/-- Reads the elements of a list, in front of those already read, in reverse. -/
def readAll {α : Type} (item : Json → Option α) : List α → List Json → Option (List α)
  | acc, [] => some acc.reverse
  | acc, v :: rest =>
    match item v with
    | some a => readAll item (a :: acc) rest
    | none => none

def list? {α : Type} (item : Json → Option α) : Json → Option (List α)
  | .array items => readAll item [] items
  | _ => none

/-- The value of a field: none if it is missing, and no answer if it occurs twice. -/
def field? (entries : List (String × Json)) (name : String) : Option (Option Json) :=
  match entries.filter (·.1 = name) with
  | [] => some none
  | [(_, v)] => some (some v)
  | _ => none

/-- The fields of a record in the order of their names: from an object, where each may be missing,
or from an array that has them all. -/
def fields? (names : List String) : Json → Option (List (Option Json))
  | .object entries => names.mapM (field? entries)
  | .array items => if items.length = names.length then some (items.map some) else none
  | _ => none

/-- The name and content of a case; a case given by its name alone has no content. -/
def case? : Json → Option (String × Option Json)
  | .str name => some (name, none)
  | .object [(name, content)] => some (name, some content)
  | _ => none

def nothing? : Option Json → Option Unit
  | none => some ()
  | some .null => some ()
  | some _ => none

def type? (v : Json) : Option TypeToken := (word32? v).map TypeToken.mk

def method? (v : Json) : Option MethodToken := (word32? v).map MethodToken.mk

def slot? (v : Json) : Option LocalSlot := (word32? v).map LocalSlot.mk

def label? (v : Json) : Option Label := (word32? v).map Label.mk

def dataType? (v : Json) : Option DataType := do
  let (name, content) ← case? v
  match name with
  | "Bool" => (nothing? content).map fun _ => .bool
  | "I32" => (nothing? content).map fun _ => .int32
  | "I64" => (nothing? content).map fun _ => .int64
  | "F64" => (nothing? content).map fun _ => .float64
  | "String" => (nothing? content).map fun _ => .string
  | "Object" => (nothing? content).map fun _ => .object
  | "ObjectArray" => (nothing? content).map fun _ => .objectArray
  | "Class" => (content.bind type?).map .classType
  | _ => none

def returnType? (v : Json) : Option ReturnType := do
  let (name, content) ← case? v
  match name with
  | "Void" => (nothing? content).map fun _ => .void
  | "Type" => (content.bind dataType?).map .value
  | _ => none

def signature? (v : Json) : Option Signature :=
  match fields? ["params", "ret", "is_static"] v with
  | some [some params, some returns, some isStatic] => do
    let params ← list? dataType? params
    let returns ← returnType? returns
    let isStatic ← bool? isStatic
    return ⟨params, returns, isStatic⟩
  | _ => none

def metadataToken? (v : Json) : Option MetadataToken := do
  let (name, content) ← case? v
  match name with
  | "Type" => (content.bind type?).map .type
  | "Method" => (content.bind method?).map .method
  | _ => none

def bareOp? (name : String) : Option Op :=
  match name with
  | "Nop" => some .nop
  | "LdNull" => some .ldnull
  | "Dup" => some .dup
  | "Pop" => some .pop
  | "Add" => some .add
  | "Sub" => some .sub
  | "Mul" => some .mul
  | "Ceq" => some .ceq
  | "Clt" => some .clt
  | "Ret" => some .ret
  | "StElemRef" => some .stelemRef
  | "LdElemRef" => some .ldelemRef
  | "LdLen" => some .ldlen
  | "ResolveMethod" => some .resolveMethod
  | "GetInterceptor" => some .getInterceptor
  | "Intercept" => some .intercept
  | _ => none

def operandOp? (name : String) (v : Json) : Option Op :=
  match name with
  | "LdArg" => (word16? v).map .ldarg
  | "StArg" => (word16? v).map .starg
  | "LdLoc" => (slot? v).map .ldloc
  | "StLoc" => (slot? v).map .stloc
  | "LdcI4" => (intWithin? 32 v).map fun n => .ldcI4 (Int32.ofInt n)
  | "LdcI8" => (intWithin? 64 v).map fun n => .ldcI8 (Int64.ofInt n)
  | "LdcR8" => (binary64? v).map .ldcR8
  | "LdStr" => (string? v).map .ldstr
  | "Label" => (label? v).map .label
  | "Br" => (label? v).map .br
  | "BrTrue" => (label? v).map .brtrue
  | "BrFalse" => (label? v).map .brfalse
  | "Box" => (dataType? v).map .box
  | "UnboxAny" => (dataType? v).map .unboxAny
  | "NewObj" => (type? v).map .newobj
  | "NewArr" => (dataType? v).map .newarr
  | "LdToken" => (metadataToken? v).map .ldtoken
  | "LdFtn" => (method? v).map .ldftn
  | _ => none

def op? (v : Json) : Option Op := do
  let (name, content) ← case? v
  match bareOp? name with
  | some o => (nothing? content).map fun _ => o
  | none => content.bind (operandOp? name)

def arity? (v : Json) : Option UInt16 :=
  match fields? ["arity"] v with
  | some [some arity] => word16? arity
  | _ => none

def callTarget? (v : Json) : Option CallTarget := do
  let (name, content) ← case? v
  match name with
  | "Direct" => (content.bind method?).map .direct
  | "Indirect" => (content.bind arity?).map .indirect
  | _ => none

def instr? (v : Json) : Option Instr := do
  let (name, content) ← case? v
  match name with
  | "Call" => (content.bind callTarget?).map .call
  | "Other" => (content.bind op?).map .op
  | _ => none

def local? (v : Json) : Option DataType :=
  match fields? ["ty"] v with
  | some [some type] => dataType? type
  | _ => none

def body? (v : Json) : Option Body :=
  match fields? ["locals", "instructions"] v with
  | some [some locals, some code] => do
    let locals ← list? local? locals
    let code ← list? instr? code
    return ⟨locals, code⟩
  | _ => none

def optionalBody? : Option Json → Option (Option Body)
  | none => some none
  | some .null => some none
  | some v => (body? v).map some

def methodDef? (v : Json) : Option MethodDef :=
  match fields? ["declaring_type", "name", "signature", "body"] v with
  | some [some declaringType, some name, some signature, body] => do
    let declaringType ← type? declaringType
    let name ← string? name
    let signature ← signature? signature
    let body ← optionalBody? body
    return ⟨declaringType, name, signature, body⟩
  | _ => none

def typeDef? (v : Json) : Option TypeDef :=
  match fields? ["name", "methods"] v with
  | some [some name, some methods] => do
    let name ← string? name
    let methods ← list? method? methods
    return ⟨name, methods⟩
  | _ => none

def module? (v : Json) : Option Module :=
  match fields? ["name", "types", "methods"] v with
  | some [some name, some types, some methods] => do
    let name ← string? name
    let types ← list? typeDef? types
    let methods ← list? methodDef? methods
    return ⟨name, types, methods⟩
  | _ => none

/-! ### The libraries -/

def Codec.list {α : Type} (item : Codec α) : Codec (List α) where
  form as := .array (as.map item.form)
  read := list? item.read

def Codec.option {α : Type} (item : Codec α) : Codec (Option α) where
  form
    | none => .null
    | some a => item.form a
  read
    | .null => some none
    | v => (item.read v).map some

def Serde.standard : Serde where
  print := compact
  parse := Json.parse
  bool := ⟨.bool, bool?⟩
  string := ⟨.str, string?⟩
  word16 := ⟨fun i => nat i.toNat, word16?⟩
  word32 := ⟨fun i => nat i.toNat, word32?⟩
  int32 := ⟨fun i => int i.toInt, fun v => (intWithin? 32 v).map Int32.ofInt⟩
  int64 := ⟨fun i => int i.toInt, fun v => (intWithin? 64 v).map Int64.ofInt⟩
  float64 := ⟨ofBinary64, binary64?⟩
  list := Codec.list
  option := Codec.option
  type := ⟨ofType, type?⟩
  method := ⟨ofMethod, method?⟩
  slot := ⟨fun s => nat s.position, slot?⟩
  label := ⟨fun l => nat l.id.toNat, label?⟩
  metadataToken := ⟨ofMetadataToken, metadataToken?⟩
  dataType := ⟨ofDataType, dataType?⟩
  returnType := ⟨ofReturnType, returnType?⟩
  signature := ⟨ofSignature, signature?⟩
  callTarget := ⟨ofCallTarget, callTarget?⟩
  op := ⟨ofOp, op?⟩
  instr := ⟨ofInstr, instr?⟩
  localDecl := ⟨ofLocal, local?⟩
  body := ⟨ofBody, body?⟩
  typeDef := ⟨ofTypeDef, typeDef?⟩
  methodDef := ⟨ofMethodDef, methodDef?⟩
  module := ⟨ofModule, module?⟩

end Json

end Interpose
