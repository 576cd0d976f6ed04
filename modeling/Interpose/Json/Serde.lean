import Interpose.Json.Value
import Interpose.Module

/-!
# What the parts of a module declare for their JSON form

`Module` and the types it is made of derive `Serialize` and `Deserialize`. Such a declaration gives
the names of the fields of a record or of the cases of a choice, and what they hold. What becomes of
a value under its declaration is for `serde` to say, and what becomes of the text for `serde_json`:
both are a parameter here, and the tables below are what the types declare.
-/

namespace Interpose

namespace Json

/-- How the values of a type become JSON values, and which values are read from those. -/
structure Codec (α : Type) where
  form : α → Json
  read : Json → Option α

/-- The fields of a record, with what they hold. -/
inductive Fields : Type → Type 1 where
  | nil : Fields Unit
  | cons {β γ : Type} (name : String) (content : Codec β) (rest : Fields γ) : Fields (β × γ)

namespace Fields

def names {γ : Type} : Fields γ → List String
  | .nil => []
  | .cons name _ rest => name :: rest.names

def forms {γ : Type} : Fields γ → γ → List (String × Json)
  | .nil, () => []
  | .cons name content rest, (b, c) => (name, content.form b) :: rest.forms c

/-- What the fields hold if these are their JSON values. -/
def read {γ : Type} : Fields γ → List Json → Option γ
  | .nil, _ => some ()
  | .cons _ content rest, vs =>
    match vs with
    | [] => none
    | v :: vs => do
      let b ← content.read v
      let c ← rest.read vs
      return (b, c)

end Fields

/-- A case of a choice: a name alone, a name with one thing behind it, or a name with fields. -/
inductive Case (α : Type) : Type 1 where
  | bare (name : String) (value : α)
  | holding {β : Type} (name : String) (content : Codec β) (make : β → α)
  | record {γ : Type} (name : String) (fields : Fields γ) (make : γ → α)

def Case.name {α : Type} : Case α → String
  | .bare name _ | .holding name _ _ | .record name _ _ => name

/-- The libraries: a printer and a reader of JSON texts, and a codec for each type. -/
structure Serde where
  print : Json → String
  parse : String → Option Json
  bool : Codec Bool
  string : Codec String
  word16 : Codec UInt16
  word32 : Codec UInt32
  int32 : Codec Int32
  int64 : Codec Int64
  float64 : Codec Binary64
  list {α : Type} (item : Codec α) : Codec (List α)
  option {α : Type} (item : Codec α) : Codec (Option α)
  type : Codec TypeToken
  method : Codec MethodToken
  slot : Codec LocalSlot
  label : Codec Label
  metadataToken : Codec MetadataToken
  dataType : Codec DataType
  returnType : Codec ReturnType
  signature : Codec Signature
  callTarget : Codec CallTarget
  op : Codec Op
  instr : Codec Instr
  localDecl : Codec DataType
  body : Codec Body
  typeDef : Codec TypeDef
  methodDef : Codec MethodDef
  module : Codec Module

namespace Serde

variable (S : Serde)

def metadataTokenCases : List (Case MetadataToken) :=
  [.holding "Type" S.type .type, .holding "Method" S.method .method]

def dataTypeCases : List (Case DataType) :=
  [.bare "Bool" .bool, .bare "I32" .int32, .bare "I64" .int64, .bare "F64" .float64,
    .bare "String" .string, .bare "Object" .object, .bare "ObjectArray" .objectArray,
    .holding "Class" S.type .classType]

def returnTypeCases : List (Case ReturnType) :=
  [.bare "Void" .void, .holding "Type" S.dataType .value]

def signatureFields : Fields (List DataType × ReturnType × Bool × Unit) :=
  .cons "params" (S.list S.dataType) (.cons "ret" S.returnType (.cons "is_static" S.bool .nil))

def callTargetCases : List (Case CallTarget) :=
  [.holding "Direct" S.method .direct,
    .record "Indirect" (.cons "arity" S.word16 .nil) fun c => .indirect c.1]

def opCases : List (Case Op) :=
  [.bare "Nop" .nop, .holding "LdArg" S.word16 .ldarg, .holding "StArg" S.word16 .starg,
    .holding "LdLoc" S.slot .ldloc, .holding "StLoc" S.slot .stloc, .bare "LdNull" .ldnull,
    .holding "LdcI4" S.int32 .ldcI4, .holding "LdcI8" S.int64 .ldcI8,
    .holding "LdcR8" S.float64 .ldcR8, .holding "LdStr" S.string .ldstr, .bare "Dup" .dup,
    .bare "Pop" .pop, .bare "Add" .add, .bare "Sub" .sub, .bare "Mul" .mul, .bare "Ceq" .ceq,
    .bare "Clt" .clt, .holding "Label" S.label .label, .holding "Br" S.label .br,
    .holding "BrTrue" S.label .brtrue, .holding "BrFalse" S.label .brfalse, .bare "Ret" .ret,
    .holding "Box" S.dataType .box, .holding "UnboxAny" S.dataType .unboxAny,
    .holding "NewObj" S.type .newobj, .holding "NewArr" S.dataType .newarr,
    .bare "StElemRef" .stelemRef, .bare "LdElemRef" .ldelemRef, .bare "LdLen" .ldlen,
    .holding "LdToken" S.metadataToken .ldtoken, .holding "LdFtn" S.method .ldftn,
    .bare "ResolveMethod" .resolveMethod, .bare "GetInterceptor" .getInterceptor,
    .bare "Intercept" .intercept]

def instrCases : List (Case Instr) :=
  [.holding "Call" S.callTarget .call, .holding "Other" S.op .op]

def localDeclFields : Fields (DataType × Unit) := .cons "ty" S.dataType .nil

def bodyFields : Fields (List DataType × List Instr × Unit) :=
  .cons "locals" (S.list S.localDecl) (.cons "instructions" (S.list S.instr) .nil)

def typeDefFields : Fields (String × List MethodToken × Unit) :=
  .cons "name" S.string (.cons "methods" (S.list S.method) .nil)

def methodDefFields : Fields (TypeToken × String × Signature × Option Body × Unit) :=
  .cons "declaring_type" S.type (.cons "name" S.string (.cons "signature" S.signature
    (.cons "body" (S.option S.body) .nil)))

def moduleFields : Fields (String × List TypeDef × List MethodDef × Unit) :=
  .cons "name" S.string (.cons "types" (S.list S.typeDef) (.cons "methods" (S.list S.methodDef)
    .nil))

end Serde

end Json

namespace Module

def toJsonText (S : Json.Serde) (m : Module) : String := S.print (S.module.form m)

def ofJsonText? (S : Json.Serde) (text : String) : Option Module :=
  (S.parse text).bind S.module.read

end Module

end Interpose
