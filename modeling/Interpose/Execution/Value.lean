import Interpose.Module

/-!
# Values

What the evaluation stack, slots and arrays hold, with `default_for`, `fits`, `type_name` and
`is_reference` of `Value`. Objects and arrays are references: two of them are equal only if they are
the same. Objects have a class and nothing else; the contents of arrays live in the heap.
-/

namespace Interpose

structure ObjectRef where
  id : Nat
  classType : TypeToken
  deriving DecidableEq, Repr

structure ArrayRef where
  id : Nat
  deriving DecidableEq, Repr

structure InterceptorId where
  id : Nat
  deriving DecidableEq, Repr

structure MethodIdentity where
  token : MethodToken
  declaringType : TypeToken
  typeName : String
  methodName : String
  signature : Signature
  deriving DecidableEq, Repr

def MethodIdentity.qualifiedName (m : MethodIdentity) : String :=
  m.typeName ++ "::" ++ m.methodName

def MethodIdentity.text (m : MethodIdentity) : String :=
  m.signature.returns.text ++ " " ++ m.qualifiedName ++ "(" ++ m.signature.paramText ++ ")"

inductive Value where
  | null
  | bool (value : Bool)
  | int32 (value : Int32)
  | int64 (value : Int64)
  | float64 (value : Binary64)
  | str (value : String)
  | object (ref : ObjectRef)
  | array (ref : ArrayRef)
  /-- A value of a value type in the form of a reference. -/
  | boxed (value : Value)
  | token (token : MetadataToken)
  | function (method : MethodToken)
  | method (identity : MethodIdentity)
  | interceptor (id : InterceptorId)
  deriving DecidableEq, Repr, Inhabited

namespace Value

/-- The content of a fresh slot of a type: zero, or null for references. -/
def default : DataType → Value
  | .bool => .bool false
  | .int32 => .int32 0
  | .int64 => .int64 0
  | .float64 => .float64 .zero
  | .string | .object | .objectArray | .classType _ => .null

/-- Whether a value may stand where a reference is expected. -/
def isReference : Value → Bool
  | .null | .str _ | .object _ | .array _ | .boxed _ => true
  | _ => false

/-- Whether a value conforms to a type as it is. -/
def fits : Value → DataType → Bool
  | .bool _, .bool => true
  | .int32 _, .int32 => true
  | .int64 _, .int64 => true
  | .float64 _, .float64 => true
  | .null, .string | .str _, .string => true
  | .null, .objectArray | .array _, .objectArray => true
  | .null, .classType _ => true
  | .object r, .classType t => r.classType = t
  | v, .object => v.isReference
  | _, _ => false

@[simp] theorem fits_default (t : DataType) : (default t).fits t = true := by
  cases t <;> rfl

theorem isReference_of_fits {v : Value} {t : DataType} (h : v.fits t = true)
    (ht : t.isValueType = false) : v.isReference = true := by
  cases t with
  | bool | int32 | int64 | float64 => cases ht
  | string | objectArray | classType =>
    cases v with
    | null | str | object | array => rfl
    | _ => cases h
  | object => cases v <;> exact h

def kind : Value → String
  | .null => "null"
  | .bool _ => "bool"
  | .int32 _ => "int32"
  | .int64 _ => "int64"
  | .float64 _ => "float64"
  | .str _ => "string"
  | .object _ => "object"
  | .array _ => "array"
  | .boxed _ => "boxed"
  | .token _ => "token"
  | .function _ => "function"
  | .method _ => "method"
  | .interceptor _ => "interceptor"

def int32? : Value → Option Int32
  | .int32 v => some v
  | _ => none

def string? : Value → Option String
  | .str s => some s
  | _ => none

def unboxed? : Value → Option Value
  | .boxed v => some v
  | _ => none

/-- Equality of values as running code sees it: numbers as numbers, texts and boxed values by
content, methods by their token, and all other references by identity. -/
def equals : Value → Value → Bool
  | .null, .null => true
  | .bool a, .bool b => a = b
  | .int32 a, .int32 b => a = b
  | .int64 a, .int64 b => a = b
  | .float64 a, .float64 b => a.equals b
  | .str a, .str b => a = b
  | .object a, .object b => a.id = b.id
  | .array a, .array b => a.id = b.id
  | .boxed a, .boxed b => a.equals b
  | .token a, .token b => a = b
  | .function a, .function b => a = b
  | .method a, .method b => a.token = b.token
  | .interceptor a, .interceptor b => a.id = b.id
  | _, _ => false

end Value

end Interpose
