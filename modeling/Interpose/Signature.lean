import Interpose.Token

/-!
# Signatures

Declared types of parameters, results and locals: `TypeSig`, `ReturnSig` and `MethodSig`. Four types
are stored by value, the others as references (`TypeSig::category`); the two categories are passed
differently to an interceptor.
-/

namespace Interpose

/-- Declared type of a parameter, a result, a local slot or the elements of an array. -/
inductive DataType where
  | bool
  | int32
  | int64
  | float64
  | string
  | object
  | objectArray
  | classType (type : TypeToken)
  deriving DecidableEq, Repr

/-- How a value of a type is stored: directly, or as a reference to heap data. -/
inductive Category where
  | byValue
  | byReference
  deriving DecidableEq, Repr

def DataType.category : DataType → Category
  | .bool | .int32 | .int64 | .float64 => .byValue
  | .string | .object | .objectArray | .classType _ => .byReference

def DataType.isValueType (t : DataType) : Bool := t.category = .byValue

def DataType.text : DataType → String
  | .bool => "bool"
  | .int32 => "int32"
  | .int64 => "int64"
  | .float64 => "float64"
  | .string => "string"
  | .object => "object"
  | .objectArray => "object[]"
  | .classType t => "class " ++ t.text

inductive ReturnType where
  | void
  | value (type : DataType)
  deriving DecidableEq, Repr

def ReturnType.text : ReturnType → String
  | .void => "void"
  | .value t => t.text

structure Signature where
  params : List DataType
  returns : ReturnType
  isStatic : Bool
  deriving DecidableEq, Repr

/-- The number of receivers a call passes: one, unless the method is static. -/
def Signature.receivers (s : Signature) : Nat := if s.isStatic then 0 else 1

/-- The number of values a call takes from the evaluation stack, receiver included. -/
def Signature.arity (s : Signature) : Nat := s.params.length + s.receivers

def Signature.paramText (s : Signature) : String :=
  String.intercalate ", " (s.params.map DataType.text)

end Interpose
