import Interpose.Signature

/-!
# Faults

Why a run ends without a result: the cases of `RuntimeError` and `InterceptError` with their
messages. Faults name the method they arose in where that helps; values are given by the text or the
kind they had when the fault arose.
-/

namespace Interpose

inductive InterceptError where
  | rejected (method reason : String)
  | failed (reason : String)
  deriving DecidableEq, Repr

def InterceptError.message : InterceptError → String
  | .rejected method reason => "interceptor rejected " ++ method ++ ": " ++ reason
  | .failed reason => "interceptor failed: " ++ reason

/-- Where a value of one kind stood and another was expected. -/
inductive Mismatch where
  | argument (value method : String) (expected : DataType) (kind : String)
  | storeLocal (kind : String) (slot : Nat) (declared : DataType)
  | box (kind : String) (type : DataType)
  | storeElement (kind : String) (elem : DataType)
  | arrayLength (value : String)
  | arrayIndex (value : String)
  | array (kind : String)
  | arithmetic (operation leftKind rightKind : String)
  | condition (kind : String)
  | tokens (typeKind methodKind : String)
  | dispatch
  | function
  | result (method : String) (declared : DataType) (kind : String)
  deriving DecidableEq, Repr

def Mismatch.message : Mismatch → String
  | .argument value method expected kind =>
    "argument " ++ value ++ " to " ++ method ++ ": expected " ++ expected.text ++ ", got " ++ kind
  | .storeLocal kind slot declared =>
    "cannot store " ++ kind ++ " in local " ++ Nat.repr slot ++ " of type " ++ declared.text
  | .box kind type => "cannot box " ++ kind ++ " as " ++ type.text
  | .storeElement kind elem => "cannot store " ++ kind ++ " in " ++ elem.text ++ " array"
  | .arrayLength value => "invalid array length " ++ value
  | .arrayIndex value => "invalid array index " ++ value
  | .array kind => "expected an array, got " ++ kind
  | .arithmetic operation leftKind rightKind =>
    operation ++ " on " ++ leftKind ++ " and " ++ rightKind
  | .condition kind => "cannot branch on " ++ kind
  | .tokens typeKind methodKind =>
    "resolve.method expects a type and a method token, got " ++ typeKind ++ " and " ++ methodKind
  | .dispatch => "intercept expects an interceptor and a method identity"
  | .function => "indirect call expects a function value"
  | .result method declared kind => method ++ " returns " ++ declared.text ++ ", got " ++ kind

inductive BadIndex where
  | argument (index : Nat)
  | local (index : Nat)
  deriving DecidableEq, Repr

def BadIndex.message : BadIndex → String
  | .argument n => "argument " ++ Nat.repr n
  | .local n => "local " ++ Nat.repr n

inductive Fault where
  | methodNotFound (name : String)
  | missingNative (method : String)
  | arityMismatch (method : String) (expected given : Nat)
  | stackUnderflow (method : String) (position : Nat)
  | typeMismatch (cause : Mismatch)
  | invalidCast (value : String) (target : DataType)
  | indexOutOfRange (index length : Nat)
  | invalidIndex (index : BadIndex)
  | unknownLabel (method : String) (label : UInt32)
  | unknownIdentity (type : TypeToken) (method : MethodToken)
  | intercept (error : InterceptError)
  | native (method message : String)
  | missingReturn (method : String)
  | callDepthExceeded (limit : Nat)
  | stepLimitExceeded (limit : Nat)
  deriving DecidableEq, Repr

def Fault.message : Fault → String
  | .methodNotFound name => "Method not found: " ++ name
  | .missingNative method => "No native implementation registered for " ++ method
  | .arityMismatch method expected given =>
    "Arity mismatch calling " ++ method ++ ": expected " ++ Nat.repr expected ++ " values, got "
      ++ Nat.repr given
  | .stackUnderflow method position =>
    "Stack underflow in " ++ method ++ " at instruction " ++ Nat.repr position
  | .typeMismatch cause => "Type mismatch: " ++ cause.message
  | .invalidCast value target => "Invalid cast: cannot coerce " ++ value ++ " to " ++ target.text
  | .indexOutOfRange index length =>
    "Index " ++ Nat.repr index ++ " out of range for array of length " ++ Nat.repr length
  | .invalidIndex index => "Invalid index: " ++ index.message
  | .unknownLabel method label =>
    "Branch to undefined label L" ++ Nat.repr label.toNat ++ " in " ++ method
  | .unknownIdentity type method =>
    "Unknown method identity: " ++ type.text ++ " / " ++ method.text
  | .intercept error => error.message
  | .native method message => "Native method " ++ method ++ " failed: " ++ message
  | .missingReturn method => method ++ " ended without returning a value"
  | .callDepthExceeded limit => "Call depth limit of " ++ Nat.repr limit ++ " exceeded"
  | .stepLimitExceeded limit => "Step limit of " ++ Nat.repr limit ++ " exceeded"

/-- An access to a table that an earlier check should have kept in range. No run ends in one. -/
inductive Breach where
  | branchTarget
  | localSlot
  | receiverSplit
  | stackSplit
  deriving DecidableEq, Repr

/-- Why a run comes to no result. -/
inductive Stop where
  | fault (fault : Fault)
  | breach (breach : Breach)
  /-- It does not stop at all: it writes the text of an array that lies in itself, or waits for a
  call of the host that never comes back. -/
  | endless
  deriving DecidableEq, Repr

/-- Why a call of the host has no answer: it came back with an error, or it never comes back. -/
inductive NoAnswer (ε : Type) where
  | error (error : ε)
  | endless
  deriving DecidableEq, Repr

namespace NoAnswer

def map {ε ε' : Type} (f : ε → ε') : NoAnswer ε → NoAnswer ε'
  | .error e => .error (f e)
  | .endless => .endless

def stop : NoAnswer Fault → Stop
  | .error e => .fault e
  | .endless => .endless

end NoAnswer

end Interpose
