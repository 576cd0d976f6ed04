import Interpose.Signature
import Interpose.Decimal.Binary64

/-!
# Instructions

The code of a method body is a list of instructions for a stack machine. Interception only tells
calls from everything else, so a call is a case of its own of `Instruction` and all other operations
are one case, with an `Op`.
-/

namespace Interpose

inductive CallTarget where
  | direct (method : MethodToken)
  /-- The function value on top of the stack, above `arity` values, receiver included. -/
  | indirect (arity : UInt16)
  deriving DecidableEq, Repr

/-- An operation other than a call, named by its mnemonic. -/
inductive Op where
  | nop
  | ldarg (index : UInt16)
  | starg (index : UInt16)
  | ldloc (slot : LocalSlot)
  | stloc (slot : LocalSlot)
  | ldnull
  | ldcI4 (value : Int32)
  | ldcI8 (value : Int64)
  | ldcR8 (value : Binary64)
  | ldstr (value : String)
  | dup
  | pop
  | add
  | sub
  | mul
  | ceq
  | clt
  /-- A branch target. It does nothing, so code can be inserted without moving any target. -/
  | label (label : Label)
  | br (target : Label)
  | brtrue (target : Label)
  | brfalse (target : Label)
  | ret
  | box (type : DataType)
  | unboxAny (type : DataType)
  | newobj (type : TypeToken)
  | newarr (elem : DataType)
  | stelemRef
  | ldelemRef
  | ldlen
  | ldtoken (token : MetadataToken)
  | ldftn (method : MethodToken)
  /-- Takes a type token and a method token, gives the identity of that method. -/
  | resolveMethod
  /-- Gives the interceptor that is installed at this moment. -/
  | getInterceptor
  /-- Takes an interceptor, a receiver, an argument array and a method identity, gives the
  interceptor's answer. -/
  | intercept
  deriving DecidableEq, Repr

inductive Instr where
  | call (target : CallTarget)
  | op (op : Op)
  deriving DecidableEq, Repr

def Instr.isCall : Instr → Bool
  | .call _ => true
  | .op _ => false

/-- Equality of instructions as values: floating-point constants are compared as numbers. -/
def Instr.agrees : Instr → Instr → Bool
  | .op (.ldcR8 x), .op (.ldcR8 y) => x.equals y
  | i, j => i = j

end Interpose
