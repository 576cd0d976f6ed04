import Interpose.Execution.Fault
import Interpose.Execution.Heap

/-!
# Hosts

A host surrounds running code: it implements the methods without a body (`register_native`), holds
the installed interceptor (`InterceptorRegistry::current`) and answers for all interceptors
(`Interceptor::intercept`). Its own state, and what it does to the heap, are passed along
explicitly, so a run is a function of the world it starts in.
-/

namespace Interpose

/-- Everything outside the frames of a run: the heap and the state of the host. -/
structure World (σ : Type) where
  heap : Heap
  host : σ

namespace World

variable {σ : Type}

def newObject (classType : TypeToken) : World σ → ObjectRef × World σ
  | ⟨heap, host⟩ =>
    let (r, heap) := heap.newObject classType
    (r, ⟨heap, host⟩)

/-- A new array whose elements hold the zero of their type. -/
def newArray (elem : DataType) (length : Nat) : World σ → ArrayRef × World σ
  | ⟨heap, host⟩ =>
    let (r, heap) := heap.newArray elem (.replicate length (.default elem))
    (r, ⟨heap, host⟩)

def store (r : ArrayRef) (index : Nat) (v : Value) : World σ → World σ
  | ⟨heap, host⟩ => ⟨heap.set r index v, host⟩

end World

structure Host (σ : Type) where
  installed : σ → InterceptorId
  /-- The answer of an interceptor to a receiver, arguments and a method identity. -/
  intercept : InterceptorId → Value → List Value → MethodIdentity → World σ →
    Except (NoAnswer InterceptError) Value × World σ
  /-- The implementation of a method without a body, if there is one. It gets the receiver, if the
  method has one, in front of the arguments. -/
  native? : MethodToken →
    Option (List Value → World σ → Except (NoAnswer Fault) (Option Value) × World σ)

end Interpose
