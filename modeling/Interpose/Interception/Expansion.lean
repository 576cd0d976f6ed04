import Interpose.Interception.Slots

/-!
# Expansions

The code that stands for an intercepted call, `expand_call_site`. It takes the arguments and the
receiver from the stack into slots, builds an array of the arguments, hands receiver, array and
method identity to the installed interceptor, and gives the answer the form of the callee's result.
-/

namespace Interpose

namespace Callee

/-- Takes one argument from the stack; a value type goes into its slot boxed. -/
def captureParam (type : DataType) (slot : LocalSlot) : List Op :=
  if type.isValueType then [.box type, .stloc slot] else [.stloc slot]

/-- Takes the arguments from the stack. The last argument is on top. -/
def captureParams (c : Callee) (s : CallSiteSlots) : List Op :=
  (c.signature.params.zip s.params).reverse.flatMap fun p => captureParam p.1 p.2

/-- Takes the receiver from the stack; a static callee has null for a receiver. -/
def captureReceiver (c : Callee) (s : CallSiteSlots) : List Op :=
  (if c.signature.isStatic then [.ldnull] else []) ++ [.stloc s.receiver]

def createArray (c : Callee) (s : CallSiteSlots) : List Op :=
  [.ldcI4 (Int32.ofNat c.signature.params.length), .newarr .object, .stloc s.arguments]

def storeParam (s : CallSiteSlots) (slot : LocalSlot) (index : Nat) : List Op :=
  [.ldloc s.arguments, .ldcI4 (Int32.ofNat index), .ldloc slot, .stelemRef]

/-- Puts the arguments into the array, in the order of declaration. -/
def storeParams (s : CallSiteSlots) : List Op :=
  s.params.zipIdx.flatMap fun p => storeParam s p.1 p.2

def dispatch (c : Callee) (s : CallSiteSlots) : List Op :=
  [.ldloc s.receiver, .ldloc s.arguments, .ldtoken (.type c.declaringType),
    .ldtoken (.method c.method), .resolveMethod, .intercept]

/-- Gives the answer the form of the callee's result. -/
def finish (c : Callee) : Op :=
  match c.signature.returns with
  | .void => .pop
  | .value t => .unboxAny t

def expansion (c : Callee) (s : CallSiteSlots) : List Op :=
  c.captureParams s ++ (c.captureReceiver s ++ (.getInterceptor :: (c.createArray s
    ++ (storeParams s ++ (c.dispatch s ++ [c.finish])))))

end Callee

end Interpose
