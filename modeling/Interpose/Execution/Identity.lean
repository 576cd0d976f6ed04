import Interpose.Execution.Value

/-!
# Method identities

`IdentityTable::build` and `IdentityTable::resolve`: the identities of all methods of a module whose
declaring type exists, looked up by the pair of type token and method token that intercepted code
carries.
-/

namespace Interpose

/-- The identities of a module, those added last in front. -/
structure IdentityTable where
  entries : List MethodIdentity
  deriving DecidableEq, Repr

namespace IdentityTable

/-- Adds the methods of a method table from a position on; a method whose declaring type does not
exist has no identity. -/
def addMethods (m : Module) : List MethodIdentity → Nat → List MethodDef → List MethodIdentity
  | entries, _, [] => entries
  | entries, position, method :: rest =>
    match m.type? method.declaringType with
    | none => addMethods m entries (position + 1) rest
    | some type =>
      let entry : MethodIdentity :=
        ⟨.ofPosition position, method.declaringType, type.name, method.name, method.signature⟩
      addMethods m (entry :: entries) (position + 1) rest

def build (m : Module) : IdentityTable := ⟨addMethods m [] 0 m.methods⟩

/-- The identity of a method as a method of a type; of two the one added last. -/
def resolve? (table : IdentityTable) (type : TypeToken) (method : MethodToken) :
    Option MethodIdentity :=
  table.entries.find? fun e => e.declaringType = type && e.token = method

def size (table : IdentityTable) : Nat := table.entries.length

end IdentityTable

end Interpose
