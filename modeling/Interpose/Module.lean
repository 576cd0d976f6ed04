import Interpose.Instruction

/-!
# Modules

A `Module` has a table of types and a table of methods, which name each other by tokens. The tables
are independent data: a type lists the tokens of its methods, and each method names the type that
declares it. Nothing here assumes that the two agree. `find_type`, `find_method`, `method` and
`qualified_name` look things up.
-/

namespace Interpose

structure Body where
  locals : List DataType
  code : List Instr
  deriving DecidableEq, Repr

def Body.callSites (b : Body) : Nat := b.code.countP Instr.isCall

structure MethodDef where
  declaringType : TypeToken
  name : String
  signature : Signature
  /-- Methods without a body are the host's to implement. -/
  body : Option Body
  deriving DecidableEq, Repr

structure TypeDef where
  name : String
  methods : List MethodToken
  deriving DecidableEq, Repr

structure Module where
  name : String
  types : List TypeDef
  methods : List MethodDef
  deriving DecidableEq, Repr

namespace Module

def empty (name : String) : Module := ⟨name, [], []⟩

def type? (m : Module) (t : TypeToken) : Option TypeDef := m.types[t.position]?

def method? (m : Module) (t : MethodToken) : Option MethodDef := m.methods[t.position]?

def findType? (m : Module) (name : String) : Option TypeToken :=
  (m.types.findIdx? (·.name = name)).map TypeToken.ofPosition

/-- The first method in the method list of a type that exists and has the name. -/
def findMethod? (m : Module) (t : TypeToken) (name : String) : Option MethodToken :=
  match m.type? t with
  | none => none
  | some type => type.methods.find? fun token =>
      match m.method? token with
      | some method => method.name = name
      | none => false

/-- The name of a method behind the name of its declaring type, for messages. Where the method or
its type does not exist, a placeholder stands for the missing name. -/
def qualifiedName (m : Module) (t : MethodToken) : String :=
  match m.method? t with
  | some method =>
    (match m.type? method.declaringType with
      | some type => type.name
      | none => "?") ++ "::" ++ method.name
  | none => "<" ++ t.text ++ ">"

/-- Applies a change to one method; tokens without a method change nothing. -/
def modifyMethod (m : Module) (t : MethodToken) (f : MethodDef → MethodDef) : Module :=
  { m with methods := m.methods.modify t.position f }

/-- Gives a method a body; tokens without a method change nothing. -/
def setBody (m : Module) (t : MethodToken) (b : Body) : Module :=
  m.modifyMethod t fun method => { method with body := some b }

/-! ### What giving a body to a method changes -/

variable (m : Module) (t : MethodToken) (b : Body)

theorem method?_setBody (u : MethodToken) :
    (m.setBody t b).method? u =
      (m.method? u).map fun d =>
        if t.position = u.position then { d with body := some b } else d := by
  simp only [method?, setBody, modifyMethod, List.getElem?_modify]
  cases m.methods[u.position]? with
  | none => rfl
  | some d => by_cases h : t.position = u.position <;> simp [h]

end Module

/-! ### Equality as values -/

def listsAgree {α : Type} (test : α → α → Bool) : List α → List α → Bool
  | [], [] => true
  | a :: as, b :: bs => test a b && listsAgree test as bs
  | _, _ => false

def Body.agrees (a b : Body) : Bool :=
  a.locals = b.locals && listsAgree Instr.agrees a.code b.code

def MethodDef.agrees (a b : MethodDef) : Bool :=
  a.declaringType = b.declaringType && a.name = b.name && a.signature = b.signature &&
    match a.body, b.body with
    | none, none => true
    | some x, some y => x.agrees y
    | _, _ => false

/-- Equality of modules as values: floating-point constants are compared as numbers, so a module
with a NaN constant does not even agree with itself. -/
def Module.agrees (a b : Module) : Bool :=
  a.name = b.name && a.types = b.types && listsAgree MethodDef.agrees a.methods b.methods

end Interpose
