import Interpose.Image.Decode

/-!
# References inside a module

Every token and every slot of a module that `validate_tokens` accepts lies inside the table it
points into, and every module of that kind is accepted.
-/

namespace Interpose

/-! ### What a part names -/

def DataType.typeTokens : DataType → List TypeToken
  | .classType t => [t]
  | _ => []

def ReturnType.typeTokens : ReturnType → List TypeToken
  | .void => []
  | .value t => t.typeTokens

def Instr.typeTokens : Instr → List TypeToken
  | .op (.box t) | .op (.unboxAny t) | .op (.newarr t) => t.typeTokens
  | .op (.newobj t) | .op (.ldtoken (.type t)) => [t]
  | _ => []

def Instr.methodTokens : Instr → List MethodToken
  | .call (.direct m) | .op (.ldtoken (.method m)) | .op (.ldftn m) => [m]
  | _ => []

def Instr.slots : Instr → List LocalSlot
  | .op (.ldloc s) | .op (.stloc s) => [s]
  | _ => []

/-! ### Parts inside their tables -/

/-- Every type that an item names is one of the first `types`. -/
def TypesWithin (types : Nat) (tokens : List TypeToken) : Prop := ∀ t ∈ tokens, t.position < types

def MethodsWithin (methods : Nat) (tokens : List MethodToken) : Prop :=
  ∀ m ∈ tokens, m.position < methods

/-- Every token of an instruction lies in its table, and every slot among the locals. -/
structure Instr.Within (types methods locals : Nat) (i : Instr) : Prop where
  types : TypesWithin types i.typeTokens
  methods : MethodsWithin methods i.methodTokens
  slots : ∀ s ∈ i.slots, s.position < locals

structure Body.Within (types methods : Nat) (b : Body) : Prop where
  locals : ∀ t ∈ b.locals, TypesWithin types t.typeTokens
  code : ∀ i ∈ b.code, i.Within types methods b.locals.length

structure MethodDef.Within (types methods : Nat) (d : MethodDef) : Prop where
  declaringType : d.declaringType.position < types
  params : ∀ t ∈ d.signature.params, TypesWithin types t.typeTokens
  returns : TypesWithin types d.signature.returns.typeTokens
  body : ∀ b, d.body = some b → b.Within types methods

/-- Every token and every slot of a module lies inside the table it points into. -/
structure Module.Closed (m : Module) : Prop where
  methodLists : ∀ t ∈ m.types, MethodsWithin m.methods.length t.methods
  methods : ∀ d ∈ m.methods, d.Within m.types.length m.methods.length

namespace Image

/-! ### What the checks accept -/

theorem andThen_eq_ok_iff {x y : Except DecodeError Unit} :
    (do x; y) = .ok () ↔ x = .ok () ∧ y = .ok () := by
  cases x with
  | error e => exact ⟨fun h => (nomatch h), fun h => (nomatch h.1)⟩
  | ok u => exact ⟨fun h => ⟨rfl, h⟩, fun h => h.2⟩

theorem checkAll_eq_ok_iff {α : Type} {check : α → Except DecodeError Unit} {items : List α} :
    checkAll check items = .ok () ↔ ∀ a ∈ items, check a = .ok () := by
  induction items with
  | nil => simp [checkAll]
  | cons a rest ih =>
    rw [List.forall_mem_cons, ← ih]
    cases h : check a with
    | error e => simp [checkAll, h]
    | ok u => simp [checkAll, h]

namespace Bounds

variable (b : Bounds)

theorem checkType_eq_ok_iff (t : TypeToken) : b.checkType t = .ok () ↔ t.position < b.types := by
  unfold checkType
  split <;> simp_all

theorem checkMethod_eq_ok_iff (m : MethodToken) :
    b.checkMethod m = .ok () ↔ m.position < b.methods := by
  unfold checkMethod
  split <;> simp_all

theorem checkLocal_eq_ok_iff (s : LocalSlot) :
    b.checkLocal s = .ok () ↔ s.position < b.locals := by
  unfold checkLocal
  split <;> simp_all

theorem checkDataType_eq_ok_iff (t : DataType) :
    b.checkDataType t = .ok () ↔ TypesWithin b.types t.typeTokens := by
  cases t with
  | classType t => simp [checkDataType, checkType_eq_ok_iff, TypesWithin, DataType.typeTokens]
  | _ => simp [checkDataType, TypesWithin, DataType.typeTokens]

theorem checkReturnType_eq_ok_iff (t : ReturnType) :
    b.checkReturnType t = .ok () ↔ TypesWithin b.types t.typeTokens := by
  cases t with
  | void => simp [checkReturnType, TypesWithin, ReturnType.typeTokens]
  | value t => exact checkDataType_eq_ok_iff b t

theorem checkInstr_eq_ok_iff (i : Instr) :
    b.checkInstr i = .ok () ↔ i.Within b.types b.methods b.locals := by
  have split : i.Within b.types b.methods b.locals ↔ TypesWithin b.types i.typeTokens ∧
      MethodsWithin b.methods i.methodTokens ∧ ∀ s ∈ i.slots, s.position < b.locals :=
    ⟨fun h => ⟨h.types, h.methods, h.slots⟩, fun h => ⟨h.1, h.2.1, h.2.2⟩⟩
  rw [split]
  unfold checkInstr
  split <;> simp_all [TypesWithin, MethodsWithin, Instr.typeTokens, Instr.methodTokens, Instr.slots,
    checkType_eq_ok_iff, checkMethod_eq_ok_iff, checkLocal_eq_ok_iff, checkDataType_eq_ok_iff]

theorem checkBody_eq_ok_iff (body : Option Body) :
    b.checkBody body = .ok () ↔ ∀ x, body = some x → x.Within b.types b.methods := by
  cases body with
  | none => simp [checkBody]
  | some x =>
    simp only [checkBody, andThen_eq_ok_iff, checkAll_eq_ok_iff, checkDataType_eq_ok_iff,
      checkInstr_eq_ok_iff]
    constructor
    · intro h y hy
      cases hy
      exact ⟨h.1, h.2⟩
    · intro h
      exact ⟨(h x rfl).locals, (h x rfl).code⟩

theorem checkMethodDef_eq_ok_iff (d : MethodDef) :
    b.checkMethodDef d = .ok () ↔ d.Within b.types b.methods := by
  simp only [checkMethodDef, andThen_eq_ok_iff, checkAll_eq_ok_iff, checkType_eq_ok_iff,
    checkDataType_eq_ok_iff, checkReturnType_eq_ok_iff, checkBody_eq_ok_iff]
  constructor
  · intro h
    exact ⟨h.1, h.2.1, h.2.2.1, h.2.2.2⟩
  · intro h
    exact ⟨h.declaringType, h.params, h.returns, h.body⟩

end Bounds

theorem checkMethods_eq_ok_iff {types methods position : Nat} {defs : List MethodDef} :
    checkMethods types methods position defs = .ok () ↔ ∀ d ∈ defs, d.Within types methods := by
  induction defs generalizing position with
  | nil => simp [checkMethods]
  | cons d rest ih =>
    have head := Bounds.checkMethodDef_eq_ok_iff
      ⟨types, methods, 0, "method " ++ Nat.repr position ++ " (" ++ d.name ++ ")"⟩ d
    rw [List.forall_mem_cons, ← @ih (position + 1), ← head]
    cases h : Bounds.checkMethodDef
        ⟨types, methods, 0, "method " ++ Nat.repr position ++ " (" ++ d.name ++ ")"⟩ d with
    | error e => simp [checkMethods, h]
    | ok u => simp [checkMethods, h]

theorem checkReferences_eq_ok_iff {m : Module} : checkReferences m = .ok () ↔ m.Closed := by
  simp only [checkReferences, andThen_eq_ok_iff, checkAll_eq_ok_iff, Bounds.checkMethod_eq_ok_iff,
    checkMethods_eq_ok_iff]
  constructor
  · intro h
    exact ⟨h.1, h.2⟩
  · intro h
    exact ⟨h.methodLists, h.methods⟩

end Image

end Interpose
