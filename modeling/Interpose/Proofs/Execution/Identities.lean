import Mathlib.Algebra.Group.Nat.Defs
import Interpose.Execution.Identity
import Interpose.Interception.Callee

/-!
# What identities say

The identity that `IdentityTable::resolve` gives for a pair of tokens is what the tables of the
module say about the method, if its declaring type is the one given. Bodies have no part in it.
-/

namespace Interpose

/-- What the tables of a module say about a method whose declaring type exists. -/
def Module.identity? (m : Module) (t : MethodToken) : Option MethodIdentity :=
  (m.method? t).bind fun d =>
    (m.type? d.declaringType).map fun type =>
      ⟨t, d.declaringType, type.name, d.name, d.signature⟩

theorem Module.identity?_eq_some_iff {m : Module} {t : MethodToken} {e : MethodIdentity} :
    m.identity? t = some e ↔ ∃ d type, m.method? t = some d ∧
      m.type? d.declaringType = some type ∧
        e = ⟨t, d.declaringType, type.name, d.name, d.signature⟩ := by
  simp only [identity?, Option.bind_eq_some_iff, Option.map_eq_some_iff]
  constructor
  · rintro ⟨d, hd, type, htype, rfl⟩
    exact ⟨d, type, hd, htype, rfl⟩
  · rintro ⟨d, type, hd, htype, rfl⟩
    exact ⟨d, hd, type, htype, rfl⟩

namespace IdentityTable

theorem mem_addMethods_iff {m : Module} {entries : List MethodIdentity} {position : Nat}
    {ds : List MethodDef} {e : MethodIdentity} :
    e ∈ addMethods m entries position ds ↔ e ∈ entries ∨ ∃ k d type, ds[k]? = some d ∧
      m.type? d.declaringType = some type ∧
      e = ⟨.ofPosition (position + k), d.declaringType, type.name, d.name, d.signature⟩ := by
  induction ds generalizing entries position with
  | nil => simp [addMethods]
  | cons d rest ih =>
    have hshift : (∃ k d' type, rest[k]? = some d' ∧ m.type? d'.declaringType = some type ∧
        e = ⟨.ofPosition (position + 1 + k), d'.declaringType, type.name, d'.name,
          d'.signature⟩) ↔
        ∃ k d' type, (d :: rest)[k + 1]? = some d' ∧ m.type? d'.declaringType = some type ∧
          e = ⟨.ofPosition (position + (k + 1)), d'.declaringType, type.name, d'.name,
            d'.signature⟩ := by
      simp only [List.getElem?_cons_succ, Nat.add_assoc, Nat.add_comm 1]
    have hsplit (p : Nat → Prop) : (∃ k, p k) ↔ p 0 ∨ ∃ k, p (k + 1) := by
      constructor
      · intro ⟨k, hk⟩
        cases k with
        | zero => exact .inl hk
        | succ k => exact .inr ⟨k, hk⟩
      · intro h
        obtain h | ⟨k, hk⟩ := h
        · exact ⟨0, h⟩
        · exact ⟨k + 1, hk⟩
    rw [hsplit, ← hshift]
    unfold addMethods
    cases htype : m.type? d.declaringType with
    | none =>
      rw [ih]
      simp [htype]
    | some type =>
      simp only
      rw [ih, List.mem_cons]
      simp [htype, or_assoc, or_left_comm]

variable {m : Module}

theorem identity?_of_mem (hm : m.methods.length < 2 ^ 32) {e : MethodIdentity}
    (h : e ∈ (build m).entries) : m.identity? e.token = some e := by
  obtain hnil | ⟨k, d, type, hd, htype, he⟩ := mem_addMethods_iff.1 h
  · cases hnil
  · have hk : k < m.methods.length := (List.getElem?_eq_some_iff.1 hd).1
    have hposition : (MethodToken.ofPosition (0 + k)).position = k := by
      rw [Nat.zero_add]
      exact MethodToken.position_ofPosition (Nat.lt_trans hk hm)
    rw [he]
    have hmethod : m.method? (MethodToken.ofPosition (0 + k)) = some d := by
      rw [Module.method?, hposition, hd]
    exact Module.identity?_eq_some_iff.2 ⟨d, type, hmethod, htype, rfl⟩

theorem mem_of_identity? {t : MethodToken} {e : MethodIdentity} (h : m.identity? t = some e) :
    e ∈ (build m).entries ∧ e.token = t := by
  obtain ⟨d, type, hd, htype, rfl⟩ := Module.identity?_eq_some_iff.1 h
  refine ⟨mem_addMethods_iff.2 (.inr ⟨t.position, d, type, hd, htype, ?_⟩), rfl⟩
  rw [Nat.zero_add, MethodToken.ofPosition_position]

/-- A table finds for two tokens what the module says about the method, if the type declares it. -/
theorem resolve?_build_eq_some_iff (hm : m.methods.length < 2 ^ 32) {type : TypeToken}
    {t : MethodToken} {e : MethodIdentity} :
    (build m).resolve? type t = some e ↔ m.identity? t = some e ∧ e.declaringType = type := by
  constructor
  · intro h
    have hmem := List.mem_of_find?_eq_some h
    have htest := List.find?_some h
    simp only [Bool.and_eq_true, decide_eq_true_eq] at htest
    rw [← htest.2]
    exact ⟨identity?_of_mem hm hmem, htest.1⟩
  · intro ⟨h, htype⟩
    obtain ⟨hmem, htoken⟩ := mem_of_identity? h
    have hsome : ((build m).resolve? type t).isSome := by
      refine List.find?_isSome.2 ⟨e, hmem, ?_⟩
      simp [htype, htoken]
    obtain ⟨e', he'⟩ := Option.isSome_iff_exists.1 hsome
    have hmem' := List.mem_of_find?_eq_some he'
    have htest := List.find?_some he'
    simp only [Bool.and_eq_true, decide_eq_true_eq] at htest
    have hidentity := identity?_of_mem hm hmem'
    rw [htest.2, h] at hidentity
    rw [he', Option.some.inj hidentity]

end IdentityTable

/-- The callee of a call is what the identity of the method says, and there is one exactly if the
method has an identity. -/
theorem Module.callee_eq_ok_iff_identity? {m : Module} {t : MethodToken} {c : Callee} :
    m.callee t = .ok c ↔
      ∃ e, m.identity? t = some e ∧ c = ⟨t, e.declaringType, e.signature⟩ := by
  rw [callee_eq_ok_iff]
  constructor
  · rintro ⟨d, type, hd, htype, rfl⟩
    exact ⟨_, identity?_eq_some_iff.2 ⟨d, type, hd, htype, rfl⟩, rfl⟩
  · rintro ⟨e, he, rfl⟩
    obtain ⟨d, type, hd, htype, rfl⟩ := identity?_eq_some_iff.1 he
    exact ⟨d, type, hd, htype, rfl⟩

/-- A call with a callee in the tables of a module is a direct call of a method with an identity. -/
theorem Module.identity?_of_describe {m : Module} {target : CallTarget} {c : Callee}
    (h : m.describe (.call target) = .ok c) :
    target = .direct c.method ∧ ∃ e, m.identity? c.method = some e ∧
      e.declaringType = c.declaringType ∧ e.signature = c.signature := by
  obtain ⟨t, htarget, hcallee⟩ := describe_eq_ok_iff.1 h
  obtain ⟨e, he, rfl⟩ := callee_eq_ok_iff_identity?.1 hcallee
  exact ⟨Instr.call.inj htarget, e, he, rfl, rfl⟩

theorem Module.method?_of_identity? {m : Module} {t : MethodToken} {e : MethodIdentity}
    (h : m.identity? t = some e) :
    e.token = t ∧ ∃ d, m.method? t = some d ∧ e.signature = d.signature := by
  obtain ⟨d, type, hd, _, rfl⟩ := identity?_eq_some_iff.1 h
  exact ⟨rfl, d, hd, rfl⟩

/-! ### Modules that declare the same -/

def MethodDef.declaration (d : MethodDef) : MethodDef := { d with body := none }

theorem MethodDef.declaration_eq_iff {d d' : MethodDef} :
    d.declaration = d'.declaration ↔
      d.declaringType = d'.declaringType ∧ d.name = d'.name ∧ d.signature = d'.signature := by
  simp [declaration]

/-- Two modules with the same types and methods, which may differ in the bodies of methods. -/
structure Module.Declares (m m' : Module) : Prop where
  types : m'.types = m.types
  methods : m'.methods.map MethodDef.declaration = m.methods.map MethodDef.declaration

namespace Module

theorem Declares.refl (m : Module) : m.Declares m := ⟨rfl, rfl⟩

theorem Declares.trans {m₁ m₂ m₃ : Module} (h : m₁.Declares m₂) (h' : m₂.Declares m₃) :
    m₁.Declares m₃ :=
  ⟨h'.types.trans h.types, h'.methods.trans h.methods⟩

theorem declares_setBody (m : Module) (t : MethodToken) (b : Body) :
    m.Declares (m.setBody t b) := by
  refine ⟨rfl, List.ext_getElem? fun k => ?_⟩
  simp only [setBody, modifyMethod, List.getElem?_map, List.getElem?_modify]
  cases m.methods[k]? with
  | none => rfl
  | some d => by_cases hk : t.position = k <;> simp [hk, MethodDef.declaration]

variable {m m' : Module}

theorem Declares.method? (h : m.Declares m') (t : MethodToken) :
    (m'.method? t).map MethodDef.declaration = (m.method? t).map MethodDef.declaration := by
  rw [Module.method?, Module.method?, ← List.getElem?_map, ← List.getElem?_map, h.methods]

/-- Both modules have the method of a token, declared alike, or none of them has. -/
theorem Declares.method?_cases (h : m.Declares m') (t : MethodToken) :
    (m.method? t = none ∧ m'.method? t = none) ∨
      ∃ d d', m.method? t = some d ∧ m'.method? t = some d' ∧
        d'.declaringType = d.declaringType ∧ d'.name = d.name ∧ d'.signature = d.signature := by
  have hd := h.method? t
  cases hm : m.method? t with
  | none =>
    rw [hm, Option.map_none, Option.map_eq_none_iff] at hd
    exact .inl ⟨rfl, hd⟩
  | some d =>
    rw [hm, Option.map_some] at hd
    obtain ⟨d', hd', hsame⟩ := Option.map_eq_some_iff.1 hd
    exact .inr ⟨d, d', rfl, hd', MethodDef.declaration_eq_iff.1 hsame⟩

theorem Declares.length_methods (h : m.Declares m') : m'.methods.length = m.methods.length := by
  simpa using congrArg List.length h.methods

theorem Declares.type? (h : m.Declares m') (u : TypeToken) : m'.type? u = m.type? u := by
  rw [Module.type?, Module.type?, h.types]

theorem Declares.findType? (h : m.Declares m') (name : String) :
    m'.findType? name = m.findType? name := by
  rw [Module.findType?, Module.findType?, h.types]

theorem Declares.findMethod? (h : m.Declares m') (u : TypeToken) (name : String) :
    m'.findMethod? u name = m.findMethod? u name := by
  unfold Module.findMethod?
  rw [h.type?]
  cases m.type? u with
  | none => rfl
  | some type =>
    simp only
    congr 1
    funext token
    obtain ⟨hm, hm'⟩ | ⟨d, d', hd, hd', _, hname, _⟩ := h.method?_cases token
    · rw [hm, hm']
    · rw [hd, hd']
      simp only [hname]

theorem Declares.qualifiedName (h : m.Declares m') (t : MethodToken) :
    m'.qualifiedName t = m.qualifiedName t := by
  unfold Module.qualifiedName
  obtain ⟨hm, hm'⟩ | ⟨d, d', hd, hd', htype, hname, _⟩ := h.method?_cases t
  · rw [hm, hm']
  · rw [hd, hd']
    simp only [h.type?, htype, hname]

theorem Declares.describe (h : m.Declares m') (i : Instr) : m'.describe i = m.describe i := by
  cases i with
  | op o => rfl
  | call target =>
    cases target with
    | indirect arity => rfl
    | direct t =>
      simp only [Module.describe, Module.callee]
      obtain ⟨hm, hm'⟩ | ⟨d, d', hd, hd', htype, _, hsignature⟩ := h.method?_cases t
      · rw [hm, hm']
      · rw [hd, hd']
        simp only [h.type?, htype, hsignature]

end Module

theorem IdentityTable.addMethods_congr {m m' : Module} (htypes : ∀ u, m'.type? u = m.type? u)
    {ds ds' : List MethodDef} (h : ds'.map MethodDef.declaration = ds.map MethodDef.declaration)
    (entries : List MethodIdentity) (position : Nat) :
    addMethods m' entries position ds' = addMethods m entries position ds := by
  induction ds generalizing ds' entries position with
  | nil =>
    rw [List.map_nil, List.map_eq_nil_iff] at h
    rw [h]
    rfl
  | cons d rest ih =>
    rw [List.map_cons] at h
    obtain ⟨d', rest', hds', hd, hrest⟩ := List.map_eq_cons_iff.1 h
    obtain ⟨htype, hname, hsignature⟩ := MethodDef.declaration_eq_iff.1 hd
    rw [hds']
    unfold addMethods
    rw [htype, hname, hsignature, htypes]
    cases m.type? d.declaringType with
    | none => exact ih hrest entries (position + 1)
    | some type => exact ih hrest _ (position + 1)

theorem Module.Declares.build_eq {m m' : Module} (h : m.Declares m') :
    IdentityTable.build m' = IdentityTable.build m := by
  unfold IdentityTable.build
  rw [IdentityTable.addMethods_congr h.type? h.methods]

end Interpose
