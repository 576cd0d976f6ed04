import Mathlib.Data.List.Induction
import Interpose.Module.Builder
import Interpose.Proofs.Module.Tables

/-!
# What builders leave behind

Steps of a `ModuleBuilder` come in any order: bodies are given before and after other methods are
added, or to tokens that no step has handed out. What the finished module has is told from the steps
alone.
-/

namespace Interpose

inductive BuildStep where
  | addType (name : String)
  | addMethod (type : TypeToken) (name : String) (signature : Signature) (body : Body)
  | addNative (type : TypeToken) (name : String) (signature : Signature)
  | reserve (type : TypeToken) (name : String) (signature : Signature)
  | setBody (method : MethodToken) (body : Body)
  deriving DecidableEq

namespace BuildStep

def typeName? : BuildStep → Option String
  | addType name => some name
  | _ => none

/-- The method that a step adds, as it is added. -/
def added? : BuildStep → Option MethodDef
  | addMethod type name signature body => some ⟨type, name, signature, some body⟩
  | addNative type name signature => some ⟨type, name, signature, none⟩
  | reserve type name signature => some ⟨type, name, signature, none⟩
  | _ => none

/-- The body that a step gives to a method which is there already. -/
def bodyFor? (u : MethodToken) : BuildStep → Option Body
  | setBody method body => if method = u then some body else none
  | _ => none

/-- A step adds a type, adds a method or gives a body. -/
theorem cases (step : BuildStep) : (∃ name, step = addType name) ∨
    (∃ d, step.added? = some d) ∨ ∃ u body, step = setBody u body := by
  cases step with
  | addType name => exact .inl ⟨name, rfl⟩
  | addMethod type name signature body => exact .inr (.inl ⟨_, rfl⟩)
  | addNative type name signature => exact .inr (.inl ⟨_, rfl⟩)
  | reserve type name signature => exact .inr (.inl ⟨_, rfl⟩)
  | setBody u body => exact .inr (.inr ⟨u, body, rfl⟩)

theorem of_added? {step : BuildStep} {d : MethodDef} (h : step.added? = some d) :
    step.typeName? = none ∧ ∀ u, step.bodyFor? u = none := by
  cases step with
  | addType name => cases h
  | setBody u body => cases h
  | addMethod type name signature body => exact ⟨rfl, fun _ => rfl⟩
  | addNative type name signature => exact ⟨rfl, fun _ => rfl⟩
  | reserve type name signature => exact ⟨rfl, fun _ => rfl⟩

end BuildStep

namespace Builder

/-- Carries out one step, with the token that it hands out. -/
def perform (b : Builder) : BuildStep → Option MetadataToken × Builder
  | .addType name =>
    let added := b.addType name
    (some (.type added.1), added.2)
  | .addMethod type name signature body =>
    let added := b.addMethod type name signature body
    (some (.method added.1), added.2)
  | .addNative type name signature =>
    let added := b.addNative type name signature
    (some (.method added.1), added.2)
  | .reserve type name signature =>
    let added := b.reserve type name signature
    (some (.method added.1), added.2)
  | .setBody method body => (none, b.setBody method body)

/-- Carries out steps in order, with what each of them hands out. -/
def performAll (b : Builder) : List BuildStep → List (Option MetadataToken) × Builder
  | [] => ([], b)
  | step :: steps =>
    let rest := (b.perform step).2.performAll steps
    ((b.perform step).1 :: rest.1, rest.2)

/-- The methods that steps add, in order. -/
def addedBy (steps : List BuildStep) : List MethodDef := steps.filterMap BuildStep.added?

/-- The body that the last of the steps to do so gives to a method. -/
def lastBody? (u : MethodToken) (steps : List BuildStep) : Option Body :=
  steps.reverse.findSome? (BuildStep.bodyFor? u)

/-- Every method is added to a type whose token an earlier step of the same builder handed out. -/
def UsesOwnTypes (name : String) (steps : List BuildStep) : Prop :=
  ∀ k (hk : k < steps.length), ∀ d ∈ steps[k].added?,
    some (.type d.declaringType) ∈ ((start name).performAll (steps.take k)).1

instance (name : String) (steps : List BuildStep) : Decidable (UsesOwnTypes name steps) :=
  inferInstanceAs (Decidable (∀ k (hk : k < steps.length), ∀ d ∈ steps[k].added?,
    some (.type d.declaringType) ∈ ((start name).performAll (steps.take k)).1))

variable {b : Builder} {step : BuildStep} {steps : List BuildStep} {d : MethodDef}
  {t : TypeToken} {u : MethodToken}

theorem performAll_append (b : Builder) (steps later : List BuildStep) :
    b.performAll (steps ++ later) =
      ((b.performAll steps).1 ++ ((b.performAll steps).2.performAll later).1,
        ((b.performAll steps).2.performAll later).2) := by
  induction steps generalizing b with
  | nil => rfl
  | cons step steps ih =>
    simp only [List.cons_append, performAll]
    rw [ih]

theorem performAll_snoc (b : Builder) (steps : List BuildStep) (step : BuildStep) :
    b.performAll (steps ++ [step]) =
      ((b.performAll steps).1 ++ [((b.performAll steps).2.perform step).1],
        ((b.performAll steps).2.perform step).2) :=
  performAll_append b steps [step]

theorem perform_of_added? (h : step.added? = some d) (b : Builder) :
    b.perform step = (some (.method (.ofPosition b.module.methods.length)),
      (b.push d.declaringType d.name d.signature d.body).2) := by
  cases step with
  | addType name => cases h
  | setBody u body => cases h
  | addMethod type name signature body => cases h; rfl
  | addNative type name signature => cases h; rfl
  | reserve type name signature => cases h; rfl

theorem addedBy_snoc (steps : List BuildStep) (step : BuildStep) :
    addedBy (steps ++ [step]) = addedBy steps ++ step.added?.toList := by
  cases h : step.added? <;> simp [addedBy, h]

theorem length_addedBy_le (steps : List BuildStep) : (addedBy steps).length ≤ steps.length :=
  List.length_filterMap_le BuildStep.added? steps

theorem lastBody?_cons (u : MethodToken) (step : BuildStep) (steps : List BuildStep) :
    lastBody? u (step :: steps) = (lastBody? u steps).or (step.bodyFor? u) := by
  simp only [lastBody?, List.reverse_cons, List.findSome?_append, List.findSome?_singleton]

/-! ### Names and declarations -/

theorem name_performAll (b : Builder) (steps : List BuildStep) :
    (b.performAll steps).2.module.name = b.module.name := by
  induction steps generalizing b with
  | nil => rfl
  | cons step steps ih =>
    rw [performAll, ih]
    cases step <;> rfl

theorem typeNames_perform (b : Builder) (step : BuildStep) :
    (b.perform step).2.module.types.map (·.name) =
      b.module.types.map (·.name) ++ step.typeName?.toList := by
  obtain ⟨name, rfl⟩ | ⟨d, hd⟩ | ⟨u, body, rfl⟩ := step.cases
  · exact List.map_append
  · rw [perform_of_added? hd, (BuildStep.of_added? hd).1, Option.toList_none, List.append_nil]
    refine List.ext_getElem? fun k => ?_
    simp only [push, List.getElem?_map, List.getElem?_modify]
    cases b.module.types[k]? with
    | none => rfl
    | some type => by_cases hk : d.declaringType.position = k <;> simp [hk]
  · exact (List.append_nil _).symm

theorem typeNames_performAll (name : String) (steps : List BuildStep) :
    ((start name).performAll steps).2.module.types.map (·.name) =
      steps.filterMap BuildStep.typeName? := by
  induction steps using List.reverseRecOn with
  | nil => rfl
  | append_singleton steps step ih =>
    rw [performAll_snoc, typeNames_perform, ih, List.filterMap_append]
    cases h : step.typeName? <;> simp [h]

theorem length_types_performAll (name : String) (steps : List BuildStep) :
    ((start name).performAll steps).2.module.types.length =
      (steps.filterMap BuildStep.typeName?).length := by
  rw [← typeNames_performAll name steps, List.length_map]

theorem length_types_le_perform (b : Builder) (step : BuildStep) :
    b.module.types.length ≤ (b.perform step).2.module.types.length := by
  have h := congrArg List.length (typeNames_perform b step)
  simp only [List.length_map, List.length_append] at h
  omega

theorem declarations_perform (b : Builder) (step : BuildStep) :
    (b.perform step).2.module.methods.map MethodDef.declaration =
      b.module.methods.map MethodDef.declaration ++
        step.added?.toList.map MethodDef.declaration := by
  obtain ⟨name, rfl⟩ | ⟨d, hd⟩ | ⟨u, body, rfl⟩ := step.cases
  · exact (List.append_nil _).symm
  · rw [perform_of_added? hd, hd]
    exact List.map_append
  · rw [perform, setBody, (Module.declares_setBody b.module u body).methods]
    exact (List.append_nil _).symm

theorem declarations_performAll (name : String) (steps : List BuildStep) :
    ((start name).performAll steps).2.module.methods.map MethodDef.declaration =
      (addedBy steps).map MethodDef.declaration := by
  induction steps using List.reverseRecOn with
  | nil => rfl
  | append_singleton steps step ih =>
    rw [performAll_snoc, declarations_perform, ih, addedBy_snoc, List.map_append]

theorem length_methods_performAll (name : String) (steps : List BuildStep) :
    ((start name).performAll steps).2.module.methods.length = (addedBy steps).length := by
  simpa using congrArg List.length (declarations_performAll name steps)

/-! ### Bodies -/

theorem method?_perform (hu : u.position < b.module.methods.length) (step : BuildStep) :
    (b.perform step).2.module.method? u = (b.module.method? u).map fun d =>
      { d with body := (step.bodyFor? u).or d.body } := by
  obtain ⟨name, rfl⟩ | ⟨d, hd⟩ | ⟨v, body, rfl⟩ := step.cases
  · exact Option.map_id'.symm
  · rw [perform_of_added? hd, (BuildStep.of_added? hd).2]
    simp only [Option.none_or, Option.map_id']
    exact List.getElem?_append_left hu
  · rw [perform, setBody, Module.method?_setBody]
    congr 1
    funext d
    by_cases h : v = u
    · simp [BuildStep.bodyFor?, h]
    · have hposition : v.position ≠ u.position := fun heq => h (MethodToken.eq_of_position_eq heq)
      simp [BuildStep.bodyFor?, h, hposition]

theorem length_methods_le_perform (b : Builder) (step : BuildStep) :
    b.module.methods.length ≤ (b.perform step).2.module.methods.length := by
  have h := congrArg List.length (declarations_perform b step)
  simp only [List.length_map, List.length_append] at h
  omega

theorem method?_performAll (hu : u.position < b.module.methods.length) (steps : List BuildStep) :
    (b.performAll steps).2.module.method? u = (b.module.method? u).map fun d =>
      { d with body := (lastBody? u steps).or d.body } := by
  induction steps generalizing b with
  | nil => exact Option.map_id'.symm
  | cons step steps ih =>
    rw [performAll, ih (Nat.lt_of_lt_of_le hu (length_methods_le_perform b step)),
      method?_perform hu, Option.map_map, lastBody?_cons]
    congr 1
    funext d
    simp only [Function.comp_apply, Option.or_assoc]

/-! ### Tables -/

theorem getElem?_snoc {α : Type} (xs : List α) (a : α) (k : Nat) :
    (xs ++ [a])[k]? = if k = xs.length then some a else xs[k]? := by
  split
  · next heq => rw [heq, List.getElem?_concat_length]
  · next hne =>
    obtain hlt | hgt := Nat.lt_or_gt_of_ne hne
    · exact List.getElem?_append_left hlt
    · rw [List.getElem?_eq_none (Nat.le_of_lt hgt), List.getElem?_eq_none]
      rwa [List.length_append]

theorem tablesAgree_start (name : String) : (start name).module.TablesAgree where
  ascending h := nomatch h
  listed h := nomatch h
  declaring h := nomatch h

theorem type?_addType (b : Builder) (name : String) (t : TypeToken) :
    (b.addType name).2.module.type? t =
      if t.position = b.module.types.length then some ⟨name, []⟩ else b.module.type? t :=
  getElem?_snoc ..

/-- A type that is added has no methods yet, and no method can name a type that was not there. -/
theorem tablesAgree_addType (h : b.module.TablesAgree) (name : String) :
    (b.addType name).2.module.TablesAgree := by
  have hold {t : TypeToken} {type : TypeDef} (htype : b.module.type? t = some type) :
      t.position ≠ b.module.types.length :=
    Nat.ne_of_lt (List.getElem?_eq_some_iff.1 htype).1
  refine ⟨fun {t type} htype => ?_, fun {t type} htype u => ?_, fun {d} hd => ?_⟩
  · rw [type?_addType] at htype
    split at htype
    · cases htype
      exact .nil
    · exact h.ascending htype
  · rw [type?_addType] at htype
    split at htype
    · next hnew =>
      cases htype
      refine iff_of_false List.not_mem_nil fun hdeclared => ?_
      obtain ⟨d, hd, rfl⟩ := hdeclared
      obtain ⟨other, hother⟩ := h.declaring (List.mem_of_getElem? hd)
      exact hold hother hnew
    · exact h.listed htype u
  · obtain ⟨type, htype⟩ := h.declaring hd
    exact ⟨type, by rw [type?_addType, if_neg (hold htype), htype]⟩

theorem type?_push (b : Builder) (t : TypeToken) (name : String) (signature : Signature)
    (body : Option Body) (t' : TypeToken) :
    (b.push t name signature body).2.module.type? t' = (b.module.type? t').map fun type =>
      if t = t' then
        { type with methods := type.methods ++ [.ofPosition b.module.methods.length] }
      else type := by
  have hsame : t.position = t'.position ↔ t = t' :=
    ⟨TypeToken.eq_of_position_eq, fun heq => heq ▸ rfl⟩
  refine (List.getElem?_modify ..).trans ?_
  simp only [hsame]
  rfl

theorem method?_push (hfew : b.module.methods.length < UInt32.size) (t : TypeToken) (name : String)
    (signature : Signature) (body : Option Body) (u : MethodToken) :
    (b.push t name signature body).2.module.method? u =
      if u = .ofPosition b.module.methods.length then some ⟨t, name, signature, body⟩
      else b.module.method? u := by
  have hsame : u.position = b.module.methods.length ↔ u = .ofPosition b.module.methods.length := by
    constructor
    · intro heq
      rw [← heq, u.ofPosition_position]
    · intro heq
      rw [heq, MethodToken.position_ofPosition hfew]
  refine (getElem?_snoc ..).trans ?_
  simp only [hsame]
  rfl

theorem declaredOn_push (hfew : b.module.methods.length < UInt32.size) (t : TypeToken)
    (name : String) (signature : Signature) (body : Option Body) (t' : TypeToken)
    (u : MethodToken) :
    (b.push t name signature body).2.module.DeclaredOn t' u ↔
      b.module.DeclaredOn t' u ∨ t = t' ∧ u = .ofPosition b.module.methods.length := by
  unfold Module.DeclaredOn
  rw [method?_push hfew]
  split
  · next heq =>
    have hnone : b.module.method? u = none := by
      rw [heq, Module.method?_ofPosition hfew, List.getElem?_eq_none (Nat.le_refl _)]
    rw [← heq, hnone]
    simp [heq]
  · next hne => simp [hne]

/-- A method that is added stands behind all others, in the table and in the list of its type. -/
theorem tablesAgree_push {type : TypeDef} (h : b.module.TablesAgree)
    (hfew : b.module.methods.length < UInt32.size) (htype : b.module.type? t = some type)
    (name : String) (signature : Signature) (body : Option Body) :
    (b.push t name signature body).2.module.TablesAgree := by
  refine ⟨fun {t' type'} htype' => ?_, fun {t' type'} htype' u => ?_, fun {d} hd => ?_⟩
  · obtain ⟨old, hold, rfl⟩ :=
      Option.map_eq_some_iff.1 ((type?_push b t name signature body t').symm.trans htype')
    split
    · refine List.pairwise_append.2 ⟨h.ascending hold, List.pairwise_singleton _ _, ?_⟩
      intro u hu v hv
      obtain ⟨d, hd, _⟩ := (h.listed hold u).1 hu
      rw [List.mem_singleton.1 hv, MethodToken.position_ofPosition hfew]
      exact (List.getElem?_eq_some_iff.1 hd).1
    · exact h.ascending hold
  · obtain ⟨old, hold, rfl⟩ :=
      Option.map_eq_some_iff.1 ((type?_push b t name signature body t').symm.trans htype')
    rw [declaredOn_push hfew, ← h.listed hold]
    split
    · next heq => simp [heq]
    · next hne => simp [hne]
  · have hexists : ∃ old, b.module.type? d.declaringType = some old := by
      obtain hd | hd := List.mem_append.1 hd
      · exact h.declaring hd
      · rw [List.mem_singleton.1 hd]
        exact ⟨type, htype⟩
    obtain ⟨old, hold⟩ := hexists
    rw [type?_push, hold]
    exact ⟨_, rfl⟩

/-! ### Whole runs -/

theorem length_lt_of_snoc {n : Nat} (h : (steps ++ [step]).length < n) : steps.length < n := by
  rw [List.length_append] at h
  exact Nat.lt_of_le_of_lt (Nat.le_add_right _ _) h

theorem position_lt_of_perform (hfew : b.module.types.length < UInt32.size)
    (h : (b.perform step).1 = some (.type t)) :
    t.position < (b.perform step).2.module.types.length := by
  obtain ⟨typeName, rfl⟩ | ⟨d, hd⟩ | ⟨u, body, rfl⟩ := step.cases
  · cases h
    simp [perform, addType, TypeToken.position_ofPosition hfew]
  · rw [perform_of_added? hd] at h
    cases h
  · cases h

theorem position_lt_of_type_mem {name : String} (hfew : steps.length < UInt32.size)
    (h : some (.type t) ∈ ((start name).performAll steps).1) :
    t.position < ((start name).performAll steps).2.module.types.length := by
  induction steps using List.reverseRecOn with
  | nil => cases h
  | append_singleton steps step ih =>
    have hlength : steps.length < UInt32.size := length_lt_of_snoc hfew
    rw [performAll_snoc] at h ⊢
    obtain h | h := List.mem_append.1 h
    · exact Nat.lt_of_lt_of_le (ih hlength h) (length_types_le_perform _ step)
    · refine position_lt_of_perform (Nat.lt_of_le_of_lt ?_ hlength) (List.mem_singleton.1 h).symm
      rw [length_types_performAll]
      exact List.length_filterMap_le _ _

theorem usesOwnTypes_snoc {name : String} (h : UsesOwnTypes name (steps ++ [step])) :
    UsesOwnTypes name steps ∧ ∀ d ∈ step.added?,
      some (.type d.declaringType) ∈ ((start name).performAll steps).1 := by
  constructor
  · intro k hk d hd
    have hlt : k < (steps ++ [step]).length := by
      rw [List.length_append]
      exact Nat.lt_add_right _ hk
    have hmem := h k hlt d (by rw [List.getElem_append_left hk]; exact hd)
    rwa [List.take_append_of_le_length (Nat.le_of_lt hk)] at hmem
  · intro d hd
    have hlt : steps.length < (steps ++ [step]).length := by simp
    have hmem := h steps.length hlt d (by rw [List.getElem_concat_length rfl]; exact hd)
    rwa [List.take_left' rfl] at hmem

theorem tablesAgree_performAll {name : String} (hfew : steps.length < UInt32.size)
    (hown : UsesOwnTypes name steps) :
    ((start name).performAll steps).2.module.TablesAgree := by
  induction steps using List.reverseRecOn with
  | nil => exact tablesAgree_start name
  | append_singleton steps step ih =>
    have hlength : steps.length < UInt32.size := length_lt_of_snoc hfew
    obtain ⟨hearlier, hlast⟩ := usesOwnTypes_snoc hown
    have hagree := ih hlength hearlier
    rw [performAll_snoc]
    obtain ⟨typeName, rfl⟩ | ⟨d, hd⟩ | ⟨u, body, rfl⟩ := step.cases
    · exact tablesAgree_addType hagree typeName
    · rw [perform_of_added? hd]
      have hmethods : ((start name).performAll steps).2.module.methods.length < UInt32.size := by
        rw [length_methods_performAll]
        exact Nat.lt_of_le_of_lt (length_addedBy_le steps) hlength
      have htype := List.getElem?_eq_getElem (position_lt_of_type_mem hlength (hlast d hd))
      exact tablesAgree_push hagree hmethods htype d.name d.signature d.body
    · exact hagree.declares (Module.declares_setBody _ u body)

theorem length_performAll (b : Builder) (steps : List BuildStep) :
    (b.performAll steps).1.length = steps.length := by
  induction steps generalizing b with
  | nil => rfl
  | cons step steps ih => rw [performAll, List.length_cons, ih, List.length_cons]

/-- A method of the finished module is the one that its step added, with the last body that a later
step gave it. -/
theorem method?_of_added? {k : Nat} {name : String} (hfew : steps.length < UInt32.size)
    (hk : k < steps.length) (hd : steps[k].added? = some d)
    (hu : u = .ofPosition (addedBy (steps.take k)).length) :
    ((start name).performAll steps).1[k]? = some (some (.method u)) ∧
      ((start name).performAll steps).2.module.method? u =
        some { d with body := (lastBody? u (steps.drop (k + 1))).or d.body } := by
  have hsplit : steps = steps.take k ++ steps[k] :: steps.drop (k + 1) := by
    rw [← List.drop_eq_getElem_cons hk, List.take_append_drop]
  have hmethods := length_methods_performAll name (steps.take k)
  have htake : (steps.take k).length = k := List.length_take_of_le (Nat.le_of_lt hk)
  have hlt : ((start name).performAll (steps.take k)).2.module.methods.length < UInt32.size := by
    have hle := length_addedBy_le (steps.take k)
    omega
  have hrun := performAll_append (start name) (steps.take k) (steps[k] :: steps.drop (k + 1))
  rw [← hsplit, performAll, perform_of_added? hd, hmethods, ← hu] at hrun
  -- the run is cut at the step that adds the method, and only the later steps can give it a body
  have hnew : ((((start name).performAll (steps.take k)).2.push d.declaringType d.name d.signature
      d.body).2.module.method? u) = some d := by
    rw [method?_push hlt, hmethods, if_pos hu]
  rw [hrun]
  constructor
  · have hanswers := (length_performAll (start name) (steps.take k)).trans htake
    rw [List.getElem?_append_right (Nat.le_of_eq hanswers), hanswers, Nat.sub_self]
    rfl
  · rw [method?_performAll (List.getElem?_eq_some_iff.1 hnew).1, hnew]
    rfl

theorem setBody_of_length_le (h : b.module.methods.length ≤ u.position) (body : Body) :
    b.setBody u body = b := by
  rw [setBody, Module.setBody, Module.modifyMethod, List.modify_eq_self h]

/-- What a builder leaves behind after any steps: its answers, its methods with their last bodies,
and tables that agree. -/
theorem finish_performAll (name : String) (steps : List BuildStep) (hfew : steps.length < 2 ^ 32)
    (hown : UsesOwnTypes name steps) :
    let m := ((start name).performAll steps).2.finish
    (∀ k (hk : k < steps.length) d, steps[k].added? = some d →
      let u := MethodToken.ofPosition (addedBy (steps.take k)).length
      u.position = (addedBy (steps.take k)).length ∧
        ((start name).performAll steps).1[k]? = some (some (.method u)) ∧
        m.method? u = some { d with body := (lastBody? u (steps.drop (k + 1))).or d.body }) ∧
    (∀ k (hk : k < steps.length) u body, steps[k] = .setBody u body →
      (addedBy (steps.take k)).length ≤ u.position →
      ((start name).performAll (steps.take (k + 1))).2 =
        ((start name).performAll (steps.take k)).2) ∧
    m.name = name ∧ m.types.map (·.name) = steps.filterMap BuildStep.typeName? ∧
    m.methods.length = (addedBy steps).length ∧
    m.TablesAgree ∧
    (∀ u d, m.method? u = some d → ∃ type, m.type? d.declaringType = some type ∧
      type.methods.count u = 1 ∧
      ∀ t other, m.type? t = some other → u ∈ other.methods → t = d.declaringType) ∧
    ∀ t methodName, m.findMethod? t methodName =
      ((addedBy steps).findIdx? fun d => d.declaringType = t ∧ d.name = methodName).map
        .ofPosition := by
  intro m
  have hagree : m.TablesAgree := tablesAgree_performAll hfew hown
  have hlength : m.methods.length = (addedBy steps).length := length_methods_performAll name steps
  have hmethods : m.methods.length ≤ UInt32.size :=
    Nat.le_of_lt (Nat.lt_of_le_of_lt (hlength ▸ length_addedBy_le steps) hfew)
  refine ⟨fun k hk d hd => ?_, fun k hk u body hstep hunknown => ?_, name_performAll _ steps,
    typeNames_performAll name steps, hlength, hagree, fun u d hd => hagree.once hd,
    fun t methodName => ?_⟩
  · refine ⟨MethodToken.position_ofPosition ?_, method?_of_added? hfew hk hd rfl⟩
    have hle := length_addedBy_le (steps.take k)
    rw [List.length_take_of_le (Nat.le_of_lt hk)] at hle
    exact Nat.lt_of_le_of_lt hle (Nat.lt_trans hk hfew)
  · rw [List.take_succ_eq_append_getElem hk, performAll_snoc, hstep]
    exact setBody_of_length_le (by rwa [length_methods_performAll]) body
  · rw [hagree.findMethod?_eq hmethods]
    have hdeclarations := congrArg
      (List.findIdx? fun d => d.declaringType = t ∧ d.name = methodName)
      (declarations_performAll name steps)
    rw [List.findIdx?_map, List.findIdx?_map] at hdeclarations
    exact congrArg _ hdeclarations

def emptyBody : Body := ⟨[], [.op .ret]⟩

def loopingBody : Body := ⟨[], [.op (.label ⟨0⟩), .op (.br ⟨0⟩)]⟩

/-- Methods of two types in turns, one name used twice, bodies that come late, and one for no
method. -/
def interleaved : List BuildStep := [
  .addType "A",
  .reserve ⟨0⟩ "f" ⟨[], .void, true⟩,
  .addType "B",
  .addMethod ⟨1⟩ "f" ⟨[.int32], .void, true⟩ emptyBody,
  .addNative ⟨0⟩ "g" ⟨[.string], .void, true⟩,
  .setBody ⟨0⟩ emptyBody,
  .setBody ⟨9⟩ emptyBody,
  .addMethod ⟨0⟩ "f" ⟨[], .void, false⟩ emptyBody,
  .setBody ⟨0⟩ loopingBody]

theorem finish_performAll_interleaved :
    UsesOwnTypes "M" interleaved ∧
      let m := ((start "M").performAll interleaved).2.finish
      m.findMethod? ⟨0⟩ "f" = some ⟨0⟩ ∧
        m.method? ⟨0⟩ = some ⟨⟨0⟩, "f", ⟨[], .void, true⟩, some loopingBody⟩ ∧
        m.method? ⟨2⟩ = some ⟨⟨0⟩, "g", ⟨[.string], .void, true⟩, none⟩ := by
  have hown : UsesOwnTypes "M" interleaved := by decide
  obtain ⟨hmethods, _, _, _, _, _, _, hfind⟩ :=
    finish_performAll "M" interleaved (by decide) hown
  exact ⟨hown, (hfind ⟨0⟩ "f").trans (by decide), (hmethods 1 (by decide) _ rfl).2.2,
    (hmethods 4 (by decide) _ rfl).2.2⟩

end Builder

end Interpose
