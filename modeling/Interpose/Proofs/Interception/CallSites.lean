import Interpose.Proofs.Interception.Mirror
import Interpose.Proofs.Interception.Woven
import Interpose.Proofs.Execution.Identities

/-!
# Call sites and their slots

The call sites of a redirected body in closed form: each stands where the operations for its call
stand, and the slots that `allocate_slots` gives it follow those of the calls in front of it. A body
can be redirected exactly if every call in it has a known callee and the slots for the calls up to
each call lie below the limit.
-/

namespace Interpose

/-! ### Call sites in closed form -/

namespace Module

/-- The call sites of code that starts at a position of its body and at a place of the new body, if
`used` slots are in use. -/
def sitesFrom (m : Module) : (used start position : Nat) → List Instr → List CallSite
  | _, _, _, [] => []
  | used, start, position, i :: rest =>
    let stop := start + (m.opsFor used i).length
    let later := m.sitesFrom (used + (m.slotTypesFor i).length) stop (position + 1) rest
    match m.describe i with
    | .ok c => ⟨position, c.method, c.slotsFrom used, start, stop⟩ :: later
    | .error _ => later

variable {m : Module} {used start position : Nat} {code : List Instr} {site : CallSite}

theorem sitesFrom_op (o : Op) : m.sitesFrom used start position (.op o :: code) =
    m.sitesFrom used (start + 1) (position + 1) code := rfl

theorem sitesFrom_of_describe {i : Instr} {c : Callee} (h : m.describe i = .ok c) :
    m.sitesFrom used start position (i :: code) =
      ⟨position, c.method, c.slotsFrom used, start, start + (m.opsFor used i).length⟩ ::
        m.sitesFrom (used + (m.slotTypesFor i).length) (start + (m.opsFor used i).length)
          (position + 1) code := by
  simp only [sitesFrom, h]

theorem mem_sitesFrom_cons {i : Instr} (h : site ∈ m.sitesFrom used start position (i :: code)) :
    (∃ c, m.describe i = .ok c ∧ site =
      ⟨position, c.method, c.slotsFrom used, start, start + (m.opsFor used i).length⟩) ∨
    site ∈ m.sitesFrom (used + (m.slotTypesFor i).length) (start + (m.opsFor used i).length)
      (position + 1) code := by
  cases hc : m.describe i with
  | error e =>
    simp only [sitesFrom, hc] at h
    exact .inr h
  | ok c =>
    rw [sitesFrom_of_describe hc] at h
    exact (List.mem_cons.1 h).imp_left fun hsite => ⟨c, rfl, hsite⟩

theorem exists_of_mem_sitesFrom (h : site ∈ m.sitesFrom used start position code) :
    ∃ k i c, code[k]? = some i ∧ m.describe i = .ok c ∧ site.position = position + k ∧
      site.callee = c.method ∧
      site.slots = c.slotsFrom (used + ((code.take k).flatMap m.slotTypesFor).length) ∧
      site.start = start + (m.opsFrom used (code.take k)).length ∧
      site.stop = start + (m.opsFrom used (code.take (k + 1))).length := by
  induction code generalizing used start position with
  | nil => cases h
  | cons i rest ih =>
    obtain ⟨c, hc, rfl⟩ | hlater := mem_sitesFrom_cons h
    · refine ⟨0, i, c, rfl, hc, rfl, rfl, rfl, rfl, ?_⟩
      simp [opsFrom]
    · obtain ⟨k, j, c, hj, hc, hposition, hcallee, hslots, hstart, hstop⟩ := ih hlater
      refine ⟨k + 1, j, c, hj, hc, by omega, hcallee, ?_, ?_, ?_⟩
      · rw [hslots, List.take_succ_cons, List.flatMap_cons, List.length_append, Nat.add_assoc]
      · rw [hstart, List.take_succ_cons, opsFrom, List.length_append, Nat.add_assoc]
      · rw [hstop, List.take_succ_cons, opsFrom, List.length_append, Nat.add_assoc]

/-- All slots of all call sites follow each other. -/
theorem flatMap_all_sitesFrom (m : Module) (used start position : Nat) (code : List Instr) :
    (m.sitesFrom used start position code).flatMap (·.slots.all) =
      (List.range' used (code.flatMap m.slotTypesFor).length).map LocalSlot.ofPosition := by
  induction code generalizing used start position with
  | nil => rfl
  | cons i rest ih =>
    cases hc : m.describe i with
    | error e =>
      have htypes : m.slotTypesFor i = [] := by simp only [slotTypesFor, hc]
      simp only [sitesFrom, hc, ih, htypes, List.flatMap_cons, List.nil_append, List.length_nil,
        Nat.add_zero]
    | ok c =>
      have htypes := slotTypesFor_of_describe hc
      rw [sitesFrom_of_describe hc, List.flatMap_cons, ih, Callee.all_slotsFrom, ← List.map_append,
        htypes, List.range'_append_1, List.flatMap_cons, List.length_append, htypes]

end Module

/-- A call that is replaced leaves its call site behind those before it. -/
theorem Draft.callSites_of_replace {m : Module} {method : String} {position : Nat} {i : Instr}
    {d d' : Draft} (h : d.replace m method position i = .ok d') :
    ∃ c, m.describe i = .ok c ∧ d'.code.size = d.code.size + (m.opsFor d.slots.next i).length ∧
      d'.slots.next = d.slots.next + (m.slotTypesFor i).length ∧
      d'.callSites.toList = d.callSites.toList ++
        [⟨position, c.method, c.slotsFrom d.slots.next, d.code.size, d'.code.size⟩] := by
  obtain ⟨c, s, slots, hc, halloc, rfl⟩ := replace_eq_ok_iff.1 h
  obtain ⟨rfl, hnext, _⟩ := Callee.allocate_eq_some halloc
  refine ⟨c, hc, ?_, ?_, ?_⟩
  · rw [Module.opsFor_of_describe hc]
    exact size_append_ops d.code _
  · rw [Module.slotTypesFor_of_describe hc]
    exact hnext
  · exact Array.toList_push ..

theorem Draft.callSites_of_walk {m : Module} {method : String} {d d' : Draft} {position : Nat}
    {code : List Instr} (h : d.walk m method position code = .ok d') :
    d'.callSites.toList =
      d.callSites.toList ++ m.sitesFrom d.slots.next d.code.size position code := by
  induction code generalizing d position with
  | nil =>
    cases h
    simp [Module.sitesFrom]
  | cons i rest ih =>
    cases i with
    | op o =>
      rw [ih h, Module.sitesFrom_op]
      simp [copy]
    | call target =>
      obtain ⟨d₁, hreplace, hrest⟩ := walk_call_eq_ok_iff.1 h
      obtain ⟨c, hc, hsize, hnext, hsites⟩ := callSites_of_replace hreplace
      rw [ih hrest, hsites, Module.sitesFrom_of_describe hc, hsize, hnext, List.append_assoc]
      rfl

namespace Module

variable {m : Module} {method : String} {b : Body} {limit : Nat} {r : Redirected}

theorem callSites_of_redirectBody (hlocals : b.locals.length < 2 ^ 32)
    (h : m.redirectBody method b limit = .ok r) :
    r.callSites = m.sitesFrom b.locals.length 0 0 b.code := by
  obtain ⟨d, hwalk, rfl⟩ := redirectBody_eq_ok_iff_walk.1 h
  have hnext : (Draft.start b.locals.length limit).slots.next = b.locals.length :=
    Nat.mod_eq_of_lt hlocals
  have hsites := Draft.callSites_of_walk hwalk
  rw [hnext] at hsites
  exact hsites

/-- A call site stands at the counterpart of its call, and its slots behind those of the calls in
front of it. -/
theorem exists_of_mem_callSites (hlocals : b.locals.length < 2 ^ 32)
    (h : m.redirectBody method b limit = .ok r) {site : CallSite} (hsite : site ∈ r.callSites) :
    ∃ c, b.code[site.position]? = some (.call (.direct site.callee)) ∧
      m.callee site.callee = .ok c ∧ site.slots = c.slotsFrom (m.slotsBefore b site.position) ∧
      site.start = m.place b site.position ∧ site.stop = m.place b (site.position + 1) := by
  rw [callSites_of_redirectBody hlocals h] at hsite
  obtain ⟨k, i, c, hi, hc, hposition, hcallee, hslots, hstart, hstop⟩ :=
    exists_of_mem_sitesFrom hsite
  rw [Nat.zero_add] at hposition hstart hstop
  cases i with
  | op o => cases hc
  | call target =>
    obtain ⟨htarget, _⟩ := identity?_of_describe hc
    rw [htarget, ← hcallee] at hi hc
    rw [← hposition] at hi hslots hstart hstop
    exact ⟨c, hi, hc, hslots, hstart, hstop⟩

end Module

/-! ### Slots that run out -/

theorem SlotAllocator.allocateOnto_eq_none_iff {type : DataType} {n : Nat} {known : List LocalSlot}
    {a : SlotAllocator} : allocateOnto type n known a = none ↔ 0 < n ∧ a.limit < a.next + n := by
  induction n generalizing known a with
  | zero => exact ⟨nofun, fun h => absurd h.1 (Nat.lt_irrefl 0)⟩
  | succ n ih =>
    unfold allocateOnto
    cases halloc : a.allocate type with
    | none =>
      have hfull := (allocate_eq_none_iff a type).1 halloc
      exact ⟨fun _ => ⟨Nat.succ_pos n, by omega⟩, fun _ => rfl⟩
    | some p =>
      obtain ⟨hroom, _, hnext, hlimit, _⟩ := allocate_eq_some halloc
      simp only
      rw [ih, hnext, hlimit]
      omega

/-- Wherever the slots of a call run out, it is because there are too few for the whole call. -/
theorem Callee.allocate_eq_none_iff (c : Callee) (a : SlotAllocator) :
    c.allocate a = none ↔ a.limit < a.next + (c.signature.params.length + 2) := by
  unfold allocate
  -- the receiver, a parameter or the argument array can be the first that finds no slot
  cases h₁ : a.allocate .object with
  | none =>
    have hfull := (SlotAllocator.allocate_eq_none_iff a .object).1 h₁
    exact ⟨fun _ => by omega, fun _ => rfl⟩
  | some p₁ =>
    obtain ⟨receiver, a₁⟩ := p₁
    obtain ⟨hroom, _, hnext₁, hlimit₁, _⟩ := SlotAllocator.allocate_eq_some h₁
    simp only [Option.bind_eq_bind, Option.bind_some]
    cases h₂ : a₁.allocateMany .object c.signature.params.length with
    | none =>
      have hfull := SlotAllocator.allocateOnto_eq_none_iff.1 h₂
      exact ⟨fun _ => by omega, fun _ => rfl⟩
    | some p₂ =>
      obtain ⟨params, a₂⟩ := p₂
      obtain ⟨_, hnext₂, hlimit₂, _, _⟩ := SlotAllocator.allocateOnto_eq_some h₂
      have hroom₂ : ¬(0 < c.signature.params.length ∧
          a₁.limit < a₁.next + c.signature.params.length) := by
        intro hfew
        have hnone : a₁.allocateMany .object c.signature.params.length = none :=
          SlotAllocator.allocateOnto_eq_none_iff.2 hfew
        cases hnone.symm.trans h₂
      simp only [Option.bind_some]
      cases h₃ : a₂.allocate .objectArray with
      | none =>
        have hfull := (SlotAllocator.allocate_eq_none_iff a₂ .objectArray).1 h₃
        exact ⟨fun _ => by omega, fun _ => rfl⟩
      | some p₃ =>
        obtain ⟨hroom₃, _⟩ := SlotAllocator.allocate_eq_some h₃
        exact ⟨nofun, fun hfew => by omega⟩

/-! ### What stands in the way -/

namespace Module

variable (m : Module)

/-- The number of parameters of the method that an instruction calls directly. -/
def paramCount? : Instr → Option Nat
  | .call (.direct t) => (m.method? t).map (·.signature.params.length)
  | _ => none

/-- The number of slots that the calls in code need: two for each call, and one for each of its
parameters. -/
def demand (code : List Instr) : Nat := ((code.filterMap m.paramCount?).map (· + 2)).sum

/-- Why an instruction at a position cannot be given slots, if `used` slots are in use. -/
inductive Obstacle (method : String) (limit used position : Nat) : Instr → RedirectError → Prop
  | indirect (arity : UInt16) : Obstacle method limit used position (.call (.indirect arity))
      (.signatureResolution method position .indirect)
  | unknownMethod {t : MethodToken} (method? : m.method? t = none) :
      Obstacle method limit used position (.call (.direct t))
        (.signatureResolution method position (.unknownMethod t))
  | unknownDeclaringType {t : MethodToken} {d : MethodDef} (method? : m.method? t = some d)
      (type? : m.type? d.declaringType = none) :
      Obstacle method limit used position (.call (.direct t))
        (.signatureResolution method position (.unknownDeclaringType t))
  | noRoom {t : MethodToken} {d : MethodDef} {type : TypeDef} (method? : m.method? t = some d)
      (type? : m.type? d.declaringType = some type)
      (few : limit < used + (d.signature.params.length + 2)) :
      Obstacle method limit used position (.call (.direct t)) (.resourceExhausted method limit)

/-- An instruction of code is in the way, for a reason. The code starts at a position of its body,
with `used` slots in use. -/
def Blocks (method : String) (limit used position : Nat) (code : List Instr) (k : Nat)
    (e : RedirectError) : Prop :=
  ∃ i, code[k]? = some i ∧ m.Obstacle method limit (used + m.demand (code.take k)) (position + k) i e

variable {m} {method : String} {limit used position k : Nat} {i : Instr} {rest : List Instr}
  {e e' : RedirectError}

theorem demand_cons (i : Instr) (code : List Instr) :
    m.demand (i :: code) = m.demand [i] + m.demand code := by
  unfold demand
  cases h : m.paramCount? i with
  | none => simp [h]
  | some n => simp [h]

theorem obstacle_direct_iff {t : MethodToken} :
    m.Obstacle method limit used position (.call (.direct t)) e ↔
      match m.callee t with
      | .error reason => e = .signatureResolution method position reason
      | .ok c =>
        e = .resourceExhausted method limit ∧ limit < used + (c.signature.params.length + 2) := by
  unfold callee
  constructor
  · intro h
    cases h with
    | unknownMethod hd => simp only [hd]
    | unknownDeclaringType hd htype => simp only [hd, htype]
    | noRoom hd htype few => simpa only [hd, htype, true_and] using few
  · cases hd : m.method? t with
    | none =>
      rintro rfl
      exact .unknownMethod hd
    | some d =>
      simp only
      cases htype : m.type? d.declaringType with
      | none =>
        rintro rfl
        exact .unknownDeclaringType hd htype
      | some type =>
        rintro ⟨rfl, few⟩
        exact .noRoom hd htype few

theorem Obstacle.unique (h : m.Obstacle method limit used position i e)
    (h' : m.Obstacle method limit used position i e') : e = e' := by
  cases i with
  | op o => cases h
  | call target =>
    cases target with
    | indirect arity =>
      cases h
      cases h'
      rfl
    | direct t =>
      rw [obstacle_direct_iff] at h h'
      cases hc : m.callee t with
      | error reason =>
        rw [hc] at h h'
        exact h.trans h'.symm
      | ok c =>
        rw [hc] at h h'
        exact h.1.trans h'.1.symm

theorem Blocks.unique {code : List Instr} (h : m.Blocks method limit used position code k e)
    (h' : m.Blocks method limit used position code k e') : e = e' := by
  obtain ⟨i, hi, hobstacle⟩ := h
  obtain ⟨i', hi', hobstacle'⟩ := h'
  cases hi.symm.trans hi'
  exact hobstacle.unique hobstacle'

theorem blocks_zero_iff : m.Blocks method limit used position (i :: rest) 0 e ↔
    m.Obstacle method limit used position i e := by
  constructor
  · rintro ⟨j, hj, hobstacle⟩
    cases hj
    exact hobstacle
  · intro hobstacle
    exact ⟨i, rfl, hobstacle⟩

theorem blocks_succ_iff : m.Blocks method limit used position (i :: rest) (k + 1) e ↔
    m.Blocks method limit (used + m.demand [i]) (position + 1) rest k e := by
  unfold Blocks
  rw [List.take_succ_cons, demand_cons, ← Nat.add_assoc used, Nat.add_right_comm position]
  rfl

theorem not_blocks_nil : ¬m.Blocks method limit used position [] k e := by
  rintro ⟨i, hi, _⟩
  cases hi

theorem paramCount?_of_callee {t : MethodToken} {c : Callee} (h : m.callee t = .ok c) :
    m.paramCount? (.call (.direct t)) = some c.signature.params.length := by
  obtain ⟨d, type, hmethod, _, rfl⟩ := callee_eq_ok_iff.1 h
  simp only [paramCount?, hmethod, Option.map_some]

theorem demand_of_callee {t : MethodToken} {c : Callee} (h : m.callee t = .ok c) :
    m.demand [.call (.direct t)] = c.signature.params.length + 2 := by
  simp [demand, paramCount?_of_callee h]

variable (m) in
/-- What stands first in the way in code, if anything does. -/
def FirstBlock (method : String) (limit used position : Nat) (code : List Instr) :
    Option RedirectError → Prop
  | none => ∀ k e, ¬m.Blocks method limit used position code k e
  | some e => ∃ k, m.Blocks method limit used position code k e ∧
      ∀ j < k, ∀ e', ¬m.Blocks method limit used position code j e'

theorem FirstBlock.of_obstacle (h : m.Obstacle method limit used position i e) :
    m.FirstBlock method limit used position (i :: rest) (some e) :=
  ⟨0, blocks_zero_iff.2 h, nofun⟩

theorem FirstBlock.unique {code : List Instr}
    (h : m.FirstBlock method limit used position code (some e))
    (h' : m.FirstBlock method limit used position code (some e')) : e = e' := by
  obtain ⟨k, hblocks, hbefore⟩ := h
  obtain ⟨k', hblocks', hbefore'⟩ := h'
  rcases Nat.lt_trichotomy k k' with hlt | rfl | hlt
  · exact absurd hblocks (hbefore' k hlt e)
  · exact hblocks.unique hblocks'
  · exact absurd hblocks' (hbefore k' hlt e')

theorem FirstBlock.cons {e? : Option RedirectError}
    (free : ∀ e, ¬m.Obstacle method limit used position i e)
    (h : m.FirstBlock method limit (used + m.demand [i]) (position + 1) rest e?) :
    m.FirstBlock method limit used position (i :: rest) e? := by
  have hfirst (e : RedirectError) : ¬m.Blocks method limit used position (i :: rest) 0 e :=
    mt blocks_zero_iff.1 (free e)
  cases e? with
  | none =>
    intro k e
    cases k with
    | zero => exact hfirst e
    | succ k => exact mt blocks_succ_iff.1 (h k e)
  | some e =>
    obtain ⟨k, hblocks, hbefore⟩ := h
    refine ⟨k + 1, blocks_succ_iff.2 hblocks, fun j hj e' => ?_⟩
    cases j with
    | zero => exact hfirst e'
    | succ j => exact mt blocks_succ_iff.1 (hbefore j (Nat.lt_of_succ_lt_succ hj) e')

end Module

/-! ### The walk up to the first obstacle -/

/-- A call is replaced exactly if nothing stands in the way of it. -/
theorem Draft.replace_call (m : Module) (method : String) (position : Nat) (target : CallTarget)
    (d : Draft) :
    (∃ d', d.replace m method position (.call target) = .ok d' ∧
      d'.slots.next = d.slots.next + m.demand [.call target] ∧ d'.slots.limit = d.slots.limit ∧
      ∀ e, ¬m.Obstacle method d.slots.limit d.slots.next position (.call target) e) ∨
    ∃ f, d.replace m method position (.call target) = .error f ∧
      m.Obstacle method d.slots.limit d.slots.next position (.call target) f.error := by
  obtain ⟨code, slots, callSites⟩ := d
  cases target with
  | indirect arity => exact .inr ⟨_, rfl, .indirect arity⟩
  | direct t =>
    unfold replace
    simp only [Module.describe]
    cases hcallee : m.callee t with
    | error reason =>
      simp only [Module.obstacle_direct_iff, hcallee]
      exact .inr ⟨_, rfl, rfl⟩
    | ok c =>
      simp only [Module.obstacle_direct_iff, hcallee, Module.demand_of_callee hcallee]
      cases halloc : c.allocate slots with
      | none =>
        have hfew := (c.allocate_eq_none_iff slots).1 halloc
        exact .inr ⟨_, rfl, rfl, hfew⟩
      | some p =>
        obtain ⟨s, slots'⟩ := p
        obtain ⟨_, hnext, hlimit, _, hroom⟩ := Callee.allocate_eq_some halloc
        rw [Callee.length_slotTypes] at hnext
        exact .inl ⟨_, rfl, hnext, hlimit, fun e hfew => by omega⟩

/-- A walk ends at the first instruction that something stands in the way of. -/
theorem Draft.firstBlock_of_walk (m : Module) (method : String) (position : Nat)
    (code : List Instr) (d : Draft) :
    m.FirstBlock method d.slots.limit d.slots.next position code
      (match d.walk m method position code with
        | .ok _ => none
        | .error f => some f.error) := by
  induction code generalizing d position with
  | nil => exact fun k e => Module.not_blocks_nil
  | cons i rest ih =>
    cases i with
    | op o => exact .cons (fun e => nofun) (ih (position + 1) (d.copy (.op o)))
    | call target =>
      have hcall : (Instr.call target).isCall = true := rfl
      rw [walk, if_pos hcall]
      rcases d.replace_call m method position target with
        ⟨d₁, hok, hnext, hlimit, hfree⟩ | ⟨f, herror, hobstacle⟩
      · have hrest := ih (position + 1) d₁
        rw [hnext, hlimit] at hrest
        rw [hok]
        exact .cons hfree hrest
      · rw [herror]
        exact .of_obstacle hobstacle

/-! ### The account of a redirected body -/

namespace Module

variable {m : Module} {method : String} {b : Body} {limit : Nat} {r : Redirected}

theorem length_flatMap_slotTypesFor {code : List Instr}
    (h : ∀ i ∈ code, i.isCall = true → ∃ c, m.describe i = .ok c) :
    (code.flatMap m.slotTypesFor).length = m.demand code := by
  induction code with
  | nil => rfl
  | cons i rest ih =>
    obtain ⟨hi, hrest⟩ := List.forall_mem_cons.1 h
    have hfirst : (m.slotTypesFor i).length = m.demand [i] := by
      cases i with
      | op o => rfl
      | call target =>
        obtain ⟨c, hc⟩ := hi rfl
        cases target with
        | indirect arity => cases hc
        | direct t =>
          rw [demand_of_callee hc, ← Callee.length_slotTypes, slotTypesFor_of_describe hc]
    rw [List.flatMap_cons, List.length_append, ih hrest, hfirst, ← demand_cons]

theorem map_params_sitesFrom (m : Module) (used start position : Nat) (code : List Instr)
    (h : ∀ i ∈ code, i.isCall = true → ∃ c, m.describe i = .ok c) :
    (m.sitesFrom used start position code).map (·.slots.params.length) =
      code.filterMap m.paramCount? := by
  induction code generalizing used start position with
  | nil => rfl
  | cons i rest ih =>
    obtain ⟨hi, hrest⟩ := List.forall_mem_cons.1 h
    cases i with
    | op o => exact ih _ _ _ hrest
    | call target =>
      obtain ⟨c, hc⟩ := hi rfl
      cases target with
      | indirect arity => cases hc
      | direct t =>
        have hcount : (c.slotsFrom used).params.length = c.signature.params.length := by
          simp [Callee.slotsFrom]
        rw [sitesFrom_of_describe hc, List.map_cons, ih _ _ _ hrest, hcount,
          List.filterMap_cons_some (paramCount?_of_callee hc)]

/-- What a redirected body declares for its calls: every call site has slots of its own behind the
locals of the body, in the order of the calls. -/
structure Accounts (m : Module) (b : Body) (r : Redirected) : Prop where
  params : r.callSites.map (·.slots.params.length) = b.code.filterMap m.paramCount?
  slots : (r.callSites.flatMap (·.slots.all)).map LocalSlot.position =
    List.range' b.locals.length (m.demand b.code)
  declared : r.newLocals.length = m.demand b.code
  arrays : ∀ site ∈ r.callSites,
    (r.commit b).locals[site.slots.arguments.position]? = some .objectArray
  objects : ∀ site ∈ r.callSites, ∀ slot ∈ site.slots.receiver :: site.slots.params,
    (r.commit b).locals[slot.position]? = some .object

/-- A body with a call site declares as many locals as the limit allows. -/
theorem length_locals_le_of_mem_callSites (hlocals : b.locals.length < 2 ^ 32)
    (h : m.redirectBody method b limit = .ok r) {site : CallSite} (hsite : site ∈ r.callSites) :
    (r.commit b).locals.length ≤ limit := by
  obtain ⟨c, hcode, hcallee, _, _, _⟩ := exists_of_mem_callSites hlocals h hsite
  obtain ⟨hcommit, _, hnone | hroom⟩ := redirectBody_eq_ok hlocals h
  · have htypes := List.flatMap_eq_nil_iff.1 hnone _ (List.mem_of_getElem? hcode)
    simp [slotTypesFor, describe, hcallee, Callee.slotTypes] at htypes
  · rw [hcommit]
    exact hroom

/-- The slots of a call site are declared in the redirected body. -/
theorem slots_of_mem_callSites (hlocals : b.locals.length < 2 ^ 32)
    (h : m.redirectBody method b limit = .ok r) {site : CallSite} (hsite : site ∈ r.callSites) :
    ∃ c n, m.callee site.callee = .ok c ∧ site.slots = c.slotsFrom n ∧
      n + c.slotTypes.length ≤ (r.commit b).locals.length ∧
      ∀ j, j < c.slotTypes.length → (r.commit b).locals.toArray[n + j]? = c.slotTypes[j]? := by
  obtain ⟨c, hcode, hcallee, hslots, _, _⟩ := exists_of_mem_callSites hlocals h hsite
  have htypes : m.slotTypesFor (.call (.direct site.callee)) = c.slotTypes :=
    slotTypesFor_of_describe hcallee
  refine ⟨c, m.slotsBefore b site.position, hcallee, hslots, ?_, fun j hj => ?_⟩
  · rw [(redirectBody_eq_ok hlocals h).1, ← htypes]
    exact slotsBefore_add_le hcode
  · rw [(redirectBody_eq_ok hlocals h).1, List.getElem?_toArray, ← htypes]
    exact getElem?_locals_redirected hcode (htypes ▸ hj)

theorem declared_of_mem_callSites (hlocals : b.locals.length < 2 ^ 32) (hlimit : limit < 2 ^ 32)
    (h : m.redirectBody method b limit = .ok r) {site : CallSite} (hsite : site ∈ r.callSites) :
    (r.commit b).locals[site.slots.receiver.position]? = some .object ∧
      (∀ slot ∈ site.slots.params, (r.commit b).locals[slot.position]? = some .object) ∧
      (r.commit b).locals[site.slots.arguments.position]? = some .objectArray := by
  obtain ⟨c, n, _, hslots, hsize, hdeclared⟩ := slots_of_mem_callSites hlocals h hsite
  have hroom := length_locals_le_of_mem_callSites hlocals h hsite
  rw [hslots]
  simpa only [List.getElem?_toArray] using Callee.declared_slotsFrom hdeclared (by omega)

theorem accounts_of_redirectBody (hlocals : b.locals.length < 2 ^ 32) (hlimit : limit < 2 ^ 32)
    (h : m.redirectBody method b limit = .ok r) : m.Accounts b r := by
  obtain ⟨hcommit, hresolves, hroom⟩ := redirectBody_eq_ok hlocals h
  have hsites := callSites_of_redirectBody hlocals h
  have hdemand := length_flatMap_slotTypesFor hresolves
  refine ⟨?_, ?_, ?_, ?_, ?_⟩
  · rw [hsites]
    exact map_params_sitesFrom m _ _ _ _ hresolves
  · rw [hsites, flatMap_all_sitesFrom, hdemand, List.map_map]
    refine (List.map_congr_left fun i hi => ?_).trans (List.map_id _)
    have hi' := List.mem_range'_1.1 hi
    -- positions are words of 32 bits, and slots below the limit keep theirs
    have hi32 : i < 2 ^ 32 := by
      rcases hroom with hnone | hroom
      · rw [hnone, List.length_nil] at hdemand
        omega
      · rw [redirected, List.length_append, hdemand] at hroom
        omega
    exact LocalSlot.position_ofPosition hi32
  · rw [(redirectBody_parts h).2.1, hdemand]
  · intro site hsite
    exact (declared_of_mem_callSites hlocals hlimit h hsite).2.2
  · intro site hsite
    obtain ⟨hreceiver, hparams, _⟩ := declared_of_mem_callSites hlocals hlimit h hsite
    exact List.forall_mem_cons.2 ⟨hreceiver, hparams⟩

theorem firstBlock_of_redirectBody (m : Module) (method : String) (limit : Nat)
    (hlocals : b.locals.length < 2 ^ 32) :
    m.FirstBlock method limit b.locals.length 0 b.code
      (match m.redirectBody method b limit with
        | .ok _ => none
        | .error e => some e) := by
  have hnext : (Draft.start b.locals.length limit).slots.next = b.locals.length :=
    Nat.mod_eq_of_lt hlocals
  have hwalk := (Draft.start b.locals.length limit).firstBlock_of_walk m method 0 b.code
  rw [hnext] at hwalk
  unfold redirectBody attemptBody
  cases hresult : (Draft.start b.locals.length limit).walk m method 0 b.code with
  | ok d => rw [hresult] at hwalk; exact hwalk
  | error f => rw [hresult] at hwalk; exact hwalk

/-- The calls of a body can be redirected exactly if nothing stands in the way of any, and what
stands first in the way is the error. A redirected body accounts for its slots. -/
theorem redirectBody_accounts (m : Module) (method : String) (b : Body) (limit : Nat)
    (hlocals : b.locals.length < 2 ^ 32) (hlimit : limit < 2 ^ 32) :
    ((∃ e, m.redirectBody method b limit = .error e) ↔
      ∃ k e, m.Blocks method limit b.locals.length 0 b.code k e) ∧
    (∀ e, m.redirectBody method b limit = .error e ↔
      ∃ k, m.Blocks method limit b.locals.length 0 b.code k e ∧
        ∀ j < k, ∀ e', ¬m.Blocks method limit b.locals.length 0 b.code j e') ∧
    (∀ r, m.redirectBody method b limit = .ok r → m.Accounts b r) ∧
    (b.callSites = 0 → ∃ r, m.redirectBody method b limit = .ok r) := by
  have hfirst := firstBlock_of_redirectBody m method limit hlocals
  refine ⟨?_, ?_, fun r h => accounts_of_redirectBody hlocals hlimit h, ?_⟩
  · cases h : m.redirectBody method b limit with
    | ok r =>
      rw [h] at hfirst
      exact ⟨nofun, fun ⟨k, e, hblocks⟩ => absurd hblocks (hfirst k e)⟩
    | error e =>
      rw [h] at hfirst
      obtain ⟨k, hblocks, _⟩ := hfirst
      exact ⟨fun _ => ⟨k, e, hblocks⟩, fun _ => ⟨e, rfl⟩⟩
  · intro e
    cases h : m.redirectBody method b limit with
    | ok r =>
      rw [h] at hfirst
      exact ⟨nofun, fun ⟨k, hblocks, _⟩ => absurd hblocks (hfirst k e)⟩
    | error e₁ =>
      rw [h] at hfirst
      constructor
      · intro he
        cases he
        exact hfirst
      · intro he
        exact congrArg _ (FirstBlock.unique hfirst he)
  · intro hnone
    have hcalls : ∀ i ∈ b.code, i.isCall = false := by
      simpa [Body.callSites] using hnone
    exact ⟨_, redirectBody_of_no_call m method limit hcalls⟩

/-- Six slots are needed, for a call with two arguments and one with none. -/
theorem redirectBody_accounts_meeting :
    (∃ r, meeting.redirectBody "Type::run" meetingBody 7 = .ok r ∧ meeting.Accounts meetingBody r ∧
      (r.callSites.flatMap (·.slots.all)).map LocalSlot.position = [1, 2, 3, 4, 5, 6]) ∧
    meeting.redirectBody "Type::run" meetingBody 6 =
      .error (.resourceExhausted "Type::run" 6) := by
  obtain ⟨_, _, haccounts, _⟩ :=
    redirectBody_accounts meeting "Type::run" meetingBody 7 (by decide) (by decide)
  obtain ⟨_, herror, _, _⟩ :=
    redirectBody_accounts meeting "Type::run" meetingBody 6 (by decide) (by decide)
  obtain ⟨r, h⟩ : ∃ r, meeting.redirectBody "Type::run" meetingBody 7 = .ok r := ⟨_, rfl⟩
  refine ⟨⟨r, h, haccounts r h, (haccounts r h).slots⟩, ?_⟩
  -- the call at 3 is given the slots 1 to 4, which leaves the one at 4 with too few
  have hcallee : meeting.callee ⟨0⟩ = .ok ⟨⟨0⟩, ⟨0⟩, ⟨[.int32, .string], .void, false⟩⟩ := rfl
  refine (herror _).2 ⟨4, ⟨_, rfl, .noRoom rfl rfl (by decide)⟩, ?_⟩
  rintro j hj e' ⟨i, hi, hobstacle⟩
  obtain (rfl | rfl | rfl) | rfl : (j = 0 ∨ j = 1 ∨ j = 2) ∨ j = 3 := by omega
  · cases hi
    cases hobstacle
  · cases hi
    cases hobstacle
  · cases hi
    cases hobstacle
  · cases hi
    rw [obstacle_direct_iff, hcallee] at hobstacle
    have hfew := hobstacle.2
    exact absurd hfew (by decide)

end Module

end Interpose
