import Mathlib.Algebra.Group.Nat.Defs
import Interpose.Execution.Frame
import Interpose.Interception.Redirector

/-!
# The redirected form of a body

The walk over a body leaves, for each instruction, the operations that stand for it, and behind the
old locals the slots of all expansions. Operations stand for themselves. Places and labels of the old
code have their counterparts in the new code.
-/

namespace Interpose

/-! ### What stands for one instruction -/

/-- The slots of a call of a callee, if `n` slots are in use. -/
def Callee.slotsFrom (c : Callee) (n : Nat) : CallSiteSlots where
  receiver := .ofPosition n
  params := (List.range c.signature.params.length).map fun i => .ofPosition (n + 1 + i)
  arguments := .ofPosition (n + 1 + c.signature.params.length)

def Callee.slotTypes (c : Callee) : List DataType :=
  .object :: (List.replicate c.signature.params.length .object ++ [.objectArray])

namespace Callee

variable (c : Callee) (n : Nat)

theorem length_slotTypes : c.slotTypes.length = c.signature.params.length + 2 := by
  simp [slotTypes]

theorem all_slotsFrom :
    (c.slotsFrom n).all = (List.range' n c.slotTypes.length).map LocalSlot.ofPosition := by
  have hrange : List.range' n (c.signature.params.length + 2) =
      n :: ((List.range c.signature.params.length).map (n + 1 + ·) ++
        [n + 1 + c.signature.params.length]) := by
    rw [List.range'_succ, List.range'_1_concat, List.range'_eq_map_range]
  rw [length_slotTypes, hrange]
  simp [CallSiteSlots.all, slotsFrom, Function.comp_def]

theorem positions_slotsFrom (h : n + c.slotTypes.length ≤ 2 ^ 32) :
    (c.slotsFrom n).all.map LocalSlot.position = List.range' n c.slotTypes.length := by
  rw [all_slotsFrom, List.map_map]
  refine (List.map_congr_left fun i hi => ?_).trans (List.map_id _)
  have hi' := List.mem_range'_1.1 hi
  have hi32 : i < 2 ^ 32 := by omega
  exact LocalSlot.position_ofPosition hi32

end Callee

namespace Module

variable (m : Module)

def slotTypesFor (i : Instr) : List DataType :=
  match m.describe i with
  | .ok c => c.slotTypes
  | .error _ => []

/-- The operations that stand for an instruction, if `n` slots are in use. -/
def opsFor (n : Nat) (i : Instr) : List Op :=
  match i with
  | .op o => [o]
  | .call target =>
    match m.describe (.call target) with
    | .ok c => c.expansion (c.slotsFrom n)
    | .error _ => []

def opsFrom (n : Nat) : List Instr → List Op
  | [] => []
  | i :: rest => m.opsFor n i ++ opsFrom (n + (m.slotTypesFor i).length) rest

def redirected (b : Body) : Body where
  locals := b.locals ++ b.code.flatMap m.slotTypesFor
  code := (m.opsFrom b.locals.length b.code).map .op

variable {m} in
theorem slotTypesFor_of_describe {i : Instr} {c : Callee} (h : m.describe i = .ok c) :
    m.slotTypesFor i = c.slotTypes := by
  simp only [slotTypesFor, h]

variable {m} in
theorem opsFor_of_describe {i : Instr} {c : Callee} (h : m.describe i = .ok c) (n : Nat) :
    m.opsFor n i = c.expansion (c.slotsFrom n) := by
  obtain ⟨t, rfl, _⟩ := describe_eq_ok_iff.1 h
  simp only [opsFor, h]

theorem opsFrom_append (n : Nat) (front back : List Instr) :
    m.opsFrom n (front ++ back) =
      m.opsFrom n front ++ m.opsFrom (n + (front.flatMap m.slotTypesFor).length) back := by
  induction front generalizing n with
  | nil => rfl
  | cons i rest ih =>
    have hlen : n + (m.slotTypesFor i).length + (rest.flatMap m.slotTypesFor).length =
        n + ((i :: rest).flatMap m.slotTypesFor).length := by
      rw [List.flatMap_cons, List.length_append, Nat.add_assoc]
    rw [List.cons_append, opsFrom, opsFrom, ih, hlen, List.append_assoc]

end Module

/-! ### The slots that call sites are given -/

theorem SlotAllocator.allocateOnto_eq_some {type : DataType} {n : Nat} {known slots : List LocalSlot}
    {a b : SlotAllocator} (h : allocateOnto type n known a = some (slots, b)) :
    slots = known.reverse ++ (List.range n).map (fun i => .ofPosition (a.next + i)) ∧
      b.next = a.next + n ∧ b.limit = a.limit ∧
      b.staged = a.staged ++ Array.replicate n type ∧ (n = 0 ∨ b.next ≤ b.limit) := by
  induction n generalizing known a with
  | zero =>
    cases h
    simp
  | succ n ih =>
    unfold allocateOnto at h
    cases halloc : a.allocate type with
    | none => rw [halloc] at h; cases h
    | some p =>
      obtain ⟨slot, a'⟩ := p
      rw [halloc] at h
      obtain ⟨hroom, hslot, hnext, hlimit, hstaged⟩ := allocate_eq_some halloc
      obtain ⟨hslots, hnext', hlimit', hstaged', hle⟩ := ih h
      have hb : b.next = a.next + (n + 1) := by omega
      refine ⟨?_, hb, hlimit'.trans hlimit, ?_, .inr ?_⟩
      · rw [hslots, hslot, hnext, List.range_succ_eq_map]
        simp [Nat.add_comm 1, Nat.add_left_comm, Nat.add_assoc]
      · rw [hstaged', hstaged, Array.replicate_succ']
        simp
      · omega

theorem Callee.allocate_eq_some {c : Callee} {a b : SlotAllocator} {s : CallSiteSlots}
    (h : c.allocate a = some (s, b)) :
    s = c.slotsFrom a.next ∧ b.next = a.next + c.slotTypes.length ∧ b.limit = a.limit ∧
      b.staged.toList = a.staged.toList ++ c.slotTypes ∧ b.next ≤ b.limit := by
  obtain ⟨⟨receiver, a₁⟩, h₁, h⟩ := Option.bind_eq_some_iff.1 h
  obtain ⟨⟨params, a₂⟩, h₂, h⟩ := Option.bind_eq_some_iff.1 h
  obtain ⟨⟨arguments, a₃⟩, h₃, h⟩ := Option.bind_eq_some_iff.1 h
  cases h
  obtain ⟨_, hreceiver, hnext₁, hlimit₁, hstaged₁⟩ := SlotAllocator.allocate_eq_some h₁
  obtain ⟨hparams, hnext₂, hlimit₂, hstaged₂, _⟩ := SlotAllocator.allocateOnto_eq_some h₂
  obtain ⟨hroom, harguments, hnext₃, hlimit₃, hstaged₃⟩ := SlotAllocator.allocate_eq_some h₃
  have hlen : c.slotTypes.length = 1 + c.signature.params.length + 1 := by
    simp [slotTypes]
    omega
  refine ⟨?_, by omega, by omega, ?_, by omega⟩
  · rw [hreceiver, hparams, harguments, hnext₂, hnext₁]
    rfl
  · simp [hstaged₃, hstaged₂, hstaged₁, slotTypes]

/-! ### The walk -/

structure Draft.Covers (m : Module) (code : List Instr) (d d' : Draft) : Prop where
  calls : ∀ i ∈ code, i.isCall = true → ∃ c, m.describe i = .ok c
  ops : d'.code.toList = d.code.toList ++ (m.opsFrom d.slots.next code).map .op
  staged : d'.slots.staged.toList = d.slots.staged.toList ++ code.flatMap m.slotTypesFor
  next : d'.slots.next = d.slots.next + (code.flatMap m.slotTypesFor).length
  limit : d'.slots.limit = d.slots.limit
  room : code.flatMap m.slotTypesFor = [] ∨ d'.slots.next ≤ d'.slots.limit

theorem Draft.Covers.cons {m : Module} {i : Instr} {rest : List Instr} {d d₁ d' : Draft}
    (first : Covers m [i] d d₁) (later : Covers m rest d₁ d') : Covers m (i :: rest) d d' := by
  have hnext : d₁.slots.next = d.slots.next + (m.slotTypesFor i).length := by
    simpa using first.next
  refine ⟨?_, ?_, ?_, ?_, later.limit.trans first.limit, ?_⟩
  · intro j hj
    obtain rfl | hj := List.mem_cons.1 hj
    · exact first.calls j List.mem_cons_self
    · exact later.calls j hj
  · rw [later.ops, first.ops, hnext]
    simp [Module.opsFrom]
  · rw [later.staged, first.staged]
    simp
  · rw [later.next, hnext, List.flatMap_cons, List.length_append, Nat.add_assoc]
  · obtain hnil | hroom := later.room
    · obtain hnil' | hroom' := first.room
      · left
        simpa [hnil] using hnil'
      · right
        rw [later.next, hnil, later.limit]
        exact hroom'
    · exact .inr hroom

theorem Draft.covers_copy (m : Module) (o : Op) (d : Draft) : Covers m [.op o] d (d.copy (.op o)) := by
  refine ⟨?_, ?_, ?_, ?_, rfl, .inl rfl⟩
  · intro i hi hcall
    cases List.mem_singleton.1 hi
    cases hcall
  · simp [copy, Module.opsFrom, Module.opsFor]
  · simp [copy, Module.slotTypesFor, Module.describe]
  · simp [copy, Module.slotTypesFor, Module.describe]

theorem Draft.replace_eq_ok_iff {m : Module} {method : String} {position : Nat} {i : Instr}
    {d d' : Draft} : d.replace m method position i = .ok d' ↔ ∃ c s slots,
      m.describe i = .ok c ∧ c.allocate d.slots = some (s, slots) ∧
        d' = ⟨d.code ++ (c.expansion s).map Instr.op, slots, d.callSites.push ⟨position, c.method, s,
          d.code.size, (d.code ++ (c.expansion s).map Instr.op).size⟩⟩ := by
  obtain ⟨code, slots, callSites⟩ := d
  constructor
  · intro h
    unfold replace at h
    cases hc : m.describe i with
    | error reason => rw [hc] at h; cases h
    | ok c =>
      rw [hc] at h
      simp only at h
      cases halloc : c.allocate slots with
      | none => rw [halloc] at h; cases h
      | some p =>
        rw [halloc] at h
        exact ⟨c, p.1, p.2, rfl, halloc, (Except.ok.inj h).symm⟩
  · rintro ⟨c, s, slots', hc, halloc, rfl⟩
    simp only [replace, hc, halloc]

theorem Draft.walk_call_eq_ok_iff {m : Module} {method : String} {position : Nat} {t : CallTarget}
    {rest : List Instr} {d d' : Draft} : d.walk m method position (.call t :: rest) = .ok d' ↔
      ∃ d₁, d.replace m method position (.call t) = .ok d₁ ∧
        d₁.walk m method (position + 1) rest = .ok d' := by
  have hcall : (Instr.call t).isCall = true := rfl
  rw [walk, if_pos hcall]
  cases hreplace : d.replace m method position (.call t) with
  | error e => exact ⟨nofun, fun ⟨_, h, _⟩ => nomatch h⟩
  | ok d₁ => exact ⟨fun h => ⟨d₁, rfl, h⟩, fun ⟨_, h, hrest⟩ => Except.ok.inj h ▸ hrest⟩

theorem Draft.covers_of_replace {m : Module} {method : String} {position : Nat} {t : CallTarget}
    {d d' : Draft} (h : d.replace m method position (.call t) = .ok d') :
    Covers m [.call t] d d' := by
  obtain ⟨c, s, slots, hdescribe, halloc, rfl⟩ := replace_eq_ok_iff.1 h
  obtain ⟨hs, hnext, hlimit, hstaged, hroom⟩ := Callee.allocate_eq_some halloc
  have htypes := Module.slotTypesFor_of_describe hdescribe
  refine ⟨?_, ?_, ?_, ?_, hlimit, .inr hroom⟩
  · intro i hi hcall
    cases List.mem_singleton.1 hi
    exact ⟨c, hdescribe⟩
  · simp [Module.opsFrom, Module.opsFor_of_describe hdescribe, hs]
  · rw [hstaged, List.flatMap_singleton, htypes]
  · rw [hnext, List.flatMap_singleton, htypes]

theorem Draft.covers_of_walk {m : Module} {method : String} {d d' : Draft} {position : Nat}
    {code : List Instr} (h : d.walk m method position code = .ok d') : Covers m code d d' := by
  induction code generalizing d position with
  | nil =>
    cases h
    exact ⟨by simp, by simp [Module.opsFrom], by simp, by simp, rfl, .inl rfl⟩
  | cons i rest ih =>
    cases i with
    | op o => exact (covers_copy m o d).cons (ih h)
    | call t =>
      obtain ⟨d₁, hreplace, hrest⟩ := walk_call_eq_ok_iff.1 h
      exact (covers_of_replace hreplace).cons (ih hrest)

/-- The walk looks at a module only to describe the callees of calls. -/
theorem Draft.walk_congr {m m' : Module} (h : ∀ i, m'.describe i = m.describe i) (method : String)
    (d : Draft) (position : Nat) (code : List Instr) :
    d.walk m' method position code = d.walk m method position code := by
  induction code generalizing d position with
  | nil => rfl
  | cons i rest ih =>
    have hreplace : d.replace m' method position i = d.replace m method position i := by
      obtain ⟨code, slots, callSites⟩ := d
      unfold replace
      rw [h i]
    unfold walk
    rw [hreplace, ih]
    split
    · split
      · exact ih _ _
      · rfl
    · rfl

theorem Draft.walk_of_no_call (m : Module) (method : String) (d : Draft) (position : Nat)
    {code : List Instr} (h : ∀ i ∈ code, i.isCall = false) :
    d.walk m method position code = .ok { d with code := d.code ++ code.toArray } := by
  induction code generalizing d position with
  | nil => simp [walk]
  | cons i rest ih =>
    obtain ⟨hi, hrest⟩ := List.forall_mem_cons.1 h
    rw [walk, if_neg (by rw [hi]; exact Bool.false_ne_true), ih _ _ hrest]
    simp [copy]

theorem Draft.size_callSites_of_replace {m : Module} {method : String} {position : Nat} {i : Instr}
    {d d' : Draft} (h : d.replace m method position i = .ok d') :
    d'.callSites.size = d.callSites.size + 1 := by
  obtain ⟨_, _, _, _, _, rfl⟩ := replace_eq_ok_iff.1 h
  exact Array.size_push _

theorem Draft.size_callSites_of_walk {m : Module} {method : String} {d d' : Draft} {position : Nat}
    {code : List Instr} (h : d.walk m method position code = .ok d') :
    d'.callSites.size = d.callSites.size + code.countP Instr.isCall := by
  induction code generalizing d position with
  | nil =>
    cases h
    rfl
  | cons i rest ih =>
    rw [List.countP_cons]
    cases i with
    | op o => exact ih (d := d.copy (.op o)) h
    | call t =>
      obtain ⟨d₁, hreplace, hrest⟩ := walk_call_eq_ok_iff.1 h
      have hcall : (Instr.call t).isCall = true := rfl
      rw [ih hrest, size_callSites_of_replace hreplace, if_pos hcall]
      omega

namespace Module

variable {m : Module}

def Resolves (m : Module) (b : Body) : Prop :=
  ∀ i ∈ b.code, i.isCall = true → ∃ c, m.describe i = .ok c

theorem redirectBody_eq_ok_iff_walk {method : String} {b : Body} {limit : Nat} {r : Redirected} :
    m.redirectBody method b limit = .ok r ↔
      ∃ d, (Draft.start b.locals.length limit).walk m method 0 b.code = .ok d ∧ d.finish = r := by
  unfold redirectBody attemptBody
  cases hwalk : (Draft.start b.locals.length limit).walk m method 0 b.code with
  | error e => exact ⟨nofun, fun ⟨_, h, _⟩ => nomatch h⟩
  | ok d =>
    constructor
    · exact fun h => ⟨d, rfl, Except.ok.inj h⟩
    · rintro ⟨_, h, rfl⟩
      cases h
      rfl

theorem redirectBody_eq_ok {method : String} {b : Body} {limit : Nat} {r : Redirected}
    (hb : b.locals.length < 2 ^ 32) (h : m.redirectBody method b limit = .ok r) :
    r.commit b = m.redirected b ∧ m.Resolves b ∧
      (b.code.flatMap m.slotTypesFor = [] ∨ (m.redirected b).locals.length ≤ limit) := by
  obtain ⟨d, hwalk, rfl⟩ := redirectBody_eq_ok_iff_walk.1 h
  have hcovers := Draft.covers_of_walk hwalk
  have hnext : (Draft.start b.locals.length limit).slots.next = b.locals.length :=
    Nat.mod_eq_of_lt hb
  have hlimit : d.slots.limit = limit := hcovers.limit
  refine ⟨?_, hcovers.calls, ?_⟩
  · have hops := hcovers.ops
    have hstaged := hcovers.staged
    rw [hnext] at hops
    simp only [Redirected.commit, Draft.finish, redirected, hops, hstaged]
    rfl
  · have hroom := hcovers.room
    rw [hcovers.next, hnext, hlimit] at hroom
    rw [redirected, List.length_append]
    exact hroom

/-- What stands for a body: operations for its instructions in order, and the slots of its calls. -/
theorem redirectBody_parts {method : String} {b : Body} {limit : Nat} {r : Redirected}
    (h : m.redirectBody method b limit = .ok r) :
    r.code = (m.opsFrom (b.locals.length % UInt32.size) b.code).map .op ∧
      r.newLocals = b.code.flatMap m.slotTypesFor ∧ r.callSites.length = b.callSites := by
  obtain ⟨d, hwalk, rfl⟩ := redirectBody_eq_ok_iff_walk.1 h
  have hcovers := Draft.covers_of_walk hwalk
  have hsize := Draft.size_callSites_of_walk hwalk
  refine ⟨hcovers.ops, hcovers.staged, hsize.trans ?_⟩
  exact Nat.zero_add _

theorem isCall_of_mem_redirectBody {method : String} {b : Body} {limit : Nat} {r : Redirected}
    (h : m.redirectBody method b limit = .ok r) : ∀ i ∈ r.code, i.isCall = false := by
  intro i hi
  rw [(redirectBody_parts h).1] at hi
  obtain ⟨o, _, ho⟩ := List.mem_map.1 hi
  rw [← ho]
  rfl

/-- A body without calls stands for itself, whatever the limit. -/
theorem redirectBody_of_no_call (m : Module) (method : String) {b : Body} (limit : Nat)
    (h : ∀ i ∈ b.code, i.isCall = false) :
    m.redirectBody method b limit = .ok ⟨b.code, [], []⟩ := by
  have hwalk := Draft.walk_of_no_call m method (Draft.start b.locals.length limit) 0 h
  simp only [redirectBody, attemptBody, hwalk]
  simp [Draft.finish, Draft.start, SlotAllocator.start]

theorem redirectBody_congr {m m' : Module} (h : ∀ i, m'.describe i = m.describe i)
    (method : String) (b : Body) (limit : Nat) :
    m'.redirectBody method b limit = m.redirectBody method b limit := by
  unfold redirectBody attemptBody
  rw [Draft.walk_congr h]
  split <;> rfl

/-! ### Counterparts of places -/

variable (m : Module) (b : Body)

/-- The place in the redirected form where the operations start that stand for the instruction at
a place. -/
def place (k : Nat) : Nat := (m.opsFrom b.locals.length (b.code.take k)).length

def slotsBefore (k : Nat) : Nat :=
  b.locals.length + ((b.code.take k).flatMap m.slotTypesFor).length

theorem place_zero : m.place b 0 = 0 := rfl

variable {m b} {k : Nat} {i : Instr}

theorem opsFrom_eq_of_getElem? (h : b.code[k]? = some i) :
    ∃ rest, m.opsFrom b.locals.length b.code =
      m.opsFrom b.locals.length (b.code.take k) ++ (m.opsFor (m.slotsBefore b k) i ++ rest) := by
  obtain ⟨hk, hi⟩ := List.getElem?_eq_some_iff.1 h
  have hcode : b.code = b.code.take k ++ i :: b.code.drop (k + 1) := by
    rw [← hi, List.getElem_cons_drop, List.take_append_drop]
  refine ⟨m.opsFrom (m.slotsBefore b k + (m.slotTypesFor i).length) (b.code.drop (k + 1)), ?_⟩
  conv =>
    lhs
    rw [hcode, opsFrom_append]
  rfl

theorem place_succ (h : b.code[k]? = some i) :
    m.place b (k + 1) = m.place b k + (m.opsFor (m.slotsBefore b k) i).length := by
  have htake : b.code.take (k + 1) = b.code.take k ++ [i] := by
    rw [List.take_add_one, h]
    rfl
  rw [place, place, htake, opsFrom_append, List.length_append]
  simp [opsFrom, slotsBefore]

/-- At the counterpart of a place stand the operations for the instruction there. -/
theorem getElem?_redirected (h : b.code[k]? = some i) {j : Nat} {o : Op}
    (ho : (m.opsFor (m.slotsBefore b k) i)[j]? = some o) :
    (m.redirected b).code[m.place b k + j]? = some (.op o) := by
  obtain ⟨rest, hops⟩ := opsFrom_eq_of_getElem? (m := m) h
  have hj := (List.getElem?_eq_some_iff.1 ho).1
  rw [redirected, List.getElem?_map, hops, place, List.getElem?_append_right (by omega),
    Nat.add_sub_cancel_left, List.getElem?_append_left hj, ho]
  rfl

/-- Behind the last instruction there is nothing at the counterpart of a place either. -/
theorem getElem?_redirected_of_none (h : b.code[k]? = none) :
    (m.redirected b).code[m.place b k]? = none := by
  have hk := List.getElem?_eq_none_iff.1 h
  rw [redirected, List.getElem?_map, place, List.take_of_length_le hk, List.getElem?_eq_none]
  · rfl
  · exact Nat.le_refl _

theorem locals_redirected_of_getElem? (h : b.code[k]? = some i) :
    ∃ front back, (m.redirected b).locals = front ++ (m.slotTypesFor i ++ back) ∧
      front.length = m.slotsBefore b k := by
  obtain ⟨hk, hi⟩ := List.getElem?_eq_some_iff.1 h
  have hcode : b.code = b.code.take k ++ i :: b.code.drop (k + 1) := by
    rw [← hi, List.getElem_cons_drop, List.take_append_drop]
  refine ⟨b.locals ++ (b.code.take k).flatMap m.slotTypesFor,
    (b.code.drop (k + 1)).flatMap m.slotTypesFor, ?_, by rw [slotsBefore, List.length_append]⟩
  rw [redirected, List.append_assoc, ← List.flatMap_cons, ← List.flatMap_append, ← hcode]

/-- The slots of an instruction stand behind those of the instructions in front of it. -/
theorem getElem?_locals_redirected (h : b.code[k]? = some i) {j : Nat}
    (hj : j < (m.slotTypesFor i).length) :
    (m.redirected b).locals[m.slotsBefore b k + j]? = (m.slotTypesFor i)[j]? := by
  obtain ⟨front, back, hlocals, hfront⟩ := locals_redirected_of_getElem? (m := m) h
  rw [hlocals, ← hfront, List.getElem?_append_right (by omega), Nat.add_sub_cancel_left,
    List.getElem?_append_left hj]

theorem slotsBefore_add_le (h : b.code[k]? = some i) :
    m.slotsBefore b k + (m.slotTypesFor i).length ≤ (m.redirected b).locals.length := by
  obtain ⟨front, back, hlocals, hfront⟩ := locals_redirected_of_getElem? (m := m) h
  rw [hlocals, List.length_append, List.length_append]
  omega

/-! ### Counterparts of labels -/

def LabelsMoved (m : Module) (b : Body) (labels labels' : LabelIndex) : Prop :=
  ∀ l, labels'.place? l = (labels.place? l).map (m.place b)

end Module

/-! ### Expansions neither branch nor define labels -/

def Op.isPlain : Op → Bool
  | .label _ | .br _ | .brtrue _ | .brfalse _ => false
  | _ => true

theorem Op.target?_of_isPlain {o : Op} (h : o.isPlain = true) : (Instr.op o).target? = none := by
  cases o with
  | br l | brtrue l | brfalse l => cases h
  | _ => rfl

/-- The operations that expansions are made of. -/
inductive Callee.Emits (c : Callee) (s : CallSiteSlots) : Op → Prop where
  | box {type : DataType} (h : type ∈ c.signature.params) : Emits c s (.box type)
  | unboxAny {type : DataType} (h : c.signature.returns = .value type) : Emits c s (.unboxAny type)
  | stloc {slot : LocalSlot} (h : slot ∈ s.all) : Emits c s (.stloc slot)
  | ldloc {slot : LocalSlot} (h : slot ∈ s.all) : Emits c s (.ldloc slot)
  | ldtokenType : Emits c s (.ldtoken (.type c.declaringType))
  | ldtokenMethod : Emits c s (.ldtoken (.method c.method))
  | newarr : Emits c s (.newarr .object)
  | ldcI4 (value : Int32) : Emits c s (.ldcI4 value)
  | ldnull : Emits c s .ldnull
  | pop : Emits c s .pop
  | stelemRef : Emits c s .stelemRef
  | resolveMethod : Emits c s .resolveMethod
  | getInterceptor : Emits c s .getInterceptor
  | intercept : Emits c s .intercept

theorem Callee.emits_of_mem_expansion {c : Callee} {s : CallSiteSlots} {o : Op}
    (h : o ∈ c.expansion s) : c.Emits s o := by
  have hreceiver : s.receiver ∈ s.all := List.mem_cons_self
  have harguments : s.arguments ∈ s.all :=
    List.mem_cons_of_mem _ (List.mem_append_right _ (List.mem_singleton.2 rfl))
  have hparams {slot : LocalSlot} (hslot : slot ∈ s.params) : slot ∈ s.all :=
    List.mem_cons_of_mem _ (List.mem_append_left _ hslot)
  simp only [expansion, captureParams, captureReceiver, createArray, storeParams, dispatch,
    List.mem_append, List.mem_cons, List.mem_flatMap, List.mem_reverse, List.not_mem_nil,
    or_false] at h
  rcases h with ⟨p, hp, ho⟩ | (hnull | rfl) | rfl | (rfl | rfl | rfl) | ⟨p, hp, ho⟩ | hdispatch | rfl
  · have hp' : p.1 ∈ c.signature.params ∧ p.2 ∈ s.params := List.of_mem_zip hp
    unfold captureParam at ho
    split at ho
    · simp only [List.mem_cons, List.not_mem_nil, or_false] at ho
      rcases ho with rfl | rfl
      · exact .box hp'.1
      · exact .stloc (hparams hp'.2)
    · cases List.mem_singleton.1 ho
      exact .stloc (hparams hp'.2)
  · split at hnull
    · cases List.mem_singleton.1 hnull
      exact .ldnull
    · cases hnull
  · exact .stloc hreceiver
  · exact .getInterceptor
  · exact .ldcI4 _
  · exact .newarr
  · exact .stloc harguments
  · have hslot : p.1 ∈ s.params := List.fst_mem_of_mem_zipIdx hp
    simp only [storeParam, List.mem_cons, List.not_mem_nil, or_false] at ho
    rcases ho with rfl | rfl | rfl | rfl
    · exact .ldloc harguments
    · exact .ldcI4 _
    · exact .ldloc (hparams hslot)
    · exact .stelemRef
  · rcases hdispatch with rfl | rfl | rfl | rfl | rfl | rfl
    · exact .ldloc hreceiver
    · exact .ldloc harguments
    · exact .ldtokenType
    · exact .ldtokenMethod
    · exact .resolveMethod
    · exact .intercept
  · unfold finish
    cases hreturns : c.signature.returns with
    | void => exact .pop
    | value type => exact .unboxAny hreturns

theorem Callee.isPlain_of_mem_expansion {c : Callee} {s : CallSiteSlots} {o : Op}
    (h : o ∈ c.expansion s) : o.isPlain = true := by
  cases emits_of_mem_expansion h <;> rfl

/-- An operation of redirected code stands there for itself or belongs to an expansion, whose slots
are among those of the calls. -/
theorem Module.mem_opsFrom {m : Module} {n : Nat} {code : List Instr} {o : Op}
    (h : o ∈ m.opsFrom n code) : .op o ∈ code ∨ ∃ i c k, m.describe i = .ok c ∧
      c.Emits (c.slotsFrom k) o ∧
        k + c.slotTypes.length ≤ n + (code.flatMap m.slotTypesFor).length := by
  induction code generalizing n with
  | nil => cases h
  | cons i rest ih =>
    rw [List.flatMap_cons, List.length_append]
    rcases List.mem_append.1 h with h | h
    · cases i with
      | op o' => exact .inl (List.mem_cons.2 (.inl (congrArg Instr.op (List.mem_singleton.1 h))))
      | call target =>
        cases hc : m.describe (.call target) with
        | error e => simp only [opsFor, hc] at h; cases h
        | ok c =>
          rw [opsFor_of_describe hc] at h
          refine .inr ⟨_, c, n, hc, Callee.emits_of_mem_expansion h, ?_⟩
          rw [slotTypesFor_of_describe hc]
          omega
    · rcases ih h with hmem | ⟨j, c, k, hc, hemits, hk⟩
      · exact .inl (List.mem_cons_of_mem _ hmem)
      · exact .inr ⟨j, c, k, hc, hemits, by omega⟩

theorem LabelIndex.collect_append (labels : LabelIndex) (position : Nat) (front back : List Instr) :
    labels.collect position (front ++ back) =
      (labels.collect position front).collect (position + front.length) back := by
  induction front generalizing labels position with
  | nil => rfl
  | cons i rest ih =>
    rw [List.cons_append, List.length_cons, ← Nat.add_assoc, Nat.add_right_comm]
    cases i with
    | call t => exact ih labels (position + 1)
    | op o =>
      cases o with
      | label l => exact ih _ (position + 1)
      | _ => exact ih labels (position + 1)

theorem LabelIndex.collect_of_isPlain {ops : List Op} (h : ∀ o ∈ ops, o.isPlain = true)
    (labels : LabelIndex) (position : Nat) : labels.collect position (ops.map .op) = labels := by
  induction ops generalizing position with
  | nil => rfl
  | cons o rest ih =>
    have hrest := ih (fun o ho => h o (List.mem_cons_of_mem _ ho)) (position + 1)
    have ho := h o List.mem_cons_self
    cases o with
    | label l => cases ho
    | _ => exact hrest

namespace Module

variable {m : Module} {b : Body}

theorem slotsBefore_succ {k : Nat} {i : Instr} (h : b.code[k]? = some i) :
    m.slotsBefore b (k + 1) = m.slotsBefore b k + (m.slotTypesFor i).length := by
  simp [slotsBefore, List.take_add_one, h, Nat.add_assoc]

theorem isPlain_of_mem_opsFor_call {n : Nat} {t : CallTarget} {o : Op}
    (h : o ∈ m.opsFor n (.call t)) : o.isPlain = true := by
  cases hdescribe : m.describe (.call t) with
  | ok c => exact Callee.isPlain_of_mem_expansion (opsFor_of_describe hdescribe n ▸ h)
  | error e =>
    simp only [opsFor, hdescribe] at h
    cases h

theorem LabelsMoved.define {labels labels' : LabelIndex} (h : m.LabelsMoved b labels labels')
    (l : Label) (k : Nat) : m.LabelsMoved b (.define l k labels) (.define l (m.place b k) labels') := by
  intro j
  rw [LabelIndex.place?_define, LabelIndex.place?_define]
  split
  · rfl
  · exact h j

theorem LabelsMoved.collect {labels labels' : LabelIndex} (h : m.LabelsMoved b labels labels')
    (front : List Instr) {back : List Instr} (hcode : b.code = front ++ back) :
    m.LabelsMoved b (labels.collect front.length back)
      (labels'.collect (m.place b front.length)
        ((m.opsFrom (m.slotsBefore b front.length) back).map .op)) := by
  induction back generalizing front labels labels' with
  | nil => exact h
  | cons i rest ih =>
    have hi : b.code[front.length]? = some i := by
      rw [hcode, List.getElem?_append_right (Nat.le_refl _), Nat.sub_self]
      rfl
    have hlen : (front ++ [i]).length = front.length + 1 := by simp
    have later {labels₁ labels₁' : LabelIndex} (h₁ : m.LabelsMoved b labels₁ labels₁') :
        m.LabelsMoved b (labels₁.collect (front.length + 1) rest)
          (labels₁'.collect
            (m.place b front.length + (m.opsFor (m.slotsBefore b front.length) i).length)
            ((m.opsFrom (m.slotsBefore b front.length + (m.slotTypesFor i).length) rest).map
              .op)) := by
      have hrest := ih h₁ (front ++ [i]) (by rw [hcode]; simp)
      rw [hlen, place_succ hi, slotsBefore_succ hi] at hrest
      exact hrest
    rw [opsFrom, List.map_append, LabelIndex.collect_append, List.length_map]
    cases i with
    | call t =>
      have hplain (o : Op) (ho : o ∈ m.opsFor (m.slotsBefore b front.length) (.call t)) :=
        isPlain_of_mem_opsFor_call ho
      rw [LabelIndex.collect_of_isPlain hplain]
      exact later h
    | op o =>
      cases o with
      | label l => exact later (h.define l front.length)
      | _ => exact later h

theorem filterMap_target?_opsFrom (m : Module) (n : Nat) (code : List Instr) :
    ((m.opsFrom n code).map Instr.op).filterMap Instr.target? =
      code.filterMap Instr.target? := by
  induction code generalizing n with
  | nil => rfl
  | cons i rest ih =>
    rw [opsFrom, List.map_append, List.filterMap_append, ih]
    cases i with
    | op o =>
      show List.filterMap _ [Instr.op o] ++ _ = List.filterMap _ ([Instr.op o] ++ rest)
      rw [List.filterMap_append]
    | call t =>
      have hnone : ((m.opsFor n (.call t)).map Instr.op).filterMap Instr.target? = [] := by
        rw [List.filterMap_map, List.filterMap_eq_nil_iff]
        intro o ho
        exact Op.target?_of_isPlain (isPlain_of_mem_opsFor_call ho)
      rw [hnone]
      rfl

theorem LabelsMoved.missingLabel? {labels labels' : LabelIndex}
    (h : m.LabelsMoved b labels labels') :
    missingLabel? labels' (m.redirected b).code = missingLabel? labels b.code := by
  have hnone : (fun l => (labels'.place? l).isNone) = fun l => (labels.place? l).isNone := by
    funext l
    rw [h l, Option.isNone_map]
  unfold Interpose.missingLabel?
  rw [hnone, redirected, filterMap_target?_opsFrom]

/-- The redirected form of a body has the counterparts of its labels, or lacks the same label. -/
theorem indexLabels_redirected (m : Module) (b : Body) (method : String) :
    (∃ e, indexLabels method b.code = .error e ∧
      indexLabels method (m.redirected b).code = .error e) ∨
    ∃ labels labels', indexLabels method b.code = .ok labels ∧
      indexLabels method (m.redirected b).code = .ok labels' ∧ m.LabelsMoved b labels labels' := by
  have hempty : m.LabelsMoved b [] [] := fun l => rfl
  have hmoved : m.LabelsMoved b (LabelIndex.collect [] 0 b.code)
      (LabelIndex.collect [] 0 (m.redirected b).code) :=
    hempty.collect [] rfl
  unfold indexLabels
  simp only [hmoved.missingLabel?]
  cases missingLabel? (LabelIndex.collect [] 0 b.code) b.code with
  | some l => exact .inl ⟨_, rfl, rfl⟩
  | none => exact .inr ⟨_, _, rfl, rfl, hmoved⟩

end Module

end Interpose
