import Mathlib.Algebra.GroupWithZero.Nat
import Interpose.Proofs.Interception.Layout

/-!
# How redirected code is woven

The code that `rewrite_body` makes is the old code with an expansion in the place of each call. The
call sites of a redirected body say where: they list the calls in order, and between the places that
they name stands what the old code had between its calls. So taking those places out leaves the old
code without its calls.
-/

namespace Interpose

/-! ### The length of an expansion -/

/-- The number of operations that stand for a call of a method. -/
def Signature.expansionLength (s : Signature) : Nat :=
  12 + 5 * s.params.length + s.params.countP DataType.isValueType + if s.isStatic then 1 else 0

namespace Callee

theorem length_flatMap_captureParam {types : List DataType} {slots : List LocalSlot}
    (h : slots.length = types.length) :
    ((types.zip slots).reverse.flatMap fun p => captureParam p.1 p.2).length =
      types.length + types.countP DataType.isValueType := by
  induction types generalizing slots with
  | nil => rfl
  | cons t types ih =>
    cases slots with
    | nil => cases h
    | cons slot slots =>
      have hrest := ih (Nat.succ.inj h)
      have hfirst : (captureParam t slot).length = 1 + if t.isValueType then 1 else 0 := by
        unfold captureParam
        split <;> rfl
      rw [List.zip_cons_cons, List.reverse_cons, List.flatMap_append, List.length_append, hrest,
        List.flatMap_singleton, hfirst, List.countP_cons, List.length_cons]
      omega

theorem length_storeParams (s : CallSiteSlots) : (storeParams s).length = 4 * s.params.length := by
  have hsum : (s.params.zipIdx.map fun _ => 4).sum = s.params.length * 4 := by
    rw [List.map_const', List.sum_replicate_nat, List.length_zipIdx]
  rw [storeParams, List.length_flatMap, Nat.mul_comm]
  exact hsum

theorem length_expansion {c : Callee} {s : CallSiteSlots}
    (h : s.params.length = c.signature.params.length) :
    (c.expansion s).length = c.signature.expansionLength := by
  have hcapture : (c.captureParams s).length =
      c.signature.params.length + c.signature.params.countP DataType.isValueType :=
    length_flatMap_captureParam h
  have hreceiver : (c.captureReceiver s).length = 1 + if c.signature.isStatic then 1 else 0 := by
    unfold captureReceiver
    split <;> rfl
  have hcreate : (c.createArray s).length = 3 := rfl
  have hdispatch : (c.dispatch s).length = 6 := rfl
  simp only [expansion, List.length_append, List.length_cons, List.length_nil, hcapture, hreceiver,
    hcreate, length_storeParams, hdispatch, h, Signature.expansionLength]
  omega

end Callee

/-! ### Code with expansions woven in -/

/-- New code that stands for old code. The old code starts at a position of its body, and the new
code at a place of the new body. -/
inductive Module.Woven (m : Module) :
    (position start : Nat) → List Instr → List CallSite → List Instr → Prop
  | nil {position start} : m.Woven position start [] [] []
  | op {position start o old sites new}
      (later : m.Woven (position + 1) (start + 1) old sites new) :
      m.Woven position start (.op o :: old) sites (.op o :: new)
  | call {c : Callee} {site : CallSite} {old sites new} (callee : m.callee site.callee = .ok c)
      (slots : site.slots.params.length = c.signature.params.length)
      (stop : site.stop = site.start + (c.expansion site.slots).length)
      (later : m.Woven (site.position + 1) site.stop old sites new) :
      m.Woven site.position site.start (.call (.direct site.callee) :: old) (site :: sites)
        ((c.expansion site.slots).map .op ++ new)

def CallSite.covers (site : CallSite) (place : Nat) : Bool :=
  site.start ≤ place && place < site.stop

/-- What is left of code that starts at a place when the places of call sites are taken out. -/
def codeOutside (sites : List CallSite) (start : Nat) (code : List Instr) : List Instr :=
  ((code.zipIdx start).filter fun p => !sites.any (·.covers p.2)).map Prod.fst

theorem CallSite.covers_iff {site : CallSite} {place : Nat} :
    site.covers place = true ↔ site.start ≤ place ∧ place < site.stop := by
  simp only [covers, Bool.and_eq_true, decide_eq_true_eq]

theorem any_covers_eq_false {sites : List CallSite} {place : Nat}
    (h : ∀ site ∈ sites, place < site.start) : sites.any (·.covers place) = false := by
  refine List.any_eq_false.2 fun site hsite hcovers => ?_
  have hbehind := h site hsite
  have hstart := (CallSite.covers_iff.1 hcovers).1
  omega

/-- A call site covers code that fills its places, and nothing behind it: there the other sites
decide. -/
theorem zipIdx_outside_append (site : CallSite) (sites : List CallSite) (code new : List Instr)
    (hstop : site.stop = site.start + code.length) :
    ((code ++ new).zipIdx site.start).filter (fun p => !(site :: sites).any (·.covers p.2)) =
      (new.zipIdx site.stop).filter fun p => !sites.any (·.covers p.2) := by
  have hinside : (code.zipIdx site.start).filter
      (fun p => !(site :: sites).any (·.covers p.2)) = [] := by
    refine List.filter_eq_nil_iff.2 fun p hp => ?_
    have hlow := List.le_snd_of_mem_zipIdx hp
    have hhigh := List.snd_lt_add_of_mem_zipIdx hp
    have hcovers : site.covers p.2 = true := CallSite.covers_iff.2 ⟨hlow, by omega⟩
    rw [List.any_cons, hcovers]
    exact Bool.false_ne_true
  have hbehind : (new.zipIdx site.stop).filter (fun p => !(site :: sites).any (·.covers p.2)) =
      (new.zipIdx site.stop).filter (fun p => !sites.any (·.covers p.2)) := by
    refine List.filter_congr fun p hp => ?_
    have hlow := List.le_snd_of_mem_zipIdx hp
    have hnot : site.covers p.2 = false := by
      refine Bool.eq_false_iff.2 fun hcovers => ?_
      have hhigh := (CallSite.covers_iff.1 hcovers).2
      omega
    rw [List.any_cons, hnot, Bool.false_or]
  rw [List.zipIdx_append, List.filter_append, hinside, ← hstop, hbehind, List.nil_append]

/-- By how much the call sites in front of a position lengthen the code there: each has its
expansion in the place of one instruction. -/
def growthBefore (sites : List CallSite) (position : Nat) : Nat :=
  ((sites.filter (·.position < position)).map fun site => site.stop - site.start - 1).sum

/-- The place in redirected code of the instruction at a position of the old code. -/
def Redirected.placeOf (r : Redirected) (position : Nat) : Nat :=
  position + growthBefore r.callSites position

theorem growthBefore_cons (site : CallSite) (sites : List CallSite) (position : Nat) :
    growthBefore (site :: sites) position =
      (if site.position < position then site.stop - site.start - 1 else 0) +
        growthBefore sites position := by
  by_cases h : site.position < position <;> simp [growthBefore, h]

theorem growthBefore_eq_zero {sites : List CallSite} {position : Nat}
    (h : ∀ site ∈ sites, position ≤ site.position) : growthBefore sites position = 0 := by
  have hnone : sites.filter (·.position < position) = [] := by
    refine List.filter_eq_nil_iff.2 fun site hsite => ?_
    have hle := h site hsite
    simp only [decide_eq_true_eq]
    omega
  rw [growthBefore, hnone]
  rfl

/-- Which callees a module has for the calls in code. -/
def Module.callees (m : Module) (code : List Instr) : List Callee :=
  code.filterMap fun i => (m.describe i).toOption

namespace Module

variable {m : Module} {t : MethodToken} {c : Callee}

theorem method_of_callee (h : m.callee t = .ok c) : c.method = t := by
  obtain ⟨_, _, _, _, rfl⟩ := callee_eq_ok_iff.1 h
  rfl

theorem callees_cons_of_callee (h : m.callee t = .ok c) (code : List Instr) :
    m.callees (.call (.direct t) :: code) = c :: m.callees code := by
  refine List.filterMap_cons_some ?_
  simp only [describe, h, Except.toOption]

end Module

namespace Module.Woven

variable {m : Module} {position start : Nat} {old new : List Instr} {sites : List CallSite}

theorem isCall_of_mem (h : m.Woven position start old sites new) :
    ∀ i ∈ new, i.isCall = false := by
  induction h with
  | nil => exact fun i hi => (nomatch hi)
  | op later ih => exact List.forall_mem_cons.2 ⟨rfl, ih⟩
  | call callee slots stop later ih =>
    intro i hi
    rcases List.mem_append.1 hi with hi | hi
    · obtain ⟨o, _, rfl⟩ := List.mem_map.1 hi
      rfl
    · exact ih i hi

theorem map_sites (h : m.Woven position start old sites new) :
    (sites.map fun site => (Instr.call (.direct site.callee), site.position)) =
      (old.zipIdx position).filter (·.1.isCall) := by
  induction h with
  | nil => rfl
  | op later ih =>
    rw [List.zipIdx_cons, List.filter_cons_of_neg Bool.false_ne_true]
    exact ih
  | call callee slots stop later ih =>
    rw [List.zipIdx_cons, List.filter_cons_of_pos rfl, List.map_cons, ih]

/-- At the place of a call site stands the expansion for its callee. -/
theorem expansion_of_mem (h : m.Woven position start old sites new) :
    ∀ site ∈ sites, ∃ c front back, m.callee site.callee = .ok c ∧
      site.slots.params.length = c.signature.params.length ∧
      new = front ++ ((c.expansion site.slots).map .op ++ back) ∧
      site.start = start + front.length ∧
      site.stop = site.start + (c.expansion site.slots).length := by
  induction h with
  | nil => exact fun site hsite => (nomatch hsite)
  | @op position start o old sites new later ih =>
    intro site hsite
    obtain ⟨c, front, back, hcallee, hslots, hnew, hstart, hstop⟩ := ih site hsite
    refine ⟨c, .op o :: front, back, hcallee, hslots, by rw [hnew]; rfl, ?_, hstop⟩
    rw [hstart, List.length_cons]
    omega
  | @call c site old sites new callee slots stop later ih =>
    intro other hother
    rcases List.mem_cons.1 hother with rfl | hother
    · exact ⟨c, [], new, callee, slots, rfl, rfl, stop⟩
    · obtain ⟨c', front, back, hcallee, hslots, hnew, hstart, hstop⟩ := ih other hother
      refine ⟨c', (c.expansion site.slots).map .op ++ front, back, hcallee, hslots, ?_, ?_, hstop⟩
      · rw [hnew, List.append_assoc]
      · rw [hstart, stop, List.length_append, List.length_map, Nat.add_assoc]

theorem start_le_of_mem (h : m.Woven position start old sites new) {site : CallSite}
    (hsite : site ∈ sites) : start ≤ site.start := by
  obtain ⟨c, front, back, _, _, _, hstart, _⟩ := h.expansion_of_mem site hsite
  omega

theorem drop_take_of_mem (h : m.Woven position 0 old sites new) {site : CallSite}
    (hsite : site ∈ sites) : ∃ c, m.callee site.callee = .ok c ∧
      site.stop = site.start + c.signature.expansionLength ∧
      (new.drop site.start).take (site.stop - site.start) = (c.expansion site.slots).map .op := by
  obtain ⟨c, front, back, hcallee, hslots, hnew, hstart, hstop⟩ := h.expansion_of_mem site hsite
  have hlength : site.stop - site.start = ((c.expansion site.slots).map Instr.op).length := by
    rw [hstop, List.length_map, Nat.add_sub_cancel_left]
  refine ⟨c, hcallee, by rw [hstop, Callee.length_expansion hslots], ?_⟩
  rw [hlength, hstart, Nat.zero_add, hnew, List.drop_left, List.take_left]

theorem pairwise_sites (h : m.Woven position start old sites new) :
    sites.Pairwise fun site later => site.stop ≤ later.start := by
  induction h with
  | nil => exact .nil
  | op later ih => exact ih
  | call callee slots stop later ih =>
    exact List.pairwise_cons.2 ⟨fun other hother => later.start_le_of_mem hother, ih⟩

theorem position_le_of_mem (h : m.Woven position start old sites new) :
    ∀ site ∈ sites, position ≤ site.position := by
  induction h with
  | nil => exact fun site hsite => (nomatch hsite)
  | op later ih => exact fun site hsite => Nat.le_of_succ_le (ih site hsite)
  | call callee slots stop later ih =>
    intro other hother
    rcases List.mem_cons.1 hother with rfl | hother
    · exact Nat.le_refl _
    · exact Nat.le_of_succ_le (ih other hother)

/-- What stands outside the places of call sites, with its places: the old instructions that are no
calls, each moved by the call sites in front of it and by what the whole code is moved. -/
theorem zipIdx_outside_eq (h : m.Woven position start old sites new) {d : Nat}
    (hd : start = position + d) :
    (new.zipIdx start).filter (fun p => !sites.any (·.covers p.2)) =
      ((old.zipIdx position).filter fun p => !p.1.isCall).map fun p =>
        (p.1, p.2 + d + growthBefore sites p.2) := by
  induction h generalizing d with
  | nil => rfl
  | @op position start o old sites new later ih =>
    -- the places of all sites lie behind the operation
    have hnone : sites.any (·.covers start) = false :=
      any_covers_eq_false fun site hsite => later.start_le_of_mem hsite
    have hkeep : (!sites.any (·.covers start)) = true := by rw [hnone]; rfl
    have hgrowth : growthBefore sites position = 0 :=
      growthBefore_eq_zero fun site hsite => Nat.le_of_succ_le (later.position_le_of_mem site hsite)
    have hfirst : ((.op o :: new).zipIdx start).filter (fun p => !sites.any (·.covers p.2)) =
        (.op o, start) :: (new.zipIdx (start + 1)).filter fun p => !sites.any (·.covers p.2) := by
      rw [List.zipIdx_cons]
      exact List.filter_cons_of_pos hkeep
    have hop : (!(Instr.op o).isCall) = true := rfl
    rw [hfirst, ih (d := d) (by omega), List.zipIdx_cons, List.filter_cons, if_pos hop,
      List.map_cons, hgrowth, hd]
    rfl
  | @call c site old sites new callee slots stop later ih =>
    have hpositive : 0 < (c.expansion site.slots).length := by
      rw [Callee.length_expansion slots, Signature.expansionLength]
      omega
    have hstop : site.stop = site.start + ((c.expansion site.slots).map Instr.op).length := by
      rw [stop, List.length_map]
    have hrest := ih (d := d + (site.stop - site.start - 1)) (by omega)
    rw [zipIdx_outside_append site sites _ new hstop, hrest, List.zipIdx_cons,
      List.filter_cons_of_neg (by simp [Instr.isCall])]
    refine List.map_congr_left fun p hp => ?_
    have hlow := List.le_snd_of_mem_zipIdx (List.mem_filter.1 hp).1
    have hgrowth : growthBefore (site :: sites) p.2 =
        (site.stop - site.start - 1) + growthBefore sites p.2 := by
      rw [growthBefore_cons, if_pos (by omega)]
    rw [hgrowth]
    congr 1
    omega

theorem outside_eq (h : m.Woven 0 0 old sites new) :
    codeOutside sites 0 new = old.filter fun i => !i.isCall := by
  have hmoved := h.zipIdx_outside_eq (d := 0) rfl
  have hfst : (old.zipIdx.filter fun p => !p.1.isCall).map Prod.fst =
      old.filter fun i => !i.isCall := by
    conv => rhs; rw [← List.zipIdx_map_fst 0 old]
    rw [List.filter_map]
    rfl
  rw [codeOutside, hmoved, List.map_map, ← hfst]
  rfl

/-- In front of the operations that stand for the instruction at a place stand those for the code
before it, which the call sites there have lengthened. -/
theorem length_opsFrom_take (h : m.Woven position start old sites new) (n : Nat) {k : Nat}
    (hk : k ≤ old.length) :
    (m.opsFrom n (old.take k)).length = k + growthBefore sites (position + k) := by
  have hnone {position start : Nat} {old new : List Instr} {sites : List CallSite}
      (h : m.Woven position start old sites new) : growthBefore sites (position + 0) = 0 :=
    growthBefore_eq_zero h.position_le_of_mem
  induction h generalizing n k with
  | nil =>
    cases Nat.le_zero.1 hk
    rfl
  | @op position start o old sites new later ih =>
    cases k with
    | zero => rw [hnone (.op (o := o) later)]; rfl
    | succ k =>
      have hrest := ih (n + (m.slotTypesFor (.op o)).length) (Nat.le_of_succ_le_succ hk)
      have hshift : position + 1 + k = position + (k + 1) := by omega
      rw [List.take_succ_cons, opsFrom, List.length_append, hrest, hshift]
      simp only [opsFor, List.length_singleton]
      omega
  | @call c site old sites new callee slots stop later ih =>
    cases k with
    | zero => rw [hnone (.call callee slots stop later)]; rfl
    | succ k =>
      have hdescribe : m.describe (.call (.direct site.callee)) = .ok c := callee
      have hrest := ih (n + (m.slotTypesFor (.call (.direct site.callee))).length)
        (Nat.le_of_succ_le_succ hk)
      have hshift : site.position + 1 + k = site.position + (k + 1) := by omega
      have hslots : (c.slotsFrom n).params.length = c.signature.params.length := by
        simp [Callee.slotsFrom]
      have hlength := Callee.length_expansion hslots
      have hlength' := Callee.length_expansion slots
      have hpositive : 0 < c.signature.expansionLength := by
        rw [Signature.expansionLength]
        omega
      rw [List.take_succ_cons, opsFrom, List.length_append, hrest, opsFor_of_describe hdescribe,
        hlength, growthBefore_cons, if_pos (by omega), hshift]
      omega

theorem map_callees (h : m.Woven position start old sites new) :
    (m.callees old).map Callee.method = sites.map CallSite.callee := by
  induction h with
  | nil => rfl
  | op later ih => exact ih
  | call callee slots stop later ih =>
    rw [callees_cons_of_callee callee, List.map_cons, List.map_cons, ih, method_of_callee callee]

theorem length_eq (h : m.Woven position start old sites new) :
    new.length + sites.length =
      old.length + ((m.callees old).map fun c => c.signature.expansionLength).sum := by
  induction h with
  | nil => rfl
  | @op position start o old sites new later ih =>
    have hnone : m.callees (.op o :: old) = m.callees old := rfl
    rw [hnone, List.length_cons, List.length_cons]
    omega
  | @call c site old sites new callee slots stop later ih =>
    rw [callees_cons_of_callee callee, List.length_append, List.length_map,
      Callee.length_expansion slots, List.length_cons, List.length_cons, List.map_cons,
      List.sum_cons]
    omega

end Module.Woven

/-! ### The walk weaves -/

variable {m : Module} {method : String}

theorem Callee.length_params_of_allocate {c : Callee} {a b : SlotAllocator} {s : CallSiteSlots}
    (h : c.allocate a = some (s, b)) : s.params.length = c.signature.params.length := by
  rw [(allocate_eq_some h).1]
  simp [slotsFrom]

theorem Draft.size_append_ops (code : Array Instr) (ops : List Op) :
    (code ++ ops.map Instr.op).size = code.size + ops.length := by
  rw [← Array.length_toList, Array.toList_appendList, List.length_append, List.length_map,
    Array.length_toList]

/-- A call that is replaced leaves a call site, and the expansion at its place. -/
theorem Draft.replace_eq_ok {position : Nat} {target : CallTarget} {d d' : Draft}
    (h : d.replace m method position (.call target) = .ok d') :
    ∃ (c : Callee) (site : CallSite), target = .direct site.callee ∧ position = site.position ∧
      m.callee site.callee = .ok c ∧ site.slots.params.length = c.signature.params.length ∧
      site.start = d.code.size ∧ site.stop = site.start + (c.expansion site.slots).length ∧
      d'.callSites = d.callSites.push site ∧
      d'.code = d.code ++ (c.expansion site.slots).map Instr.op := by
  obtain ⟨c, s, slots, hdescribe, halloc, rfl⟩ := replace_eq_ok_iff.1 h
  obtain ⟨t, htarget, hcallee⟩ := Module.describe_eq_ok_iff.1 hdescribe
  obtain rfl := Module.method_of_callee hcallee
  exact ⟨c, ⟨position, c.method, s, d.code.size, _⟩, Instr.call.inj htarget, rfl, hcallee,
    Callee.length_params_of_allocate halloc, rfl, size_append_ops d.code _, rfl, rfl⟩

theorem Draft.exists_woven_of_walk {d d' : Draft} {position : Nat} {old : List Instr}
    (h : d.walk m method position old = .ok d') :
    ∃ sites new, d'.callSites.toList = d.callSites.toList ++ sites ∧
      d'.code.toList = d.code.toList ++ new ∧ m.Woven position d.code.size old sites new := by
  induction old generalizing d position with
  | nil =>
    cases h
    exact ⟨[], [], by simp, by simp, .nil⟩
  | cons i old ih =>
    cases i with
    | op o =>
      obtain ⟨sites, new, hsites, hnew, hwoven⟩ := ih h
      refine ⟨sites, .op o :: new, hsites, ?_, .op ?_⟩
      · rw [hnew]
        simp [copy]
      · simpa [copy] using hwoven
    | call target =>
      obtain ⟨d₁, hreplace, hrest⟩ := walk_call_eq_ok_iff.1 h
      obtain ⟨c, site, rfl, rfl, hcallee, hslots, hstart, hstop, hd₁⟩ := replace_eq_ok hreplace
      obtain ⟨sites, new, hsites, hnew, hwoven⟩ := ih hrest
      refine ⟨site :: sites, (c.expansion site.slots).map .op ++ new, ?_, ?_, ?_⟩
      · rw [hsites, hd₁.1]
        simp
      · rw [hnew, hd₁.2]
        simp
      · have hsize : d₁.code.size = site.stop := by
          rw [hd₁.2, hstop, hstart]
          exact size_append_ops d.code _
        rw [hsize] at hwoven
        rw [← hstart]
        exact .call hcallee hslots hstop hwoven

namespace Module

variable {b : Body} {limit : Nat} {r : Redirected}

theorem woven_of_redirectBody (h : m.redirectBody method b limit = .ok r) :
    m.Woven 0 0 b.code r.callSites r.code := by
  obtain ⟨d, hwalk, rfl⟩ := redirectBody_eq_ok_iff_walk.1 h
  obtain ⟨sites, new, hsites, hnew, hwoven⟩ := Draft.exists_woven_of_walk hwalk
  have hsites' : d.callSites.toList = sites := hsites
  have hnew' : d.code.toList = new := hnew
  rw [← hsites', ← hnew'] at hwoven
  exact hwoven

/-- Redirected code is the old code in its order, with an expansion in the place of each call. The
call sites are the calls, and taking their places out leaves the instructions that are no calls. -/
theorem redirectBody_weaves (h : m.redirectBody method b limit = .ok r) :
    m.Woven 0 0 b.code r.callSites r.code ∧
    (r.callSites.map fun site => (Instr.call (.direct site.callee), site.position)) =
      b.code.zipIdx.filter (·.1.isCall) ∧
    (∀ site ∈ r.callSites, ∃ c, m.callee site.callee = .ok c ∧
      site.stop = site.start + c.signature.expansionLength ∧
      (r.code.drop site.start).take (site.stop - site.start) =
        (c.expansion site.slots).map .op) ∧
    (r.callSites.Pairwise fun site later => site.stop ≤ later.start) ∧
    codeOutside r.callSites 0 r.code = b.code.filter (fun i => !i.isCall) ∧
    (∀ i ∈ r.code, i.isCall = false) ∧
    (m.callees b.code).map Callee.method = r.callSites.map CallSite.callee ∧
    r.code.length = b.code.length - b.callSites +
      ((m.callees b.code).map fun c => c.signature.expansionLength).sum := by
  have hwoven := woven_of_redirectBody h
  have hlength : r.code.length = b.code.length - b.callSites +
      ((m.callees b.code).map fun c => c.signature.expansionLength).sum := by
    have hcount := (redirectBody_parts h).2.2
    have hle : b.callSites ≤ b.code.length := List.countP_le_length
    have hsum := hwoven.length_eq
    omega
  exact ⟨hwoven, hwoven.map_sites, fun site hsite => hwoven.drop_take_of_mem hsite,
    hwoven.pairwise_sites, hwoven.outside_eq, hwoven.isCall_of_mem, hwoven.map_callees, hlength⟩

/-- A module with an instance method that takes values of both categories, and a static one. -/
def meeting : Module :=
  ⟨"meeting", [⟨"Type", [⟨0⟩, ⟨1⟩]⟩],
    [⟨⟨0⟩, "take", ⟨[.int32, .string], .void, false⟩, none⟩,
      ⟨⟨0⟩, "make", ⟨[], .value .bool, true⟩, none⟩]⟩

/-- Two calls with nothing between them, and instructions on either side. -/
def meetingBody : Body :=
  ⟨[.object], [.op (.ldloc ⟨0⟩), .op (.ldcI4 7), .op .ldnull, .call (.direct ⟨0⟩),
    .call (.direct ⟨1⟩), .op .ret]⟩

theorem redirectBody_weaves_meeting : ∃ r, meeting.redirectBody "Type::run" meetingBody 7 = .ok r ∧
    (r.callSites.map fun site => (site.position, site.start, site.stop)) =
      [(3, 3, 26), (4, 26, 39)] ∧
    codeOutside r.callSites 0 r.code =
      [.op (.ldloc ⟨0⟩), .op (.ldcI4 7), .op .ldnull, .op .ret] ∧
    r.code.length = 40 := by
  obtain ⟨r, h⟩ : ∃ r, meeting.redirectBody "Type::run" meetingBody 7 = .ok r := ⟨_, rfl⟩
  obtain ⟨_, _, _, _, houtside, _, _, hlength⟩ := redirectBody_weaves h
  refine ⟨r, h, ?_, houtside, hlength⟩
  cases h
  rfl

end Module

end Interpose
