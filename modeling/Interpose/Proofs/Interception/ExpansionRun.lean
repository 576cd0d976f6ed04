import Interpose.Interception.Redirector
import Interpose.Proofs.Execution.Straight
import Interpose.Proofs.Interception.Intercepted

/-!
# What an expansion does

The operations that stand for a call take its arguments and its receiver into their slots, lay the
arguments out in a new array, ask the installed interceptor and give its answer the form of the
result. All of this is one interception of the call.
-/

namespace Interpose

/-- Two ends of a run that say the same about old code and about the code that stands for it. A
value that is no reference is found where it is to be kept in one of the new slots. -/
inductive Stop.Counterpart (standsFor : Nat → Nat → Prop) (locals : Nat) : Stop → Stop → Prop
  | same (e : Stop) : Counterpart standsFor locals e e
  | underflow {method : String} {place place' : Nat} (h : standsFor place place') :
      Counterpart standsFor locals (.fault (.stackUnderflow method place))
        (.fault (.stackUnderflow method place'))
  | notReference {kind : String} {slot : Nat} (h : locals ≤ slot) :
      Counterpart standsFor locals (.fault (.typeMismatch (.box kind .object)))
        (.fault (.typeMismatch (.storeLocal kind slot .object)))

/-- The part of a dispatch in front of the interception. -/
def Callee.operands (c : Callee) (s : CallSiteSlots) : List Op :=
  [.ldloc s.receiver, .ldloc s.arguments, .ldtoken (.type c.declaringType),
    .ldtoken (.method c.method), .resolveMethod]

def Frame.holding (F : Frame) (stack : List Value) (locals : Array Value) (next : Nat) : Frame :=
  { F with stack := stack, locals := locals, next := next }

namespace Machine

variable {σ : Type} {M : Machine σ} {F f f' : Frame} {stack : List Value} {L : Array Value}
  {p : Nat} {w : World σ} {slot : LocalSlot} {v : Value}

/-! ### Single operations -/

theorem execOps_stloc (ops : List Op) {t : DataType} (hd : F.declared[slot.position]? = some t)
    (hl : slot.position < L.size) (hv : v.fits t = true) :
    M.execOps (.stloc slot :: ops) (F.holding (v :: stack) L p) w =
      M.execOps ops (F.holding stack (L.setIfInBounds slot.position v) (p + 1)) w := by
  refine execOps_cons_of_proceed ?_
  simp only [execOp, Frame.storeLocal, Frame.pop, Frame.holding, Frame.advance, bind, Except.bind,
    hd, hv, if_true, hl, pure, Except.pure, inFrame]

theorem execOps_ldloc (ops : List Op) (hl : L[slot.position]? = some v) :
    M.execOps (.ldloc slot :: ops) (F.holding stack L p) w =
      M.execOps ops (F.holding (v :: stack) L (p + 1)) w := by
  refine execOps_cons_of_proceed ?_
  simp only [execOp, Frame.loadLocal, Frame.holding, Frame.advance, hl, inFrame, Frame.push]

theorem execOps_box (ops : List Op) {t : DataType} (ht : t.isValueType = true) (hv : v.fits t = true) :
    M.execOps (.box t :: ops) (F.holding (v :: stack) L p) w =
      M.execOps ops (F.holding (.boxed v :: stack) L (p + 1)) w := by
  refine execOps_cons_of_proceed ?_
  simp only [execOp, Frame.box, Frame.pop, Frame.holding, Frame.advance, bind, Except.bind, hv, ht,
    if_true, pure, Except.pure, inFrame, Frame.push]

theorem execOps_getInterceptor (ops : List Op) :
    M.execOps (.getInterceptor :: ops) (F.holding stack L p) w =
      M.execOps ops (F.holding (.interceptor (M.host.installed w.host) :: stack) L (p + 1)) w :=
  execOps_cons_of_proceed rfl

/-! ### Taking values into slots -/

theorem execOps_captureParam (hd : F.declared[slot.position]? = some .object)
    (hl : slot.position < L.size) {t : DataType} (h : f.passOn t = .ok (v, f')) :
    M.execOps (Callee.captureParam t slot) (F.holding f.stack L p) w =
      .proceed (F.holding f'.stack (L.setIfInBounds slot.position v)
        (p + (Callee.captureParam t slot).length)) w := by
  obtain ⟨u, rest, hs⟩ := f.exists_stack_of_passOn h
  rw [Frame.passOn_of_cons hs] at h
  split at h
  · rename_i hu
    cases h
    have hfits : (u.passedAs t).fits .object = true := by
      rw [Value.fits_object]
      exact Value.isReference_passedAs hu
    rw [hs]
    unfold Callee.captureParam
    unfold DataType.passed at hu
    unfold Value.passedAs at hfits ⊢
    cases ht : t.isValueType with
    | true =>
      simp only [ht, if_true] at hu hfits ⊢
      rw [execOps_box _ ht hu, execOps_stloc _ hd hl hfits]
      rfl
    | false =>
      simp only [ht] at hu hfits ⊢
      exact execOps_stloc [] hd hl hu
  · cases h

variable {standsFor : Nat → Nat → Prop} {locals : Nat}

/-- A value that cannot be passed on is found before anything is stored. -/
theorem execOps_captureParam_error (hd : F.declared[slot.position]? = some .object)
    (hlocals : locals ≤ slot.position) (hmethod : F.method = f.method)
    (hplace : standsFor (f.next - 1) p) {t : DataType} {e : Stop} (h : f.passOn t = .error e) :
    ∃ e', M.execOps (Callee.captureParam t slot) (F.holding f.stack L p) w = .stop e' w ∧
      Stop.Counterpart standsFor locals e e' := by
  cases hs : f.stack with
  | nil =>
    rw [Frame.passOn_of_nil hs] at h
    cases h
    refine ⟨.fault (.stackUnderflow F.method p), ?_, ?_⟩
    · unfold Callee.captureParam
      cases t.isValueType <;> rfl
    · rw [hmethod]
      exact .underflow hplace
  | cons u rest =>
    rw [Frame.passOn_of_cons hs] at h
    split at h
    · cases h
    · rename_i hu
      cases h
      unfold Callee.captureParam
      unfold DataType.passed at hu ⊢
      cases ht : t.isValueType with
      | true =>
        simp only [ht, if_true] at hu ⊢
        refine ⟨_, ?_, .same _⟩
        simp only [execOps, execOp, Frame.box, Frame.pop, Frame.holding, Frame.advance, bind,
          Except.bind, hu, inFrame, Frame.mismatch]
        rfl
      | false =>
        have hu' : u.fits .object = false := by simpa [ht] using hu
        refine ⟨_, ?_, .notReference hlocals⟩
        rw [if_neg (by decide), execOps_singleton]
        simp only [execOp, Frame.storeLocal, Frame.pop, Frame.holding, Frame.advance, bind,
          Except.bind, hd, hu', inFrame, Frame.mismatch]
        rfl

theorem length_captureParam_pos (t : DataType) (slot : LocalSlot) :
    0 < (Callee.captureParam t slot).length := by
  unfold Callee.captureParam
  cases t.isValueType <;> exact Nat.succ_pos _

/-- The arguments go into their slots; other locals stay. -/
theorem execOps_captureParams {pairs : List (DataType × LocalSlot)} {values : List Value}
    (hslots : ∀ q ∈ pairs, F.declared[q.2.position]? = some .object ∧ q.2.position < L.size)
    (hdistinct : (pairs.map fun q => q.2.position).Nodup)
    (h : f.passArgs (pairs.map (·.1)) = .ok (values, f')) :
    ∃ L' : Array Value, M.execOps (pairs.reverse.flatMap fun q => Callee.captureParam q.1 q.2)
        (F.holding f.stack L p) w =
          .proceed (F.holding f'.stack L'
            (p + (pairs.reverse.flatMap fun q => Callee.captureParam q.1 q.2).length)) w ∧
      L'.size = L.size ∧
      (∀ j : Nat, j ∉ pairs.map (fun q => q.2.position) → L'[j]? = L[j]?) ∧
      ∀ (i : Nat) (q : DataType × LocalSlot), pairs[i]? = some q → L'[q.2.position]? = values[i]? := by
  -- the last argument is on top, so those behind the first one have been taken before it
  induction pairs generalizing values f' with
  | nil =>
    cases h
    exact ⟨L, rfl, rfl, fun j hj => rfl, by simp⟩
  | cons q pairs ih =>
    obtain ⟨t, slot⟩ := q
    obtain ⟨later, g, v, hargs, hv, rfl⟩ := Frame.passArgs_cons_eq_ok_iff.1 h
    rw [List.map_cons, List.nodup_cons] at hdistinct
    obtain ⟨L', hrun, hsize, hother, hvalues⟩ :=
      ih (fun q hq => hslots q (List.mem_cons_of_mem _ hq)) hdistinct.2 hargs
    obtain ⟨hd, hl⟩ := hslots (t, slot) List.mem_cons_self
    have hl' : slot.position < L'.size := hsize ▸ hl
    refine ⟨L'.setIfInBounds slot.position v, ?_, ?_, ?_, ?_⟩
    · rw [List.reverse_cons, List.flatMap_append, execOps_append, hrun, List.flatMap_singleton]
      simp only
      rw [execOps_captureParam hd hl' hv, List.length_append, Nat.add_assoc]
    · rw [Array.size_setIfInBounds, hsize]
    · intro j hj
      rw [List.map_cons, List.mem_cons, not_or] at hj
      rw [Array.getElem?_setIfInBounds_ne (Ne.symm hj.1)]
      exact hother j hj.2
    · intro i q hq
      cases i with
      | zero =>
        cases hq
        rw [Array.getElem?_setIfInBounds_self_of_lt hl']
        rfl
      | succ i =>
        have hne : slot.position ≠ q.2.position := by
          intro heq
          refine hdistinct.1 (List.mem_map.2 ⟨q, List.mem_of_getElem? hq, heq.symm⟩)
        rw [Array.getElem?_setIfInBounds_ne hne]
        exact hvalues i q hq

theorem execOps_captureParams_error {pairs : List (DataType × LocalSlot)} {e : Stop}
    (hslots : ∀ q ∈ pairs, F.declared[q.2.position]? = some .object ∧ q.2.position < L.size ∧
      locals ≤ q.2.position)
    (hdistinct : (pairs.map fun q => q.2.position).Nodup) (hmethod : F.method = f.method)
    (hplace : ∀ j, j < (pairs.reverse.flatMap fun q => Callee.captureParam q.1 q.2).length →
      standsFor (f.next - 1) (p + j))
    (h : f.passArgs (pairs.map (·.1)) = .error e) :
    ∃ e', M.execOps (pairs.reverse.flatMap fun q => Callee.captureParam q.1 q.2)
        (F.holding f.stack L p) w = .stop e' w ∧ Stop.Counterpart standsFor locals e e' := by
  induction pairs with
  | nil => cases h
  | cons q pairs ih =>
    obtain ⟨t, slot⟩ := q
    rw [List.map_cons, List.nodup_cons] at hdistinct
    have hslots' (q) (hq : q ∈ pairs) := hslots q (List.mem_cons_of_mem _ hq)
    rw [List.reverse_cons, List.flatMap_append, List.flatMap_singleton] at hplace ⊢
    rw [List.length_append] at hplace
    rw [execOps_append]
    obtain hargs | ⟨later, g, hargs, hv⟩ := Frame.passArgs_cons_eq_error h
    · obtain ⟨e', hrun, hcounterpart⟩ :=
        ih hslots' hdistinct.2 (fun j hj => hplace j (by omega)) hargs
      exact ⟨e', by rw [hrun], hcounterpart⟩
    · obtain ⟨L', hrun, hsize, _, _⟩ := execOps_captureParams (M := M) (F := F) (w := w) (p := p)
        (fun q hq => ⟨(hslots' q hq).1, (hslots' q hq).2.1⟩) hdistinct.2 hargs
      obtain ⟨⟨rest, hg⟩, _, _⟩ := Frame.passArgs_eq_ok hargs
      rw [hrun]
      obtain ⟨hd, _, hlocals⟩ := hslots (t, slot) List.mem_cons_self
      have hpos := length_captureParam_pos t slot
      refine execOps_captureParam_error hd hlocals (by rw [hg]; exact hmethod) ?_ hv
      rw [hg]
      exact hplace _ (Nat.lt_add_of_pos_right hpos)

/-- The receiver goes into its slot, as an argument of type object does. -/
theorem execOps_captureReceiver {c : Callee} {s : CallSiteSlots}
    (hd : F.declared[s.receiver.position]? = some .object) (hl : s.receiver.position < L.size)
    (h : f.passReceiver c.signature = .ok (v, f')) :
    M.execOps (c.captureReceiver s) (F.holding f.stack L p) w =
      .proceed (F.holding f'.stack (L.setIfInBounds s.receiver.position v)
        (p + (c.captureReceiver s).length)) w := by
  unfold Callee.captureReceiver
  unfold Frame.passReceiver at h
  cases hstatic : c.signature.isStatic with
  | true =>
    rw [hstatic] at h
    cases h
    exact execOps_stloc (p := p + 1) [] hd hl rfl
  | false =>
    rw [hstatic] at h
    exact execOps_captureParam hd hl h

theorem execOps_captureReceiver_error {c : Callee} {s : CallSiteSlots} {e : Stop}
    (hd : F.declared[s.receiver.position]? = some .object)
    (hlocals : locals ≤ s.receiver.position) (hmethod : F.method = f.method)
    (hplace : standsFor (f.next - 1) p) (h : f.passReceiver c.signature = .error e) :
    ∃ e', M.execOps (c.captureReceiver s) (F.holding f.stack L p) w = .stop e' w ∧
      Stop.Counterpart standsFor locals e e' := by
  unfold Callee.captureReceiver
  unfold Frame.passReceiver at h
  cases hstatic : c.signature.isStatic with
  | true =>
    rw [hstatic] at h
    cases h
  | false =>
    rw [hstatic] at h
    exact execOps_captureParam_error hd hlocals hmethod hplace h

/-! ### Laying out the arguments -/

section Numbers

variable {n : Nat} (hn : n < 2 ^ 31) (h : Heap)

include hn

theorem toInt_ofNat_nonneg : (0 : Int32) ≤ Int32.ofNat n := by
  rw [Int32.le_iff_toInt_le, Int32.toInt_ofNat_of_lt hn]
  exact Int.natCast_nonneg n

theorem count_ofNat (message : String → Mismatch) :
    h.count message (.int32 (Int32.ofNat n)) = .ok n := by
  simp only [Heap.count, toInt_ofNat_nonneg hn, if_true, Int32.toInt_ofNat_of_lt hn]
  rfl

end Numbers

/-- The array of a call that has not been filled yet. -/
theorem execOps_createArray (stack : List Value) {c : Callee} {s : CallSiteSlots}
    (hd : F.declared[s.arguments.position]? = some .objectArray)
    (hl : s.arguments.position < L.size) (hfew : c.signature.params.length < 2 ^ 31) :
    M.execOps (c.createArray s) (F.holding stack L p) w =
      .proceed (F.holding stack
          (L.setIfInBounds s.arguments.position (.array ⟨w.heap.arrays.size⟩)) (p + 3))
        (w.layOut (.replicate c.signature.params.length .null)) := by
  let count := Value.int32 (Int32.ofNat c.signature.params.length)
  have hnew : M.execOp (F.holding (count :: stack) L (p + 1)).advance w (.newarr .object) =
      .proceed (F.holding (.array ⟨w.heap.arrays.size⟩ :: stack) L (p + 1 + 1))
        (w.layOut (.replicate c.signature.params.length .null)) := by
    simp only [execOp, Frame.popLength, Frame.pop, Frame.holding, Frame.advance, bind, Except.bind,
      count, Heap.arrayLength, count_ofNat hfew]
    rfl
  show M.execOps [.newarr .object, .stloc s.arguments] (F.holding (count :: stack) L (p + 1)) w = _
  rw [execOps_cons_of_proceed hnew]
  exact execOps_stloc [] hd hl rfl

theorem layOut_store (items : Array Value) (index : Nat) :
    (w.layOut items).store ⟨w.heap.arrays.size⟩ index v =
      w.layOut (items.setIfInBounds index v) := by
  have harrays (cell : ArrayCell) (f : ArrayCell → ArrayCell) :
      (w.heap.arrays.push cell).modify w.heap.arrays.size f = w.heap.arrays.push (f cell) := by
    refine Array.ext_getElem? fun i => ?_
    rw [Array.getElem?_modify, Array.getElem?_push, Array.getElem?_push]
    by_cases hi : i = w.heap.arrays.size
    · simp [hi]
    · simp [hi, Ne.symm hi]
  simp only [World.layOut, World.store, Heap.newArray, Heap.set, harrays]

theorem cell_layOut (items : Array Value) :
    (w.layOut items).heap.cell ⟨w.heap.arrays.size⟩ = ⟨.object, items⟩ :=
  Heap.cell_newArray w.heap .object items

theorem execOps_storeParam (stack : List Value) {s : CallSiteSlots} {items : Array Value} {index : Nat}
    (harguments : L[s.arguments.position]? = some (.array ⟨w.heap.arrays.size⟩))
    (hslot : L[slot.position]? = some v) (hv : v.isReference = true) (hi : index < items.size)
    (hfew : index < 2 ^ 31) :
    M.execOps (Callee.storeParam s slot index) (F.holding stack L p) (w.layOut items) =
      .proceed (F.holding stack L (p + 4)) (w.layOut (items.setIfInBounds index v)) := by
  let array := Value.array ⟨w.heap.arrays.size⟩
  let place := Value.int32 (Int32.ofNat index)
  have helem : (w.layOut items).heap.elem ⟨w.heap.arrays.size⟩ = .object := by
    rw [Heap.elem, cell_layOut]
  have hlength : (w.layOut items).heap.length ⟨w.heap.arrays.size⟩ = items.size := by
    rw [Heap.length, Heap.items, cell_layOut]
  have hfits : (v.isReference && v.fits .object) = true := by
    rw [Value.fits_object, hv]
    rfl
  have hpop : (F.holding (v :: place :: array :: stack) L (p + 4)).popStore (w.layOut items).heap =
      .ok (⟨⟨w.heap.arrays.size⟩, index, v⟩, F.holding stack L (p + 4)) := by
    simp only [Frame.popStore, Frame.popArray, Frame.pop, Frame.holding, bind, Except.bind, pure,
      Except.pure, place, array, Heap.arrayIndex, count_ofNat hfew, helem, hlength, hfits, if_true,
      hi]
  have hstore : M.execOp (F.holding (v :: place :: array :: stack) L (p + 3)).advance
      (w.layOut items) .stelemRef =
        .proceed (F.holding stack L (p + 4)) (w.layOut (items.setIfInBounds index v)) := by
    have hadvance : (F.holding (v :: place :: array :: stack) L (p + 3)).advance =
        F.holding (v :: place :: array :: stack) L (p + 4) := rfl
    rw [hadvance]
    simp only [execOp, hpop, layOut_store]
  unfold Callee.storeParam
  rw [execOps_ldloc _ harguments]
  show M.execOps [.ldloc slot, .stelemRef] (F.holding (place :: array :: stack) L (p + 2)) _ = _
  rw [execOps_ldloc _ hslot, execOps_singleton]
  exact hstore

/-- The arguments from a position on go into the array, behind those that are there already. -/
theorem execOps_storeParams (stack : List Value) {s : CallSiteSlots} {slots : List LocalSlot}
    {index : Nat} (items : Array Value) {values : List Value}
    (harguments : L[s.arguments.position]? = some (.array ⟨w.heap.arrays.size⟩))
    (hslots : ∀ (i : Nat) (slot : LocalSlot), slots[i]? = some slot →
      L[slot.position]? = values[index + i]?)
    (hreferences : ∀ v ∈ values, v.isReference = true) (hsize : items.size = values.length)
    (hindex : index + slots.length = values.length) (hfew : values.length < 2 ^ 31)
    (hdone : ∀ i, i < index → items[i]? = values[i]?) :
    M.execOps ((slots.zipIdx index).flatMap fun q => Callee.storeParam s q.1 q.2)
        (F.holding stack L p) (w.layOut items) =
      .proceed (F.holding stack L
          (p + ((slots.zipIdx index).flatMap fun q => Callee.storeParam s q.1 q.2).length))
        (w.layOut values.toArray) := by
  -- items in front of the index are arguments already, which is all there is at the end
  induction slots generalizing index items p with
  | nil =>
    have hitems : items = values.toArray := by
      refine Array.ext_getElem? fun i => ?_
      by_cases hi : i < index
      · rw [hdone i hi, List.getElem?_toArray]
      · rw [Array.getElem?_eq_none (by simp only [List.length_nil] at hindex; omega),
          List.getElem?_toArray, List.getElem?_eq_none (by simp only [List.length_nil] at hindex; omega)]
    rw [hitems]
    rfl
  | cons slot rest ih =>
    rw [List.length_cons] at hindex
    have hlt : index < values.length := by omega
    have hslot : L[slot.position]? = some values[index] := by
      have h := hslots 0 slot rfl
      rwa [Nat.add_zero, List.getElem?_eq_getElem hlt] at h
    have hstore := execOps_storeParam (M := M) (F := F) (p := p) stack harguments hslot
      (hreferences _ (List.getElem_mem hlt)) (hsize ▸ hlt) (Nat.lt_trans hlt hfew)
    have hlater (i : Nat) (slot' : LocalSlot) (hi : rest[i]? = some slot') :
        L[slot'.position]? = values[index + 1 + i]? := by
      rw [Nat.add_assoc, Nat.add_comm 1 i]
      exact hslots (i + 1) slot' hi
    have hdone' (i : Nat) (hi : i < index + 1) :
        (items.setIfInBounds index values[index])[i]? = values[i]? := by
      by_cases heq : i = index
      · rw [heq, Array.getElem?_setIfInBounds_self_of_lt (hsize ▸ hlt),
          List.getElem?_eq_getElem hlt]
      · rw [Array.getElem?_setIfInBounds_ne (Ne.symm heq)]
        exact hdone i (by omega)
    rw [List.zipIdx_cons, List.flatMap_cons, execOps_append, hstore]
    simp only
    rw [ih _ hlater (by rw [Array.size_setIfInBounds, hsize]) (by omega) hdone', List.length_append,
      Nat.add_assoc]
    rfl

/-! ### The dispatch and its answer -/


theorem execOps_operands (stack : List Value) {c : Callee} {s : CallSiteSlots}
    {callee : MethodIdentity} {receiver : Value} {array : ArrayRef}
    (hreceiver : L[s.receiver.position]? = some receiver)
    (harguments : L[s.arguments.position]? = some (.array array))
    (hresolve : M.identities.resolve? c.declaringType c.method = some callee) :
    M.execOps (c.operands s) (F.holding stack L p) w =
      .proceed (F.holding (.method callee :: .array array :: receiver :: stack) L (p + 5)) w := by
  let operands := Value.array array :: receiver :: stack
  let tokens := Value.token (.method c.method) :: .token (.type c.declaringType) :: operands
  have hmethod : M.execOp (F.holding tokens L (p + 4)).advance w .resolveMethod =
      .proceed (F.holding (.method callee :: operands) L (p + 5)) w := by
    simp only [execOp, resolveMethod, Frame.pop, Frame.holding, Frame.advance, tokens, bind,
      Except.bind, hresolve, pure, Except.pure, inFrame]
    rfl
  unfold Callee.operands
  rw [execOps_ldloc _ hreceiver, execOps_ldloc _ harguments]
  show M.execOps [.resolveMethod] (F.holding tokens L (p + 4)) w = _
  rw [execOps_singleton]
  exact hmethod

theorem execOps_intercept (ops : List Op) (callee : MethodIdentity) (array : ArrayRef)
    (receiver : Value) (interceptor : InterceptorId) :
    M.execOps (.intercept :: ops) (F.holding
        (.method callee :: .array array :: receiver :: .interceptor interceptor :: stack) L p) w =
      match M.host.intercept interceptor receiver (w.heap.items array).toList callee w with
      | (.ok answer, w) => M.execOps ops (F.holding (answer :: stack) L (p + 1)) w
      | (.error e, w) => .stop (e.map Fault.intercept).stop w := by
  have hexec : M.execOp (F.holding
      (.method callee :: .array array :: receiver :: .interceptor interceptor :: stack)
        L p).advance w .intercept =
      match M.host.intercept interceptor receiver (w.heap.items array).toList callee w with
      | (.ok answer, w) => .proceed (F.holding (answer :: stack) L (p + 1)) w
      | (.error e, w) => .stop (e.map Fault.intercept).stop w := rfl
  simp only [execOps, hexec]
  cases M.host.intercept interceptor receiver (w.heap.items array).toList callee w with
  | mk r w' =>
    cases r with
    | ok answer => rfl
    | error e => rfl

theorem execOps_finish {c : Callee} {answer : Value} :
    M.execOps [c.finish] (F.holding (answer :: f.stack) L p) w =
      match takeAnswer f w c.signature.returns answer with
      | .proceed g w => .proceed (F.holding g.stack L (p + 1)) w
      | r => r := by
  rw [execOps_singleton]
  unfold Callee.finish takeAnswer
  cases c.signature.returns with
  | void => rfl
  | value t =>
    simp only [execOp, Frame.unbox, Frame.pop, Frame.holding, Frame.advance, bind, Except.bind,
      pure, Except.pure]
    cases w.heap.coerce answer t with
    | ok v => rfl
    | error e => rfl

end Machine

/-! ### The whole expansion -/

/-- The slots of a call of a callee are declared for it, apart from each other and from the first
`locals` locals. -/
structure CallSiteSlots.ReadyFor (s : CallSiteSlots) (c : Callee) (declared : Array DataType)
    (locals size : Nat) : Prop where
  length : s.params.length = c.signature.params.length
  few : c.signature.params.length < 2 ^ 31
  receiver : declared[s.receiver.position]? = some .object
  params : ∀ q ∈ s.params, declared[q.position]? = some .object
  arguments : declared[s.arguments.position]? = some .objectArray
  within : ∀ q ∈ s.all, locals ≤ q.position ∧ q.position < size
  distinct : (s.all.map LocalSlot.position).Nodup

namespace CallSiteSlots.ReadyFor

variable {s : CallSiteSlots} {c : Callee} {declared : Array DataType} {locals size : Nat}

theorem map_fst_zip (h : s.ReadyFor c declared locals size) :
    (c.signature.params.zip s.params).map (·.1) = c.signature.params :=
  List.map_fst_zip (Nat.le_of_eq h.length.symm)

theorem map_position_zip (h : s.ReadyFor c declared locals size) :
    (c.signature.params.zip s.params).map (fun q => q.2.position) =
      s.params.map LocalSlot.position := by
  have hsnd := @List.map_snd_zip _ _ c.signature.params s.params (Nat.le_of_eq h.length)
  conv =>
    rhs
    rw [← hsnd, List.map_map]
  rfl

theorem apart (h : s.ReadyFor c declared locals size) :
    s.receiver.position ∉ s.params.map LocalSlot.position ∧
      (s.params.map LocalSlot.position).Nodup ∧
      s.arguments.position ∉ s.params.map LocalSlot.position ∧
      s.receiver.position ≠ s.arguments.position := by
  have hdistinct := h.distinct
  simp only [CallSiteSlots.all, List.map_cons, List.map_append, List.map_nil, List.nodup_cons,
    List.nodup_append, List.mem_append, List.mem_singleton, not_or] at hdistinct
  obtain ⟨⟨hreceiver, hne⟩, hparams, _, harguments⟩ := hdistinct
  exact ⟨hreceiver, hparams, fun hmem => harguments _ hmem _ rfl rfl, hne⟩

theorem notMem_of_lt (h : s.ReadyFor c declared locals size) {j : Nat} (hj : j < locals) :
    j ∉ s.all.map LocalSlot.position := by
  intro hmem
  obtain ⟨q, hq, hqj⟩ := List.mem_map.1 hmem
  have hwithin := h.within q hq
  omega

theorem params_within (h : s.ReadyFor c declared locals size) {q : DataType × LocalSlot}
    (hq : q ∈ c.signature.params.zip s.params) :
    declared[q.2.position]? = some .object ∧ q.2.position < size ∧ locals ≤ q.2.position := by
  have hmem : q.2 ∈ s.params := (List.of_mem_zip hq).2
  have hall : q.2 ∈ s.all := List.mem_cons_of_mem _ (List.mem_append_left _ hmem)
  exact ⟨h.params _ hmem, (h.within _ hall).2, (h.within _ hall).1⟩

end CallSiteSlots.ReadyFor

/-- The values of a call stand in its slots, and the first `locals` locals are as they were. -/
structure CallSiteSlots.Holds (s : CallSiteSlots) (locals : Nat) (receiver : Value)
    (args : List Value) (L L' : Array Value) : Prop where
  size : L'.size = L.size
  others : ∀ j, j < locals → L'[j]? = L[j]?
  receiver : L'[s.receiver.position]? = some receiver
  params : ∀ (i : Nat) (slot : LocalSlot), s.params[i]? = some slot → L'[slot.position]? = args[i]?

/-- The slot of the array is none of those that hold the values of the call. -/
theorem CallSiteSlots.Holds.setArguments {s : CallSiteSlots} {c : Callee}
    {declared : Array DataType} {locals size : Nat} {receiver : Value} {args : List Value}
    {L L' : Array Value} (h : s.Holds locals receiver args L L')
    (hready : s.ReadyFor c declared locals size) (v : Value) :
    s.Holds locals receiver args L (L'.setIfInBounds s.arguments.position v) := by
  obtain ⟨_, _, hnotParam, hne⟩ := hready.apart
  have hbehind : locals ≤ s.arguments.position := (hready.within s.arguments
    (List.mem_cons_of_mem _ (List.mem_append_right _ List.mem_cons_self))).1
  refine ⟨by rw [Array.size_setIfInBounds, h.size], ?_, ?_, ?_⟩
  · intro j hj
    rw [Array.getElem?_setIfInBounds_ne (by omega)]
    exact h.others j hj
  · rw [Array.getElem?_setIfInBounds_ne (Ne.symm hne)]
    exact h.receiver
  · intro i slot hi
    have hmem : slot.position ∈ s.params.map LocalSlot.position :=
      List.mem_map_of_mem (List.mem_of_getElem? hi)
    have hslot : s.arguments.position ≠ slot.position := fun heq => hnotParam (heq ▸ hmem)
    rw [Array.getElem?_setIfInBounds_ne hslot]
    exact h.params i slot hi

/-- The part of an expansion that leads from what its slots hold to the interception. -/
def Callee.prepare (c : Callee) (s : CallSiteSlots) : List Op :=
  .getInterceptor :: (c.createArray s ++ (storeParams s ++ c.operands s))

/-- The part of an expansion in front of the interception. -/
def Callee.approach (c : Callee) (s : CallSiteSlots) : List Op :=
  c.captureParams s ++ (c.captureReceiver s ++ c.prepare s)

theorem Callee.expansion_eq (c : Callee) (s : CallSiteSlots) :
    c.expansion s = c.approach s ++ [.intercept, c.finish] := by
  simp [expansion, approach, prepare, dispatch, operands]

namespace Machine

variable {σ : Type} {M : Machine σ} {F f g : Frame} {L L' : Array Value} {p : Nat} {w : World σ}
  {c : Callee} {s : CallSiteSlots} {locals : Nat} {callee : MethodIdentity} {receiver : Value}
  {args : List Value}

/-- What can be passed on for a call goes from the stack into the slots of the call. -/
theorem execOps_capture (hready : s.ReadyFor c F.declared locals L.size)
    (h : f.passCall c.signature = .ok (receiver, args, g)) :
    ∃ L', s.Holds locals receiver args L L' ∧
      (∀ j, j ∉ s.all.map LocalSlot.position → L'[j]? = L[j]?) ∧
      ∀ ops, M.execOps (c.captureParams s ++ (c.captureReceiver s ++ ops)) (F.holding f.stack L p) w =
        M.execOps ops (F.holding g.stack L'
          (p + (c.captureParams s).length + (c.captureReceiver s).length)) w := by
  obtain ⟨f₁, hargs, hreceiver⟩ := Frame.passCall_eq_ok_iff_bind.1 h
  obtain ⟨hnotParam, hdistinct, _, _⟩ := hready.apart
  obtain ⟨hbehind, hlt⟩ := hready.within _ List.mem_cons_self
  rw [← hready.map_fst_zip] at hargs
  obtain ⟨L₁, hrun, hsize, hother, hvalues⟩ := execOps_captureParams (M := M) (F := F) (p := p)
    (w := w) (fun q hq => ⟨(hready.params_within hq).1, (hready.params_within hq).2.1⟩)
    (by rw [hready.map_position_zip]; exact hdistinct) hargs
  rw [hready.map_position_zip] at hother
  have hlt₁ : s.receiver.position < L₁.size := hsize ▸ hlt
  have hframe (j : Nat) (hj : j ∉ s.all.map LocalSlot.position) :
      (L₁.setIfInBounds s.receiver.position receiver)[j]? = L[j]? := by
    simp only [CallSiteSlots.all, List.map_cons, List.map_append, List.mem_cons, List.mem_append,
      not_or] at hj
    rw [Array.getElem?_setIfInBounds_ne (Ne.symm hj.1)]
    exact hother j hj.2.1
  refine ⟨L₁.setIfInBounds s.receiver.position receiver, ⟨?_, ?_, ?_, ?_⟩, hframe, ?_⟩
  · rw [Array.size_setIfInBounds, hsize]
  · exact fun j hj => hframe j (hready.notMem_of_lt hj)
  · exact Array.getElem?_setIfInBounds_self_of_lt hlt₁
  · intro i slot hi
    have hmem : slot.position ∈ s.params.map LocalSlot.position :=
      List.mem_map_of_mem (List.mem_of_getElem? hi)
    have hilt : i < c.signature.params.length := by
      rw [← hready.length]
      exact (List.getElem?_eq_some_iff.1 hi).1
    have hpair : (c.signature.params.zip s.params)[i]? = some (c.signature.params[i], slot) := by
      rw [List.getElem?_zip_eq_some]
      exact ⟨List.getElem?_eq_getElem hilt, hi⟩
    have hslot : s.receiver.position ≠ slot.position := fun heq => hnotParam (heq ▸ hmem)
    rw [Array.getElem?_setIfInBounds_ne hslot]
    exact hvalues i _ hpair
  · intro ops
    rw [execOps_append, Callee.captureParams, hrun]
    simp only
    rw [execOps_append, execOps_captureReceiver hready.receiver hlt₁ hreceiver]

/-- What the slots of a call hold goes onto the stack for the interceptor, the arguments in an array
of their own. -/
theorem execOps_prepare (hready : s.ReadyFor c F.declared locals L.size)
    (hresolve : M.identities.resolve? c.declaringType c.method = some callee)
    (hholds : s.Holds locals receiver args L L') (hlength : args.length = c.signature.params.length)
    (hreferences : ∀ v ∈ args, v.isReference = true) (stack : List Value) :
    M.execOps (c.prepare s) (F.holding stack L' p) w =
      .proceed (F.holding (.method callee :: .array ⟨w.heap.arrays.size⟩ :: receiver ::
            .interceptor (M.host.installed w.host) :: stack)
          (L'.setIfInBounds s.arguments.position (.array ⟨w.heap.arrays.size⟩))
          (p + (c.prepare s).length))
        (w.layOut args.toArray) := by
  let array : Value := .array ⟨w.heap.arrays.size⟩
  let stack' : List Value := .interceptor (M.host.installed w.host) :: stack
  have hlt : s.arguments.position < L'.size := by
    rw [hholds.size]
    exact (hready.within s.arguments
      (List.mem_cons_of_mem _ (List.mem_append_right _ List.mem_cons_self))).2
  have hfilled := hholds.setArguments hready array
  have harguments : (L'.setIfInBounds s.arguments.position array)[s.arguments.position]? =
      some array := Array.getElem?_setIfInBounds_self_of_lt hlt
  have hcreate := execOps_createArray (M := M) (F := F) (w := w) (p := p + 1) stack'
    hready.arguments hlt hready.few
  have hstore := execOps_storeParams (M := M) (F := F) (p := p + 1 + 3) stack'
    (.replicate c.signature.params.length .null) harguments
    (fun i slot hi => by rw [Nat.zero_add]; exact hfilled.params i slot hi) hreferences
    (by rw [Array.size_replicate, hlength]) (by rw [Nat.zero_add, hready.length, hlength])
    (hlength ▸ hready.few) (fun i hi => absurd hi (Nat.not_lt_zero i))
  unfold Callee.prepare
  rw [execOps_getInterceptor, execOps_append, hcreate]
  simp only
  rw [execOps_append, Callee.storeParams, hstore]
  simp only
  rw [execOps_operands stack' hfilled.receiver harguments hresolve]
  have hcreateLength : (c.createArray s).length = 3 := rfl
  have hoperandsLength : (c.operands s).length = 5 := rfl
  simp only [List.length_append, List.length_cons, hcreateLength, hoperandsLength]
  congr 2
  omega

/-- Once its values are taken, a call is ready for the interceptor. Locals other than its slots stay
as they were. -/
theorem execOps_approach (hready : s.ReadyFor c F.declared locals L.size)
    (hresolve : M.identities.resolve? c.declaringType c.method = some callee)
    (h : f.passCall c.signature = .ok (receiver, args, g)) :
    ∃ L' : Array Value, L'.size = L.size ∧
      (∀ j, j ∉ s.all.map LocalSlot.position → L'[j]? = L[j]?) ∧
      M.execOps (c.approach s) (F.holding f.stack L p) w =
        .proceed (F.holding (.method callee :: .array ⟨w.heap.arrays.size⟩ :: receiver ::
              .interceptor (M.host.installed w.host) :: g.stack) L' (p + (c.approach s).length))
          (w.layOut args.toArray) := by
  obtain ⟨L₁, hholds, hframe, hcapture⟩ := execOps_capture (M := M) (p := p) (w := w) hready h
  obtain ⟨_, hlength, hreferences⟩ := Frame.passCall_eq_ok h
  have hfilled := hholds.setArguments hready (.array ⟨w.heap.arrays.size⟩)
  refine ⟨_, hfilled.size, fun j hj => ?_, ?_⟩
  · have hne : s.arguments.position ≠ j := by
      rintro rfl
      exact hj (List.mem_map_of_mem (List.mem_cons_of_mem _
        (List.mem_append_right _ List.mem_cons_self)))
    rw [Array.getElem?_setIfInBounds_ne hne]
    exact hframe j hj
  · unfold Callee.approach
    rw [hcapture, execOps_prepare hready hresolve hholds hlength hreferences, List.length_append,
      List.length_append, Nat.add_assoc p, Nat.add_assoc p, Nat.add_assoc]

/-- Behind its approach, a call goes to the interceptor and takes the answer. -/
theorem execOps_answer (callee : MethodIdentity) (receiver : Value) (args : List Value)
    (interceptor : InterceptorId) :
    M.execOps [.intercept, c.finish] (F.holding (.method callee :: .array ⟨w.heap.arrays.size⟩ ::
          receiver :: .interceptor interceptor :: g.stack) L p) (w.layOut args.toArray) =
      match M.host.intercept interceptor receiver args callee (w.layOut args.toArray) with
      | (.ok answer, w) =>
        match takeAnswer g w c.signature.returns answer with
        | .proceed g w => .proceed (F.holding g.stack L (p + 2)) w
        | r => r
      | (.error e, w) => .stop (e.map Fault.intercept).stop w := by
  have hitems : ((w.layOut args.toArray).heap.items ⟨w.heap.arrays.size⟩).toList = args := by
    rw [Heap.items, cell_layOut]
  rw [execOps_intercept, hitems]
  cases M.host.intercept interceptor receiver args callee (w.layOut args.toArray) with
  | mk r w' =>
    cases r with
    | error e => rfl
    | ok answer =>
      simp only
      rw [execOps_finish]

/-- Once its values are taken, a call goes to the interceptor. -/
theorem execOps_expansion (hready : s.ReadyFor c F.declared locals L.size)
    (hresolve : M.identities.resolve? c.declaringType c.method = some callee)
    (h : f.passCall c.signature = .ok (receiver, args, g)) :
    ∃ L' : Array Value, L'.size = L.size ∧ (∀ j, j < locals → L'[j]? = L[j]?) ∧
      M.execOps (c.expansion s) (F.holding f.stack L p) w =
        match M.host.intercept (M.host.installed w.host) receiver args callee
          (w.layOut args.toArray) with
        | (.ok answer, w) =>
          match takeAnswer g w c.signature.returns answer with
          | .proceed g w => .proceed (F.holding g.stack L' (p + (c.expansion s).length)) w
          | r => r
        | (.error e, w) => .stop (e.map Fault.intercept).stop w := by
  obtain ⟨L', hsize, hframe, hrun⟩ :=
    execOps_approach (M := M) (p := p) (w := w) hready hresolve h
  refine ⟨L', hsize, fun j hj => hframe j (hready.notMem_of_lt hj), ?_⟩
  rw [c.expansion_eq, execOps_append, hrun, List.length_append]
  exact execOps_answer callee receiver args _

/-- A call whose values cannot be taken ends the run before anything else is done. -/
theorem execOps_capture_error (hready : s.ReadyFor c F.declared locals L.size)
    (hmethod : F.method = f.method) (standsFor : Nat → Nat → Prop) (ops : List Op)
    (hplace : ∀ j, j < (c.captureParams s ++ (c.captureReceiver s ++ ops)).length →
      standsFor (f.next - 1) (p + j))
    {e : Stop} (h : f.passCall c.signature = .error e) :
    ∃ e', M.execOps (c.captureParams s ++ (c.captureReceiver s ++ ops)) (F.holding f.stack L p) w =
      .stop e' w ∧ Stop.Counterpart standsFor locals e e' := by
  have hdistinct := hready.apart.2.1
  rw [← hready.map_position_zip] at hdistinct
  rw [List.length_append, List.length_append] at hplace
  rw [execOps_append]
  have hfst := hready.map_fst_zip
  obtain hargs | ⟨args, g, hargs, hreceiver⟩ := Frame.passCall_eq_error h
  · rw [← hfst] at hargs
    obtain ⟨e', hrun, hcounterpart⟩ := execOps_captureParams_error (M := M) (F := F) (w := w)
      (L := L) (fun q hq => hready.params_within hq) hdistinct hmethod
      (fun j hj => hplace j (Nat.lt_add_right _ hj)) hargs
    exact ⟨e', by rw [Callee.captureParams, hrun], hcounterpart⟩
  · obtain ⟨⟨rest, hg⟩, _, _⟩ := Frame.passArgs_eq_ok hargs
    rw [← hfst] at hargs
    obtain ⟨L', hrun, _, _, _⟩ := execOps_captureParams (M := M) (F := F) (w := w) (p := p)
      (fun q hq => ⟨(hready.params_within hq).1, (hready.params_within hq).2.1⟩) hdistinct hargs
    rw [Callee.captureParams] at hplace ⊢
    rw [hrun]
    simp only
    rw [execOps_append]
    have hpos : 0 < (c.captureReceiver s).length := by
      rw [Callee.captureReceiver, List.length_append]
      exact Nat.succ_pos _
    have hstart := hplace ((c.signature.params.zip s.params).reverse.flatMap fun q =>
      Callee.captureParam q.1 q.2).length (by omega)
    obtain ⟨e', hrun', hcounterpart⟩ := execOps_captureReceiver_error (M := M) (F := F) (w := w)
      (L := L') hready.receiver (hready.within _ List.mem_cons_self).1 (by rw [hg]; exact hmethod)
      (by rw [hg]; exact hstart) hreceiver
    exact ⟨e', by rw [hrun'], hcounterpart⟩

theorem execOps_expansion_error (hready : s.ReadyFor c F.declared locals L.size)
    (hmethod : F.method = f.method) {standsFor : Nat → Nat → Prop}
    (hplace : ∀ j, j < (c.expansion s).length → standsFor (f.next - 1) (p + j)) {e : Stop}
    (h : f.passCall c.signature = .error e) :
    ∃ e', M.execOps (c.expansion s) (F.holding f.stack L p) w = .stop e' w ∧
      Stop.Counterpart standsFor locals e e' :=
  execOps_capture_error hready hmethod standsFor _ hplace h

end Machine

end Interpose
