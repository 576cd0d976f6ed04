import Interpose.Proofs.Execution.Limits
import Interpose.Proofs.Execution.Stretches
import Interpose.Proofs.Interception.CallSites
import Interpose.Proofs.Interception.Faithful
import Interpose.Proofs.Interception.Provided

/-!
# What a call site dispatches

From a state at the start of the code of `expand_call_site`, the run asks the host one thing, if the
stack holds what the call passes on, and nothing if it does not. With the answer it comes to the
place behind the expansion, one step for each of its operations.
-/

namespace Interpose

theorem Stop.Counterpart.refuses {standsFor : Nat → Nat → Prop} {locals : Nat} {e e' : Stop}
    (h : e.Counterpart standsFor locals e') (he : e.Refuses) : e'.Refuses := by
  cases h with
  | same => exact he
  | underflow => exact .underflow
  | notReference => exact .mismatch

/-! ### What an expansion asks -/

section Answers

variable {σ : Type} {H : Host σ} {i : InterceptorId} {receiver : Value} {args : List Value}
  {callee : MethodIdentity} {w w' : World σ}

theorem Host.intercept_of_answer?_ok {answer : Value}
    (h : H.answer? (.intercept i receiver args callee w) = some (.ok (some answer), w')) :
    H.intercept i receiver args callee w = (.ok answer, w') := by
  simp only [Host.answer?] at h
  generalize H.intercept i receiver args callee w = a at h ⊢
  obtain ⟨answer', w₁⟩ := a
  cases answer' with
  | ok v => cases h; rfl
  | error e => cases h

theorem Host.intercept_of_answer?_error {e : NoAnswer Fault}
    (h : H.answer? (.intercept i receiver args callee w) = some (.error e, w')) :
    ∃ reason, H.intercept i receiver args callee w = (.error reason, w') ∧
      e = reason.map .intercept := by
  simp only [Host.answer?] at h
  generalize H.intercept i receiver args callee w = a at h ⊢
  obtain ⟨answer', w₁⟩ := a
  cases answer' with
  | ok v => cases h
  | error e => cases h; exact ⟨e, rfl, rfl⟩

end Answers

/-- What an answer leaves on the stack in the form of a result. -/
inductive ReturnType.Gives (h : Heap) (answer : Value) : ReturnType → List Value → Prop
  | void : Gives h answer .void []
  | value {t : DataType} {v : Value} (coerced : h.coerce answer t = .ok v) :
      Gives h answer (.value t) [v]

theorem Heap.refuse_of_write? {α : Type} {h : Heap} {wording : Wording} {v : Value}
    {fault : String → Fault} {shown : String} (hshown : h.write? wording v = some shown) :
    (h.refuse wording v fault : Except Stop α) = .error (.fault (fault shown)) := by
  rw [refuse, hshown]

theorem Heap.refuse_of_loops {α : Type} {h : Heap} {wording : Wording} {v : Value}
    {fault : String → Fault} (hloops : h.Loops v) :
    (h.refuse wording v fault : Except Stop α) = .error .endless := by
  rw [refuse, write?_eq_none_iff.2 hloops]

theorem Heap.coerce_cases (h : Heap) (v : Value) (t : DataType) :
    (∃ u, h.coerce v t = .ok u) ∨
      h.coerce v t = h.refuse .form v fun shown => .invalidCast shown t := by
  unfold Heap.coerce
  split
  · split
    · exact .inl ⟨_, rfl⟩
    · exact .inr rfl
  · exact .inr rfl
  · split
    · exact .inl ⟨_, rfl⟩
    · exact .inr rfl

theorem Callee.intercept_notMem_approach (c : Callee) (s : CallSiteSlots) :
    .intercept ∉ c.approach s := by
  have hcapture (t : DataType) (slot : LocalSlot) : .intercept ∉ captureParam t slot := by
    unfold captureParam
    split <;> simp
  have hreceiver : .intercept ∉ c.captureReceiver s := by
    unfold captureReceiver
    split <;> simp
  simp [approach, captureParams, prepare, createArray, storeParams, storeParam, operands, hcapture,
    hreceiver]

namespace Machine

variable {σ : Type} {M : Machine σ}

/-- The one thing that the end of an expansion asks the host. -/
theorem askedOps_answer (depth : Nat) (c : Callee) (callee : MethodIdentity) (array : ArrayRef)
    (receiver : Value) (interceptor : InterceptorId) (F : Frame) (stack : List Value)
    (L : Array Value) (p : Nat) (w : World σ) :
    M.askedOps depth [.intercept, c.finish] (F.holding
        (.method callee :: .array array :: receiver :: .interceptor interceptor :: stack) L p) w =
      [.intercept interceptor receiver (w.heap.items array).toList callee w] := by
  have hfinish : .intercept ∉ [c.finish] := by
    unfold Callee.finish
    split <;> simp
  unfold askedOps
  simp only [askedOps_of_notMem hfinish]
  split <;> rfl

/-- What a call asks the installed interceptor in a state: its arguments are laid out in an array of
their own. -/
def dispatchCall (M : Machine σ) (callee : MethodIdentity) (s : State σ) : HostCall σ :=
  .intercept (M.host.installed s.world.host) (callee.signature.passedReceiver s.frame.stack)
    (callee.signature.passedArgs s.frame.stack) callee
    (s.world.layOut (callee.signature.passedArgs s.frame.stack).toArray)

/-- What a state at the start of a call site comes to within the length of its expansion: the one
dispatch of the call and what its answer leads to, or a fault if the stack does not hold what the
call passes on. An answer of another type ends the run with an invalid cast, unless it leads to an
array that lies in itself. -/
structure Dispatches (M : Machine σ) (site : CallSite) (callee : MethodIdentity) (s : State σ) :
    Prop where
  length : site.stop = site.start + callee.signature.expansionLength
  asked : M.asked callee.signature.expansionLength s =
    if callee.signature.Provided s.frame.stack then [M.dispatchCall callee s] else []
  refused (h : ¬callee.signature.Provided s.frame.stack) : ∃ e k, e.Refuses ∧
    k ≤ callee.signature.expansionLength ∧
    M.after callee.signature.expansionLength s = .ended ⟨.error e, s.world, s.steps + k⟩
  failed (h : callee.signature.Provided s.frame.stack) {e : NoAnswer Fault} {w : World σ}
    (answer? : M.host.answer? (M.dispatchCall callee s) = some (.error e, w)) :
    ∃ k, k ≤ callee.signature.expansionLength ∧
      M.after callee.signature.expansionLength s = .ended ⟨.error e.stop, w, s.steps + k⟩
  answered (h : callee.signature.Provided s.frame.stack) {answer : Value} {w : World σ}
    {values : List Value}
    (answer? : M.host.answer? (M.dispatchCall callee s) = some (.ok (some answer), w))
    (gives : callee.signature.returns.Gives w.heap answer values) :
    ∃ L : Array Value, L.size = s.frame.locals.size ∧
      (∀ j, j ∉ site.slots.all.map LocalSlot.position → L[j]? = s.frame.locals[j]?) ∧
      M.after callee.signature.expansionLength s =
        .running ⟨{ s.frame with
            stack := values ++ s.frame.stack.drop callee.signature.arity
            locals := L
            next := site.stop },
          s.callers, w, s.steps + callee.signature.expansionLength⟩
  miscast (h : callee.signature.Provided s.frame.stack) {answer : Value} {w : World σ}
    (answer? : M.host.answer? (M.dispatchCall callee s) = some (.ok (some answer), w))
    (gives : ∀ values, ¬callee.signature.returns.Gives w.heap answer values)
    (ends : ¬w.heap.Loops answer) :
    ∃ t k shown, callee.signature.returns = .value t ∧
      k ≤ callee.signature.expansionLength ∧ w.heap.write? .form answer = some shown ∧
      M.after callee.signature.expansionLength s =
        .ended ⟨.error (.fault (.invalidCast shown t)), w, s.steps + k⟩
  endless (h : callee.signature.Provided s.frame.stack) {answer : Value} {w : World σ}
    (answer? : M.host.answer? (M.dispatchCall callee s) = some (.ok (some answer), w))
    (gives : ∀ values, ¬callee.signature.returns.Gives w.heap answer values)
    (loops : w.heap.Loops answer) :
    ∃ k, k ≤ callee.signature.expansionLength ∧
      M.after callee.signature.expansionLength s = .ended ⟨.error .endless, w, s.steps + k⟩

theorem takeAnswer_of_gives {returns : ReturnType} {w : World σ} {answer : Value}
    {values : List Value} (h : returns.Gives w.heap answer values) (f : Frame) :
    takeAnswer f w returns answer = .proceed { f with stack := values ++ f.stack } w := by
  cases h with
  | void => rfl
  | value coerced =>
    simp only [takeAnswer, coerced]
    rfl

theorem takeAnswer_of_not_gives {returns : ReturnType} {w : World σ} {answer : Value}
    (h : ∀ values, ¬returns.Gives w.heap answer values) (f : Frame) :
    ∃ t e, returns = .value t ∧ takeAnswer f w returns answer = .stop e w ∧
      (∀ shown, w.heap.write? .form answer = some shown → e = .fault (.invalidCast shown t)) ∧
      (w.heap.Loops answer → e = .endless) := by
  cases returns with
  | void => exact absurd .void (h [])
  | value t =>
    obtain ⟨v, hcoerce⟩ | hrefuse := w.heap.coerce_cases answer t
    · exact absurd (.value hcoerce) (h [v])
    · cases hcoerce : w.heap.coerce answer t with
      | ok v => exact absurd (.value hcoerce) (h [v])
      | error e =>
        have he := hrefuse.symm.trans hcoerce
        refine ⟨t, e, rfl, by simp only [takeAnswer, hcoerce], fun shown hshown => ?_,
          fun hloops => ?_⟩
        · exact Except.error.inj (he.symm.trans (Heap.refuse_of_write? hshown))
        · exact Except.error.inj (he.symm.trans (Heap.refuse_of_loops hloops))

variable {c : Callee} {site : CallSite} {callee : MethodIdentity} {s : State σ}

/-- A state at the start of an expansion, in a frame with slots that are ready for it. -/
structure AtExpansion (M : Machine σ) (c : Callee) (site : CallSite) (callee : MethodIdentity)
    (s : State σ) : Prop where
  ready : site.slots.ReadyFor c s.frame.declared 0 s.frame.locals.size
  points : s.frame.PointsAt (c.expansion site.slots)
  next : s.frame.next = site.start
  stop : site.stop = site.start + callee.signature.expansionLength
  signature : callee.signature = c.signature
  resolve : M.identities.resolve? c.declaringType c.method = some callee
  room : s.steps + callee.signature.expansionLength ≤ M.limits.steps

namespace AtExpansion

theorem length (h : M.AtExpansion c site callee s) :
    (c.expansion site.slots).length = callee.signature.expansionLength := by
  rw [h.signature]
  exact Callee.length_expansion h.ready.length

theorem target? (_ : M.AtExpansion c site callee s) :
    ∀ o ∈ c.expansion site.slots, (Instr.op o).target? = none :=
  fun _ ho => Op.target?_of_isPlain (Callee.isPlain_of_mem_expansion ho)

theorem after_of_stop (h : M.AtExpansion c site callee s) {e : Stop} {w : World σ}
    (hrun : M.execOps (c.expansion site.slots) s.frame s.world = .stop e w) :
    (∃ k, k ≤ callee.signature.expansionLength ∧
      M.after callee.signature.expansionLength s = .ended ⟨.error e, w, s.steps + k⟩) ∧
      M.asked callee.signature.expansionLength s =
        M.askedOps s.callers.length (c.expansion site.slots) s.frame s.world := by
  rw [← h.length]
  exact Machine.after_of_stop h.points h.target? (h.length ▸ h.room) hrun

theorem after_of_proceed (h : M.AtExpansion c site callee s) {f : Frame} {w : World σ}
    (hrun : M.execOps (c.expansion site.slots) s.frame s.world = .proceed f w) :
    M.after callee.signature.expansionLength s =
        .running ⟨f, s.callers, w, s.steps + callee.signature.expansionLength⟩ ∧
      M.asked callee.signature.expansionLength s =
        M.askedOps s.callers.length (c.expansion site.slots) s.frame s.world := by
  rw [← h.length]
  exact Machine.after_of_proceed h.points h.target? (h.length ▸ h.room) hrun

theorem passCall_eq_ok (h : M.AtExpansion c site callee s)
    (hprovided : callee.signature.Provided s.frame.stack) :
    s.frame.passCall c.signature = .ok (callee.signature.passedReceiver s.frame.stack,
      callee.signature.passedArgs s.frame.stack,
      { s.frame with stack := s.frame.stack.drop callee.signature.arity }) := by
  rw [← h.signature]
  exact Frame.passCall_eq_ok_iff.2 ⟨hprovided, rfl, rfl, rfl⟩

theorem passCall_eq_error (h : M.AtExpansion c site callee s)
    (hprovided : ¬callee.signature.Provided s.frame.stack) :
    ∃ e, s.frame.passCall c.signature = .error e := by
  rw [← h.signature]
  cases hcall : s.frame.passCall callee.signature with
  | error e => exact ⟨e, rfl⟩
  | ok p => exact absurd (Frame.passCall_eq_ok_iff.1 hcall).1 hprovided

theorem refused (h : M.AtExpansion c site callee s)
    (hprovided : ¬callee.signature.Provided s.frame.stack) :
    ∃ e, e.Refuses ∧
      M.execOps (c.expansion site.slots) s.frame s.world = .stop e s.world ∧
      M.askedOps s.callers.length (c.expansion site.slots) s.frame s.world = [] := by
  obtain ⟨e, hcall⟩ := h.passCall_eq_error hprovided
  obtain ⟨e', hrun, hcounterpart⟩ := execOps_capture_error (M := M) (w := s.world)
    (p := s.frame.next) h.ready rfl (fun _ _ => True) (c.prepare site.slots)
    (fun j hj => trivial) hcall
  have happroach : M.execOps (c.approach site.slots) s.frame s.world = .stop e' s.world := hrun
  refine ⟨e', hcounterpart.refuses (Frame.refuses_of_passCall hcall), ?_, ?_⟩
  · rw [c.expansion_eq, execOps_append, happroach]
  · rw [c.expansion_eq, askedOps_append, happroach,
      askedOps_of_notMem (c.intercept_notMem_approach _)]
    rfl

theorem dispatched (h : M.AtExpansion c site callee s)
    (hprovided : callee.signature.Provided s.frame.stack) :
    ∃ L : Array Value, L.size = s.frame.locals.size ∧
      (∀ j, j ∉ site.slots.all.map LocalSlot.position → L[j]? = s.frame.locals[j]?) ∧
      M.askedOps s.callers.length (c.expansion site.slots) s.frame s.world =
        [M.dispatchCall callee s] ∧
      M.execOps (c.expansion site.slots) s.frame s.world =
        match M.host.intercept (M.host.installed s.world.host)
          (callee.signature.passedReceiver s.frame.stack)
          (callee.signature.passedArgs s.frame.stack) callee
          (s.world.layOut (callee.signature.passedArgs s.frame.stack).toArray) with
        | (.ok answer, w) =>
          match takeAnswer { s.frame with stack := s.frame.stack.drop callee.signature.arity } w
            callee.signature.returns answer with
          | .proceed g w => .proceed (s.frame.holding g.stack L site.stop) w
          | r => r
        | (.error e, w) => .stop (e.map Fault.intercept).stop w := by
  obtain ⟨L, hsize, hframe, hrun⟩ := execOps_approach (M := M) (w := s.world) (p := s.frame.next)
    h.ready h.resolve (h.passCall_eq_ok hprovided)
  have happroach : M.execOps (c.approach site.slots) s.frame s.world = _ := hrun
  have hstop : s.frame.next + (c.approach site.slots).length + 2 = site.stop := by
    have hlength := h.length
    rw [c.expansion_eq, List.length_append] at hlength
    rw [h.stop, h.next, ← hlength, Nat.add_assoc]
    rfl
  refine ⟨L, hsize, hframe, ?_, ?_⟩
  · rw [c.expansion_eq, askedOps_append, happroach,
      askedOps_of_notMem (c.intercept_notMem_approach _)]
    simp only
    rw [askedOps_answer, Heap.items, cell_layOut]
    rfl
  · have hanswer := execOps_answer (M := M) (F := s.frame) (c := c) (L := L)
      (g := { s.frame with stack := s.frame.stack.drop callee.signature.arity }) (w := s.world)
      (p := s.frame.next + (c.approach site.slots).length) callee
      (callee.signature.passedReceiver s.frame.stack) (callee.signature.passedArgs s.frame.stack)
      (M.host.installed s.world.host)
    -- behind the approach stand the interception and the operation that takes its answer
    rw [hstop, ← h.signature] at hanswer
    rw [c.expansion_eq, execOps_append, happroach]
    exact hanswer

theorem run_of_failed (h : M.AtExpansion c site callee s)
    (hprovided : callee.signature.Provided s.frame.stack) {e : NoAnswer Fault} {w : World σ}
    (hanswer : M.host.answer? (M.dispatchCall callee s) = some (.error e, w)) :
    M.execOps (c.expansion site.slots) s.frame s.world = .stop e.stop w := by
  obtain ⟨L, _, _, _, hrun⟩ := h.dispatched hprovided
  obtain ⟨reason, hintercept, rfl⟩ := Host.intercept_of_answer?_error hanswer
  rw [hrun, hintercept]

theorem run_of_answered (h : M.AtExpansion c site callee s)
    (hprovided : callee.signature.Provided s.frame.stack) {answer : Value} {w : World σ}
    {values : List Value}
    (hanswer : M.host.answer? (M.dispatchCall callee s) = some (.ok (some answer), w))
    (hgives : callee.signature.returns.Gives w.heap answer values) :
    ∃ L : Array Value, L.size = s.frame.locals.size ∧
      (∀ j, j ∉ site.slots.all.map LocalSlot.position → L[j]? = s.frame.locals[j]?) ∧
      M.execOps (c.expansion site.slots) s.frame s.world =
        .proceed { s.frame with
          stack := values ++ s.frame.stack.drop callee.signature.arity
          locals := L
          next := site.stop } w := by
  obtain ⟨L, hsize, hframe, _, hrun⟩ := h.dispatched hprovided
  refine ⟨L, hsize, hframe, ?_⟩
  rw [hrun, Host.intercept_of_answer?_ok hanswer]
  simp only [takeAnswer_of_gives hgives]
  rfl

theorem run_of_miscast (h : M.AtExpansion c site callee s)
    (hprovided : callee.signature.Provided s.frame.stack) {answer : Value} {w : World σ}
    (hanswer : M.host.answer? (M.dispatchCall callee s) = some (.ok (some answer), w))
    (hgives : ∀ values, ¬callee.signature.returns.Gives w.heap answer values) :
    ∃ t e, callee.signature.returns = .value t ∧
      M.execOps (c.expansion site.slots) s.frame s.world = .stop e w ∧
      (∀ shown, w.heap.write? .form answer = some shown → e = .fault (.invalidCast shown t)) ∧
      (w.heap.Loops answer → e = .endless) := by
  obtain ⟨L, _, _, _, hrun⟩ := h.dispatched hprovided
  obtain ⟨t, e, ht, htake, hshown, hloops⟩ := takeAnswer_of_not_gives hgives
    { s.frame with stack := s.frame.stack.drop callee.signature.arity }
  refine ⟨t, e, ht, ?_, hshown, hloops⟩
  rw [hrun, Host.intercept_of_answer?_ok hanswer]
  simp only [htake]

/-- The operations of an expansion come to their end or end the run. -/
theorem run_cases (h : M.AtExpansion c site callee s) :
    (∃ f w, M.execOps (c.expansion site.slots) s.frame s.world = .proceed f w) ∨
      ∃ e w, M.execOps (c.expansion site.slots) s.frame s.world = .stop e w := by
  by_cases hprovided : callee.signature.Provided s.frame.stack
  · obtain ⟨L, _, _, _, hrun⟩ := h.dispatched hprovided
    rw [hrun]
    split
    · rename_i answer w _
      obtain ⟨rest, htake⟩ | ⟨e, htake⟩ := takeAnswer_cases
        { s.frame with stack := s.frame.stack.drop callee.signature.arity } w
        callee.signature.returns answer
      · exact .inl ⟨_, _, by rw [htake]⟩
      · exact .inr ⟨_, _, by rw [htake]⟩
    · exact .inr ⟨_, _, rfl⟩
  · obtain ⟨e, _, hrun, _⟩ := h.refused hprovided
    exact .inr ⟨_, _, hrun⟩

theorem asked (h : M.AtExpansion c site callee s) :
    M.asked callee.signature.expansionLength s =
      if callee.signature.Provided s.frame.stack then [M.dispatchCall callee s] else [] := by
  have hasked : M.asked callee.signature.expansionLength s =
      M.askedOps s.callers.length (c.expansion site.slots) s.frame s.world := by
    obtain ⟨f, w, hrun⟩ | ⟨e, w, hrun⟩ := h.run_cases
    · exact (h.after_of_proceed hrun).2
    · exact (h.after_of_stop hrun).2
  rw [hasked]
  split
  · rename_i hprovided
    obtain ⟨L, _, _, hasked, _⟩ := h.dispatched hprovided
    exact hasked
  · rename_i hprovided
    obtain ⟨e, _, _, hasked⟩ := h.refused hprovided
    exact hasked

theorem dispatches (h : M.AtExpansion c site callee s) : M.Dispatches site callee s where
  length := h.stop
  asked := h.asked
  refused hprovided := by
    obtain ⟨e, he, hrun, _⟩ := h.refused hprovided
    obtain ⟨⟨k, hk, hafter⟩, _⟩ := h.after_of_stop hrun
    exact ⟨e, k, he, hk, hafter⟩
  failed hprovided e w hanswer := (h.after_of_stop (h.run_of_failed hprovided hanswer)).1
  answered hprovided answer w values hanswer hgives := by
    obtain ⟨L, hsize, hframe, hrun⟩ := h.run_of_answered hprovided hanswer hgives
    exact ⟨L, hsize, hframe, (h.after_of_proceed hrun).1⟩
  miscast hprovided answer w hanswer hgives hends := by
    obtain ⟨t, e, ht, hrun, he, _⟩ := h.run_of_miscast hprovided hanswer hgives
    obtain ⟨⟨k, hk, hafter⟩, _⟩ := h.after_of_stop hrun
    have hwritten : w.heap.write? .form answer ≠ none := fun hnone =>
      hends (Heap.write?_eq_none_iff.1 hnone)
    obtain ⟨shown, hshown⟩ := Option.ne_none_iff_exists'.1 hwritten
    exact ⟨t, k, shown, ht, hk, hshown, he shown hshown ▸ hafter⟩
  endless hprovided answer w hanswer hgives hloops := by
    obtain ⟨t, e, _, hrun, _, he⟩ := h.run_of_miscast hprovided hanswer hgives
    obtain ⟨⟨k, hk, hafter⟩, _⟩ := h.after_of_stop hrun
    exact ⟨k, hk, he hloops ▸ hafter⟩

end AtExpansion

end Machine

/-! ### The call sites of a redirected body -/

theorem Redirector.maxLocals_withMaxLocals_lt (k : Nat) :
    (Redirector.withMaxLocals k).maxLocals < 2 ^ 31 := by
  have hceiling : slotCeiling < 2 ^ 31 := by decide
  exact Nat.lt_of_le_of_lt (Nat.min_le_right k slotCeiling) hceiling

namespace Module

variable {m m' : Module} {method : String} {b : Body} {limit : Nat} {r : Redirected}

/-- At the start of a call site stands the expansion of a call whose callee has an identity. -/
theorem expansion_of_mem_callSites (hlocals : b.locals.length < 2 ^ 32)
    (hr : m.redirectBody method b limit = .ok r) {site : CallSite} (hsite : site ∈ r.callSites) :
    ∃ c callee, m.callee site.callee = .ok c ∧ m.identity? c.method = some callee ∧
      callee.declaringType = c.declaringType ∧ callee.signature = c.signature ∧
      c.method = site.callee ∧
      site.stop = site.start + callee.signature.expansionLength ∧
      ∀ k o, (c.expansion site.slots)[k]? = some o →
        (r.commit b).code[site.start + k]? = some (.op o) := by
  obtain ⟨c, hcode, hcallee, hslots, hstart, hstop⟩ := exists_of_mem_callSites hlocals hr hsite
  have hdescribe : m.describe (.call (.direct site.callee)) = .ok c := hcallee
  have hops : m.opsFor (m.slotsBefore b site.position) (.call (.direct site.callee)) =
      c.expansion site.slots := by
    rw [opsFor_of_describe hdescribe, hslots]
  obtain ⟨htarget, callee, hidentity, htype, hsignature⟩ := identity?_of_describe hdescribe
  have hlength : (c.expansion site.slots).length = callee.signature.expansionLength := by
    rw [hsignature]
    exact Callee.length_expansion (by simp [hslots, Callee.slotsFrom])
  refine ⟨c, callee, hcallee, hidentity, htype, hsignature, method_of_callee hcallee, ?_, ?_⟩
  · rw [hstop, place_succ hcode, hops, hlength, hstart]
  · intro k o ho
    rw [(redirectBody_eq_ok hlocals hr).1, hstart]
    exact getElem?_redirected hcode (hops ▸ ho)

/-- A frame that runs a redirected body is at an expansion wherever a call site starts. -/
theorem atExpansion_of_runs {σ : Type} (hmethods : m.methods.length < 2 ^ 32)
    (hlocals : b.locals.length < 2 ^ 32) (hlimit : limit < 2 ^ 31)
    (hr : m.redirectBody method b limit = .ok r) (hm' : m.Declares m') (host : Host σ)
    (limits : ExecutionLimits) {site : CallSite} (hsite : site ∈ r.callSites) {s : State σ}
    {labels : LabelIndex} (hruns : s.frame.Runs (r.commit b) labels)
    (hnext : s.frame.next = site.start)
    (hroom : s.steps + (site.stop - site.start) ≤ limits.steps) :
    ∃ c callee, m.callee site.callee = .ok c ∧ m.identity? site.callee = some callee ∧
      (Machine.load m' host limits).AtExpansion c site callee s := by
  obtain ⟨c, callee, hcallee, hidentity, htype, hsignature, hmethod, hstop, hpoints⟩ :=
    expansion_of_mem_callSites hlocals hr hsite
  obtain ⟨c', n, hcallee', hslots, hsize, hdeclared⟩ := slots_of_mem_callSites hlocals hr hsite
  cases hcallee.symm.trans hcallee'
  have hle := length_locals_le_of_mem_callSites hlocals hr hsite
  refine ⟨c, callee, hcallee, hmethod ▸ hidentity, ?_, ?_, hnext, hstop, hsignature, ?_, ?_⟩
  · rw [hslots, hruns.locals]
    exact Callee.readyFor_slotsFrom (hruns.declared ▸ hdeclared) (Nat.zero_le n) hsize
      (Nat.lt_of_le_of_lt hle hlimit)
  · intro k o ho
    rw [hruns.getElem?_code, hnext]
    exact hpoints k o ho
  · have hbuild : (Machine.load m' host limits).identities = .build m := hm'.build_eq
    rw [hbuild]
    exact (IdentityTable.resolve?_build_eq_some_iff hmethods).2 ⟨hidentity, htype⟩
  · rw [hstop, Nat.add_sub_cancel_left] at hroom
    exact hroom

end Module

namespace Machine

/-- In any state at a call site of a redirected body with steps enough for its expansion, the call
is dispatched exactly if the stack holds what the call passes on. -/
theorem callSite_dispatches {σ : Type} {m m' : Module} {b : Body} {name : String} {k : Nat}
    {r : Redirected} (hmethods : m.methods.length < 2 ^ 32) (hlocals : b.locals.length < 2 ^ 32)
    (hr : m.redirectBody name b (Redirector.withMaxLocals k).maxLocals = .ok r)
    (hm' : m.Declares m') (host : Host σ) (limits : ExecutionLimits) {site : CallSite}
    (hsite : site ∈ r.callSites) {s : State σ} {labels : LabelIndex}
    (hruns : s.frame.Runs (r.commit b) labels) (hnext : s.frame.next = site.start)
    (hroom : s.steps + (site.stop - site.start) ≤ limits.steps) :
    ∃ callee, m.identity? site.callee = some callee ∧
      (load m' host limits).Dispatches site callee s := by
  obtain ⟨c, callee, _, hidentity, hat⟩ := Module.atExpansion_of_runs hmethods hlocals
    (Redirector.maxLocals_withMaxLocals_lt k) hr hm' host limits hsite hruns hnext hroom
  exact ⟨callee, hidentity, hat.dispatches⟩

/-- The redirected form of a body with one call, with a stack at its call site. -/
def relayState (stack : List Value) : State Unit where
  frame := {
    method := "relay"
    returns := .value .int32
    code := relayRedirected.code.toArray
    labels := []
    declared := relayRedirected.newLocals.toArray
    args := #[.int32 7]
    locals := #[.null, .null, .null]
    stack := stack
    next := 1 }
  callers := []
  world := ⟨.empty, ()⟩
  steps := 1

def relayCallee : MethodIdentity := ⟨⟨0⟩, ⟨0⟩, "Calc", "twice", ⟨[.int32], .value .int32, true⟩⟩

def relayMachine : Machine Unit :=
  load (relay.setBody ⟨0⟩ (relayRedirected.commit relayBody)) echo .standard

/-- The world of the dispatch: an array of one argument was made in it. -/
def relayWorld : World Unit := ⟨⟨0, #[⟨.object, #[.boxed (.int32 7)]⟩]⟩, ()⟩

/-- A value of the right type is boxed and dispatched, and another one is not. -/
theorem callSite_dispatches_relay :
    relayMachine.asked 19 (relayState [.int32 7, .null]) =
        [.intercept ⟨0⟩ .null [.boxed (.int32 7)] relayCallee relayWorld] ∧
      (∃ L, relayMachine.after 19 (relayState [.int32 7, .null]) =
        .running ⟨{ (relayState []).frame with
          stack := [.int32 7, .null]
          locals := L
          next := 20 }, [], relayWorld, 20⟩) ∧
      relayMachine.asked 19 (relayState [.null, .int32 7]) = [] := by
  have hat (stack : List Value) : relayMachine.Dispatches ⟨1, ⟨0⟩, ⟨⟨0⟩, [⟨1⟩], ⟨2⟩⟩, 1, 20⟩
      relayCallee (relayState stack) := by
    have hroom : 1 + (20 - 1) ≤ ExecutionLimits.standard.steps := by decide
    obtain ⟨callee, hidentity, hdispatches⟩ := callSite_dispatches (by decide) (by decide)
      redirectBody_relay (relay.declares_setBody ⟨0⟩ (relayRedirected.commit relayBody)) echo
      .standard List.mem_cons_self (s := relayState stack) ⟨rfl, rfl, rfl, rfl⟩ rfl hroom
    cases hidentity
    exact hdispatches
  refine ⟨(hat _).asked.trans (if_pos (by decide)), ?_, (hat _).asked.trans (if_neg (by decide))⟩
  have hanswer : relayMachine.host.answer?
      (relayMachine.dispatchCall relayCallee (relayState [.int32 7, .null])) =
        some (.ok (some (.boxed (.int32 7))), relayWorld) := rfl
  obtain ⟨L, _, _, hafter⟩ := (hat [.int32 7, .null]).answered (by decide) hanswer (.value rfl)
  exact ⟨L, hafter⟩

/-- A body that calls with an array that lies in itself. -/
def ringBody : Body :=
  ⟨[.objectArray], selfStored ++ [.op (.ldloc ⟨0⟩), .call (.direct ⟨0⟩), .op .ret]⟩

def ring : Module where
  name := "ring"
  types := [⟨"Type", [⟨0⟩, ⟨1⟩]⟩]
  methods := [⟨⟨0⟩, "take", ⟨[.objectArray], .value .int32, true⟩, none⟩,
    ⟨⟨0⟩, "main", ⟨[], .value .int32, true⟩, some ringBody⟩]

def ringCallee : MethodIdentity :=
  ⟨⟨0⟩, ⟨0⟩, "Type", "take", ⟨[.objectArray], .value .int32, true⟩⟩

/-- The array comes back where a number is declared, and the cast is not reported. -/
theorem callSite_endless_of_answer :
    ∃ r, ring.redirectBody "main" ringBody (Redirector.withMaxLocals 8).maxLocals = .ok r ∧
      let M := load (ring.setBody ⟨1⟩ (r.commit ringBody)) echo .standard
      ∃ site ∈ r.callSites, ∃ s w c, M.Visits ⟨1⟩ [] ⟨.empty, ()⟩ s ∧
        s.frame.next = site.start ∧
        M.host.answer? (M.dispatchCall ringCallee s) = some (.ok (some (.array ⟨0⟩)), w) ∧
        M.after (site.stop - site.start) s = .ended c ∧ c.outcome = .error .endless := by
  refine ⟨_, rfl, _, List.mem_cons_self, _, _, _, ⟨_, _, rfl, .head rfl (.head rfl (.head rfl
    (.head rfl (.head rfl (.head rfl (.head rfl (.head rfl .refl)))))))⟩, rfl, rfl, rfl, rfl⟩

end Machine

end Interpose
