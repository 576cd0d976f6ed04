import Interpose.Proofs.Execution.Calls
import Interpose.Proofs.Execution.Functions
import Interpose.Proofs.Interception.Storable

/-!
# Lookups that do not fail

The checks of an image (`validate_tokens`) look at each token and each slot of its code once. That
is enough for every run: as long as the host hands out no function that the module does not have,
running code comes by none, and the machine finds every method and every local slot that it looks
for.
-/

namespace Interpose

/-! ### What the host is asked for -/

namespace Machine

variable {σ : Type}

/-- What the host answers at a state, and the frame that is to go on with the answer. -/
inductive HostAnswers (M : Machine σ) (s : State σ) :
    Frame → Except (NoAnswer Fault) (Option Value) → World σ → Prop
  | native {i g t args w answer w'} (code : s.frame.code[s.frame.next]? = some i)
      (room : s.steps < M.limits.steps) (exec : M.exec s.frame.advance s.world i = .call g t args w)
      (native : M.NativeAnswers t args (s.callers.length + 1) w answer w') :
      M.HostAnswers s g answer w'
  | interceptor {d g v w'} (code : s.frame.code[s.frame.next]? = some (.op .intercept))
      (room : s.steps < M.limits.steps) (pop : popDispatch s.frame.advance = .ok (d, g))
      (intercept : M.host.intercept d.interceptor d.receiver
        (s.world.heap.items d.arguments).toList d.identity s.world = (.ok v, w')) :
      M.HostAnswers s g (.ok (some v)) w'

/-- What the host hands out at a state leads to no function that the module does not have, and the
host stores no such function where the frames that go on can reach it. -/
def HostKeeps (M : Machine σ) (s : State σ) : Prop :=
  ∀ g answer w', M.HostAnswers s g (.ok answer) w' →
    (∀ v ∈ answer, w'.heap.FunctionsWithin M.module.methods.length v) ∧
    ∀ f ∈ g :: s.callers, f.FunctionsWithin M.module.methods.length s.world.heap →
      f.FunctionsWithin M.module.methods.length w'.heap

/-- A method of the host that is called in the course of a call ends the run with a fault. -/
def HostRaises (M : Machine σ) (t : MethodToken) (args : List Value) (w : World σ) (e : Fault) :
    Prop :=
  (∃ w', M.NativeAnswers t args 0 w (.error (.error e)) w') ∨
    ∃ s g w', M.Visits t args w s ∧ M.HostAnswers s g (.error (.error e)) w'

end Machine

/-! ### Frames of a module -/

/-- A frame that runs code of the module and can reach only functions of the module. -/
structure Frame.Fit (m : Module) (h : Heap) (f : Frame) : Prop where
  code (k : Nat) (i : Instr) (hi : f.code[k]? = some i) :
    i.Within m.types.length m.methods.length f.locals.size
  declared : f.declared.size = f.locals.size
  functions : f.FunctionsWithin m.methods.length h

namespace Frame.Fit

variable {m : Module} {h h' : Heap} {f f' : Frame}

theorem continues {target : Option Label} (hf : f.Fit m h) (hcontinues : f.Continues target f')
    (hfunctions : f'.FunctionsWithin m.methods.length h') : f'.Fit m h' := by
  refine ⟨?_, ?_, hfunctions⟩
  · rw [hcontinues.code, hcontinues.locals]
    exact hf.code
  · rw [hcontinues.declared, hcontinues.locals]
    exact hf.declared

theorem within (hf : f.Fit m h) (hfunctions : f.FunctionsWithin m.methods.length h') :
    f.Fit m h' :=
  ⟨hf.code, hf.declared, hfunctions⟩

theorem advance (hf : f.Fit m h) : f.advance.Fit m h :=
  ⟨hf.code, hf.declared, hf.functions.stack, hf.functions.args, hf.functions.locals⟩

theorem resume {v : Option Value} (hf : f.Fit m h)
    (hv : ∀ u ∈ v, h.FunctionsWithin m.methods.length u) : (Machine.resume f v).Fit m h := by
  cases v with
  | none => exact hf
  | some u => exact ⟨hf.code, hf.declared, hf.functions.push (hv u rfl)⟩

theorem enter {name : String} {s : Signature} {b : Body} {args : List Value}
    (hb : b.Within m.types.length m.methods.length)
    (hargs : ∀ v ∈ args, h.FunctionsWithin m.methods.length v)
    (henter : Frame.enter name s b args = .ok f) : f.Fit m h := by
  obtain ⟨_, _, rfl⟩ := Frame.enter_eq_ok_iff.1 henter
  refine ⟨fun k i hi => ?_, ?_, fun v hv => (nomatch hv), fun v hv => ?_, fun v hv => ?_⟩
  · rw [List.getElem?_toArray] at hi
    have hwithin := hb.code i (List.mem_of_getElem? hi)
    simpa using hwithin
  · simp
  · exact hargs v (by simpa using hv)
  · obtain ⟨t, _, rfl⟩ : ∃ t ∈ b.locals, Value.default t = v := by simpa using hv
    exact Heap.functionsWithin_default t

end Frame.Fit

namespace Machine

variable {σ : Type} {M : Machine σ} {t : MethodToken} {args : List Value} {depth : Nat}
  {w w' : World σ} {s s' : State σ} {f g : Frame}

/-! ### Entering methods -/

/-- A method that exists is refused for other reasons, or by the host. -/
theorem enter_eq_stop {e : Fault} (ht : t.position < M.module.methods.length)
    (h : M.enter t args depth w = .stop (.fault e) w') (he : e.isMissing = true) :
    M.NativeAnswers t args depth w (.error (.error e)) w' := by
  have present {x : Stop} (hx : x.isMissing = false) : Stop.fault e ≠ x := by
    rintro rfl
    exact Bool.false_ne_true (hx.symm.trans he)
  generalize hstop : Stop.fault e = x at h
  cases entryFails_of_enter h with
  | depth | label | unregistered => exact absurd hstop (present rfl)
  | args hrejects => exact absurd hstop (present (isMissing_of_rejects hrejects))
  | method hnone =>
    rw [Module.method?, List.getElem?_eq_getElem ht] at hnone
    cases hnone
  | @native answer _ answers =>
    cases answer with
    | error x =>
      cases hstop
      exact answers
    | endless => cases hstop

theorem fit_of_enter (hm : M.module.Closed) (hargs : ∀ v ∈ args,
    w.heap.FunctionsWithin M.module.methods.length v) (h : M.enter t args depth w = .body f w') :
    f.Fit M.module w'.heap := by
  obtain ⟨_, rfl, d, b, hd, hb, _, henter⟩ := enter_eq_body_iff.1 h
  have hwithin := (hm.methods d (List.mem_of_getElem? hd)).body b hb
  exact .enter hwithin hargs henter

/-! ### Steps -/

/-- Every frame of a state runs code of the module and can reach only functions of the module. -/
def FitState (M : Machine σ) (s : State σ) : Prop :=
  ∀ f ∈ s.frame :: s.callers, f.Fit M.module s.world.heap

theorem safe_exec_of_fit (hs : M.FitState s) (hhost : M.HostKeeps s) {i : Instr}
    (code : s.frame.code[s.frame.next]? = some i) (room : s.steps < M.limits.steps) :
    (M.exec s.frame.advance s.world i).Safe M.module.methods.length s.callers s.world := by
  obtain ⟨hframe, hcallers⟩ := List.forall_mem_cons.1 hs
  have hadvance := hframe.advance
  refine safe_exec hadvance.functions (fun f hf => (hcallers f hf).functions) hadvance.declared
    (hadvance.code _ _ code) fun d g hi hpop v w' hanswer => ?_
  subst hi
  have hkeeps := hhost g (some v) w' (.interceptor code room hpop hanswer)
  exact ⟨hkeeps.1 v rfl, hkeeps.2⟩

/-- A step to a state of that kind, or an end that is not due to something missing unless the host
gave it for its answer. -/
def FitNext (M : Machine σ) (s : State σ) : Next σ → Prop
  | .running s' => M.FitState s'
  | .ended c => ∀ e, c.outcome = .error (.fault e) → e.isMissing = true →
    ∃ g w', M.HostAnswers s g (.error (.error e)) w'

theorem fit_stop {e : Stop} {n : Nat} (he : e.isMissing = false) :
    M.FitNext s (.ended ⟨.error e, w, n⟩) := by
  intro x hx hmissing
  have hfault : e = .fault x := Except.error.inj hx
  subst hfault
  exact absurd (he.symm.trans hmissing) Bool.false_ne_true

theorem fit_leave {callers : List Frame} {n : Nat} {v : Option Value}
    (hcallers : ∀ f ∈ callers, f.Fit M.module w.heap)
    (hv : ∀ u ∈ v, w.heap.FunctionsWithin M.module.methods.length u) :
    M.FitNext s (leave callers n v w) := by
  cases callers with
  | nil =>
    intro e he
    cases he
  | cons f callers =>
    obtain ⟨hf, hcallers⟩ := List.forall_mem_cons.1 hcallers
    exact List.forall_mem_cons.2 ⟨hf.resume hv, hcallers⟩

theorem fit_proceed (hs : M.FitState s) (hhost : M.HostKeeps s) {i : Instr}
    (code : s.frame.code[s.frame.next]? = some i) (room : s.steps < M.limits.steps)
    (exec : M.exec s.frame.advance s.world i = .proceed f w') (n : Nat) :
    M.FitState ⟨f, s.callers, w', n⟩ := by
  obtain ⟨hframe, hcallers⟩ := List.forall_mem_cons.1 hs
  have hsafe := safe_exec_of_fit hs hhost code room
  rw [exec] at hsafe
  obtain ⟨hf, hbelow⟩ := List.forall_mem_cons.1 hsafe
  have hf' : f.Fit M.module w'.heap :=
    hframe.advance.continues (Frame.Continues.of_exec exec) hf
  exact List.forall_mem_cons.2 ⟨hf', fun g hg => (hcallers g hg).within (hbelow g hg)⟩

theorem fit_call (hm : M.module.Closed) (hs : M.FitState s) (hhost : M.HostKeeps s) {i : Instr}
    (code : s.frame.code[s.frame.next]? = some i) (room : s.steps < M.limits.steps)
    (exec : M.exec s.frame.advance s.world i = .call g t args w) (n : Nat) :
    M.FitNext s (M.serve s.callers n (.call g t args w)) := by
  obtain ⟨hframe, hcallers⟩ := List.forall_mem_cons.1 hs
  have hsafe := safe_exec_of_fit hs hhost code room
  rw [exec] at hsafe
  obtain ⟨rfl, ht, hargs, hfunctions⟩ := hsafe
  have hg : g.Fit M.module s.world.heap :=
    hframe.advance.continues (continues_of_exec_call exec) hfunctions
  simp only [serve]
  cases entry : M.enter t args (s.callers.length + 1) s.world with
  | body callee w₁ =>
    have hcallee := fit_of_enter hm hargs entry
    obtain ⟨_, rfl, _⟩ := enter_eq_body_iff.1 entry
    exact List.forall_mem_cons.2 ⟨hcallee, List.forall_mem_cons.2 ⟨hg, hcallers⟩⟩
  | result v w₁ =>
    -- while the host was asked, `g` and the frames below it were waiting
    have hkeeps := hhost g v w₁ (.native code room exec (enter_eq_result_iff.1 entry))
    have hg' := hg.within (hkeeps.2 g List.mem_cons_self hg.functions)
    refine List.forall_mem_cons.2 ⟨hg'.resume hkeeps.1, fun f hf => ?_⟩
    have hf' := hcallers f hf
    exact hf'.within (hkeeps.2 f (List.mem_cons_of_mem _ hf) hf'.functions)
  | stop e w₁ =>
    intro x hx hmissing
    cases hx
    exact ⟨g, w₁, .native code room exec (enter_eq_stop ht entry hmissing)⟩

theorem fit_step (hm : M.module.Closed) (hs : M.FitState s) (hhost : M.HostKeeps s) :
    M.FitNext s (M.step s) := by
  have hcallers := (List.forall_mem_cons.1 hs).2
  cases code : s.frame.code[s.frame.next]? with
  | none =>
    simp only [step, code, Frame.ending]
    cases s.frame.returns with
    | void => exact fit_leave hcallers fun u hu => absurd hu (Option.not_mem_none u)
    | value type => exact fit_stop rfl
  | some i =>
    by_cases room : s.steps < M.limits.steps
    · have hsafe := safe_exec_of_fit hs hhost code room
      rw [step_of_exec code room]
      cases exec : M.exec s.frame.advance s.world i with
      | proceed f w' => exact fit_proceed hs hhost code room exec (s.steps + 1)
      | call g t args w' => exact fit_call hm hs hhost code room exec (s.steps + 1)
      | leave v w' =>
        rw [exec] at hsafe
        obtain ⟨rfl, hv⟩ := hsafe
        exact fit_leave hcallers hv
      | stop e w' =>
        rw [exec] at hsafe
        exact fit_stop hsafe
    · simp only [step, code, if_pos (Nat.le_of_not_lt room)]
      exact fit_stop rfl

/-! ### Runs -/

theorem fit_of_visits (hm : M.module.Closed)
    (hargs : ∀ v ∈ args, w.heap.FunctionsWithin M.module.methods.length v)
    (hhost : ∀ s, M.Visits t args w s → M.HostKeeps s) (hs : M.Visits t args w s) :
    M.FitState s := by
  obtain ⟨f, w₁, entry, hreaches⟩ := hs
  induction hreaches with
  | refl =>
    have hf := fit_of_enter hm hargs entry
    exact List.forall_mem_cons.2 ⟨hf, fun g hg => (nomatch hg)⟩
  | @tail s s' hreaches hstep ih =>
    have hnext := fit_step hm ih (hhost s ⟨f, w₁, entry, hreaches⟩)
    rw [hstep] at hnext
    exact hnext

/-- A run ends at a state that it visits, unless it runs out of steps. -/
theorem runFor_cases (M : Machine σ) (fuel : Nat) (s : State σ) :
    (∃ s', M.Reaches s s' ∧ M.step s' = .ended (M.runFor fuel s)) ∨
      (M.runFor fuel s).outcome = .error (.fault (.stepLimitExceeded M.limits.steps)) := by
  induction fuel generalizing s with
  | zero => exact .inr rfl
  | succ fuel ih =>
    unfold runFor
    cases hstep : M.step s with
    | ended c => exact .inl ⟨s, .refl, hstep⟩
    | running s₁ =>
      rcases ih s₁ with ⟨s', hreaches, hended⟩ | hlimit
      · exact .inl ⟨s', .head hstep hreaches, hended⟩
      · exact .inr hlimit

theorem hostRaises_of_invoke (hm : M.module.Closed) (ht : t.position < M.module.methods.length)
    (hargs : ∀ v ∈ args, w.heap.FunctionsWithin M.module.methods.length v)
    (hhost : ∀ s, M.Visits t args w s → M.HostKeeps s) {e : Fault}
    (he : (M.invoke t args w).outcome = .error (.fault e)) (hmissing : e.isMissing = true) :
    M.HostRaises t args w e := by
  unfold invoke at he
  cases entry : M.enter t args 0 w with
  | result v w₁ => rw [entry] at he; cases he
  | stop x w₁ =>
    rw [entry] at he
    cases he
    exact .inl ⟨w₁, enter_eq_stop ht entry hmissing⟩
  | body f w₁ =>
    rw [entry] at he
    simp only at he
    rcases M.runFor_cases M.fuel ⟨f, [], w₁, 0⟩ with ⟨s, hreaches, hended⟩ | hlimit
    · have hs : M.Visits t args w s := ⟨f, w₁, entry, hreaches⟩
      have hnext := fit_step hm (fit_of_visits hm hargs hhost hs) (hhost s hs)
      rw [hended] at hnext
      obtain ⟨g, w', hanswer⟩ := hnext e he hmissing
      exact .inr ⟨s, g, w', hs, hanswer⟩
    · cases hlimit.symm.trans he
      cases hmissing

/-- The checks of an image are enough for running what it holds, redirected or not. If the host
hands out no function that the module does not have, running code comes by none, and no lookup of a
method or of a local slot fails. A run that still ends with such a fault got it from the host. -/
theorem lookups_succeed {limits : Image.Limits} {bytes : List UInt8} {m : Module}
    (hread : Image.decodeWithin limits bytes = .ok m) (hm : m.Becomes M.module)
    (ht : t.position < M.module.methods.length)
    (hargs : ∀ v ∈ args, w.heap.FunctionsWithin M.module.methods.length v)
    (hhost : ∀ s, M.Visits t args w s → M.HostKeeps s) :
    (∀ s, M.Visits t args w s → ∀ f ∈ s.frame :: s.callers, ∀ u,
      .function u ∈ f.stack ∨ .function u ∈ f.args → u.position < M.module.methods.length) ∧
    ∀ e, (M.invoke t args w).outcome = .error (.fault e) → e.isMissing = true →
      M.HostRaises t args w e := by
  have hclosed := (hm.storable (Image.storable_of_decodeWithin hread)).closed
  refine ⟨fun s hs f hf u hu => ?_, fun e he => hostRaises_of_invoke hclosed ht hargs hhost he⟩
  have hfunctions := (fit_of_visits hclosed hargs hhost hs f hf).functions
  rcases hu with hu | hu
  · exact Heap.functionsWithin_function.1 (hfunctions.stack _ hu)
  · exact Heap.functionsWithin_function.1 (hfunctions.args _ hu)

/-- A module with a call of a function that the host chooses. -/
def chooser : Module :=
  ⟨"chooser", [⟨"Type", [⟨0⟩, ⟨1⟩, ⟨2⟩, ⟨3⟩]⟩],
    [⟨⟨0⟩, "start", ⟨[], .void, true⟩,
        some ⟨[], [.call (.direct ⟨1⟩), .call (.indirect 0), .op .ret]⟩⟩,
      ⟨⟨0⟩, "choose", ⟨[], .value .object, true⟩, none⟩,
      ⟨⟨0⟩, "chosen", ⟨[], .void, true⟩, some ⟨[], [.call (.direct ⟨3⟩), .op .ret]⟩⟩,
      ⟨⟨0⟩, "log", ⟨[], .void, true⟩, none⟩]⟩

/-- The method that the host chooses makes its call through an interceptor. -/
def redirectedChooser : Module := (Redirector.standard.perform chooser (.method ⟨2⟩)).module

def choosing : Host Unit where
  installed _ := ⟨0⟩
  intercept _ _ _ _ w := (.ok .null, w)
  native? t := some fun _ w => (.ok (if t = ⟨1⟩ then some (.function ⟨2⟩) else none), w)

theorem hostKeeps_choosing {limits : ExecutionLimits} (s : State Unit) :
    (load redirectedChooser choosing limits).HostKeeps s := by
  intro g answer w' h
  cases h with
  | @native i _ t args w _ _ code room exec native =>
    obtain ⟨_, d, run, _, _, _, hrun, hanswer⟩ := native
    obtain rfl := world_of_exec_call exec
    cases hrun
    cases hanswer
    refine ⟨fun v hv => ?_, fun f _ hf => hf⟩
    have hchosen : v = .function ⟨2⟩ := by
      split at hv
      · exact (Option.some.inj hv).symm
      · cases hv
    have hposition : MethodToken.position ⟨2⟩ < redirectedChooser.methods.length := by decide
    rw [hchosen]
    exact Heap.functionsWithin_function.2 hposition
  | interceptor code room pop intercept =>
    cases intercept
    refine ⟨fun v hv => ?_, fun f _ hf => hf⟩
    cases hv
    exact .of_isClosed rfl

theorem lookups_succeed_chooser :
    let M := load redirectedChooser choosing ⟨2, 100, by decide⟩
    let w : World Unit := ⟨.empty, ()⟩
    Image.decodeWithin .standard (Image.encode chooser) = .ok chooser ∧
      chooser.Becomes redirectedChooser ∧ (M.invoke ⟨0⟩ [] w).outcome = .ok none ∧
      ∀ s, M.Visits ⟨0⟩ [] w s → ∀ f ∈ s.frame :: s.callers, ∀ u,
        .function u ∈ f.stack ∨ .function u ∈ f.args → u.position < 4 := by
  intro M w
  have hread : Image.decodeWithin .standard (Image.encode chooser) = .ok chooser := by
    decide +kernel
  have hm : chooser.Becomes redirectedChooser := .step .refl 65534 (.method ⟨2⟩)
  have houtcome : (M.invoke ⟨0⟩ [] w).outcome = .ok none := by decide +kernel
  have hstart : MethodToken.position ⟨0⟩ < M.module.methods.length := by decide
  have hargs : ∀ v ∈ ([] : List Value), w.heap.FunctionsWithin M.module.methods.length v :=
    fun v hv => (nomatch hv)
  have hhost : ∀ s, M.Visits ⟨0⟩ [] w s → M.HostKeeps s := fun s _ => hostKeeps_choosing s
  have hboth := lookups_succeed hread hm hstart hargs hhost
  exact ⟨hread, hm, houtcome, hboth.1⟩

end Machine

end Interpose
