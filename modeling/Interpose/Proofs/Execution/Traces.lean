import Interpose.Proofs.Execution.Calls

/-!
# The states of a run and its calls of the host

A run has a trace: the states that it goes through, from the entry of the method to its end. Code
turns to the host in two places, where a call comes to a method without a body (the natives of
`Machine::call`) and where an instruction intercepts (`Interceptor::intercept`). The trace tells
what the host is asked, and the host has no other part in the run.
-/

namespace Interpose

/-- What a host is asked, and the world it is asked in. -/
inductive HostCall (σ : Type) where
  | native (method : MethodToken) (args : List Value) (world : World σ)
  | intercept (interceptor : InterceptorId) (receiver : Value) (args : List Value)
      (identity : MethodIdentity) (world : World σ)

/-- The answer of a host, and the world it leaves behind. -/
def Host.answer? {σ : Type} (H : Host σ) :
    HostCall σ → Option (Except (NoAnswer Fault) (Option Value) × World σ)
  | .native t args w => (H.native? t).map fun run => run args w
  | .intercept i receiver args identity w =>
    match H.intercept i receiver args identity w with
    | (.ok v, w) => some (.ok (some v), w)
    | (.error e, w) => some (.error (e.map .intercept), w)

/-- Hosts with the same interceptor installed and implementations of the same methods. -/
structure Host.ServesLike {σ : Type} (H H' : Host σ) : Prop where
  installed : H.installed = H'.installed
  native (t : MethodToken) : (H.native? t).isSome = (H'.native? t).isSome

theorem NoAnswer.eq_of_map_eq {ε ε' : Type} {g : ε → ε'} (hg : Function.Injective g)
    {e e' : NoAnswer ε} (h : e.map g = e'.map g) : e = e' := by
  cases e with
  | error x =>
    cases e' with
    | error x' =>
      injection h with h
      rw [hg h]
    | endless => cases h
  | endless =>
    cases e' with
    | error x' => cases h
    | endless => rfl

theorem Host.intercept_eq_of_answer? {σ : Type} {H H' : Host σ} {i : InterceptorId}
    {receiver : Value} {args : List Value} {identity : MethodIdentity} {w : World σ}
    (h : H.answer? (.intercept i receiver args identity w) =
      H'.answer? (.intercept i receiver args identity w)) :
    H.intercept i receiver args identity w = H'.intercept i receiver args identity w := by
  simp only [Host.answer?] at h
  generalize H.intercept i receiver args identity w = a at h ⊢
  generalize H'.intercept i receiver args identity w = b at h ⊢
  obtain ⟨answer, w₁⟩ := a
  obtain ⟨answer', w₂⟩ := b
  cases answer with
  | ok v =>
    cases answer' with
    | ok v' => cases h; rfl
    | error e => cases h
  | error e =>
    cases answer' with
    | ok v => cases h
    | error e' =>
      simp only [Option.some.injEq, Prod.mk.injEq, Except.error.injEq] at h
      rw [NoAnswer.eq_of_map_eq (fun _ _ => Fault.intercept.inj) h.1, h.2]

namespace Machine

variable {σ : Type}

/-! ### What the host is asked -/

/-- The checks of a call, before its method is entered. -/
def checkEntry (M : Machine σ) (t : MethodToken) (args : List Value) (depth : Nat) (w : World σ) :
    Except Stop MethodDef :=
  if M.limits.callDepth ≤ depth then .error (.fault (.callDepthExceeded M.limits.callDepth))
  else
    match M.module.method? t with
    | none => .error (.fault (.methodNotFound t.text))
    | some d =>
      match checkCall w.heap (M.module.qualifiedName t) d.signature args with
      | .error e => .error e
      | .ok () => .ok d

theorem enter_eq_checkEntry (M : Machine σ) (t : MethodToken) (args : List Value) (depth : Nat)
    (w : World σ) : M.enter t args depth w =
      match M.checkEntry t args depth w with
      | .error e => .stop e w
      | .ok d => M.enterChecked t d args w := by
  unfold enter checkEntry
  by_cases hdepth : M.limits.callDepth ≤ depth
  · rw [if_pos hdepth, if_pos hdepth]
  · rw [if_neg hdepth, if_neg hdepth]
    cases M.module.method? t with
    | none => rfl
    | some d =>
      simp only
      cases checkCall w.heap (M.module.qualifiedName t) d.signature args with
      | error e => rfl
      | ok u => rfl

/-- The call of the host that entering a method makes. -/
def entryCall? (M : Machine σ) (t : MethodToken) (args : List Value) (depth : Nat) (w : World σ) :
    Option (HostCall σ) :=
  match M.checkEntry t args depth w with
  | .error _ => none
  | .ok d =>
    if d.body.isNone && (M.host.native? t).isSome then some (.native t args w) else none

/-- The call of the host that an instruction makes in a frame that already points behind it. -/
def instrCall? (M : Machine σ) (f : Frame) (depth : Nat) (w : World σ) :
    Instr → Option (HostCall σ)
  | .op .intercept =>
    match popDispatch f with
    | .ok (d, _) =>
      some (.intercept d.interceptor d.receiver (w.heap.items d.arguments).toList d.identity w)
    | .error _ => none
  | .op _ => none
  | .call target =>
    match M.callArgs f target with
    | .ok (t, args, _) => M.entryCall? t args (depth + 1) w
    | .error _ => none

def executed? (M : Machine σ) (s : State σ) : Option Instr :=
  if M.limits.steps ≤ s.steps then none else s.frame.code[s.frame.next]?

/-- The call of the host that a step makes. -/
def hostCall? (M : Machine σ) (s : State σ) : Option (HostCall σ) :=
  (M.executed? s).bind (M.instrCall? s.frame.advance s.callers.length s.world)

variable {M : Machine σ} {t : MethodToken} {args : List Value} {depth : Nat} {w : World σ}
  {s s' : State σ}

theorem executed?_eq_some_iff {i : Instr} : M.executed? s = some i ↔
    s.steps < M.limits.steps ∧ s.frame.code[s.frame.next]? = some i := by
  unfold executed?
  by_cases hlimit : M.limits.steps ≤ s.steps
  · rw [if_pos hlimit]
    exact ⟨fun h => (nomatch h), fun h => absurd h.1 (Nat.not_lt_of_le hlimit)⟩
  · rw [if_neg hlimit]
    exact ⟨fun h => ⟨Nat.lt_of_not_le hlimit, h⟩, fun h => h.2⟩

theorem step_of_executed? {i : Instr} (h : M.executed? s = some i) :
    M.step s = M.serve s.callers (s.steps + 1) (M.exec s.frame.advance s.world i) := by
  obtain ⟨room, code⟩ := executed?_eq_some_iff.1 h
  exact step_of_exec code room

/-- Behind the last instruction, a frame is left for the one below it, or the run ends. -/
def runOff (s : State σ) : Next σ :=
  match s.frame.ending with
  | .ok v => leave s.callers s.steps v s.world
  | .error e => .ended ⟨.error e, s.world, s.steps⟩

theorem step_of_code_eq_none (h : s.frame.code[s.frame.next]? = none) : M.step s = runOff s := by
  simp only [step, h]
  rfl

/-- A step without an instruction comes behind the end of the code or to the limit on steps. -/
theorem step_of_executed?_eq_none (h : M.executed? s = none) :
    s.frame.code[s.frame.next]? = none ∨
      M.step s = .ended
        ⟨.error (.fault (.stepLimitExceeded M.limits.steps)), s.world, s.steps⟩ := by
  unfold executed? at h
  split at h
  · rename_i hlimit
    cases hcode : s.frame.code[s.frame.next]? with
    | none => exact .inl rfl
    | some i => exact .inr (by simp only [step, hcode, if_pos hlimit])
  · exact .inl h

/-- A step on the way leaves a frame behind the end of its code, or executes an instruction. -/
theorem step_running_cases (h : M.step s = .running s') :
    (M.executed? s = none ∧ ∃ v, leave s.callers s.steps v s.world = .running s') ∨
      ∃ i, M.executed? s = some i ∧
        M.serve s.callers (s.steps + 1) (M.exec s.frame.advance s.world i) = .running s' := by
  cases hi : M.executed? s with
  | none =>
    rcases step_of_executed?_eq_none hi with hcode | hlimit
    · rw [step_of_code_eq_none hcode, runOff] at h
      split at h
      · exact .inl ⟨rfl, _, h⟩
      · cases h
    · cases hlimit.symm.trans h
  | some i => exact .inr ⟨i, rfl, (step_of_executed? hi).symm.trans h⟩

/-- How a step ends a run: with a result, without an instruction to execute, in an instruction, or
where a call enters its method. -/
inductive StepEnds (M : Machine σ) (s : State σ) : Except Stop (Option Value) → Prop
  | result {v : Option Value} : M.StepEnds s (.ok v)
  | fault {e : Fault} : M.StepEnds s (.error (.fault e))
  | instr {i : Instr} {e : Stop} {w' : World σ} (executed : M.executed? s = some i)
      (exec : M.exec s.frame.advance s.world i = .stop e w') : M.StepEnds s (.error e)
  | entry {i : Instr} {g : Frame} {u : MethodToken} {values : List Value} {e : Stop}
      {w₁ w₂ : World σ} (executed : M.executed? s = some i)
      (exec : M.exec s.frame.advance s.world i = .call g u values w₁)
      (entry : M.enter u values (s.callers.length + 1) w₁ = .stop e w₂) : M.StepEnds s (.error e)

theorem outcome_of_leave_ended {callers : List Frame} {n : Nat} {v : Option Value}
    {c : Completion σ} (h : leave callers n v w = .ended c) : c.outcome = .ok v := by
  cases callers with
  | nil =>
    cases h
    rfl
  | cons f callers => cases h

theorem stepEnds_of_step {c : Completion σ} (h : M.step s = .ended c) :
    M.StepEnds s c.outcome := by
  cases hi : M.executed? s with
  | none =>
    rcases step_of_executed?_eq_none hi with hcode | hlimit
    · rw [step_of_code_eq_none hcode, runOff] at h
      split at h
      · exact outcome_of_leave_ended h ▸ .result
      · rename_i e hend
        cases h
        unfold Frame.ending at hend
        split at hend <;> cases hend
        exact .fault
    · cases hlimit.symm.trans h
      exact .fault
  | some i =>
    rw [step_of_executed? hi] at h
    cases exec : M.exec s.frame.advance s.world i with
    | proceed f w => rw [exec] at h; cases h
    | leave v w =>
      rw [exec] at h
      exact outcome_of_leave_ended h ▸ .result
    | stop e w =>
      rw [exec] at h
      cases h
      exact .instr hi exec
    | call g u values w =>
      simp only [exec, serve] at h
      split at h <;> cases h
      rename_i entry
      exact .entry hi exec entry

theorem hostCall?_of_executed? {i : Instr} (h : M.executed? s = some i) :
    M.hostCall? s = M.instrCall? s.frame.advance s.callers.length s.world i := by
  rw [hostCall?, h, Option.bind_some]

/-! ### Traces -/

/-- The states of a run from a state on, and how it ends. -/
inductive Runs (M : Machine σ) : State σ → List (State σ) → Completion σ → Prop
  | last {s c} (ended : M.step s = .ended c) : M.Runs s [s] c
  | more {s s' states c} (running : M.step s = .running s') (rest : M.Runs s' states c) :
      M.Runs s (s :: states) c

/-- The states of a whole run. There are none where no frame is opened. -/
inductive Traces (M : Machine σ) (t : MethodToken) (args : List Value) (w : World σ) :
    List (State σ) → Completion σ → Prop
  | body {f w' states c} (entry : M.enter t args 0 w = .body f w')
      (run : M.Runs ⟨f, [], w', 0⟩ states c) : M.Traces t args w states c
  | result {v w'} (entry : M.enter t args 0 w = .result v w') :
      M.Traces t args w [] ⟨.ok v, w', 0⟩
  | stop {e w'} (entry : M.enter t args 0 w = .stop e w') :
      M.Traces t args w [] ⟨.error e, w', 0⟩

/-- The calls of the host in the course of a run with these states. -/
def hostCalls (M : Machine σ) (t : MethodToken) (args : List Value) (w : World σ)
    (states : List (State σ)) : List (HostCall σ) :=
  (M.entryCall? t args 0 w).toList ++ states.filterMap M.hostCall?

variable {c c' : Completion σ} {states states' : List (State σ)}

theorem Runs.unique (h : M.Runs s states c) (h' : M.Runs s states' c') :
    states = states' ∧ c = c' := by
  induction h generalizing states' with
  | last ended =>
    cases h' with
    | last ended' =>
      cases ended.symm.trans ended'
      exact ⟨rfl, rfl⟩
    | more running' rest' => cases ended.symm.trans running'
  | more running rest ih =>
    cases h' with
    | last ended' => cases running.symm.trans ended'
    | more running' rest' =>
      cases running.symm.trans running'
      obtain ⟨rfl, rfl⟩ := ih rest'
      exact ⟨rfl, rfl⟩

theorem Runs.reaches (h : M.Runs s states c) (hs : s' ∈ states) : M.Reaches s s' := by
  induction h with
  | last ended =>
    rw [List.mem_singleton.1 hs]
    exact .refl
  | more running rest ih =>
    rcases List.mem_cons.1 hs with rfl | hs
    · exact .refl
    · exact .head running (ih hs)

theorem Runs.ends (h : M.Runs s states c) :
    ∃ s', states.getLast? = some s' ∧ M.step s' = .ended c := by
  induction h with
  | last ended => exact ⟨_, rfl, ended⟩
  | more running rest ih =>
    obtain ⟨s', hs', ended⟩ := ih
    exact ⟨s', by rw [List.getLast?_cons, hs', Option.getD_some], ended⟩

theorem Traces.unique (h : M.Traces t args w states c) (h' : M.Traces t args w states' c') :
    states = states' ∧ c = c' := by
  cases h with
  | body entry run =>
    cases h' with
    | body entry' run' =>
      cases entry.symm.trans entry'
      exact run.unique run'
    | result entry' => cases entry.symm.trans entry'
    | stop entry' => cases entry.symm.trans entry'
  | result entry =>
    cases h' with
    | result entry' =>
      cases entry.symm.trans entry'
      exact ⟨rfl, rfl⟩
    | body entry' run' => cases entry.symm.trans entry'
    | stop entry' => cases entry.symm.trans entry'
  | stop entry =>
    cases h' with
    | stop entry' =>
      cases entry.symm.trans entry'
      exact ⟨rfl, rfl⟩
    | body entry' run' => cases entry.symm.trans entry'
    | result entry' => cases entry.symm.trans entry'

theorem Traces.visits (h : M.Traces t args w states c) (hs : s ∈ states) :
    M.Visits t args w s := by
  cases h with
  | body entry run => exact ⟨_, _, entry, run.reaches hs⟩
  | result entry => cases hs
  | stop entry => cases hs

/-! ### A run depends on the answers of the host alone -/

def withHost (M : Machine σ) (H : Host σ) : Machine σ := { M with host := H }

variable {H : Host σ}

theorem enter_withHost (hH : H.ServesLike M.host)
    (hanswer : ∀ c ∈ M.entryCall? t args depth w, H.answer? c = M.host.answer? c) :
    (M.withHost H).enter t args depth w = M.enter t args depth w := by
  have hsame : (M.withHost H).checkEntry t args depth w = M.checkEntry t args depth w := rfl
  rw [enter_eq_checkEntry, enter_eq_checkEntry, hsame]
  unfold entryCall? at hanswer
  cases hd : M.checkEntry t args depth w with
  | error e => rfl
  | ok d =>
    rw [hd] at hanswer
    simp only [enterChecked]
    cases hb : d.body with
    | some b => rfl
    | none =>
      have hisSome := hH.native t
      simp only [withHost]
      cases hrun : M.host.native? t with
      | none =>
        rw [hrun, Option.isSome_none, Option.isSome_eq_false_iff, Option.isNone_iff_eq_none]
          at hisSome
        rw [hisSome]
      | some run =>
        rw [hrun, Option.isSome_some, Option.isSome_iff_exists] at hisSome
        obtain ⟨run', hrun'⟩ := hisSome
        have hcall := hanswer (.native t args w) (by simp [hb, hrun])
        have hanswers : run' args w = run args w := by
          simpa [Host.answer?, hrun, hrun'] using hcall
        rw [hrun']
        simp only [hanswers]

theorem ask_withHost {f : Frame} {d : Dispatch}
    (hanswer : H.answer? (.intercept d.interceptor d.receiver (w.heap.items d.arguments).toList
      d.identity w) = M.host.answer? (.intercept d.interceptor d.receiver
      (w.heap.items d.arguments).toList d.identity w)) :
    (M.withHost H).ask f w d = M.ask f w d := by
  have hsame := Host.intercept_eq_of_answer? hanswer
  simp only [ask, withHost, hsame]

theorem exec_withHost {f : Frame} {i : Instr} (hH : H.ServesLike M.host)
    (hanswer : ∀ c ∈ M.instrCall? f depth w i, H.answer? c = M.host.answer? c) :
    (M.withHost H).exec f w i = M.exec f w i := by
  have hscript : (M.withHost H).script w.heap f.method f.returns i =
      M.script w.heap f.method f.returns i := script_congr rfl rfl
  rw [exec_eq, exec_eq, hscript]
  cases hrun : (M.script w.heap f.method f.returns i).run f with
  | error e => rfl
  | ok p =>
    obtain ⟨x, g⟩ := p
    cases x with
    | pushInstalled => simp only [finish, settle, withHost, hH.installed]
    | dispatch d =>
      obtain ⟨rfl, hpop⟩ := dispatch_of_run hrun
      exact ask_withHost (hanswer _ (by simp only [instrCall?, hpop]; rfl))
    | _ => rfl

theorem serve_exec_withHost {f : Frame} {callers : List Frame} {n : Nat} {i : Instr}
    (hH : H.ServesLike M.host)
    (hanswer : ∀ c ∈ M.instrCall? f callers.length w i, H.answer? c = M.host.answer? c) :
    (M.withHost H).serve callers n ((M.withHost H).exec f w i) =
      M.serve callers n (M.exec f w i) := by
  rw [exec_withHost hH hanswer]
  cases hrequest : M.exec f w i with
  | call g t args w' =>
    obtain ⟨target, rfl, hargs, rfl⟩ := callArgs_of_exec hrequest
    simp only [instrCall?, hargs] at hanswer
    simp only [serve, enter_withHost hH hanswer]
  | _ => rfl

/-- A step depends on the host through the answer to the one call that it makes. -/
theorem step_withHost (hH : H.ServesLike M.host)
    (hanswer : ∀ c ∈ M.hostCall? s, H.answer? c = M.host.answer? c) :
    (M.withHost H).step s = M.step s := by
  cases hi : M.executed? s with
  | some i =>
    have hi' : (M.withHost H).executed? s = some i := hi
    rw [hostCall?_of_executed? hi] at hanswer
    rw [step_of_executed? hi, step_of_executed? hi']
    exact serve_exec_withHost hH hanswer
  | none =>
    have hi' : (M.withHost H).executed? s = none := hi
    rcases step_of_executed?_eq_none hi with hcode | hlimit
    · rw [step_of_code_eq_none hcode, step_of_code_eq_none hcode]
    · rcases step_of_executed?_eq_none hi' with hcode | hlimit'
      · rw [step_of_code_eq_none hcode, step_of_code_eq_none hcode]
      · exact hlimit'.trans hlimit.symm

theorem Runs.withHost (h : M.Runs s states c) (hH : H.ServesLike M.host)
    (hanswer : ∀ c ∈ states.filterMap M.hostCall?, H.answer? c = M.host.answer? c) :
    (M.withHost H).Runs s states c := by
  induction h with
  | @last s c ended =>
    have hstep : (M.withHost H).step s = M.step s := step_withHost hH fun call hcall =>
      hanswer call (List.mem_filterMap.2 ⟨s, List.mem_cons_self, hcall⟩)
    exact .last (hstep.trans ended)
  | @more s s' states c running rest ih =>
    have hstep : (M.withHost H).step s = M.step s := step_withHost hH fun call hcall =>
      hanswer call (List.mem_filterMap.2 ⟨s, List.mem_cons_self, hcall⟩)
    refine .more (hstep.trans running) (ih fun call hcall => hanswer call ?_)
    obtain ⟨s'', hs'', hcall⟩ := List.mem_filterMap.1 hcall
    exact List.mem_filterMap.2 ⟨s'', List.mem_cons_of_mem _ hs'', hcall⟩

/-- The calls of the host are all that a run depends on it for: another host that answers them the
same way has the same run. -/
theorem Traces.withHost (h : M.Traces t args w states c) (hH : H.ServesLike M.host)
    (hanswer : ∀ c ∈ M.hostCalls t args w states, H.answer? c = M.host.answer? c) :
    (M.withHost H).Traces t args w states c := by
  have hentry : (M.withHost H).enter t args 0 w = M.enter t args 0 w :=
    enter_withHost hH fun call hcall =>
      hanswer call (List.mem_append_left _ (Option.mem_toList.2 hcall))
  cases h with
  | body entry run =>
    refine .body (hentry.trans entry) (run.withHost hH fun call hcall => ?_)
    exact hanswer call (List.mem_append_right _ hcall)
  | result entry => exact .result (hentry.trans entry)
  | stop entry => exact .stop (hentry.trans entry)

end Machine

end Interpose
