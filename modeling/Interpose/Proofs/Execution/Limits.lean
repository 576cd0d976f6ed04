import Interpose.Proofs.Execution.Traces

/-!
# What the limits do

Every step of `Machine::invoke` uses up an instruction or a frame, so there are only so many, within
the limits on both. A step itself comes to no end only in writing the text of an array that lies in
itself, or in the host. A run that the limits do not cut off is the same under all larger ones: it
goes through the same states, asks the host the same, and ends the same.
-/

namespace Interpose

namespace Machine

variable {σ : Type} {M : Machine σ} {t : MethodToken} {args : List Value} {depth : Nat}
  {w : World σ} {s s' : State σ} {c : Completion σ} {states : List (State σ)}

/-! ### What a step takes from the limits -/

theorem leave_running {callers : List Frame} {n : Nat} {v : Option Value}
    (h : leave callers n v w = .running s) :
    s.steps = n ∧ s.callers.length + 1 = callers.length := by
  cases callers with
  | nil => cases h
  | cons f callers =>
    cases h
    exact ⟨rfl, rfl⟩

theorem leave_ended {callers : List Frame} {n : Nat} {v : Option Value}
    (h : leave callers n v w = .ended c) : c.steps = n := by
  cases callers with
  | nil =>
    cases h
    rfl
  | cons f callers => cases h

/-- An instruction opens one frame at most, and only where the limit leaves room for it. -/
theorem serve_running {callers : List Frame} {n : Nat} {r : Request σ}
    (h : M.serve callers n r = .running s) : s.steps = n ∧
      (s.callers.length ≤ callers.length ∨
        s.callers.length = callers.length + 1 ∧ callers.length + 1 < M.limits.callDepth) := by
  cases r with
  | proceed f w =>
    cases h
    exact ⟨rfl, .inl (Nat.le_refl _)⟩
  | leave v w =>
    obtain ⟨hsteps, hcallers⟩ := leave_running h
    exact ⟨hsteps, .inl (by omega)⟩
  | stop e w => cases h
  | call f t args w =>
    simp only [serve] at h
    split at h
    · rename_i callee w' entry
      cases h
      have hroom := (enter_eq_body_iff.1 entry).1
      exact ⟨rfl, .inr ⟨rfl, hroom⟩⟩
    · cases h
      exact ⟨rfl, .inl (Nat.le_refl _)⟩
    · cases h

theorem serve_ended {callers : List Frame} {n : Nat} {r : Request σ}
    (h : M.serve callers n r = .ended c) : c.steps = n := by
  cases r with
  | proceed f w => cases h
  | leave v w => exact leave_ended h
  | stop e w =>
    cases h
    rfl
  | call f t args w =>
    simp only [serve] at h
    split at h <;> cases h
    rfl

/-- What a step on the way takes: an instruction, or a frame. -/
theorem step_running (h : M.step s = .running s') :
    (M.executed? s = none ∧ s'.steps = s.steps ∧ s'.callers.length + 1 = s.callers.length) ∨
      ((M.executed? s).isSome ∧ s.steps < M.limits.steps ∧ s'.steps = s.steps + 1 ∧
        (s'.callers.length ≤ s.callers.length ∨
          s'.callers.length = s.callers.length + 1 ∧
            s.callers.length + 1 < M.limits.callDepth)) := by
  rcases step_running_cases h with ⟨hnone, v, hleave⟩ | ⟨i, hi, hserve⟩
  · obtain ⟨hsteps, hcallers⟩ := leave_running hleave
    exact .inl ⟨hnone, hsteps, hcallers⟩
  · obtain ⟨hsteps, hcallers⟩ := serve_running hserve
    exact .inr ⟨hi ▸ rfl, (executed?_eq_some_iff.1 hi).1, hsteps, hcallers⟩

theorem step_ended (h : M.step s = .ended c) :
    c.steps = s.steps + if (M.executed? s).isSome then 1 else 0 := by
  cases hi : M.executed? s with
  | some i =>
    rw [step_of_executed? hi] at h
    exact serve_ended h
  | none =>
    rcases step_of_executed?_eq_none hi with hcode | hlimit
    · rw [step_of_code_eq_none hcode, runOff] at h
      split at h
      · exact leave_ended h
      · cases h
        rfl
    · cases hlimit.symm.trans h
      rfl

/-! ### Runs end -/

/-- A bound on the steps that are left: two for each instruction, which may open a frame, and one
for each frame that waits. -/
def rank (M : Machine σ) (s : State σ) : Nat := 2 * (M.limits.steps - s.steps) + s.callers.length

theorem rank_step (h : M.step s = .running s') : M.rank s' < M.rank s := by
  unfold rank
  rcases step_running h with ⟨_, hsteps, hcallers⟩ | ⟨_, hroom, hsteps, hcallers⟩ <;> omega

theorem exists_runs (M : Machine σ) {fuel : Nat} (s : State σ) (hfuel : M.rank s < fuel) :
    ∃ states, M.Runs s states (M.runFor fuel s) := by
  -- the fuel outlasts the rank, which every step lowers
  induction fuel generalizing s with
  | zero => exact absurd hfuel (Nat.not_lt_zero _)
  | succ fuel ih =>
    unfold runFor
    cases hstep : M.step s with
    | ended c => exact ⟨[s], .last hstep⟩
    | running s' =>
      have hrank := rank_step hstep
      obtain ⟨states, hruns⟩ := ih s' (by omega)
      exact ⟨s :: states, .more hstep hruns⟩

theorem exists_traces (M : Machine σ) (t : MethodToken) (args : List Value) (w : World σ) :
    ∃ states, M.Traces t args w states (M.invoke t args w) := by
  unfold invoke
  cases entry : M.enter t args 0 w with
  | body f w' =>
    have hfuel : M.rank ⟨f, [], w', 0⟩ < M.fuel := by
      simp only [rank, fuel, List.length_nil]
      omega
    obtain ⟨states, hruns⟩ := M.exists_runs _ hfuel
    exact ⟨states, .body entry hruns⟩
  | result v w' => exact ⟨[], .result entry⟩
  | stop e w' => exact ⟨[], .stop entry⟩

/-! ### Runs keep to the limits -/

/-- The number of instructions that a run with these states executes. -/
def executedIn (M : Machine σ) (states : List (State σ)) : Nat :=
  states.countP fun s => (M.executed? s).isSome

theorem Runs.steps_eq (h : M.Runs s states c) : c.steps = s.steps + M.executedIn states := by
  unfold executedIn
  induction h with
  | last ended =>
    rw [List.countP_singleton]
    exact step_ended ended
  | more running rest ih =>
    rw [ih, List.countP_cons]
    rcases step_running running with ⟨hnone, hsteps, _⟩ | ⟨hsome, _, hsteps, _⟩
    · rw [hsteps, hnone]
      rfl
    · rw [hsteps, if_pos hsome]
      omega

theorem Runs.steps_le (h : M.Runs s states c) (hs : s.steps ≤ M.limits.steps) :
    c.steps ≤ M.limits.steps := by
  induction h with
  | @last s c ended =>
    have hsteps := step_ended ended
    cases hi : M.executed? s with
    | none =>
      rw [hi] at hsteps
      exact hsteps ▸ hs
    | some i =>
      rw [hi] at hsteps
      exact hsteps ▸ (executed?_eq_some_iff.1 hi).1
  | more running rest ih =>
    refine ih ?_
    rcases step_running running with ⟨_, hsteps, _⟩ | ⟨_, hroom, hsteps, _⟩ <;> omega

/-- The count of executed instructions fits a 64-bit word, also where it goes one above the limit. -/
theorem steps_lt_size_of_visits (h : M.Visits t args w s) : s.steps + 1 < UInt64.size := by
  obtain ⟨f, w', _, hreaches⟩ := h
  have hle : s.steps ≤ M.limits.steps := by
    induction hreaches with
    | refl => exact Nat.zero_le _
    | tail _ hstep ih =>
      rcases step_running hstep with ⟨_, hsteps, _⟩ | ⟨_, hroom, hsteps, _⟩ <;> omega
  have hlimit := M.limits.steps_lt
  omega

theorem Runs.callers_lt (h : M.Runs s states c) (hs : s.callers.length < M.limits.callDepth) :
    ∀ s' ∈ states, s'.callers.length < M.limits.callDepth := by
  induction h with
  | last ended =>
    intro s' hs'
    rw [List.mem_singleton.1 hs']
    exact hs
  | more running rest ih =>
    refine List.forall_mem_cons.2 ⟨hs, ih ?_⟩
    rcases step_running running with ⟨_, _, hcallers⟩ | ⟨_, _, _, hcallers⟩ <;> omega

theorem Traces.steps_eq (h : M.Traces t args w states c) : c.steps = M.executedIn states := by
  cases h with
  | body entry run =>
    rw [run.steps_eq]
    exact Nat.zero_add _
  | result entry => rfl
  | stop entry => rfl

theorem Traces.steps_le (h : M.Traces t args w states c) : c.steps ≤ M.limits.steps := by
  cases h with
  | body entry run => exact run.steps_le (Nat.zero_le _)
  | result entry => exact Nat.zero_le _
  | stop entry => exact Nat.zero_le _

theorem Traces.callers_lt (h : M.Traces t args w states c) :
    ∀ s ∈ states, s.callers.length < M.limits.callDepth := by
  cases h with
  | body entry run => exact run.callers_lt (enter_eq_body_iff.1 entry).1
  | result entry => exact fun s hs => (nomatch hs)
  | stop entry => exact fun s hs => (nomatch hs)

/-! ### Larger limits -/

def withLimits (M : Machine σ) (limits : ExecutionLimits) : Machine σ := { M with limits := limits }

/-- Whether a run with this outcome was cut off by a limit of the machine. -/
def CutsOff (M : Machine σ) (outcome : Except Stop (Option Value)) : Prop :=
  outcome = .error (.fault (.callDepthExceeded M.limits.callDepth)) ∨
    outcome = .error (.fault (.stepLimitExceeded M.limits.steps))

variable {limits : ExecutionLimits}

theorem checkEntry_withLimits (hdepth : M.limits.callDepth ≤ limits.callDepth) :
    M.checkEntry t args depth w = .error (.fault (.callDepthExceeded M.limits.callDepth)) ∨
      (M.withLimits limits).checkEntry t args depth w = M.checkEntry t args depth w := by
  unfold checkEntry
  by_cases hroom : M.limits.callDepth ≤ depth
  · exact .inl (if_pos hroom)
  · have hroom' : ¬(M.withLimits limits).limits.callDepth ≤ depth :=
      fun h => hroom (Nat.le_trans hdepth h)
    rw [if_neg hroom, if_neg hroom']
    exact .inr rfl

theorem enter_withLimits (t : MethodToken) (args : List Value) (depth : Nat) (w : World σ)
    (hdepth : M.limits.callDepth ≤ limits.callDepth) :
    M.enter t args depth w = .stop (.fault (.callDepthExceeded M.limits.callDepth)) w ∨
      (M.withLimits limits).enter t args depth w = M.enter t args depth w ∧
        (M.withLimits limits).entryCall? t args depth w = M.entryCall? t args depth w := by
  rcases checkEntry_withLimits hdepth with hcut | hsame
  · refine .inl ?_
    rw [enter_eq_checkEntry, hcut]
  · refine .inr ⟨?_, ?_⟩
    · rw [enter_eq_checkEntry, enter_eq_checkEntry, hsame]
      rfl
    · rw [entryCall?, entryCall?, hsame]
      rfl

/-- A step that a limit ends, or that larger limits do not change. -/
theorem step_withLimits (hdepth : M.limits.callDepth ≤ limits.callDepth)
    (hsteps : M.limits.steps ≤ limits.steps) :
    (∃ c, M.step s = .ended c ∧ M.CutsOff c.outcome) ∨
      (M.withLimits limits).step s = M.step s ∧
        (M.withLimits limits).hostCall? s = M.hostCall? s := by
  cases hi : M.executed? s with
  | none =>
    rcases step_of_executed?_eq_none hi with hcode | hlimit
    · have hi' : (M.withLimits limits).executed? s = none := by
        simp only [executed?, hcode, ite_self]
      refine .inr ⟨?_, ?_⟩
      · rw [step_of_code_eq_none hcode, step_of_code_eq_none hcode]
      · rw [hostCall?, hostCall?, hi, hi', Option.bind_none, Option.bind_none]
    · exact .inl ⟨_, hlimit, .inr rfl⟩
  | some i =>
    obtain ⟨hroom, hcode⟩ := executed?_eq_some_iff.1 hi
    have hi' : (M.withLimits limits).executed? s = some i :=
      executed?_eq_some_iff.2 ⟨Nat.lt_of_lt_of_le hroom hsteps, hcode⟩
    have hexec : (M.withLimits limits).exec s.frame.advance s.world i =
        M.exec s.frame.advance s.world i := rfl
    rw [step_of_executed? hi, step_of_executed? hi', hostCall?_of_executed? hi,
      hostCall?_of_executed? hi', hexec]
    cases i with
    | op o =>
      refine .inr ⟨?_, by cases o <;> rfl⟩
      cases hrequest : M.exec s.frame.advance s.world (.op o) with
      | call g t args w' => exact absurd hrequest execOp_ne_call
      | _ => rfl
    | call target =>
      have hargs : (M.withLimits limits).callArgs s.frame.advance target =
          M.callArgs s.frame.advance target := rfl
      simp only [exec, instrCall?, hargs]
      cases hcall : M.callArgs s.frame.advance target with
      | error e => exact .inr ⟨rfl, rfl⟩
      | ok p =>
        obtain ⟨t, args, g⟩ := p
        simp only [serve]
        rcases enter_withLimits t args (s.callers.length + 1) s.world hdepth with
          hcut | ⟨hentry, hentryCall⟩
        · refine .inl ⟨⟨_, s.world, s.steps + 1⟩, ?_, .inl rfl⟩
          rw [hcut]
        · exact .inr ⟨by rw [hentry], hentryCall⟩

theorem Runs.withLimits (h : M.Runs s states c) (hdepth : M.limits.callDepth ≤ limits.callDepth)
    (hsteps : M.limits.steps ≤ limits.steps) (hc : ¬M.CutsOff c.outcome) :
    (M.withLimits limits).Runs s states c ∧
      states.filterMap (M.withLimits limits).hostCall? = states.filterMap M.hostCall? := by
  induction h with
  | last ended =>
    rcases step_withLimits hdepth hsteps with ⟨c', hcut, hcutsOff⟩ | ⟨hstep, hcall⟩
    · cases ended.symm.trans hcut
      exact absurd hcutsOff hc
    · refine ⟨.last (hstep.trans ended), ?_⟩
      simp only [List.filterMap_cons, hcall]
      rfl
  | more running rest ih =>
    obtain ⟨hrest, hcalls⟩ := ih hc
    rcases step_withLimits hdepth hsteps with ⟨c', hcut, _⟩ | ⟨hstep, hcall⟩
    · -- a step on the way is not the one that is cut off
      cases running.symm.trans hcut
    · refine ⟨.more (hstep.trans running) hrest, ?_⟩
      simp only [List.filterMap_cons, hcall, hcalls]

theorem Traces.withLimits (h : M.Traces t args w states c)
    (hdepth : M.limits.callDepth ≤ limits.callDepth) (hsteps : M.limits.steps ≤ limits.steps)
    (hc : ¬M.CutsOff c.outcome) :
    (M.withLimits limits).Traces t args w states c ∧
      (M.withLimits limits).hostCalls t args w states = M.hostCalls t args w states := by
  unfold hostCalls
  rcases enter_withLimits t args 0 w hdepth with
    hcut | ⟨hentry, hentryCall⟩
  · cases h with
    | body entry run => cases hcut.symm.trans entry
    | result entry => cases hcut.symm.trans entry
    | stop entry =>
      cases hcut.symm.trans entry
      exact absurd (.inl rfl) hc
  · rw [hentryCall]
    cases h with
    | body entry run =>
      obtain ⟨hrun, hcalls⟩ := run.withLimits hdepth hsteps hc
      rw [hcalls]
      exact ⟨.body (hentry.trans entry) hrun, rfl⟩
    | result entry => exact ⟨.result (hentry.trans entry), rfl⟩
    | stop entry => exact ⟨.stop (hentry.trans entry), rfl⟩

/-! ### Runs that do not stop -/

/-- Whether a call of the host is made and never comes back. -/
def Awaits (M : Machine σ) (call : Option (HostCall σ)) : Prop :=
  ∃ c ∈ call, ∃ w', M.host.answer? c = some (.error .endless, w')

/-- Why a step never comes to an end: it writes the text of an operand that leads to an array that
lies in itself, or it waits for the host. -/
inductive Sticks (M : Machine σ) (s : State σ) : Prop
  | operand {v : Value} (hv : v ∈ s.frame.stack) (hloops : s.world.heap.Loops v)
  | host (awaits : M.Awaits (M.hostCall? s))

/-- Why a run with these states never comes to an end: it sticks where it enters the method or in
the last of the states. -/
inductive Hangs (M : Machine σ) (t : MethodToken) (args : List Value) (w : World σ)
    (states : List (State σ)) : Prop
  | argument {v : Value} (hv : v ∈ args) (hloops : w.heap.Loops v)
  | host (awaits : M.Awaits (M.entryCall? t args 0 w))
  | step {s : State σ} (last : states.getLast? = some s) (sticks : M.Sticks s)

theorem entryCall?_of_nativeAnswers {w' : World σ}
    {answer : Except (NoAnswer Fault) (Option Value)}
    (h : M.NativeAnswers t args depth w answer w') :
    M.entryCall? t args depth w = some (.native t args w) ∧
      M.host.answer? (.native t args w) = some (answer, w') := by
  obtain ⟨hdepth, d, run, ht, hbody, hcheck, hrun, hanswer⟩ := h
  have hentry : M.checkEntry t args depth w = .ok d := by
    simp only [checkEntry, if_neg (Nat.not_le_of_lt hdepth), ht, hcheck]
  refine ⟨?_, ?_⟩
  · simp only [entryCall?, hentry, hbody, hrun]
    rfl
  · simp only [Host.answer?, hrun, Option.map_some, hanswer]

theorem loops_of_enter {w' : World σ} (h : M.enter t args depth w = .stop .endless w') :
    (∃ v ∈ args, w.heap.Loops v) ∨ M.Awaits (M.entryCall? t args depth w) := by
  generalize he : Stop.endless = e at h
  cases entryFails_of_enter h with
  | args hrejects =>
    subst he
    cases hrejects with
    | endless hv hloops => exact .inl ⟨_, hv, hloops⟩
  | @native answer _ answers =>
    cases answer with
    | error x => cases he
    | endless =>
      obtain ⟨hcall, hanswer⟩ := entryCall?_of_nativeAnswers answers
      exact .inr ⟨_, hcall, _, hanswer⟩
  | _ => cases he

/-- Instructions lead to a value that has no text from another only. -/
theorem does_of_loops (M : Machine σ) (f : Frame) (w : World σ) (i : Instr) :
    M.Does (· ∈ f.stack) (fun v => w.heap.Loops v → ∃ u ∈ f.stack, w.heap.Loops u) f w i :=
  exec_does M (fun v hv hloops => ⟨v, hv, hloops⟩)
    (fun _ hv hloops => absurd hloops (Heap.not_loops_of_array? (Value.array?_of_isClosed hv)))
    (fun r _ _ hr hu hloops => ⟨.array r, hr, .of_element (Array.mem_of_getElem? hu) hloops⟩)
    (fun _ hv => hv) fun _ _ hloops => absurd hloops (Heap.not_loops_of_array? rfl)

variable {f : Frame} {w' : World σ} {i : Instr}

theorem loops_of_exec_stop (h : M.exec f w i = .stop .endless w') :
    (∃ v ∈ f.stack, w.heap.Loops v) ∨ M.Awaits (M.instrCall? f depth w i) := by
  cases M.does_of_loops f w i with
  | stops why _ exec =>
    cases exec.symm.trans h
    rcases why with (hrejects | hmethod) | hunderflow
    · cases hrejects with
      | endless hv hloops =>
        obtain ⟨v', _, hv⟩ := hv
        exact .inl ⟨_, hv, hloops⟩
    · cases hunderflow
  | settles effect _ run exec =>
    have hsettle := exec.symm.trans h
    generalize he : Stop.endless = e at hsettle
    cases settleFails_of_settle hsettle with
    | @host d answer _ hanswer =>
      cases answer with
      | error x => cases he
      | endless =>
        obtain ⟨rfl, hpop⟩ := dispatch_of_run run
        refine .inr ⟨.intercept d.interceptor d.receiver (w.heap.items d.arguments).toList
          d.identity w, by simp only [instrCall?, hpop]; rfl, w', ?_⟩
        simp only [Host.answer?]
        exact hanswer ▸ rfl
    | _ => cases he

theorem loops_of_exec_call {g : Frame} {u : MethodToken} {values : List Value}
    (h : M.exec f w i = .call g u values w') :
    ∀ v ∈ values, w.heap.Loops v → ∃ u ∈ f.stack, w.heap.Loops u := by
  cases M.does_of_loops f w i with
  | stops _ _ exec => cases exec.symm.trans h
  | settles effect _ _ exec =>
    have hsettle := exec.symm.trans h
    obtain ⟨rfl, _⟩ := eq_call_of_settle hsettle
    cases effect with
    | call _ _ _ _ hargs => exact fun v hv => ((List.forall₂_same.1 hargs) v hv).2

theorem sticks_of_step (h : M.step s = .ended c) (hc : c.outcome = .error .endless) :
    M.Sticks s := by
  have hends := stepEnds_of_step h
  rw [hc] at hends
  cases hends with
  | instr executed exec =>
    rcases loops_of_exec_stop exec with ⟨v, hv, hloops⟩ | hawaits
    · exact .operand hv hloops
    · exact .host (hostCall?_of_executed? executed ▸ hawaits)
  | entry executed exec entry =>
    obtain ⟨target, rfl, hargs, rfl⟩ := callArgs_of_exec exec
    rcases loops_of_enter entry with ⟨v, hv, hloops⟩ | hawaits
    · obtain ⟨u, hu, hloops⟩ := loops_of_exec_call exec v hv hloops
      exact .operand hu hloops
    · refine .host ?_
      rw [hostCall?_of_executed? executed]
      simp only [instrCall?, hargs]
      exact hawaits

theorem Traces.hangs (h : M.Traces t args w states c) (hc : c.outcome = .error .endless) :
    M.Hangs t args w states := by
  cases h with
  | body entry run =>
    obtain ⟨s, last, ended⟩ := run.ends
    exact .step last (sticks_of_step ended hc)
  | result entry => cases hc
  | stop entry =>
    cases hc
    rcases loops_of_enter entry with ⟨v, hv, hloops⟩ | hawaits
    · exact .argument hv hloops
    · exact .host hawaits

/-! ### Runs within limits -/

/-- Every run keeps to the limits, and it comes to an end unless it hangs. Larger limits change
nothing about a run that no limit cuts off: it goes through the same states, asks the host the same,
and ends the same. -/
theorem invoke_within_limits (M : Machine σ) (t : MethodToken) (args : List Value) (w : World σ) :
    ∃ states, M.Traces t args w states (M.invoke t args w) ∧
      (M.invoke t args w).steps = M.executedIn states ∧
      M.executedIn states ≤ M.limits.steps ∧
      (∀ s ∈ states, (s.frame :: s.callers).length ≤ M.limits.callDepth) ∧
      ((M.invoke t args w).outcome = .error .endless → M.Hangs t args w states) ∧
      ∀ limits : ExecutionLimits, M.limits.callDepth ≤ limits.callDepth →
        M.limits.steps ≤ limits.steps → ¬M.CutsOff (M.invoke t args w).outcome →
        (M.withLimits limits).invoke t args w = M.invoke t args w ∧
          (M.withLimits limits).Traces t args w states (M.invoke t args w) ∧
          (M.withLimits limits).hostCalls t args w states = M.hostCalls t args w states := by
  obtain ⟨states, htraces⟩ := M.exists_traces t args w
  refine ⟨states, htraces, htraces.steps_eq, htraces.steps_eq ▸ htraces.steps_le,
    htraces.callers_lt, htraces.hangs, fun limits hdepth hsteps hc => ?_⟩
  obtain ⟨htraces', hcalls⟩ := htraces.withLimits hdepth hsteps hc
  obtain ⟨states', hother⟩ := (M.withLimits limits).exists_traces t args w
  have hsame := (hother.unique htraces').2
  exact ⟨hsame, htraces', hcalls⟩

/-- A method that calls a method that calls the host. -/
def nested : Module :=
  ⟨"nested", [⟨"Type", [⟨0⟩, ⟨1⟩, ⟨2⟩]⟩],
    [⟨⟨0⟩, "outer", ⟨[], .void, true⟩, some ⟨[], [.call (.direct ⟨1⟩), .op .ret]⟩⟩,
      ⟨⟨0⟩, "inner", ⟨[], .void, true⟩, some ⟨[], [.call (.direct ⟨2⟩), .op .ret]⟩⟩,
      ⟨⟨0⟩, "count", ⟨[], .void, true⟩, none⟩]⟩

def counting : Host Nat where
  installed _ := ⟨0⟩
  intercept _ _ _ _ w := (.ok .null, w)
  native? _ := some fun _ w => (.ok none, ⟨w.heap, w.host + 1⟩)

theorem invoke_within_limits_nested :
    let M := load nested counting ⟨3, 4, by decide⟩
    let w : World Nat := ⟨.empty, 0⟩
    (M.invoke ⟨0⟩ [] w).outcome = .ok none ∧ (M.invoke ⟨0⟩ [] w).world.host = 1 ∧
      (M.invoke ⟨0⟩ [] w).steps = 4 ∧
      (M.withLimits .standard).invoke ⟨0⟩ [] w = M.invoke ⟨0⟩ [] w := by
  intro M w
  have houtcome : (M.invoke ⟨0⟩ [] w).outcome = .ok none := by decide +kernel
  have hhost : (M.invoke ⟨0⟩ [] w).world.host = 1 := by decide +kernel
  have hsteps : (M.invoke ⟨0⟩ [] w).steps = 4 := by decide +kernel
  have hc : ¬M.CutsOff (M.invoke ⟨0⟩ [] w).outcome := by
    rw [houtcome]
    rintro (h | h) <;> cases h
  obtain ⟨states, _, _, _, _, _, hlarger⟩ := invoke_within_limits M ⟨0⟩ [] w
  have hsame := (hlarger .standard (by decide) (by decide) hc).1
  exact ⟨houtcome, hhost, hsteps, hsame⟩

/-- Code that makes an array its own element. -/
def selfStored : List Instr :=
  [.op (.ldcI4 1), .op (.newarr .object), .op (.stloc ⟨0⟩), .op (.ldloc ⟨0⟩), .op (.ldcI4 0),
    .op (.ldloc ⟨0⟩), .op .stelemRef]

/-- A method that goes on with an array that lies in itself. -/
def ringed (code : List Instr) : Module :=
  ⟨"ring", [⟨"Type", [⟨0⟩]⟩],
    [⟨⟨0⟩, "main", ⟨[], .void, true⟩, some ⟨[.objectArray], selfStored ++ code⟩⟩]⟩

/-- An array of such a length is refused with the text of the length. -/
theorem invoke_endless_of_length :
    let M := load (ringed [.op (.ldloc ⟨0⟩), .op (.newarr .object), .op .ret]) counting .standard
    (M.invoke ⟨0⟩ [] ⟨.empty, 0⟩).outcome = .error .endless := by
  decide +kernel

end Machine

end Interpose
