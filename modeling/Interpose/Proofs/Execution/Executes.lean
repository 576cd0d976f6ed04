import Interpose.Execution.Machine

/-!
# Frames that run to their end

A run is a chain of states, one for each instruction, with all open frames in each of them. Proofs
about code follow one frame from where it stands to its end, a call taking the whole execution of
its callee at once. This form of a run is total, and it is the run that steps make.
-/

namespace Interpose

namespace Machine

variable {σ : Type} {M : Machine σ}

/-- The execution of a frame that has `depth` frames below it, `n` instructions into the run. -/
inductive Executes (M : Machine σ) :
    (depth : Nat) → Frame → World σ → (n : Nat) → Completion σ → Prop
  | ending {depth f w n} (code : f.code[f.next]? = none) :
      M.Executes depth f w n ⟨f.ending, w, n⟩
  | limit {depth f w n i} (code : f.code[f.next]? = some i) (limit : M.limits.steps ≤ n) :
      M.Executes depth f w n ⟨.error (.fault (.stepLimitExceeded M.limits.steps)), w, n⟩
  | proceed {depth f w n i f' w' c} (code : f.code[f.next]? = some i) (room : n < M.limits.steps)
      (exec : M.exec f.advance w i = .proceed f' w') (rest : M.Executes depth f' w' (n + 1) c) :
      M.Executes depth f w n c
  | leave {depth f w n i v w'} (code : f.code[f.next]? = some i) (room : n < M.limits.steps)
      (exec : M.exec f.advance w i = .leave v w') :
      M.Executes depth f w n ⟨.ok v, w', n + 1⟩
  | stop {depth f w n i e w'} (code : f.code[f.next]? = some i) (room : n < M.limits.steps)
      (exec : M.exec f.advance w i = .stop e w') :
      M.Executes depth f w n ⟨.error e, w', n + 1⟩
  | refused {depth f w n i g t args w₁ e w₂} (code : f.code[f.next]? = some i)
      (room : n < M.limits.steps) (exec : M.exec f.advance w i = .call g t args w₁)
      (entry : M.enter t args (depth + 1) w₁ = .stop e w₂) :
      M.Executes depth f w n ⟨.error e, w₂, n + 1⟩
  | native {depth f w n i g t args w₁ v w₂ c} (code : f.code[f.next]? = some i)
      (room : n < M.limits.steps) (exec : M.exec f.advance w i = .call g t args w₁)
      (entry : M.enter t args (depth + 1) w₁ = .result v w₂)
      (rest : M.Executes depth (resume g v) w₂ (n + 1) c) :
      M.Executes depth f w n c
  | failed {depth f w n i g t args w₁ callee w₂ e w₃ k} (code : f.code[f.next]? = some i)
      (room : n < M.limits.steps) (exec : M.exec f.advance w i = .call g t args w₁)
      (entry : M.enter t args (depth + 1) w₁ = .body callee w₂)
      (inner : M.Executes (depth + 1) callee w₂ (n + 1) ⟨.error e, w₃, k⟩) :
      M.Executes depth f w n ⟨.error e, w₃, k⟩
  | returned {depth f w n i g t args w₁ callee w₂ v w₃ k c} (code : f.code[f.next]? = some i)
      (room : n < M.limits.steps) (exec : M.exec f.advance w i = .call g t args w₁)
      (entry : M.enter t args (depth + 1) w₁ = .body callee w₂)
      (inner : M.Executes (depth + 1) callee w₂ (n + 1) ⟨.ok v, w₃, k⟩)
      (rest : M.Executes depth (resume g v) w₃ k c) :
      M.Executes depth f w n c

/-! ### Steps only count up, to the limit at most -/

theorem Executes.le_steps {depth n : Nat} {f : Frame} {w : World σ} {c : Completion σ}
    (h : M.Executes depth f w n c) : n ≤ c.steps := by
  induction h with
  | ending code => exact Nat.le_refl _
  | limit code limit => exact Nat.le_refl _
  | proceed code room exec rest ih => omega
  | leave code room exec => exact Nat.le_succ _
  | stop code room exec => exact Nat.le_succ _
  | refused code room exec entry => exact Nat.le_succ _
  | native code room exec entry rest ih => omega
  | failed code room exec entry inner ih => exact Nat.le_of_succ_le ih
  | returned code room exec entry inner rest ihInner ihRest =>
    have hInner := Nat.le_of_succ_le ihInner
    exact Nat.le_trans hInner ihRest

theorem Executes.steps_le {depth n : Nat} {f : Frame} {w : World σ} {c : Completion σ}
    (h : M.Executes depth f w n c) : c.steps ≤ max n M.limits.steps := by
  induction h with
  | ending code => exact Nat.le_max_left _ _
  | limit code limit => exact Nat.le_max_left _ _
  | proceed code room exec rest ih => omega
  | leave code room exec => exact Nat.le_trans room (Nat.le_max_right _ _)
  | stop code room exec => exact Nat.le_trans room (Nat.le_max_right _ _)
  | refused code room exec entry => exact Nat.le_trans room (Nat.le_max_right _ _)
  | native code room exec entry rest ih => omega
  | failed code room exec entry inner ih =>
    simp only at ih ⊢
    omega
  | returned code room exec entry inner rest ihInner ihRest =>
    simp only at ihInner
    omega

/-! ### Every frame runs to an end -/

theorem exists_executes (M : Machine σ) (depth : Nat) (f : Frame) (w : World σ) (n : Nat) :
    ∃ c, M.Executes depth f w n c := by
  -- every instruction uses up a step, also before a callee and before the code behind a call
  induction hr : M.limits.steps - n using Nat.strongRecOn generalizing depth f w n with
  | ind room ih =>
    cases code : f.code[f.next]? with
    | none => exact ⟨_, .ending code⟩
    | some i =>
      by_cases hn : n < M.limits.steps
      · have later (d : Nat) (g : Frame) (w' : World σ) (k : Nat) (hk : n < k) :
            ∃ c, M.Executes d g w' k c :=
          ih (M.limits.steps - k) (by omega) d g w' k rfl
        cases exec : M.exec f.advance w i with
        | proceed f' w' =>
          obtain ⟨c, hc⟩ := later depth f' w' (n + 1) (by omega)
          exact ⟨c, .proceed code hn exec hc⟩
        | leave v w' => exact ⟨_, .leave code hn exec⟩
        | stop e w' => exact ⟨_, .stop code hn exec⟩
        | call g t args w₁ =>
          cases entry : M.enter t args (depth + 1) w₁ with
          | stop e w₂ => exact ⟨_, .refused code hn exec entry⟩
          | result v w₂ =>
            obtain ⟨c, hc⟩ := later depth (resume g v) w₂ (n + 1) (by omega)
            exact ⟨c, .native code hn exec entry hc⟩
          | body callee w₂ =>
            obtain ⟨⟨outcome, w₃, k⟩, hInner⟩ := later (depth + 1) callee w₂ (n + 1) (by omega)
            cases outcome with
            | error e => exact ⟨_, .failed code hn exec entry hInner⟩
            | ok v =>
              have hk : n + 1 ≤ k := hInner.le_steps
              obtain ⟨c, hc⟩ := later depth (resume g v) w₃ k (by omega)
              exact ⟨c, .returned code hn exec entry hInner hc⟩
      · exact ⟨_, .limit code (Nat.le_of_not_lt hn)⟩

/-! ### One instruction at a time -/

/-- How an execution ends that comes to a request after `n` instructions. -/
def Answers (M : Machine σ) (depth n : Nat) (c : Completion σ) : Request σ → Prop
  | .proceed f w => M.Executes depth f w n c
  | .leave v w => c = ⟨.ok v, w, n⟩
  | .stop e w => c = ⟨.error e, w, n⟩
  | .call g t args w =>
    match M.enter t args (depth + 1) w with
    | .stop e w => c = ⟨.error e, w, n⟩
    | .result v w => M.Executes depth (resume g v) w n c
    | .body callee w =>
      (∃ e w' k, M.Executes (depth + 1) callee w n ⟨.error e, w', k⟩ ∧ c = ⟨.error e, w', k⟩) ∨
        ∃ v w' k, M.Executes (depth + 1) callee w n ⟨.ok v, w', k⟩ ∧
          M.Executes depth (resume g v) w' k c

theorem executes_iff_of_none {depth n : Nat} {f : Frame} {w : World σ} {c : Completion σ}
    (code : f.code[f.next]? = none) :
    M.Executes depth f w n c ↔ c = ⟨f.ending, w, n⟩ := by
  constructor
  · intro h
    cases h with
    | ending _ => rfl
    | _ => simp_all
  · intro h
    rw [h]
    exact .ending code

theorem executes_iff_of_limit {depth n : Nat} {f : Frame} {w : World σ} {c : Completion σ}
    {i : Instr} (code : f.code[f.next]? = some i) (limit : M.limits.steps ≤ n) :
    M.Executes depth f w n c ↔
      c = ⟨.error (.fault (.stepLimitExceeded M.limits.steps)), w, n⟩ := by
  constructor
  · intro h
    cases h with
    | limit _ _ => rfl
    | ending hnone => rw [code] at hnone; cases hnone
    | _ => omega
  · intro h
    rw [h]
    exact .limit code limit

theorem executes_iff_of_some {depth n : Nat} {f : Frame} {w : World σ} {c : Completion σ}
    {i : Instr} (code : f.code[f.next]? = some i) (room : n < M.limits.steps) :
    M.Executes depth f w n c ↔ M.Answers depth (n + 1) c (M.exec f.advance w i) := by
  constructor
  · intro h
    cases h with
    | ending hnone => rw [code] at hnone; cases hnone
    | limit _ limit => omega
    | proceed hcode _ exec rest =>
      cases code.symm.trans hcode
      rw [exec]
      exact rest
    | leave hcode _ exec =>
      cases code.symm.trans hcode
      rw [exec]
      rfl
    | stop hcode _ exec =>
      cases code.symm.trans hcode
      rw [exec]
      rfl
    | refused hcode _ exec entry =>
      cases code.symm.trans hcode
      simp only [exec, Answers, entry]
    | native hcode _ exec entry rest =>
      cases code.symm.trans hcode
      simp only [exec, Answers, entry]
      exact rest
    | failed hcode _ exec entry inner =>
      cases code.symm.trans hcode
      simp only [exec, Answers, entry]
      exact .inl ⟨_, _, _, inner, rfl⟩
    | returned hcode _ exec entry inner rest =>
      cases code.symm.trans hcode
      simp only [exec, Answers, entry]
      exact .inr ⟨_, _, _, inner, rest⟩
  · intro h
    cases exec : M.exec f.advance w i with
    | proceed f' w' =>
      rw [exec] at h
      exact .proceed code room exec h
    | leave v w' =>
      rw [exec] at h
      rw [h]
      exact .leave code room exec
    | stop e w' =>
      rw [exec] at h
      rw [h]
      exact .stop code room exec
    | call g t args w₁ =>
      simp only [exec, Answers] at h
      cases entry : M.enter t args (depth + 1) w₁ with
      | stop e w₂ =>
        rw [entry] at h
        rw [h]
        exact .refused code room exec entry
      | result v w₂ =>
        rw [entry] at h
        exact .native code room exec entry h
      | body callee w₂ =>
        rw [entry] at h
        obtain ⟨e, w₃, k, hInner, hc⟩ | ⟨v, w₃, k, hInner, hrest⟩ := h
        · rw [hc]
          exact .failed code room exec entry hInner
        · exact .returned code room exec entry hInner hrest

theorem Executes.unique {depth n : Nat} {f : Frame} {w : World σ} {c c' : Completion σ}
    (h : M.Executes depth f w n c) (h' : M.Executes depth f w n c') : c = c' := by
  induction h generalizing c' with
  | ending code => exact ((executes_iff_of_none code).1 h').symm
  | limit code limit => exact ((executes_iff_of_limit code limit).1 h').symm
  | proceed code room exec rest ih =>
    rw [executes_iff_of_some code room, exec] at h'
    exact ih h'
  | leave code room exec =>
    rw [executes_iff_of_some code room, exec] at h'
    exact h'.symm
  | stop code room exec =>
    rw [executes_iff_of_some code room, exec] at h'
    exact h'.symm
  | refused code room exec entry =>
    simp only [executes_iff_of_some code room, exec, Answers, entry] at h'
    exact h'.symm
  | native code room exec entry rest ih =>
    simp only [executes_iff_of_some code room, exec, Answers, entry] at h'
    exact ih h'
  | failed code room exec entry inner ih =>
    simp only [executes_iff_of_some code room, exec, Answers, entry] at h'
    obtain ⟨e, w₃, k, hInner, hc⟩ | ⟨v, w₃, k, hInner, hrest⟩ := h'
    · rw [hc]
      exact ih hInner
    · cases ih hInner
  | returned code room exec entry inner rest ihInner ihRest =>
    simp only [executes_iff_of_some code room, exec, Answers, entry] at h'
    obtain ⟨e, w₃, k, hInner, hc⟩ | ⟨v, w₃, k, hInner, hrest⟩ := h'
    · cases ihInner hInner
    · cases ihInner hInner
      exact ihRest hrest

/-! ### The run that steps make -/

/-- What a run does once its innermost frame has come to an end. -/
def continueFor (M : Machine σ) (fuel : Nat) (callers : List Frame) (c : Completion σ) :
    Completion σ :=
  match c.outcome, callers with
  | .ok v, f :: callers => M.runFor fuel ⟨resume f v, callers, c.world, c.steps⟩
  | _, _ => c

theorem runFor_leave (fuel : Nat) (callers : List Frame) (v : Option Value) (w : World σ)
    (n : Nat) :
    (match leave callers n v w with
      | .running s => M.runFor fuel s
      | .ended c => c) = M.continueFor fuel callers ⟨.ok v, w, n⟩ := by
  cases callers with
  | nil => rfl
  | cons f callers => rfl

theorem step_of_exec {f : Frame} {callers : List Frame} {w : World σ} {n : Nat} {i : Instr}
    (code : f.code[f.next]? = some i) (room : n < M.limits.steps) :
    M.step ⟨f, callers, w, n⟩ = M.serve callers (n + 1) (M.exec f.advance w i) := by
  simp only [step, code, if_neg (Nat.not_le_of_lt room)]

/-- The steps of a frame from where it stands to its end: two for each instruction at most, and one
to leave it. -/
theorem Executes.runFor_eq {depth n : Nat} {f : Frame} {w : World σ} {c : Completion σ}
    (h : M.Executes depth f w n c) :
    ∃ k, k ≤ 2 * (c.steps - n) + 1 ∧ ∀ fuel callers, callers.length = depth →
      M.runFor (k + fuel) ⟨f, callers, w, n⟩ = M.continueFor fuel callers c := by
  induction h with
  | @ending depth f w n code =>
    refine ⟨1, by omega, fun fuel callers hc => ?_⟩
    rw [Nat.add_comm 1 fuel, runFor, step, code]
    cases hr : f.ending with
    | ok v => exact runFor_leave fuel callers v w n
    | error e => rfl
  | @limit depth f w n i code limit =>
    refine ⟨1, by omega, fun fuel callers hc => ?_⟩
    rw [Nat.add_comm 1 fuel, runFor]
    simp only [step, code, if_pos limit]
    rfl
  | @proceed depth f w n i f' w' c code room exec rest ih =>
    obtain ⟨k, hk, hrun⟩ := ih
    have hle := rest.le_steps
    refine ⟨k + 1, by omega, fun fuel callers hc => ?_⟩
    rw [Nat.add_right_comm, runFor, step_of_exec code room, exec]
    exact hrun fuel callers hc
  | @leave depth f w n i v w' code room exec =>
    refine ⟨1, by omega, fun fuel callers hc => ?_⟩
    rw [Nat.add_comm 1 fuel, runFor, step_of_exec code room, exec]
    exact runFor_leave fuel callers v w' (n + 1)
  | @stop depth f w n i e w' code room exec =>
    refine ⟨1, by omega, fun fuel callers hc => ?_⟩
    rw [Nat.add_comm 1 fuel, runFor, step_of_exec code room, exec]
    rfl
  | @refused depth f w n i g t args w₁ e w₂ code room exec entry =>
    refine ⟨1, by omega, fun fuel callers hc => ?_⟩
    rw [Nat.add_comm 1 fuel, runFor, step_of_exec code room, exec, serve, hc, entry]
    rfl
  | @native depth f w n i g t args w₁ v w₂ c code room exec entry rest ih =>
    obtain ⟨k, hk, hrun⟩ := ih
    have hle := rest.le_steps
    refine ⟨k + 1, by omega, fun fuel callers hc => ?_⟩
    rw [Nat.add_right_comm, runFor, step_of_exec code room, exec, serve, hc, entry]
    exact hrun fuel callers hc
  | @failed depth f w n i g t args w₁ callee w₂ e w₃ k code room exec entry inner ih =>
    obtain ⟨j, hj, hrun⟩ := ih
    have hle : n + 1 ≤ k := inner.le_steps
    simp only at hj
    refine ⟨j + 1, by simp only; omega, fun fuel callers hc => ?_⟩
    rw [Nat.add_right_comm, runFor, step_of_exec code room, exec, serve, hc, entry]
    exact hrun fuel (g :: callers) (by rw [List.length_cons, hc])
  | @returned depth f w n i g t args w₁ callee w₂ v w₃ k c code room exec entry inner rest ihInner
      ihRest =>
    obtain ⟨j₁, hj₁, hrun₁⟩ := ihInner
    obtain ⟨j₂, hj₂, hrun₂⟩ := ihRest
    have hle₁ : n + 1 ≤ k := inner.le_steps
    have hle₂ := rest.le_steps
    simp only at hj₁
    refine ⟨j₁ + j₂ + 1, by omega, fun fuel callers hc => ?_⟩
    rw [Nat.add_right_comm, runFor, step_of_exec code room, exec, serve, hc, entry, Nat.add_assoc]
    have hInner := hrun₁ (j₂ + fuel) (g :: callers) (by rw [List.length_cons, hc])
    exact hInner.trans (hrun₂ fuel callers hc)

/-- The run that starts with a frame on top of its callers brings the frame to an end, and goes on
with the callers after that. -/
def BringsTo (M : Machine σ) (callers : List Frame) (f : Frame) (w : World σ) (n : Nat)
    (c : Completion σ) : Prop :=
  ∃ k, ∀ fuel, M.runFor (k + fuel) ⟨f, callers, w, n⟩ = M.continueFor fuel callers c

theorem Executes.bringsTo {callers : List Frame} {f : Frame} {w : World σ} {n : Nat}
    {c : Completion σ} (h : M.Executes callers.length f w n c) : M.BringsTo callers f w n c := by
  obtain ⟨k, _, hrun⟩ := h.runFor_eq
  exact ⟨k, fun fuel => hrun fuel callers rfl⟩

/-- The run that starts with a body on top of its callers. -/
def RunsBody (M : Machine σ) (callers : List Frame) (method : String) (s : Signature) (b : Body)
    (args : List Value) (w : World σ) (n : Nat) (c : Completion σ) : Prop :=
  match Frame.enter method s b args with
  | .ok f => M.BringsTo callers f w n c
  | .error e => c = ⟨.error (.fault e), w, n⟩

theorem invoke_eq_of_executes {t : MethodToken} {args : List Value} {w w' : World σ} {f : Frame}
    {c : Completion σ} (entry : M.enter t args 0 w = .body f w') (h : M.Executes 0 f w' 0 c) :
    M.invoke t args w = c := by
  obtain ⟨k, hk, hrun⟩ := h.runFor_eq
  have hle := h.steps_le
  have hfuel : M.fuel = k + (M.fuel - k) := by
    unfold fuel
    omega
  rw [invoke, entry]
  simp only
  rw [hfuel, hrun (M.fuel - k) [] rfl]
  unfold continueFor
  cases c.outcome with
  | ok v => rfl
  | error e => rfl

theorem executes_of_invoke {t : MethodToken} {args : List Value} {w w' : World σ} {f : Frame}
    (entry : M.enter t args 0 w = .body f w') : M.Executes 0 f w' 0 (M.invoke t args w) := by
  obtain ⟨c, hc⟩ := M.exists_executes 0 f w' 0
  rw [invoke_eq_of_executes entry hc]
  exact hc

end Machine

end Interpose
