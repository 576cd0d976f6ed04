import Interpose.Proofs.Execution.Straight
import Interpose.Proofs.Execution.Traces

/-!
# Stretches of a run

What a run comes to within a number of steps, and what the host is asked on the way. Operations in
a row that neither branch nor return take one step each, and of them only an interception asks the
host.
-/

namespace Interpose

namespace Machine

variable {σ : Type}

/-- What a state comes to within `n` steps. -/
def after (M : Machine σ) : Nat → State σ → Next σ
  | 0, s => .running s
  | n + 1, s =>
    match M.step s with
    | .running s => after M n s
    | .ended c => .ended c

/-- What the host is asked within `n` steps from a state, in order. -/
def asked (M : Machine σ) : Nat → State σ → List (HostCall σ)
  | 0, _ => []
  | n + 1, s => (M.hostCall? s).toList ++
    match M.step s with
    | .running s => asked M n s
    | .ended _ => []

variable {M : Machine σ}

/-! ### Stretches and whole runs -/

theorem Runs.after {s : State σ} {states : List (State σ)} {c : Completion σ}
    (h : M.Runs s states c) (n : Nat) :
    M.after n s = if h : n < states.length then .running states[n] else .ended c := by
  induction h generalizing n with
  | last ended =>
    cases n with
    | zero => rfl
    | succ n => simp [Machine.after, ended]
  | more running rest ih =>
    cases n with
    | zero => rfl
    | succ n => simp [Machine.after, running, ih]

theorem Runs.asked {s : State σ} {states : List (State σ)} {c : Completion σ}
    (h : M.Runs s states c) (n : Nat) :
    M.asked n s = (states.take n).filterMap M.hostCall? := by
  induction h generalizing n with
  | @last s c ended =>
    cases n with
    | zero => rfl
    | succ n =>
      cases hcall : M.hostCall? s <;> simp [Machine.asked, ended, hcall]
  | @more s s' states c running rest ih =>
    cases n with
    | zero => rfl
    | succ n =>
      cases hcall : M.hostCall? s <;> simp [Machine.asked, running, hcall, ih]

/-! ### Operations in a row -/

/-- What operations in a row ask the host, in a frame that points at the first of them. -/
def askedOps (M : Machine σ) (depth : Nat) : List Op → Frame → World σ → List (HostCall σ)
  | [], _, _ => []
  | o :: rest, f, w => (M.instrCall? f.advance depth w (.op o)).toList ++
    match M.execOp f.advance w o with
    | .proceed f w => askedOps M depth rest f w
    | _ => []

theorem askedOps_append (depth : Nat) (front back : List Op) (f : Frame) (w : World σ) :
    M.askedOps depth (front ++ back) f w = M.askedOps depth front f w ++
      match M.execOps front f w with
      | .proceed f w => M.askedOps depth back f w
      | _ => [] := by
  induction front generalizing f w with
  | nil => rfl
  | cons o rest ih =>
    simp only [List.cons_append, askedOps, execOps, List.append_assoc]
    cases M.execOp f.advance w o with
    | proceed f' w' => exact congrArg _ (ih f' w')
    | call g t args w' => rfl
    | leave v w' => rfl
    | stop e w' => rfl

theorem instrCall?_op {f : Frame} {depth : Nat} {w : World σ} {o : Op} (h : o ≠ .intercept) :
    M.instrCall? f depth w (.op o) = none := by
  cases o with
  | intercept => exact absurd rfl h
  | _ => rfl

theorem askedOps_of_notMem {depth : Nat} {ops : List Op} (h : .intercept ∉ ops) (f : Frame)
    (w : World σ) : M.askedOps depth ops f w = [] := by
  induction ops generalizing f w with
  | nil => rfl
  | cons o rest ih =>
    obtain ⟨ho, hrest⟩ := List.ne_and_not_mem_of_not_mem_cons h
    rw [askedOps, instrCall?_op (Ne.symm ho)]
    cases M.execOp f.advance w o with
    | proceed f' w' => exact ih hrest f' w'
    | call g t args w' => rfl
    | leave v w' => rfl
    | stop e w' => rfl

variable {ops : List Op} {f f' : Frame} {w w' : World σ} {callers : List Frame} {n : Nat}

theorem step_of_pointsAt {o : Op} (hpoints : f.PointsAt (o :: ops)) (w : World σ)
    (callers : List Frame) (room : n < M.limits.steps) :
    M.step ⟨f, callers, w, n⟩ = M.serve callers (n + 1) (M.execOp f.advance w o) ∧
      M.hostCall? ⟨f, callers, w, n⟩ = M.instrCall? f.advance callers.length w (.op o) := by
  have code : f.code[f.next]? = some (.op o) := hpoints 0 o rfl
  have hexecuted : M.executed? ⟨f, callers, w, n⟩ = some (.op o) :=
    executed?_eq_some_iff.2 ⟨room, code⟩
  exact ⟨step_of_executed? hexecuted, hostCall?_of_executed? hexecuted⟩

/-- Operations in a row take one step each. -/
theorem after_of_proceed (hpoints : f.PointsAt ops)
    (hbranch : ∀ o ∈ ops, (Instr.op o).target? = none) (room : n + ops.length ≤ M.limits.steps)
    (h : M.execOps ops f w = .proceed f' w') :
    M.after ops.length ⟨f, callers, w, n⟩ = .running ⟨f', callers, w', n + ops.length⟩ ∧
      M.asked ops.length ⟨f, callers, w, n⟩ = M.askedOps callers.length ops f w := by
  induction ops generalizing f w n with
  | nil =>
    cases h
    exact ⟨rfl, rfl⟩
  | cons o rest ih =>
    obtain ⟨ho, hrest⟩ := List.forall_mem_cons.1 hbranch
    rw [List.length_cons] at room ⊢
    have hroom : n < M.limits.steps := by omega
    obtain ⟨hstep, hcall⟩ := step_of_pointsAt hpoints w callers hroom
    simp only [execOps] at h
    cases hexec : M.execOp f.advance w o with
    | proceed f₁ w₁ =>
      rw [hexec] at h hstep
      -- the frame that is left points at the rest, with one step less to go
      obtain ⟨hafter, hasked⟩ :=
        ih (n := n + 1) (pointsAt_of_execOp hpoints ho hexec) hrest (by omega) h
      simp only [after, asked, askedOps, hstep, hcall, hexec, serve]
      rw [hafter, hasked, Nat.add_assoc, Nat.add_comm 1]
      exact ⟨rfl, rfl⟩
    | call g t args w₁ => rw [hexec] at h; cases h
    | leave v w₁ => rw [hexec] at h; cases h
    | stop e w₁ => rw [hexec] at h; cases h

/-- A fault in a row of operations ends the run within it. -/
theorem after_of_stop {e : Stop} (hpoints : f.PointsAt ops)
    (hbranch : ∀ o ∈ ops, (Instr.op o).target? = none) (room : n + ops.length ≤ M.limits.steps)
    (h : M.execOps ops f w = .stop e w') :
    (∃ k, k ≤ ops.length ∧
      M.after ops.length ⟨f, callers, w, n⟩ = .ended ⟨.error e, w', n + k⟩) ∧
      M.asked ops.length ⟨f, callers, w, n⟩ = M.askedOps callers.length ops f w := by
  induction ops generalizing f w n with
  | nil => cases h
  | cons o rest ih =>
    obtain ⟨ho, hrest⟩ := List.forall_mem_cons.1 hbranch
    rw [List.length_cons] at room ⊢
    have hroom : n < M.limits.steps := by omega
    obtain ⟨hstep, hcall⟩ := step_of_pointsAt hpoints w callers hroom
    simp only [execOps] at h
    cases hexec : M.execOp f.advance w o with
    | proceed f₁ w₁ =>
      rw [hexec] at h hstep
      obtain ⟨⟨k, hk, hafter⟩, hasked⟩ :=
        ih (n := n + 1) (pointsAt_of_execOp hpoints ho hexec) hrest (by omega) h
      simp only [after, asked, askedOps, hstep, hcall, hexec, serve]
      rw [hafter, hasked]
      exact ⟨⟨k + 1, Nat.succ_le_succ hk, by rw [Nat.add_assoc, Nat.add_comm 1]⟩, rfl⟩
    | stop e₁ w₁ =>
      rw [hexec] at h hstep
      cases h
      refine ⟨⟨1, Nat.le_add_left 1 _, ?_⟩, ?_⟩
      · simp only [after, hstep, serve]
      · simp only [asked, askedOps, hstep, hcall, hexec, serve]
    | call g t args w₁ => rw [hexec] at h; cases h
    | leave v w₁ => rw [hexec] at h; cases h

end Machine

end Interpose
