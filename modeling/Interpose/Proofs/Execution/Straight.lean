import Interpose.Proofs.Execution.Continues
import Interpose.Proofs.Execution.Executes

/-!
# Code without branches

Operations in a row that do not branch are executed one after another, so code made of them can be
followed without looking at the places of its parts.
-/

namespace Interpose

def Frame.PointsAt (f : Frame) (ops : List Op) : Prop :=
  ∀ k o, ops[k]? = some o → f.code[f.next + k]? = some (.op o)

namespace Machine

variable {σ : Type} (M : Machine σ)

/-- What operations in a row ask for, in a frame that points at the first of them. -/
def execOps : List Op → Frame → World σ → Request σ
  | [], f, w => .proceed f w
  | o :: rest, f, w =>
    match M.execOp f.advance w o with
    | .proceed f w => execOps rest f w
    | r => r

theorem execOps_append (front back : List Op) (f : Frame) (w : World σ) :
    M.execOps (front ++ back) f w =
      match M.execOps front f w with
      | .proceed f w => M.execOps back f w
      | r => r := by
  induction front generalizing f w with
  | nil => rfl
  | cons o rest ih =>
    simp only [List.cons_append, execOps]
    cases M.execOp f.advance w o with
    | proceed f' w' => exact ih f' w'
    | call g t args w' => rfl
    | leave v w' => rfl
    | stop e w' => rfl

theorem execOps_singleton (o : Op) (f : Frame) (w : World σ) :
    M.execOps [o] f w = M.execOp f.advance w o := by
  unfold execOps
  cases M.execOp f.advance w o with
  | _ => rfl

variable {M}

theorem execOps_cons_of_proceed {o : Op} {rest : List Op} {f f' : Frame} {w w' : World σ}
    (h : M.execOp f.advance w o = .proceed f' w') :
    M.execOps (o :: rest) f w = M.execOps rest f' w' := by
  simp only [execOps, h]

/-- An operation that does not branch leads to the next one. -/
theorem pointsAt_of_execOp {o : Op} {rest : List Op} {f f' : Frame} {w w' : World σ}
    (hpoints : f.PointsAt (o :: rest)) (hbranch : (Instr.op o).target? = none)
    (h : M.execOp f.advance w o = .proceed f' w') : f'.PointsAt rest := by
  have hafter := Frame.Continues.of_execOp h
  have hnext : f'.next = f.next + 1 := by
    obtain hsame | ⟨l, hl, hplace⟩ := hafter.next
    · exact hsame
    · rw [hbranch] at hl
      cases hl
  intro k o' ho'
  rw [hafter.code, hnext, Nat.add_right_comm, Nat.add_assoc]
  exact hpoints (k + 1) o' ho'

/-- Operations in a row are executed as one, unless the steps do not suffice. Only the last of them
may branch. -/
theorem executes_execOps {depth : Nat} {ops : List Op} {f : Frame} {w : World σ} {n : Nat}
    (hops : ops ≠ []) (hpoints : f.PointsAt ops)
    (hbranch : ∀ o ∈ ops.dropLast, (Instr.op o).target? = none) :
    ∃ k, n < k ∧ k ≤ n + ops.length ∧
      (k ≤ M.limits.steps → ∀ c, M.Executes depth f w n c ↔
        M.Answers depth k c (M.execOps ops f w)) ∧
      (M.limits.steps < k → ∀ c, M.Executes depth f w n c →
        c.outcome = .error (.fault (.stepLimitExceeded M.limits.steps))) := by
  induction ops generalizing f w n with
  | nil => exact absurd rfl hops
  | cons o rest ih =>
    have code : f.code[f.next]? = some (.op o) := hpoints 0 o rfl
    have atLimit (hn : M.limits.steps ≤ n) (c : Completion σ) (hc : M.Executes depth f w n c) :
        c.outcome = .error (.fault (.stepLimitExceeded M.limits.steps)) := by
      rw [(executes_iff_of_limit code hn).1 hc]
    have first (hn : n < M.limits.steps) (c : Completion σ) : M.Executes depth f w n c ↔
        M.Answers depth (n + 1) c (M.execOp f.advance w o) :=
      executes_iff_of_some code hn
    -- nothing behind the first operation is executed
    have short (hexec : M.execOps (o :: rest) f w = M.execOp f.advance w o) :
        ∃ k, n < k ∧ k ≤ n + (o :: rest).length ∧
          (k ≤ M.limits.steps → ∀ c, M.Executes depth f w n c ↔
            M.Answers depth k c (M.execOps (o :: rest) f w)) ∧
          (M.limits.steps < k → ∀ c, M.Executes depth f w n c →
            c.outcome = .error (.fault (.stepLimitExceeded M.limits.steps))) := by
      refine ⟨n + 1, Nat.lt_succ_self n, by rw [List.length_cons]; omega, ?_, ?_⟩
      · intro hk c
        rw [hexec]
        exact first hk c
      · intro hk c hc
        exact atLimit (Nat.le_of_lt_succ hk) c hc
    by_cases hrest : rest = []
    · exact short (by rw [hrest, execOps_singleton])
    · have hkeep : o ∈ (o :: rest).dropLast := by
        rw [List.dropLast_cons_of_ne_nil hrest]
        exact List.mem_cons_self
      cases hexec : M.execOp f.advance w o with
      | proceed f' w' =>
        have hpoints' := pointsAt_of_execOp hpoints (hbranch o hkeep) hexec
        have hbranch' (o' : Op) (ho' : o' ∈ rest.dropLast) : (Instr.op o').target? = none := by
          refine hbranch o' ?_
          rw [List.dropLast_cons_of_ne_nil hrest]
          exact List.mem_cons_of_mem o ho'
        obtain ⟨k, hlt, hle, hroom, hlimit⟩ := ih (w := w') (n := n + 1) hrest hpoints' hbranch'
        refine ⟨k, by omega, by rw [List.length_cons]; omega, ?_, ?_⟩
        · intro hk c
          rw [first (by omega) c, execOps_cons_of_proceed hexec, hexec]
          exact hroom hk c
        · intro hk c hc
          by_cases hn : n < M.limits.steps
          · rw [first hn c, hexec] at hc
            exact hlimit hk c hc
          · exact atLimit (Nat.le_of_not_lt hn) c hc
      | call g t args w' => exact short (by simp only [execOps, hexec])
      | leave v w' => exact short (by simp only [execOps, hexec])
      | stop e w' => exact short (by simp only [execOps, hexec])

end Machine

end Interpose
