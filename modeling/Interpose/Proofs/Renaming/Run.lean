import Interpose.Proofs.Execution.Calls
import Interpose.Proofs.Renaming.Operations

/-!
# Runs do not see names

A run that comes to a result comes to the same one, up to the names of arrays, from any world that
is the same up to names. It does so in fewer open frames and after fewer instructions just as well.
What the host does must not depend on names either; how its states are alike is its own affair.
-/

namespace Interpose

variable {σ : Type} {same : Likeness σ} {ρ ρ' : Naming} {w w' : World σ}

namespace Machine

variable {M M' : Machine σ} {f f' : Frame}

/-! ### Entering methods -/

theorem forall₂_fits_renamed {types : List DataType} {values values' : List Value}
    (hfits : List.Forall₂ (fun t v => Value.fits v t = true) types values)
    (hvalues : List.Forall₂ (Value.Renamed ρ) values values') :
    List.Forall₂ (fun t v => Value.fits v t = true) types values' := by
  induction hfits generalizing values' with
  | nil =>
    cases hvalues
    exact .nil
  | cons hfits _ ih =>
    cases hvalues with
    | cons hv hrest => exact .cons (hv.fits_eq _ ▸ hfits) (ih hrest)

theorem checkCall_renamed {h : Heap} (h' : Heap) {name : String} {s : Signature}
    {args args' : List Value} (hargs : List.Forall₂ (Value.Renamed ρ) args args')
    (hcheck : checkCall h name s args = .ok ()) :
    checkCall h' name s args' = .ok () := by
  rw [checkCall_eq_ok_iff] at hcheck ⊢
  obtain ⟨hlength, hfits⟩ := hcheck
  exact ⟨hargs.length_eq ▸ hlength,
    forall₂_fits_renamed hfits (List.forall₂_drop s.receivers hargs)⟩

theorem frame_enter_renamed {name : String} {s : Signature} {b : Body} {args args' : List Value}
    (hargs : List.Forall₂ (Value.Renamed ρ) args args') (hf : Frame.enter name s b args = .ok f) :
    ∃ f', Frame.enter name s b args' = .ok f' ∧ f.Renamed ρ f' := by
  obtain ⟨labels, hlabels, rfl⟩ := Frame.enter_eq_ok_iff.1 hf
  refine ⟨_, Frame.enter_eq_ok_iff.2 ⟨labels, hlabels, rfl⟩, rfl, rfl, rfl, rfl, rfl, rfl, hargs,
    ?_, .nil⟩
  refine List.forall₂_same.2 fun v hv => ?_
  obtain ⟨t, _, ht⟩ := List.mem_map.1 hv
  exact ht ▸ .default t

variable {t : MethodToken} {args args' : List Value} {depth : Nat}

theorem enter_body_renamed (h : M.Agree same M') (depth' : Nat)
    (hroom : depth < M.limits.callDepth → depth' < M'.limits.callDepth)
    (hargs : List.Forall₂ (Value.Renamed ρ) args args') {w₁ : World σ}
    (entry : M.enter t args depth w = .body f w₁) :
    w₁ = w ∧ ∃ f', M'.enter t args' depth' w' = .body f' w' ∧ f.Renamed ρ f' := by
  obtain ⟨hdepth, hw₁, d, b, hd, hb, hcheck, hframe⟩ := enter_eq_body_iff.1 entry
  obtain ⟨f', hframe', hf⟩ := frame_enter_renamed hargs hframe
  refine ⟨hw₁, f', enter_eq_body_iff.2 ⟨hroom hdepth, rfl, d, b, ?_, hb, ?_, ?_⟩, hf⟩
  · rw [h.module, hd]
  · rw [h.module]
    exact checkCall_renamed _ hargs hcheck
  · rw [h.module]
    exact hframe'

theorem enter_result_renamed (h : M.Agree same M') (depth' : Nat)
    (hroom : depth < M.limits.callDepth → depth' < M'.limits.callDepth)
    (hargs : List.Forall₂ (Value.Renamed ρ) args args') (hw : w.Renamed same ρ w')
    {v : Option Value} {w₁ : World σ} (entry : M.enter t args depth w = .result v w₁) :
    ∃ ρ' v' w₁', ρ'.Extends ρ ∧ M'.enter t args' depth' w' = .result v' w₁' ∧
      Option.Rel (Value.Renamed ρ') v v' ∧ w₁.Renamed same ρ' w₁' := by
  obtain ⟨hdepth, d, run, hd, hb, hcheck, hrun, hv⟩ := enter_eq_result_iff.1 entry
  obtain ⟨run', hrun', hmatches⟩ := h.hosts.native hrun hargs hw
  rw [hv] at hmatches
  obtain ⟨ρ', v', w₁', hextends, hv', hresult, hw₁⟩ := hmatches
  refine ⟨ρ', v', w₁', hextends, ?_, hresult, hw₁⟩
  refine enter_eq_result_iff.2 ⟨hroom hdepth, d, run', ?_, hb, ?_, hrun', hv'⟩
  · rw [h.module, hd]
  · rw [h.module]
    exact checkCall_renamed _ hargs hcheck

theorem resume_renamed (hf : f.Renamed ρ f') {v v' : Option Value}
    (hv : Option.Rel (Value.Renamed ρ) v v') : (resume f v).Renamed ρ (resume f' v') := by
  cases hv with
  | none => exact hf
  | some hv => exact hf.push hv

/-- The frame with its arrays renamed is at the same instruction, which asks for the same. -/
theorem next_renamed (h : M.Agree same M') (hf : f.Renamed ρ f') (hw : w.Renamed same ρ w')
    {i : Instr} (hinstalled : i = .op .getInterceptor →
      M'.host.installed w'.host = M.host.installed w.host) {r : Request σ}
    (code : f.code[f.next]? = some i) (exec : M.exec f.advance w i = r) :
    f'.code[f'.next]? = some i ∧
      ∃ r', M'.exec f'.advance w' i = r' ∧ Request.Renamed same ρ r r' := by
  have hrequest := exec_renamed h hf.advance hw hinstalled
  rw [exec] at hrequest
  exact ⟨by rw [hf.code, hf.next, code], _, rfl, hrequest⟩

/-! ### Whole executions -/

/-- A frame that comes to a result comes to it in every world that is the same up to names, below
fewer frames, earlier in a run and within wider limits. -/
theorem Executes.renamed (h : M.Agree same M') (hsteps : M.limits.steps ≤ M'.limits.steps)
    (hcallDepth : M.limits.callDepth ≤ M'.limits.callDepth)
    (hinstalled : ∀ {ρ : Naming} {s s' : σ}, same ρ s s' →
      M'.host.installed s' = M.host.installed s)
    {n : Nat} {c : Completion σ} (hc : M.Executes depth f w n c) {v : Option Value}
    (hv : c.outcome = .ok v) {depth' n' : Nat} (hdepth : depth' ≤ depth) (hn : n' ≤ n)
    (hf : f.Renamed ρ f') (hw : w.Renamed same ρ w') :
    ∃ ρ' v' w₁', ρ'.Extends ρ ∧
      M'.Executes depth' f' w' n' ⟨.ok v', w₁', n' + (c.steps - n)⟩ ∧
      Option.Rel (Value.Renamed ρ') v v' ∧ c.world.Renamed same ρ' w₁' := by
  -- the naming grows along the execution, and the distance to either limit never gets smaller
  induction hc generalizing v n' ρ f' w' depth' with
  | @ending depth f w n code =>
    obtain ⟨v', hv', hresult⟩ := hf.ending hv
    refine ⟨ρ, v', w', .refl ρ, ?_, hresult, hw⟩
    have hcode : f'.code[f'.next]? = none := by rw [hf.code, hf.next, code]
    have hend : n' + (n - n) = n' := by omega
    simp only [hend]
    rw [← hv']
    exact .ending hcode
  | limit code limit => cases hv
  | @proceed depth f w n i f₁ w₁ c code room exec rest ih =>
    obtain ⟨hcode, r, exec', hrequest⟩ := next_renamed h hf hw (fun _ => hinstalled hw.host) code exec
    cases hrequest with
    | proceed hρ hf₁ hw₁ =>
      obtain ⟨ρ'', v', w₂', hextends, hrest, hresult, hw₂⟩ :=
        ih hv hdepth (Nat.succ_le_succ hn) hf₁ hw₁
      have hle := rest.le_steps
      have hend : n' + 1 + (c.steps - (n + 1)) = n' + (c.steps - n) := by omega
      rw [hend] at hrest
      exact ⟨ρ'', v', w₂', hρ.trans hextends, .proceed hcode (by omega) exec' hrest, hresult, hw₂⟩
  | @leave depth f w n i v w₁ code room exec =>
    cases hv
    obtain ⟨hcode, r, exec', hrequest⟩ := next_renamed h hf hw (fun _ => hinstalled hw.host) code exec
    cases hrequest with
    | leave hresult hw₁ =>
      have hend : n' + (n + 1 - n) = n' + 1 := by omega
      simp only [hend]
      exact ⟨ρ, _, _, .refl ρ, .leave hcode (by omega) exec', hresult, hw₁⟩
  | stop code room exec => cases hv
  | refused code room exec entry => cases hv
  | @native depth f w n i g t args w₁ u w₂ c code room exec entry rest ih =>
    obtain ⟨hcode, r, exec', hrequest⟩ := next_renamed h hf hw (fun _ => hinstalled hw.host) code exec
    cases hrequest with
    | call hg hargs hw₁ =>
      obtain ⟨ρ₂, u', w₂', hextends₂, entry', hu, hw₂⟩ :=
        enter_result_renamed h (depth' + 1) (by omega) hargs hw₁ entry
      obtain ⟨ρ₃, v', w₃', hextends₃, hrest, hresult, hw₃⟩ :=
        ih hv hdepth (Nat.succ_le_succ hn) (resume_renamed (hg.mono hextends₂) hu) hw₂
      have hle := rest.le_steps
      have hend : n' + 1 + (c.steps - (n + 1)) = n' + (c.steps - n) := by omega
      rw [hend] at hrest
      exact ⟨ρ₃, v', w₃', hextends₂.trans hextends₃,
        .native hcode (by omega) exec' entry' hrest, hresult, hw₃⟩
  | failed code room exec entry inner ih => cases hv
  | @returned depth f w n i g t args w₁ callee w₂ u w₃ k c code room exec entry inner rest ihInner
      ihRest =>
    obtain ⟨hcode, r, exec', hrequest⟩ := next_renamed h hf hw (fun _ => hinstalled hw.host) code exec
    cases hrequest with
    | call hg hargs hw₁ =>
      obtain ⟨hw₂, callee', entry', hcallee⟩ :=
        enter_body_renamed h (depth' + 1) (by omega) hargs entry
      cases hw₂
      obtain ⟨ρ₃, u', w₃', hextends₃, hinner, hu, hw₃⟩ :=
        ihInner rfl (Nat.succ_le_succ hdepth) (Nat.succ_le_succ hn) hcallee hw₁
      have hle₁ : n + 1 ≤ k := inner.le_steps
      have hle₂ := rest.le_steps
      have hk : n' + 1 + (k - (n + 1)) ≤ k := by omega
      obtain ⟨ρ₄, v', w₄', hextends₄, hrest, hresult, hw₄⟩ :=
        ihRest hv hdepth hk (resume_renamed (hg.mono hextends₃) hu) hw₃
      have hend : n' + 1 + (k - (n + 1)) + (c.steps - k) = n' + (c.steps - n) := by omega
      rw [hend] at hrest
      exact ⟨ρ₄, v', w₄', hextends₃.trans hextends₄,
        .returned hcode (by omega) exec' entry' hinner hrest, hresult, hw₄⟩

/-- What holds for frames that come to a result holds for calls that do. -/
theorem Returns.renamed (h : M.Agree same M') (hsteps : M.limits.steps ≤ M'.limits.steps)
    (hcallDepth : M.limits.callDepth ≤ M'.limits.callDepth)
    (hinstalled : ∀ {ρ : Naming} {s s' : σ}, same ρ s s' →
      M'.host.installed s' = M.host.installed s)
    {n k : Nat} {v : Option Value} {w₁ : World σ} (hreturns : M.Returns t args depth w n v w₁ k)
    {depth' n' : Nat} (hdepth : depth' ≤ depth) (hn : n' ≤ n)
    (hargs : List.Forall₂ (Value.Renamed ρ) args args') (hw : w.Renamed same ρ w') :
    ∃ ρ' v' w₁', ρ'.Extends ρ ∧ M'.Returns t args' depth' w' n' v' w₁' (n' + (k - n)) ∧
      Option.Rel (Value.Renamed ρ') v v' ∧ w₁.Renamed same ρ' w₁' := by
  cases hreturns with
  | native entry =>
    obtain ⟨ρ', v', w₁', hextends, entry', hresult, hw₁⟩ :=
      enter_result_renamed h depth' (by omega) hargs hw entry
    rw [Nat.sub_self]
    exact ⟨ρ', v', w₁', hextends, .native entry', hresult, hw₁⟩
  | body entry inner =>
    obtain ⟨hw₁, f', entry', hf⟩ := enter_body_renamed h depth' (by omega) hargs entry
    cases hw₁
    obtain ⟨ρ', v', w₂', hextends, inner', hresult, hw₂⟩ :=
      inner.renamed h hsteps hcallDepth hinstalled rfl hdepth hn hf hw
    exact ⟨ρ', v', w₂', hextends, .body entry' inner', hresult, hw₂⟩

end Machine

end Interpose
