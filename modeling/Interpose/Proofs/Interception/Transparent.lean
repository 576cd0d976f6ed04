import Interpose.Proofs.Interception.Batch
import Interpose.Proofs.Interception.Faithful
import Interpose.Proofs.Interception.PassThrough

/-!
# Redirection is transparent

With an interceptor that passes calls through, a module whose methods are all redirected does what
the module did before. A run of the one follows a run of the other, one call at a time, and differs
from it in the names of arrays only, since each dispatch makes an array of its own.
-/

namespace Interpose

/-! ### States whose calls can be passed through -/

namespace Machine

variable {σ : Type}

def Calls (M : Machine σ) (s : State σ) (t : MethodToken) (args : List Value) (w : World σ) :
    Prop :=
  ∃ target g, s.frame.code[s.frame.next]? = some (.call target) ∧
    M.exec s.frame.advance s.world (.call target) = .call g t args w

/-- A state that passing calls through can follow. A receiver is a reference, and a method of the
host gives a value of its declared type; neither is checked by a call, but both are needed where
calls are intercepted. Code that itself asks for the interceptor finds `p`. -/
structure Orderly (M : Machine σ) (p : InterceptorId) (s : State σ) : Prop where
  receiver {t args w d} (h : M.Calls s t args w) (hd : M.module.method? t = some d)
    (hinstance : d.signature.isStatic = false) : ∀ v ∈ args.head?, v.isReference = true
  native {t args w d v w'} (h : M.Calls s t args w) (hd : M.module.method? t = some d)
    (entry : M.enter t args (s.callers.length + 1) w = .result v w') :
    d.signature.returns.admits v = true
  installed (h : s.frame.code[s.frame.next]? = some (.op .getInterceptor)) :
    M.host.installed s.world.host = p

theorem orderly_of_op {M : Machine σ} {p : InterceptorId} {s : State σ} {o : Op}
    (hi : s.frame.code[s.frame.next]? = some (.op o)) (ho : o ≠ .getInterceptor) :
    M.Orderly p s := by
  have hcalls {t args w} : ¬M.Calls s t args w := by
    intro ⟨target, g, hcode, _⟩
    cases hi.symm.trans hcode
  refine ⟨fun h => absurd h hcalls, fun h => absurd h hcalls, fun h => ?_⟩
  cases hi.symm.trans h
  exact absurd rfl ho

/-- A call from outside ends with a result and leaves a world behind. -/
def EndsWith (M : Machine σ) (t : MethodToken) (args : List Value) (w : World σ) (v : Option Value)
    (w' : World σ) : Prop :=
  (M.invoke t args w).outcome = .ok v ∧ (M.invoke t args w).world = w'

theorem Returns.endsWith {M : Machine σ} {t : MethodToken} {args : List Value} {w w' : World σ}
    {v : Option Value} {k : Nat} (h : M.Returns t args 0 w 0 v w' k) : M.EndsWith t args w v w' := by
  unfold EndsWith
  rw [h.invoke_eq]
  exact ⟨rfl, rfl⟩

end Machine

/-! ### Following one frame -/

section Following

open Machine

variable {σ : Type} {same : Likeness σ} {ρ : Naming} {m : Module} {b : Body} {H : Host σ}
  {p : InterceptorId} {limits limitsP : ExecutionLimits} {f f' : Frame} {w w' : World σ}

theorem Module.Resolves.direct (hcalls : m.Resolves b) {target : CallTarget}
    (hi : .call target ∈ b.code) : ∃ t e d, target = .direct t ∧ m.identity? t = some e ∧
      e.token = t ∧ m.method? t = some d ∧ e.signature = d.signature := by
  obtain ⟨c, hc⟩ := hcalls _ hi rfl
  obtain ⟨htarget, e, he, _, _⟩ := Module.identity?_of_describe hc
  obtain ⟨htoken, d, hd, hsignature⟩ := Module.method?_of_identity? he
  exact ⟨c.method, e, d, htarget, he, htoken, hd, hsignature⟩

theorem isReference_head_renamed {args args' : List Value}
    (hargs : List.Forall₂ (Value.Renamed ρ) args args')
    (h : ∀ v ∈ args.head?, v.isReference = true) : ∀ v ∈ args'.head?, v.isReference = true := by
  cases hargs with
  | nil => exact fun v hv => (nomatch hv)
  | @cons u u' rest rest' hu _ =>
    intro v hv
    cases hv
    rw [hu.isReference_eq]
    exact h u rfl

/-- A call that returns is matched by the dispatch that stands for it. -/
theorem exists_execIntercepted_of_returns (hH : H.HidesNames same)
    (hsteps : limits.steps ≤ limitsP.steps) (hcallDepth : limits.callDepth ≤ limitsP.callDepth)
    (hcalls : m.Resolves b) (hcode : f.code = b.code.toArray) {i : Instr}
    (hi : f.code[f.next]? = some i) {n k : Nat}
    (horderly : (load m H limits).Orderly p ⟨f, [], w, n⟩) {g : Frame} {t : MethodToken}
    {args : List Value} {w₁ w₂ : World σ} {u : Option Value}
    (exec : (load m H limits).exec f.advance w i = .call g t args w₁)
    (hreturns : (load m H limits).Returns t args 1 w₁ (n + 1) u w₂ k)
    (hf : f.Renamed ρ f') (hw : w.Renamed same ρ w') :
    ∃ ρ' f₂ w₂', ρ'.Extends ρ ∧
      (load m (H.withPassThrough p (load m H limitsP)) limits).execIntercepted f'.advance w' i =
        .proceed f₂ w₂' ∧
      (resume g u).Renamed ρ' f₂ ∧ w₂.Renamed same ρ' w₂' := by
  cases i with
  | op o => exact absurd exec execOp_ne_call
  | call target =>
    have hmem : Instr.call target ∈ b.code := by
      rw [hcode, List.getElem?_toArray] at hi
      exact List.mem_of_getElem? hi
    obtain ⟨t', e, d, htarget, he, htoken, hd, hsignature⟩ := hcalls.direct hmem
    have hnext : (load m H limits).Calls ⟨f, [], w, n⟩ t args w₁ := ⟨target, g, hi, exec⟩
    rw [htarget] at exec ⊢
    have hrequest := exec_renamed (agree_of_hidesNames (m := m) hH limits limits) hf.advance hw
      (i := .call (.direct t')) fun h => (nomatch h)
    rw [exec] at hrequest
    generalize exec' : (load m H limits).exec f'.advance w' (.call (.direct t')) = r at hrequest
    cases hrequest with
    | @call _ g' _ _ args' _ w₁' hg hargs hw₁ =>
      obtain ⟨ht, hw₁, _⟩ := exec_call_eq_iff.1 exec
      obtain ⟨_, hw₁', d', rest, hd', hlength, hstack, hg'⟩ := exec_call_eq_iff.1 exec'
      cases ht
      cases hw₁
      cases hw₁'
      cases hd.symm.trans hd'
      have hcheck := hreturns.checkCall_eq_ok hd
      have hfits := (checkCall_eq_ok_iff.1 (checkCall_renamed w'.heap hargs hcheck)).2
      have hreceiver : d.signature.isStatic = false → ∀ v ∈ args'.head?, v.isReference = true :=
        fun hinstance => isReference_head_renamed hargs (horderly.receiver hnext hd hinstance)
      obtain ⟨receiver, passed, hpass, htaken⟩ :=
        Frame.exists_passCall hlength hfits hreceiver hstack
      rw [← hg', ← hsignature] at hpass
      rw [← hsignature] at htaken
      obtain ⟨ρ₂, u', w₂', hextends, hreturns', hu, hw₂⟩ :=
        hreturns.renamed (agree_of_hidesNames hH limits limitsP) hsteps hcallDepth hH.installed
          (Nat.zero_le 1) (Nat.zero_le _) hargs (hw.layOut_right passed.toArray)
      have hadmits : e.signature.returns.admits u' = true := by
        rw [hsignature, ReturnType.admits_renamed _ hu]
        exact hreturns.admits hd (horderly.native hnext hd)
      have hinvoke := hreturns'.invoke_eq
      rw [← htaken, ← htoken] at hinvoke
      refine ⟨ρ₂, resume g' u', w₂', hextends, ?_, resume_renamed (hg.mono hextends) hu, hw₂⟩
      have hidentity : (load m (H.withPassThrough p (load m H limitsP)) limits).module.identity? t =
          some e := he
      simp only [execIntercepted, hidentity]
      exact interceptCall_of_invoke (H.intercept_withPassThrough p _) hpass hinvoke hadmits

theorem next_renamed_of_orderly (hH : H.HidesNames same)
    (hp : H.PassesThrough p (load m H limitsP)) {n : Nat} {o : Op} {r : Request σ}
    (code : f.code[f.next]? = some (.op o)) (exec : (load m H limits).exec f.advance w (.op o) = r)
    (horderly : (load m H limits).Orderly p ⟨f, [], w, n⟩) (hf : f.Renamed ρ f')
    (hw : w.Renamed same ρ w') :
    f'.code[f'.next]? = some (.op o) ∧ ∃ r',
      (load m (H.withPassThrough p (load m H limitsP)) limits).exec f'.advance w' (.op o) = r' ∧
        Request.Renamed same ρ r r' := by
  have hagree : (load m H limits).Agree same
      (load m (H.withPassThrough p (load m H limitsP)) limits) :=
    ⟨rfl, rfl, Host.agree_withPassThrough hH hp⟩
  refine next_renamed hagree hf hw (fun ho => ?_) code exec
  exact (horderly.installed (ho ▸ code)).symm

/-- With its calls intercepted a frame comes to a result, up to names. -/
def Machine.InterceptsLike (M : Machine σ) (same : Likeness σ) (ρ : Naming) (f : Frame)
    (w : World σ) (v : Option Value) (w₁ : World σ) : Prop :=
  ∃ ρ' v' w₁', ρ'.Extends ρ ∧ M.Intercepts f w (.ok v') w₁' ∧
    Option.Rel (Value.Renamed ρ') v v' ∧ w₁.Renamed same ρ' w₁'

theorem Machine.InterceptsLike.proceed {M : Machine σ} {ρ₁ : Naming} {f₁ : Frame}
    {w₁ w₂ : World σ} {v : Option Value} {i : Instr} (code : f.code[f.next]? = some i)
    (exec : M.execIntercepted f.advance w i = .proceed f₁ w₁) (hρ : ρ₁.Extends ρ)
    (h : M.InterceptsLike same ρ₁ f₁ w₁ v w₂) : M.InterceptsLike same ρ f w v w₂ := by
  obtain ⟨ρ', v', w₂', hextends, hrest, hresult, hw₂⟩ := h
  exact ⟨ρ', v', w₂', hρ.trans hextends, .proceed code exec hrest, hresult, hw₂⟩

/-- A frame that comes to a result comes to it with its calls intercepted and passed through. -/
theorem interceptsLike_of_executes (hH : H.HidesNames same)
    (hp : H.PassesThrough p (load m H limitsP)) (hsteps : limits.steps ≤ limitsP.steps)
    (hcallDepth : limits.callDepth ≤ limitsP.callDepth) (hcalls : m.Resolves b) {depth n : Nat}
    {c : Completion σ} (hc : (load m H limits).Executes depth f w n c) (hdepth : depth = 0)
    {v : Option Value} (hv : c.outcome = .ok v) (hcode : f.code = b.code.toArray)
    (horderly : ∀ s, (load m H limits).Reaches ⟨f, [], w, n⟩ s → s.callers = [] →
      (load m H limits).Orderly p s)
    (hf : f.Renamed ρ f') (hw : w.Renamed same ρ w') :
    (load m (H.withPassThrough p (load m H limitsP)) limits).InterceptsLike same ρ f' w' v
      c.world := by
  -- each call may give names to arrays, so the naming is not fixed; callees run on their own, and
  -- only the frame at the bottom has its calls intercepted
  induction hc generalizing v ρ f' w' with
  | @ending depth f w n code =>
    obtain ⟨v', hv', hresult⟩ := hf.ending hv
    have hcode' : f'.code[f'.next]? = none := by rw [hf.code, hf.next, code]
    refine ⟨ρ, v', w', .refl ρ, ?_, hresult, hw⟩
    rw [← hv']
    exact .ending hcode'
  | limit code limit => cases hv
  | @proceed depth f w n i f₁ w₁ c code room exec rest ih =>
    have hstep : (load m H limits).step ⟨f, [], w, n⟩ = .running ⟨f₁, [], w₁, n + 1⟩ := by
      rw [step_of_exec code room, exec]
      rfl
    cases i with
    | call target => exact absurd exec exec_call_ne_proceed
    | op o =>
      obtain ⟨hcode', r, exec', hrequest⟩ :=
        next_renamed_of_orderly hH hp code exec (horderly _ .refl rfl) hf hw
      cases hrequest with
      | proceed hρ hf₁ hw₁ =>
        have hcode₁ : f₁.code = b.code.toArray :=
          (Frame.Continues.of_execOp (f := f.advance) exec).code.trans hcode
        have hrest := ih hdepth hv hcode₁ (fun s hs => horderly s (.head hstep hs)) hf₁ hw₁
        exact hrest.proceed hcode' exec' hρ
  | @leave depth f w n i u w₁ code room exec =>
    cases hv
    cases i with
    | call target => exact absurd exec exec_call_ne_leave
    | op o =>
      obtain ⟨hcode', r, exec', hrequest⟩ :=
        next_renamed_of_orderly hH hp code exec (horderly _ .refl rfl) hf hw
      cases hrequest with
      | leave hresult hw₁ => exact ⟨ρ, _, _, .refl ρ, .leave hcode' exec', hresult, hw₁⟩
  | stop code room exec => cases hv
  | refused code room exec entry => cases hv
  | @native depth f w n i g t args w₁ u w₂ c code room exec entry rest ih =>
    cases hdepth
    have hcode' : f'.code[f'.next]? = some i := by rw [hf.code, hf.next, code]
    have hstep : (load m H limits).step ⟨f, [], w, n⟩ =
        .running ⟨resume g u, [], w₂, n + 1⟩ := by
      rw [step_of_exec code room, exec, serve, List.length_nil, entry]
    have hcode₂ : (resume g u).code = b.code.toArray :=
      (code_resume g u).trans ((continues_of_exec_call exec).code.trans hcode)
    obtain ⟨ρ₂, f₂, w₂', hextends, exec', hf₂, hw₂⟩ :=
      exists_execIntercepted_of_returns hH hsteps hcallDepth hcalls hcode code
        (horderly _ .refl rfl) exec (.native entry) hf hw
    have hrest := ih rfl hv hcode₂ (fun s hs => horderly s (.head hstep hs)) hf₂ hw₂
    exact hrest.proceed hcode' exec' hextends
  | failed code room exec entry inner ih => cases hv
  | @returned depth f w n i g t args w₁ callee w₂ u w₃ k c code room exec entry inner rest _ ih =>
    cases hdepth
    have hcode' : f'.code[f'.next]? = some i := by rw [hf.code, hf.next, code]
    have hstep : (load m H limits).step ⟨f, [], w, n⟩ = .running ⟨callee, [g], w₂, n + 1⟩ := by
      rw [step_of_exec code room, exec, serve, List.length_nil, entry]
    have hreach : (load m H limits).Reaches ⟨f, [], w, n⟩ ⟨resume g u, [], w₃, k⟩ :=
      .head hstep (inner.reaches rfl rfl g)
    have hcode₂ : (resume g u).code = b.code.toArray :=
      (code_resume g u).trans ((continues_of_exec_call exec).code.trans hcode)
    obtain ⟨ρ₂, f₂, w₂', hextends, exec', hf₂, hw₂⟩ :=
      exists_execIntercepted_of_returns hH hsteps hcallDepth hcalls hcode code
        (horderly _ .refl rfl) exec (.body entry inner) hf hw
    have hrest := ih rfl hv hcode₂ (fun s hs => horderly s (hreach.trans hs)) hf₂ hw₂
    exact hrest.proceed hcode' exec' hextends

end Following

/-! ### Whole runs -/

section Runs

open Machine

variable {σ : Type} {same : Likeness σ} {ρ : Naming} {m m' : Module} {H : Host σ}
  {p : InterceptorId} {limits limitsP : ExecutionLimits} {w w' : World σ}

theorem Module.AllRedirected.checkCall_eq_ok {limit : Nat} (hm' : m.AllRedirected limit m')
    {t : MethodToken} {s : Signature} {args args' : List Value}
    (hargs : List.Forall₂ (Value.Renamed ρ) args args')
    (hcheck : checkCall w.heap (m.qualifiedName t) s args = .ok ()) :
    checkCall w'.heap (m'.qualifiedName t) s args' = .ok () := by
  rw [hm'.declares.qualifiedName]
  exact checkCall_renamed w'.heap hargs hcheck

/-- Whatever comes to a result in a module comes to it, up to names, where all methods are
redirected and calls are passed through to the module. It takes more steps, so a limit on them may
end the run before; every other end is the same. -/
theorem exists_endsWith_of_allRedirected (hmethods : m.methods.length < 2 ^ 32)
    (hlocals : ∀ d ∈ m.methods, ∀ b, d.body = some b → b.locals.length < 2 ^ 32) {limit : Nat}
    (hlimit : limit < 2 ^ 31) (hm' : m.AllRedirected limit m') (hH : H.HidesNames same)
    (hp : H.PassesThrough p (load m H limitsP)) (hsteps : limits.steps ≤ limitsP.steps)
    (hcallDepth : limits.callDepth ≤ limitsP.callDepth) {t : MethodToken} {args args' : List Value}
    {v : Option Value} (hv : ((load m H limits).invoke t args w).outcome = .ok v)
    (horderly : ∀ s, (load m H limits).Visits t args w s → s.callers = [] →
      (load m H limits).Orderly p s)
    (hargs : List.Forall₂ (Value.Renamed ρ) args args') (hw : w.Renamed same ρ w') :
    ∃ ρ' v' w₁', ρ'.Extends ρ ∧ Option.Rel (Value.Renamed ρ') v v' ∧
      ((load m H limits).invoke t args w).world.Renamed same ρ' w₁' ∧
      ∃ K, ∀ limits' : ExecutionLimits, 0 < limits'.callDepth →
        let M' := load m' (H.withPassThrough p (load m H limitsP)) limits'
        (K ≤ limits'.steps → M'.EndsWith t args' w' v' w₁') ∧
          ((M'.invoke t args' w').outcome = .error (.fault (.stepLimitExceeded limits'.steps)) ∨
            M'.EndsWith t args' w' v' w₁') := by
  have hreturns := returns_of_invoke hv
  generalize ((load m H limits).invoke t args w).world = w₁ at hreturns ⊢
  generalize ((load m H limits).invoke t args w).steps = n at hreturns
  clear hv
  cases hreturns with
  | native entry =>
    obtain ⟨_, d, run, hd, hb, hcheck, hrun, hv⟩ := enter_eq_result_iff.1 entry
    obtain ⟨run', hrun', hmatches⟩ := hH.native hrun hargs hw
    rw [hv] at hmatches
    obtain ⟨ρ', v', w₁', hextends, hv', hresult, hw₁⟩ := hmatches
    refine ⟨ρ', v', w₁', hextends, hresult, hw₁, 0, fun limits' hroom => ?_⟩
    intro M'
    have entry' : M'.enter t args' 0 w' = .result v' w₁' :=
      enter_eq_result_iff.2 ⟨hroom, d, run', hm'.native hd hb, hb,
        hm'.checkCall_eq_ok hargs hcheck, hrun', hv'⟩
    have hend : M'.EndsWith t args' w' v' w₁' := (Returns.native entry').endsWith
    exact ⟨fun _ => hend, .inr hend⟩
  | @body f w₀ _ _ _ entry inner =>
    obtain ⟨_, hw₀, d, b, hd, hb, hcheck, _⟩ := enter_eq_body_iff.1 entry
    cases hw₀
    have hlocals' : b.locals.length < 2 ^ 32 := hlocals d (List.mem_of_getElem? hd) b hb
    obtain ⟨r, hr, hd'⟩ := hm'.body hd hb
    obtain ⟨hcommit, hresolves, _⟩ := Module.redirectBody_eq_ok hlocals' hr
    obtain ⟨_, f', entry', hf⟩ :
        _ ∧ ∃ f', (load m H limits).enter t args' 0 w' = .body f' w' ∧ f.Renamed ρ f' :=
      enter_body_renamed (agree_of_hidesNames hH limits limits) 0 id hargs entry
    obtain ⟨_, _, d', b', hd'', hb'', _, hframe⟩ := enter_eq_body_iff.1 entry'
    cases hd.symm.trans hd''
    cases hb.symm.trans hb''
    obtain ⟨e, hold, _⟩ | ⟨g, labels, labels', extra, hold, hruns, hmoved, hextra, hnew⟩ :=
      m.enter_redirected b (m.qualifiedName t) d.signature args'
    · exact nomatch hframe.symm.trans hold
    · cases hframe.symm.trans hold
      have hcode : f.code = b.code.toArray := hf.code.symm.trans hruns.code
      obtain ⟨ρ', v', w₁', hextends, hintercepts, hresult, hw₁⟩ :=
        interceptsLike_of_executes hH hp hsteps hcallDepth hresolves inner rfl rfl hcode
          (fun s hs => horderly s ⟨f, w, entry, hs⟩) hf hw
      obtain ⟨K, hK⟩ := Module.exists_executes_of_intercepts hintercepts hmoved (.inr ⟨v', rfl⟩)
      refine ⟨ρ', v', w₁', hextends, hresult, hw₁, K, fun limits' hroom => ?_⟩
      intro M'
      have entryRedirected : M'.enter t args' 0 w' =
          .body ((m.relayout b labels' extra).frame f') w' := by
        refine enter_eq_body_iff.2 ⟨hroom, rfl, _, _, hd', rfl,
          hm'.checkCall_eq_ok hargs hcheck, ?_⟩
        show Frame.enter (m'.qualifiedName t) d.signature (r.commit b) args' = _
        rw [hm'.declares.qualifiedName, hcommit]
        exact hnew
      have hstands := Module.stands_of_redirectBody hmethods hlocals' hlimit hr
        (H.withPassThrough p (load m H limitsP)) limits limits' hm'.declares
      have hends : (M'.invoke t args' w').outcome =
            .error (.fault (.stepLimitExceeded limits'.steps)) ∧ limits'.steps < 0 + K ∨
          M'.EndsWith t args' w' v' w₁' := by
        refine (hK _ hstands hruns extra hextra 0 0 _ (executes_of_invoke entryRedirected)).imp_right
          fun ⟨hworld, hsame⟩ => ⟨?_, hworld⟩
        generalize (M'.invoke t args' w').outcome = outcome at hsame
        cases hsame
        rfl
      refine ⟨fun hle => hends.resolve_left fun h => ?_, hends.imp_left And.left⟩
      have hfew := h.2
      omega

end Runs

/-! ### Calls of the host -/

structure NativeCall where
  method : MethodToken
  args : List Value

structure NativeCall.Renamed (ρ : Naming) (c c' : NativeCall) : Prop where
  method : c'.method = c.method
  args : List.Forall₂ (Value.Renamed ρ) c.args c'.args

/-- When states with the calls so far beside them are the same but for names. -/
def Likeness.recorded {σ : Type} (same : Likeness σ) : Likeness (σ × List NativeCall) :=
  fun ρ s s' => same ρ s.1 s'.1 ∧ List.Forall₂ (NativeCall.Renamed ρ) s.2 s'.2

/-- A host that writes down each call of its methods, the last one at the end. -/
def Host.recording {σ : Type} (H : Host (σ × List NativeCall)) : Host (σ × List NativeCall) where
  installed := H.installed
  intercept := H.intercept
  native? t := (H.native? t).map fun run args w =>
    run args ⟨w.heap, w.host.1, w.host.2 ++ [⟨t, args⟩]⟩

section Recording

open Machine

variable {σ : Type} {same : Likeness σ} {H : Host (σ × List NativeCall)}

theorem Likeness.recorded_mono
    (hmono : ∀ {ρ ρ' : Naming} {s s' : σ}, same ρ s s' → ρ'.Extends ρ → same ρ' s s')
    {ρ ρ' : Naming} {s s' : σ × List NativeCall} (h : same.recorded ρ s s') (hρ : ρ'.Extends ρ) :
    same.recorded ρ' s s' := by
  refine ⟨hmono h.1 hρ, h.2.imp fun c c' hc => ⟨hc.method, ?_⟩⟩
  exact hc.args.imp fun _ _ hv => hv.mono hρ

theorem Host.HidesNames.recording (hH : H.HidesNames same.recorded) :
    H.recording.HidesNames same.recorded := by
  refine ⟨⟨hH.mono, hH.intercept, fun {ρ t run args args' w w'} hrun hargs hw => ?_⟩, hH.installed⟩
  obtain ⟨run₀, hrun₀, hrun⟩ := Option.map_eq_some_iff.1 hrun
  have hcalls : List.Forall₂ (NativeCall.Renamed ρ) (w.host.2 ++ [⟨t, args⟩])
      (w'.host.2 ++ [⟨t, args'⟩]) :=
    List.rel_append hw.host.2 (.cons ⟨rfl, hargs⟩ .nil)
  have hrecorded : World.Renamed same.recorded ρ
      ⟨w.heap, w.host.1, w.host.2 ++ [⟨t, args⟩]⟩ ⟨w'.heap, w'.host.1, w'.host.2 ++ [⟨t, args'⟩]⟩ :=
    ⟨hw.heap, hw.host.1, hcalls⟩
  obtain ⟨run₀', hrun₀', hmatches⟩ := hH.native hrun₀ hargs hrecorded
  refine ⟨_, Option.map_eq_some_iff.2 ⟨run₀', hrun₀', rfl⟩, ?_⟩
  rw [← hrun]
  exact hmatches

/-- Passing calls through preserves what a module does. A call that comes to a result comes to it
after all methods were redirected as well, with calls passed through to the module as it was: the
same result and the same calls of methods of the host in the same order, up to the names of arrays
made on the way. -/
theorem endsWith_redirectAll {m : Module} {k : Nat} {reports : List Report}
    (hmethods : m.methods.length < 2 ^ 32)
    (hlocals : ∀ d ∈ m.methods, ∀ b, d.body = some b → b.locals.length < 2 ^ 32)
    (hr : ((Redirector.withMaxLocals k).redirectAll m).result = .ok reports)
    (hH : H.HidesNames same.recorded) {p : InterceptorId} {limits limitsP : ExecutionLimits}
    (hp : H.recording.PassesThrough p (load m H.recording limitsP))
    (hsteps : limits.steps ≤ limitsP.steps) (hcallDepth : limits.callDepth ≤ limitsP.callDepth)
    {t : MethodToken} {args : List Value} {w w₁ : World (σ × List NativeCall)} {v : Option Value}
    (hv : (load m H.recording limits).EndsWith t args w v w₁)
    (horderly : ∀ s, (load m H.recording limits).Visits t args w s → s.callers = [] →
      (load m H.recording limits).Orderly p s)
    (hargs : ∀ u ∈ args, u.Renamed (.live w.heap) u)
    (hw : w.Renamed same.recorded (.live w.heap) w) :
    ∃ ρ v' w₁', ρ.Extends (.live w.heap) ∧ Option.Rel (Value.Renamed ρ) v v' ∧
      List.Forall₂ (NativeCall.Renamed ρ) w₁.host.2 w₁'.host.2 ∧
      w₁.Renamed same.recorded ρ w₁' ∧
      ∃ K, ∀ limits' : ExecutionLimits, 0 < limits'.callDepth →
        let M' := load ((Redirector.withMaxLocals k).redirectAll m).module
          (H.recording.withPassThrough p (load m H.recording limitsP)) limits'
        (K ≤ limits'.steps → M'.EndsWith t args w v' w₁') ∧
          ((M'.invoke t args w).outcome = .error (.fault (.stepLimitExceeded limits'.steps)) ∨
            M'.EndsWith t args w v' w₁') := by
  have hlimit : (Redirector.withMaxLocals k).maxLocals < 2 ^ 31 := by
    show min k slotCeiling < 2 ^ 31
    have hceiling : slotCeiling < 2 ^ 31 := by decide
    omega
  obtain ⟨hv, hw₁⟩ := hv
  obtain ⟨ρ, v', w₁', hextends, hresult, hworld, hends⟩ :=
    exists_endsWith_of_allRedirected hmethods hlocals hlimit
      (Redirector.allRedirected_of_redirectAll hr) hH.recording hp hsteps hcallDepth hv horderly
      (List.forall₂_same.2 hargs) hw
  rw [hw₁] at hworld
  exact ⟨ρ, v', w₁', hextends, hresult, hworld.host.2, hworld, hends⟩

def relayed : Module :=
  { relay with
    methods := relay.methods ++ [⟨⟨0⟩, "relay", ⟨[.int32], .value .int32, true⟩, some relayBody⟩] }

def doubling : Host (Unit × List NativeCall) where
  installed _ := ⟨0⟩
  intercept _ _ _ callee w := (.error (.error (.rejected callee.qualifiedName "not here")), w)
  native? _ := some fun args w =>
    match args with
    | [.int32 n] => (.ok (some (.int32 (n + n))), w)
    | _ => (.error (.error (.native "twice" "no number")), w)

theorem hidesNames_doubling :
    doubling.HidesNames (Likeness.recorded fun _ (_ _ : Unit) => True) := by
  refine ⟨⟨Likeness.recorded_mono fun _ _ => trivial, ?_, ?_⟩, fun _ => rfl⟩
  · intro ρ receiver receiver' args args' w w' p callee hreceiver hargs hw
    trivial
  · intro ρ t run args args' w w' hrun hargs hw
    cases hrun
    refine ⟨_, rfl, ?_⟩
    cases hargs with
    | nil => trivial
    | @cons v v' rest rest' hv hrest =>
      cases hrest with
      | nil =>
        cases v with
        | int32 n =>
          rw [hv.eq_of_isPlain rfl]
          exact ⟨ρ, _, _, .refl ρ, rfl, .some (.plain rfl), hw⟩
        | _ => trivial
      | cons _ _ => cases v <;> trivial

theorem orderly_relayed {s : State (Unit × List NativeCall)}
    (h : (load relayed doubling.recording ⟨2, 3, by decide⟩).Visits ⟨1⟩ [.int32 7] ⟨.empty, (), []⟩ s) :
    (load relayed doubling.recording ⟨2, 3, by decide⟩).Orderly ⟨0⟩ s := by
  obtain ⟨f, w, entry, hs⟩ := h
  cases entry
  -- the argument is loaded, the call is made, and the method returns
  obtain rfl | ⟨s₁, h₁, hs⟩ := Relation.ReflTransGen.cases_head hs
  · exact orderly_of_op rfl (nofun)
  · cases h₁
    obtain rfl | ⟨s₂, h₂, hs⟩ := Relation.ReflTransGen.cases_head hs
    · refine ⟨?_, ?_, nofun⟩
      · intro t args w d ⟨target, g, hi, hexec⟩ hd
        cases hi
        cases hexec
        cases hd
        exact nofun
      · intro t args w d v w' ⟨target, g, hi, hexec⟩ hd entry
        cases hi
        cases hexec
        cases hd
        cases entry
        rfl
    · cases h₂
      obtain rfl | ⟨s₃, h₃, hs⟩ := Relation.ReflTransGen.cases_head hs
      · exact orderly_of_op rfl (nofun)
      · cases h₃

theorem endsWith_redirectAll_relayed :
    let w : World (Unit × List NativeCall) := ⟨.empty, (), []⟩
    let w₁ : World (Unit × List NativeCall) := ⟨.empty, (), [⟨⟨0⟩, [.int32 7]⟩]⟩
    let same : Likeness Unit := fun _ _ _ => True
    ∃ ρ v' w₁', ρ.Extends (.live w.heap) ∧
      Option.Rel (Value.Renamed ρ) (some (.int32 14)) v' ∧
      List.Forall₂ (NativeCall.Renamed ρ) w₁.host.2 w₁'.host.2 ∧
      w₁.Renamed same.recorded ρ w₁' ∧
      ∃ K, ∀ limits' : ExecutionLimits, 0 < limits'.callDepth →
        let M' := load ((Redirector.withMaxLocals 3).redirectAll relayed).module
          (doubling.recording.withPassThrough ⟨0⟩ (load relayed doubling.recording .standard))
          limits'
        (K ≤ limits'.steps → M'.EndsWith ⟨1⟩ [.int32 7] w v' w₁') ∧
          ((M'.invoke ⟨1⟩ [.int32 7] w).outcome =
              .error (.fault (.stepLimitExceeded limits'.steps)) ∨
            M'.EndsWith ⟨1⟩ [.int32 7] w v' w₁') := by
  intro w w₁ same
  have hlocals : ∀ d ∈ relayed.methods, ∀ b, d.body = some b → b.locals.length < 2 ^ 32 := by
    decide
  have hr : ((Redirector.withMaxLocals 3).redirectAll relayed).result =
      .ok [⟨⟨1⟩, 1, 3, 3, 21⟩] := rfl
  have hp : doubling.recording.PassesThrough ⟨0⟩ (load relayed doubling.recording .standard) := by
    intro receiver args callee w a w' h
    cases h
  have hv : (load relayed doubling.recording ⟨2, 3, by decide⟩).EndsWith ⟨1⟩ [.int32 7] w
      (some (.int32 14)) w₁ := ⟨rfl, rfl⟩
  have hargs : ∀ u ∈ [Value.int32 7], u.Renamed (.live w.heap) u := by
    intro u hu
    rw [List.mem_singleton.1 hu]
    exact .plain rfl
  have hw : w.Renamed same.recorded (.live w.heap) w :=
    ⟨Heap.renamed_live fun a ha => absurd ha (Nat.not_lt_zero a), trivial, .nil⟩
  exact endsWith_redirectAll (by decide) hlocals hr hidesNames_doubling hp (by decide) (by decide)
    hv (fun s hs _ => orderly_relayed hs) hargs hw

end Recording

end Interpose
