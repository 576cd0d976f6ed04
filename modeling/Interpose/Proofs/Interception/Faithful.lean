import Interpose.Proofs.Interception.Mirror

/-!
# Redirection is faithful

Executing the redirected form of a body is executing the body with its calls intercepted: each run
of the one is a run of the other, with the same dispatches in the same worlds and ends that say the
same. Only the steps of the new code are more.
-/

namespace Interpose

namespace Module

/-- Two ends of the execution of a body: the same result, or faults that say the same. -/
inductive SameOutcome (m : Module) (b : Body) :
    Except Stop (Option Value) → Except Stop (Option Value) → Prop
  | ok (v : Option Value) : SameOutcome m b (.ok v) (.ok v)
  | error {e e' : Stop} (h : e.Counterpart (m.StandsFor b) b.locals.length e') :
      SameOutcome m b (.error e) (.error e')

theorem SameOutcome.refl (m : Module) (b : Body) (outcome : Except Stop (Option Value)) :
    m.SameOutcome b outcome outcome := by
  cases outcome with
  | ok v => exact .ok v
  | error e => exact .error (.same e)

/-- A machine for the redirected form of a body, next to one for the body itself. -/
structure Stands {σ : Type} (m : Module) (b : Body) (M M' : Machine σ) : Prop where
  module : M.module = m
  host : M'.host = M.host
  identities : M.identities = .build m
  identities' : M'.identities = .build m
  methods : m.methods.length < 2 ^ 32
  calls : m.Resolves b
  slots : ∀ i ∈ b.code, i.isCall = true → (m.redirected b).locals.length < 2 ^ 31

variable {m : Module} {b : Body} {σ : Type} {M M' : Machine σ} {f f' : Frame}
  {labels labels' : LabelIndex} {extra : Array Value} {w w' : World σ} {i : Instr}

/-! ### One instruction -/

theorem Stands.mirrors (h : m.Stands b M M') (hf : f.Runs b labels)
    (hmoved : m.LabelsMoved b labels labels')
    (hextra : extra.size = (b.code.flatMap m.slotTypesFor).length)
    (hi : b.code[f.next]? = some i) (hslots : ∀ s ∈ i.slots, s.position < b.locals.length) :
    m.Mirrors b labels' (M.execIntercepted f.advance w i)
      (M'.execOps (m.opsFor (m.slotsBefore b f.next) i) ((m.relayout b labels' extra).frame f)
        w) := by
  cases i with
  | op o =>
    have hidentities : M'.identities = M.identities := h.identities'.trans h.identities.symm
    show m.Mirrors b labels' (M.execOp f.advance w o) (M'.execOps [o] _ w)
    rw [Machine.execOps_singleton, Machine.execOp_congr h.host hidentities]
    exact mirrors_op hf hmoved hextra hi hslots
  | call target =>
    have hmem : Instr.call target ∈ b.code := List.mem_of_getElem? hi
    obtain ⟨c, hc⟩ := h.calls _ hmem rfl
    obtain ⟨htarget, callee, hcallee, htype, hsignature⟩ := identity?_of_describe hc
    have hresolve : M'.identities.resolve? c.declaringType c.method = some callee := by
      rw [h.identities']
      exact (IdentityTable.resolve?_build_eq_some_iff h.methods).2 ⟨hcallee, htype⟩
    have hexec : M.execIntercepted f.advance w (.call target) =
        M'.interceptCall f.advance w callee := by
      rw [Machine.interceptCall_congr h.host, htarget]
      simp only [Machine.execIntercepted, h.module, hcallee]
    rw [hexec]
    exact mirrors_call hf hextra (h.slots _ hmem rfl) hi hc hsignature hresolve

theorem Stands.runs (h : m.Stands b M M') (hf : f.Runs b labels) (hi : b.code[f.next]? = some i)
    (hexec : M.execIntercepted f.advance w i = .proceed f' w') : f'.Runs b labels := by
  cases i with
  | op o =>
    have hafter := Frame.Continues.of_execOp (M := M) (f := f.advance) (o := o) hexec
    exact ⟨hafter.code.trans hf.code, hafter.labels.trans hf.labels,
      hafter.declared.trans hf.declared, hafter.locals.trans hf.locals⟩
  | call target =>
    obtain ⟨c, hc⟩ := h.calls _ (List.mem_of_getElem? hi) rfl
    obtain ⟨htarget, callee, hcallee, _, _⟩ := identity?_of_describe hc
    have hcall : M.interceptCall f.advance w callee = .proceed f' w' := by
      rw [htarget] at hexec
      simpa only [Machine.execIntercepted, h.module, hcallee] using hexec
    obtain ⟨rest, w'', hcases⟩ | ⟨e, w'', hcases⟩ :=
      Machine.interceptCall_cases M f.advance w callee
    · rw [hcases] at hcall
      cases hcall
      exact ⟨hf.code, hf.labels, hf.declared, hf.locals⟩
    · rw [hcases] at hcall
      cases hcall

/-- The operations that stand for an instruction are executed in a row. -/
theorem Stands.executes (h : m.Stands b M M') (hi : b.code[f.next]? = some i)
    (labels' : LabelIndex) (extra : Array Value) (depth n : Nat) (w : World σ) :
    let F := (m.relayout b labels' extra).frame f
    let ops := m.opsFor (m.slotsBefore b f.next) i
    ∃ k, n < k ∧ k ≤ n + ops.length ∧
      (k ≤ M'.limits.steps → ∀ c, M'.Executes depth F w n c ↔
        M'.Answers depth k c (M'.execOps ops F w)) ∧
      (M'.limits.steps < k → ∀ c, M'.Executes depth F w n c →
        c.outcome = .error (.fault (.stepLimitExceeded M'.limits.steps))) := by
  intro F ops
  have hpoints : F.PointsAt ops := by
    intro j o ho
    show (m.redirected b).code.toArray[m.place b f.next + j]? = _
    rw [List.getElem?_toArray]
    exact getElem?_redirected hi ho
  cases i with
  | op o => exact Machine.executes_execOps (List.cons_ne_nil o []) hpoints (by simp [ops, opsFor])
  | call target =>
    obtain ⟨c, hc⟩ := h.calls _ (List.mem_of_getElem? hi) rfl
    refine Machine.executes_execOps ?_ hpoints ?_
    · simp [ops, opsFor_of_describe hc, Callee.expansion]
    · intro o ho
      exact Op.target?_of_isPlain (isPlain_of_mem_opsFor_call ((List.dropLast_sublist _).subset ho))

/-- An instruction is followed by the operations that stand for it, if there are steps for them. -/
theorem Stands.follows (h : m.Stands b M M') (hf : f.Runs b labels)
    (hmoved : m.LabelsMoved b labels labels')
    (hextra : extra.size = (b.code.flatMap m.slotTypesFor).length)
    (hi : b.code[f.next]? = some i) (hslots : ∀ s ∈ i.slots, s.position < b.locals.length)
    (depth n : Nat) (w : World σ) :
    let F := (m.relayout b labels' extra).frame f
    ∃ k r, n < k ∧ k ≤ n + (m.opsFor (m.slotsBefore b f.next) i).length ∧
      m.Mirrors b labels' (M.execIntercepted f.advance w i) r ∧
      (k ≤ M'.limits.steps → ∀ c, M'.Executes depth F w n c ↔ M'.Answers depth k c r) ∧
      (M'.limits.steps < k → ∀ c, M'.Executes depth F w n c →
        c.outcome = .error (.fault (.stepLimitExceeded M'.limits.steps))) := by
  intro F
  obtain ⟨k, hlt, hle, hroom, hlimit⟩ := h.executes hi labels' extra depth n w
  exact ⟨k, _, hlt, hle, h.mirrors hf hmoved hextra hi hslots, hroom, hlimit⟩

/-! ### Whole executions -/

theorem getElem?_relayout_of_none (hi : b.code[f.next]? = none) :
    ((m.relayout b labels' extra).frame f).code[((m.relayout b labels' extra).frame f).next]? =
      none := by
  show (m.redirected b).code.toArray[m.place b f.next]? = none
  rw [List.getElem?_toArray]
  exact getElem?_redirected_of_none hi

/-- The locals that an instruction names are those of the body, if it does not end the execution. -/
theorem slots_lt_of_execIntercepted (hf : f.Runs b labels)
    (h : ∀ e, M.execIntercepted f.advance w i ≠ .stop e w) :
    ∀ s ∈ i.slots, s.position < b.locals.length := by
  cases i with
  | call target => exact fun s hs => nomatch hs
  | op o =>
    have hsize : f.advance.declared.size = f.advance.locals.size := by
      show f.declared.size = f.locals.size
      rw [hf.declared, hf.locals, List.size_toArray]
    intro s hs
    exact hf.locals ▸ Machine.slots_lt_of_execOp hsize h s hs

/-- What a frame does with its calls intercepted, it does in redirected code, unless it has too few
steps for it. The locals that the body names are its own, or it ends with a result. -/
theorem exists_executes_of_intercepts {outcome : Except Stop (Option Value)}
    (h : M.Intercepts f w outcome w') (hmoved : m.LabelsMoved b labels labels')
    (hslots : (∀ i ∈ b.code, ∀ s ∈ i.slots, s.position < b.locals.length) ∨
      ∃ v, outcome = .ok v) :
    ∃ K, ∀ M', m.Stands b M M' → f.Runs b labels → ∀ (extra : Array Value),
      extra.size = (b.code.flatMap m.slotTypesFor).length → ∀ depth n c,
      M'.Executes depth ((m.relayout b labels' extra).frame f) w n c →
      c.outcome = .error (.fault (.stepLimitExceeded M'.limits.steps)) ∧
          M'.limits.steps < n + K ∨
        c.world = w' ∧ m.SameOutcome b outcome c.outcome := by
  induction h with
  | @ending f w code =>
    refine ⟨0, fun M' h hf extra hextra depth n c hc => .inr ?_⟩
    have hi : b.code[f.next]? = none := (hf.getElem?_code f.next).symm.trans code
    rw [(Machine.executes_iff_of_none (getElem?_relayout_of_none hi)).1 hc]
    exact ⟨rfl, .refl m b f.ending⟩
  | @proceed f w i f' w' outcome w'' code exec rest ih =>
    obtain ⟨K, hK⟩ := ih hslots
    refine ⟨(m.opsFor (m.slotsBefore b f.next) i).length + K,
      fun M' h hf extra hextra depth n c hc => ?_⟩
    have hi : b.code[f.next]? = some i := (hf.getElem?_code f.next).symm.trans code
    have hlocals := slots_lt_of_execIntercepted hf fun e he => nomatch exec.symm.trans he
    obtain ⟨k, r, _, hle, hmirrors, hroom, hlimit⟩ :=
      h.follows hf hmoved hextra hi hlocals depth n w
    rw [exec] at hmirrors
    cases hmirrors with
    | proceed hextra' =>
      by_cases hk : k ≤ M'.limits.steps
      · obtain ⟨hstopped, hfew⟩ | hend :=
          hK M' h (h.runs hf hi exec) _ hextra' depth k c ((hroom hk c).1 hc)
        · exact .inl ⟨hstopped, by omega⟩
        · exact .inr hend
      · exact .inl ⟨hlimit (Nat.lt_of_not_le hk) c hc, by omega⟩
  | @leave f w i v w' code exec =>
    refine ⟨(m.opsFor (m.slotsBefore b f.next) i).length,
      fun M' h hf extra hextra depth n c hc => ?_⟩
    have hi : b.code[f.next]? = some i := (hf.getElem?_code f.next).symm.trans code
    have hlocals := slots_lt_of_execIntercepted hf fun e he => nomatch exec.symm.trans he
    obtain ⟨k, r, _, hle, hmirrors, hroom, hlimit⟩ :=
      h.follows hf hmoved hextra hi hlocals depth n w
    rw [exec] at hmirrors
    cases hmirrors
    by_cases hk : k ≤ M'.limits.steps
    · rw [show c = ⟨.ok v, w', k⟩ from (hroom hk c).1 hc]
      exact .inr ⟨rfl, .ok v⟩
    · exact .inl ⟨hlimit (Nat.lt_of_not_le hk) c hc, by omega⟩
  | @stop f w i e w' code exec =>
    refine ⟨(m.opsFor (m.slotsBefore b f.next) i).length,
      fun M' h hf extra hextra depth n c hc => ?_⟩
    have hi : b.code[f.next]? = some i := (hf.getElem?_code f.next).symm.trans code
    obtain hslots | ⟨v, hv⟩ := hslots
    · have hlocals := hslots i (List.mem_of_getElem? hi)
      obtain ⟨k, r, _, hle, hmirrors, hroom, hlimit⟩ :=
        h.follows hf hmoved hextra hi hlocals depth n w
      rw [exec] at hmirrors
      cases hmirrors with
      | stop hcounterpart =>
        by_cases hk : k ≤ M'.limits.steps
        · rw [show c = _ from (hroom hk c).1 hc]
          exact .inr ⟨rfl, .error hcounterpart⟩
        · exact .inl ⟨hlimit (Nat.lt_of_not_le hk) c hc, by omega⟩
    · cases hv

/-- What a frame does in redirected code, it does with its calls intercepted, unless the steps do
not suffice. -/
theorem intercepts_of_executes (h : m.Stands b M M')
    (hslots : ∀ i ∈ b.code, ∀ s ∈ i.slots, s.position < b.locals.length)
    (hmoved : m.LabelsMoved b labels labels') {depth n : Nat} {c : Completion σ}
    (hf : f.Runs b labels) (hextra : extra.size = (b.code.flatMap m.slotTypesFor).length)
    (hc : M'.Executes depth ((m.relayout b labels' extra).frame f) w n c) :
    c.outcome = .error (.fault (.stepLimitExceeded M'.limits.steps)) ∨
      ∃ outcome, M.Intercepts f w outcome c.world ∧ m.SameOutcome b outcome c.outcome := by
  -- each instruction takes a step at least, so the steps left go down
  induction hleft : M'.limits.steps - n using Nat.strongRecOn generalizing n f extra w with
  | ind left ih =>
    cases hi : b.code[f.next]? with
    | none =>
      have hcode : f.code[f.next]? = none := (hf.getElem?_code f.next).trans hi
      have hend := (Machine.executes_iff_of_none (getElem?_relayout_of_none hi)).1 hc
      rw [hend]
      exact .inr ⟨f.ending, .ending hcode, .refl m b f.ending⟩
    | some i =>
      have hcode : f.code[f.next]? = some i := (hf.getElem?_code f.next).trans hi
      have hlocals := hslots i (List.mem_of_getElem? hi)
      obtain ⟨k, r, hlt, _, hmirrors, hroom, hlimit⟩ :=
        h.follows hf hmoved hextra hi hlocals depth n w
      by_cases hk : k ≤ M'.limits.steps
      · have hanswers := (hroom hk c).1 hc
        cases hexec : M.execIntercepted f.advance w i with
        | call g t args w' =>
          rw [hexec] at hmirrors
          cases hmirrors
        | proceed f' w' =>
          rw [hexec] at hmirrors
          cases hmirrors with
          | proceed hextra' =>
            have hf' := h.runs hf hi hexec
            obtain hlimit | ⟨outcome, hrest, hsame⟩ :=
              ih (M'.limits.steps - k) (by omega) hf' hextra' hanswers rfl
            · exact .inl hlimit
            · exact .inr ⟨outcome, .proceed hcode hexec hrest, hsame⟩
        | leave v w' =>
          rw [hexec] at hmirrors
          cases hmirrors
          rw [show c = ⟨.ok v, w', k⟩ from hanswers]
          exact .inr ⟨_, .leave hcode hexec, .ok v⟩
        | stop e w' =>
          rw [hexec] at hmirrors
          cases hmirrors with
          | stop hcounterpart =>
            rw [show c = _ from hanswers]
            exact .inr ⟨_, .stop hcode hexec, .error hcounterpart⟩
      · exact .inl (hlimit (Nat.lt_of_not_le hk) c hc)

/-! ### Whole bodies -/

theorem enter_redirected (m : Module) (b : Body) (method : String) (s : Signature)
    (args : List Value) :
    (∃ e, Frame.enter method s b args = .error e ∧
      Frame.enter method s (m.redirected b) args = .error e) ∨
    ∃ f labels labels' extra, Frame.enter method s b args = .ok f ∧ f.Runs b labels ∧
      m.LabelsMoved b labels labels' ∧ extra.size = (b.code.flatMap m.slotTypesFor).length ∧
      Frame.enter method s (m.redirected b) args =
        .ok ((m.relayout b labels' extra).frame f) := by
  unfold Frame.enter
  obtain ⟨e, hold, hnew⟩ | ⟨labels, labels', hold, hnew, hmoved⟩ :=
    m.indexLabels_redirected b method
  · exact .inl ⟨e, by rw [hold], by rw [hnew]⟩
  · rw [hold, hnew]
    refine .inr ⟨_, labels, labels', ((b.code.flatMap m.slotTypesFor).map Value.default).toArray,
      rfl, ⟨rfl, rfl, rfl, by simp⟩, hmoved, by simp, ?_⟩
    simp only [Relayout.frame, relayout, redirected, place_zero, List.append_toArray,
      List.map_append]

/-- A body that was redirected, in a module that its redirected form was put into. -/
theorem stands_of_redirectBody {method : String} {limit : Nat} {r : Redirected}
    (hmethods : m.methods.length < 2 ^ 32) (hlocals : b.locals.length < 2 ^ 32)
    (hlimit : limit < 2 ^ 31) (hr : m.redirectBody method b limit = .ok r) (host : Host σ)
    (limits limits' : ExecutionLimits) {m' : Module} (hm' : m.Declares m') :
    m.Stands b (.load m host limits) (.load m' host limits') := by
  obtain ⟨_, hresolves, hroom⟩ := redirectBody_eq_ok hlocals hr
  refine ⟨rfl, rfl, rfl, hm'.build_eq, hmethods, hresolves, ?_⟩
  intro i hi hcall
  obtain ⟨c, hc⟩ := hresolves i hi hcall
  obtain hnone | hle := hroom
  · have htypes : m.slotTypesFor i = [] := List.flatMap_eq_nil_iff.1 hnone i hi
    simp [slotTypesFor_of_describe hc, Callee.slotTypes] at htypes
  · omega

end Module

namespace Machine

/-! ### A body with one call -/

def relay : Module where
  name := "relay"
  types := [⟨"Calc", []⟩]
  methods := [⟨⟨0⟩, "twice", ⟨[.int32], .value .int32, true⟩, none⟩]

def relayBody : Body := ⟨[], [.op (.ldarg 0), .call (.direct ⟨0⟩), .op .ret]⟩

def relayRedirected : Redirected where
  code := [.ldarg 0, .box .int32, .stloc ⟨1⟩, .ldnull, .stloc ⟨0⟩, .getInterceptor, .ldcI4 1,
    .newarr .object, .stloc ⟨2⟩, .ldloc ⟨2⟩, .ldcI4 0, .ldloc ⟨1⟩, .stelemRef, .ldloc ⟨0⟩,
    .ldloc ⟨2⟩, .ldtoken (.type ⟨0⟩), .ldtoken (.method ⟨0⟩), .resolveMethod, .intercept,
    .unboxAny .int32, .ret].map .op
  newLocals := [.object, .object, .objectArray]
  callSites := [⟨1, ⟨0⟩, ⟨⟨0⟩, [⟨1⟩], ⟨2⟩⟩, 1, 20⟩]

/-- A host whose interceptor gives back its first argument. -/
def echo : Host Unit where
  installed _ := ⟨0⟩
  intercept _ _ args _ w := (.ok (args.headD .null), w)
  native? _ := none

theorem redirectBody_relay :
    relay.redirectBody "relay" relayBody (Redirector.withMaxLocals 3).maxLocals =
      .ok relayRedirected := by
  rfl

/-! ### Runs of redirected bodies -/

/-- The redirected form of a body behaves as the body with its calls intercepted. What its run comes
to is an end of the intercepted execution, unless its steps do not suffice; and whatever the
intercepted execution comes to, the run comes to as well, under any limits that leave it the steps
it takes. -/
theorem runsBody_redirected {σ : Type} {m : Module} {b : Body} {name : String} {k : Nat}
    {r : Redirected} (hmethods : m.methods.length < 2 ^ 32) (hlocals : b.locals.length < 2 ^ 32)
    (hslots : ∀ i ∈ b.code, ∀ s ∈ i.slots, s.position < b.locals.length)
    (hr : m.redirectBody name b (Redirector.withMaxLocals k).maxLocals = .ok r)
    (t : MethodToken) (host : Host σ) (limits : ExecutionLimits) (callers : List Frame) (n : Nat)
    (method : String) (s : Signature) (args : List Value) (w : World σ) :
    (∃ c, (load (m.setBody t (r.commit b)) host limits).RunsBody callers method s (r.commit b)
        args w n c ∧
      (c.outcome = .error (.fault (.stepLimitExceeded limits.steps)) ∨
        ∃ outcome, (load m host limits).InterceptsBody method s b args w outcome c.world ∧
          m.SameOutcome b outcome c.outcome)) ∧
    ∀ outcome w', (load m host limits).InterceptsBody method s b args w outcome w' →
      ∃ K, ∀ limits' : ExecutionLimits,
        ∃ c, (load (m.setBody t (r.commit b)) host limits').RunsBody callers method s
            (r.commit b) args w n c ∧
          (c.outcome = .error (.fault (.stepLimitExceeded limits'.steps)) ∧
              limits'.steps < n + K ∨
            c.world = w' ∧ m.SameOutcome b outcome c.outcome) := by
  have hlimit : (Redirector.withMaxLocals k).maxLocals < 2 ^ 31 := by
    show min k slotCeiling < 2 ^ 31
    have hceiling : slotCeiling < 2 ^ 31 := by decide
    omega
  have hstands (limits' : ExecutionLimits) :
      m.Stands b (load m host limits) (load (m.setBody t (r.commit b)) host limits') :=
    Module.stands_of_redirectBody hmethods hlocals hlimit hr host limits limits'
      (m.declares_setBody t (r.commit b))
  rw [(Module.redirectBody_eq_ok hlocals hr).1] at hstands ⊢
  unfold RunsBody InterceptsBody
  obtain ⟨e, hold, hnew⟩ | ⟨f, labels, labels', extra, hold, hf, hmoved, hextra, hnew⟩ :=
    m.enter_redirected b method s args
  · rw [hold, hnew]
    refine ⟨⟨_, rfl, .inr ⟨.error (.fault e), ⟨rfl, rfl⟩, .refl m b _⟩⟩, ?_⟩
    intro outcome w' ⟨houtcome, hw⟩
    rw [houtcome]
    exact ⟨0, fun limits' => ⟨_, rfl, .inr ⟨hw.symm, .refl m b _⟩⟩⟩
  · rw [hold, hnew]
    constructor
    · obtain ⟨c, hc⟩ := exists_executes (load (m.setBody t (m.redirected b)) host limits)
        callers.length ((m.relayout b labels' extra).frame f) w n
      exact ⟨c, hc.bringsTo,
        Module.intercepts_of_executes (hstands limits) hslots hmoved hf hextra hc⟩
    · intro outcome w' hintercepts
      obtain ⟨K, hK⟩ := Module.exists_executes_of_intercepts hintercepts hmoved (.inl hslots)
      refine ⟨K, fun limits' => ?_⟩
      obtain ⟨c, hc⟩ := exists_executes (load (m.setBody t (m.redirected b)) host limits')
        callers.length ((m.relayout b labels' extra).frame f) w n
      exact ⟨c, hc.bringsTo, hK _ (hstands limits') hf extra hextra callers.length n c hc⟩

theorem runsBody_redirected_relay :
    ∃ c, (load (relay.setBody ⟨0⟩ (relayRedirected.commit relayBody)) echo .standard).RunsBody []
        "relay" ⟨[.int32], .value .int32, true⟩ (relayRedirected.commit relayBody) [.int32 7]
        ⟨.empty, ()⟩ 0 c ∧
      (c.outcome = .error (.fault (.stepLimitExceeded ExecutionLimits.standard.steps)) ∨
        ∃ outcome, (load relay echo .standard).InterceptsBody "relay"
            ⟨[.int32], .value .int32, true⟩ relayBody [.int32 7] ⟨.empty, ()⟩ outcome c.world ∧
          relay.SameOutcome relayBody outcome c.outcome) :=
  (runsBody_redirected (by decide) (by decide) (by decide) redirectBody_relay ⟨0⟩ echo .standard []
    0 "relay" ⟨[.int32], .value .int32, true⟩ [.int32 7] ⟨.empty, ()⟩).1

end Machine

end Interpose
