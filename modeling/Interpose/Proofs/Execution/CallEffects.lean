import Interpose.Proofs.Execution.OpenFrames

/-!
# What calls leave behind

A call takes what the signature of its callee asks for, as `Machine::execute_call` does, and the
frame that makes it waits unchanged until the result of the callee is put in the place of what it
took. Results of bodies are compared with the signature wherever they come from (`Frame::finish`);
what the host answers for a method without a body is passed on as it is.
-/

namespace Interpose

/-- The function value that a call takes from the stack besides the arguments. -/
def CallTarget.functions (u : MethodToken) : CallTarget → List Value
  | .direct _ => []
  | .indirect _ => [.function u]

/-- Whether a call with this target can call a method. -/
def CallTarget.Fits (u : MethodToken) (d : MethodDef) : CallTarget → Prop
  | .direct t => u = t
  | .indirect arity => d.signature.arity = arity.toNat

namespace Machine

variable {σ : Type} {M : Machine σ} {t u : MethodToken} {d : MethodDef} {args : List Value}
  {depth : Nat} {w w' : World σ} {s s' : State σ} {f g : Frame} {v : Option Value}
  {target : CallTarget}

/-! ### What calls take -/

theorem arityOf_eq_ok_iff {n : Nat} :
    M.arityOf t = .ok n ↔ ∃ d, M.module.method? t = some d ∧ d.signature.arity = n := by
  unfold arityOf
  cases M.module.method? t with
  | none => simp
  | some d => simp

theorem callee_eq_ok (h : M.callee f target = .ok (u, g)) :
    ∃ rest, f.stack = target.functions u ++ rest ∧ g = { f with stack := rest } ∧
      ∀ d, M.module.method? u = some d → target.Fits u d := by
  cases target with
  | direct t =>
    cases h
    exact ⟨f.stack, rfl, rfl, fun d hd => rfl⟩
  | indirect arity =>
    obtain ⟨⟨v, f'⟩, hpop, hv⟩ := bind_eq_ok_iff.1 h
    unfold Frame.pop at hpop
    cases hstack : f.stack with
    | nil => rw [hstack] at hpop; cases hpop
    | cons v rest =>
      rw [hstack] at hpop
      cases hpop
      cases v with
      | function t =>
        obtain ⟨n, harity, hn⟩ := bind_eq_ok_iff.1 hv
        split at hn
        · cases hn
        · rename_i heq
          cases hn
          refine ⟨rest, rfl, rfl, fun d hd => ?_⟩
          obtain ⟨d', hd', hn⟩ := arityOf_eq_ok_iff.1 harity
          cases hd.symm.trans hd'
          exact hn.trans (Decidable.not_not.1 heq)
      | _ => cases hv

/-- A call takes as many values as its callee asks for, and a function value if it is indirect. -/
theorem exec_call_eq_call (h : M.exec f w (.call target) = .call g u args w') :
    ∃ d rest, M.module.method? u = some d ∧ target.Fits u d ∧ args.length = d.signature.arity ∧
      f.stack = target.functions u ++ (args.reverse ++ rest) ∧ g = { f with stack := rest } := by
  simp only [exec] at h
  split at h
  · rename_i hargs
    cases h
    obtain ⟨⟨u, f'⟩, hcallee, hmany⟩ := bind_eq_ok_iff.1 hargs
    obtain ⟨n, harity, hmany⟩ := bind_eq_ok_iff.1 hmany
    obtain ⟨⟨values, g'⟩, hpop, hdone⟩ := bind_eq_ok_iff.1 hmany
    cases hdone
    obtain ⟨rest, hstack, rfl, hfits⟩ := callee_eq_ok hcallee
    obtain ⟨d, hd, hn⟩ := arityOf_eq_ok_iff.1 harity
    obtain ⟨hlength, rest', hstack', rfl⟩ := popMany_eq_ok_iff.1 hpop
    simp only at hstack'
    refine ⟨d, rest', hd, hfits d hd, hlength.trans hn.symm, ?_, rfl⟩
    rw [hstack, hstack']
  · cases h

/-! ### Calls that come back -/

/-- The second state is the next one in which at most `depth` frames wait. -/
inductive ComesBack (M : Machine σ) (depth : Nat) : State σ → State σ → Prop
  | last {a b : State σ} (step : M.step a = .running b) (back : b.callers.length ≤ depth) :
      M.ComesBack depth a b
  | more {a b c : State σ} (step : M.step a = .running b) (inside : depth < b.callers.length)
      (rest : M.ComesBack depth b c) : M.ComesBack depth a c

theorem ComesBack.first (h : M.ComesBack depth s s') : ∃ s₁, M.step s = .running s₁ ∧
    (s' = s₁ ∧ s₁.callers.length ≤ depth ∨
      depth < s₁.callers.length ∧ M.ComesBack depth s₁ s') := by
  cases h with
  | last step back => exact ⟨s', step, .inl ⟨rfl, back⟩⟩
  | more step inside rest => exact ⟨_, step, .inr ⟨inside, rest⟩⟩

/-- A frame that returns such a result is open right above a caller. -/
def Above (caller : Frame) (below : List Frame) (returns : ReturnType) (s : State σ) : Prop :=
  ∃ inner f, f.returns = returns ∧ s.frame :: s.callers = inner ++ f :: caller :: below

variable {caller : Frame} {below : List Frame} {returns : ReturnType}

theorem Above.length_lt (h : Above caller below returns s) : below.length < s.callers.length := by
  obtain ⟨inner, f, _, hframes⟩ := h
  have hlength := congrArg List.length hframes
  simp only [List.length_cons, List.length_append] at hlength
  omega

/-- A step stays above the caller, or leaves the frame right above it with what the frame returns. -/
theorem Above.step (h : Above caller below returns s) (hstep : M.step s = .running s') :
    Above caller below returns s' ∨
      ∃ v, returns.admits v = true ∧ s'.frame = resume caller v ∧ s'.callers = below := by
  obtain ⟨inner, f, hf, hframes⟩ := h
  cases shifts_of_step hstep with
  | stays frame callers =>
    refine .inl ?_
    cases inner with
    | nil =>
      obtain ⟨rfl, hcallers⟩ := List.cons.inj hframes
      exact ⟨[], s'.frame, frame.returns.trans hf, by rw [callers, hcallers]; rfl⟩
    | cons top inner =>
      obtain ⟨_, hcallers⟩ := List.cons.inj hframes
      exact ⟨s'.frame :: inner, f, hf, by rw [callers, hcallers]; rfl⟩
  | @opens g u values entry same callers =>
    refine .inl ?_
    cases inner with
    | nil =>
      obtain ⟨rfl, hcallers⟩ := List.cons.inj hframes
      exact ⟨[s'.frame], g, same.returns.trans hf, by rw [callers, hcallers]; rfl⟩
    | cons top inner =>
      obtain ⟨_, hcallers⟩ := List.cons.inj hframes
      exact ⟨s'.frame :: g :: inner, f, hf, by rw [callers, hcallers]; rfl⟩
  | @leaves g v completes callers frame =>
    cases inner with
    | nil =>
      obtain ⟨rfl, hcallers⟩ := List.cons.inj hframes
      cases callers.symm.trans hcallers
      exact .inr ⟨v, hf ▸ completes.admits, frame, rfl⟩
    | cons top inner =>
      obtain ⟨_, hcallers⟩ := List.cons.inj hframes
      rw [callers] at hcallers
      refine .inl ?_
      cases inner with
      | nil =>
        obtain ⟨rfl, hbelow⟩ := List.cons.inj hcallers
        refine ⟨[], s'.frame, ?_, by rw [hbelow]; rfl⟩
        rw [frame, returns_resume, hf]
      | cons next inner =>
        obtain ⟨_, hbelow⟩ := List.cons.inj hcallers
        exact ⟨s'.frame :: inner, f, hf, by rw [hbelow]; rfl⟩

theorem ComesBack.of_above (h : M.ComesBack below.length s s')
    (habove : Above caller below returns s) :
    ∃ v, returns.admits v = true ∧ s'.frame = resume caller v ∧ s'.callers = below := by
  induction h with
  | last step back =>
    rcases habove.step step with hstays | hleft
    · exact absurd hstays.length_lt (Nat.not_lt_of_le back)
    · exact hleft
  | more step inside rest ih =>
    rcases habove.step step with hstays | ⟨v, _, _, hbelow⟩
    · exact ih hstays
    · rw [hbelow] at inside
      exact absurd inside (Nat.lt_irrefl _)

/-! ### Results -/

/-- What the host answers to a call, if it is asked, conforms to what the method declares. Only
methods without a body are asked of the host. -/
def AnswersFit (M : Machine σ) (u : MethodToken) (d : MethodDef) (args : List Value) (depth : Nat)
    (w : World σ) : Prop :=
  ∀ v w', M.NativeAnswers u args depth w (.ok v) w' → d.signature.returns.admits v = true

theorem AnswersFit.admits (h : M.AnswersFit u d args depth w)
    (entry : M.enter u args depth w = .result v w') : d.signature.returns.admits v = true :=
  h v w' (enter_eq_result_iff.1 entry)

theorem AnswersFit.of_body {b : Body} (hd : M.module.method? u = some d) (hb : d.body = some b) :
    M.AnswersFit u d args depth w := by
  intro v w' ⟨_, d', _, hd', hnone, _⟩
  cases hd.symm.trans hd'
  cases hb.symm.trans hnone

theorem Returns.exists_method {n k : Nat} (h : M.Returns t args depth w n v w' k) :
    ∃ d, M.module.method? t = some d := by
  cases h with
  | native entry =>
    obtain ⟨_, d, _, hd, _⟩ := enter_eq_result_iff.1 entry
    exact ⟨d, hd⟩
  | body entry inner =>
    obtain ⟨_, _, d, _, hd, _⟩ := enter_eq_body_iff.1 entry
    exact ⟨d, hd⟩

theorem resume_eq (f : Frame) (v : Option Value) :
    resume f v = { f with stack := v.toList ++ f.stack } := by
  cases v <;> rfl

/-- Between two states, a call of a method takes its arguments, with the function value if it is
indirect, and a result takes their place. Nothing else of the caller changes. -/
structure CallEffect (target : CallTarget) (u : MethodToken) (d : MethodDef) (args : List Value)
    (v : Option Value) (s s' : State σ) : Prop where
  fits : target.Fits u d
  arity : args.length = d.signature.arity
  stack : ∃ rest, s.frame.stack = target.functions u ++ (args.reverse ++ rest) ∧
    s'.frame = { s.frame.advance with stack := v.toList ++ rest }
  callers : s'.callers = s.callers

/-- A call that comes back has called one method, and its result is one that the method declares. -/
theorem callEffect_of_comesBack (executed : M.executed? s = some (.call target))
    (back : M.ComesBack s.callers.length s s') :
    ∃ u d args v, M.module.method? u = some d ∧ CallEffect target u d args v s s' ∧
      (M.AnswersFit u d args (s.callers.length + 1) s.world →
        d.signature.returns.admits v = true) := by
  obtain ⟨s₁, hstep, hback⟩ := back.first
  rw [step_of_executed? executed] at hstep
  cases exec : M.exec s.frame.advance s.world (.call target) with
  | proceed g w => exact absurd exec exec_call_ne_proceed
  | leave v w => exact absurd exec exec_call_ne_leave
  | stop e w => rw [exec] at hstep; cases hstep
  | call g u args w =>
    obtain ⟨d, rest, hd, hfits, hlength, hstack, rfl⟩ := exec_call_eq_call exec
    obtain rfl := world_of_exec_call exec
    have effect {v : Option Value}
        (hframe : s'.frame = resume { s.frame.advance with stack := rest } v)
        (hcallers : s'.callers = s.callers) : CallEffect target u d args v s s' :=
      ⟨hfits, hlength, ⟨rest, hstack, hframe.trans (resume_eq _ v)⟩, hcallers⟩
    rw [exec] at hstep
    simp only [serve] at hstep
    cases entry : M.enter u args (s.callers.length + 1) s.world with
    | stop e w => rw [entry] at hstep; cases hstep
    | result v w =>
      rw [entry] at hstep
      cases hstep
      rcases hback with ⟨rfl, _⟩ | ⟨inside, _⟩
      · exact ⟨u, d, args, v, hd, effect rfl rfl, fun hanswers => hanswers.admits entry⟩
      · exact absurd inside (Nat.lt_irrefl _)
    | body callee w =>
      rw [entry] at hstep
      cases hstep
      rcases hback with ⟨_, hle⟩ | ⟨_, hrest⟩
      · exact absurd hle (Nat.not_succ_le_self _)
      · obtain ⟨_, _, d', b, hd', _, _, henter⟩ := enter_eq_body_iff.1 entry
        cases hd.symm.trans hd'
        -- the callee is entered right above the frame that waits for its result
        have habove : Above { s.frame.advance with stack := rest } s.callers d.signature.returns
            ⟨callee, { s.frame.advance with stack := rest } :: s.callers, w, s.steps + 1⟩ :=
          ⟨[], callee, returns_of_enter henter, rfl⟩
        obtain ⟨v, hadmits, hframe, hcallers⟩ := hrest.of_above habove
        exact ⟨u, d, args, v, hd, effect hframe hcallers, fun _ => hadmits⟩

/-- Every call has the effect that its callee declares, if the host, where the call comes to it,
answers what the callee declares. A direct or indirect call that comes back has taken its arguments
and left a value of the declared type, or nothing for void methods, and so has a call from
outside. -/
theorem calls_keep_to_signatures (M : Machine σ) :
    (∀ s s' target, M.executed? s = some (.call target) → M.ComesBack s.callers.length s s' →
      ∃ u d args v, M.module.method? u = some d ∧ CallEffect target u d args v s s' ∧
        (M.AnswersFit u d args (s.callers.length + 1) s.world →
          d.signature.returns.admits v = true)) ∧
    ∀ t args w v, (M.invoke t args w).outcome = .ok v →
      ∃ d, M.module.method? t = some d ∧
        (M.AnswersFit t d args 0 w → d.signature.returns.admits v = true) := by
  refine ⟨fun s s' target => callEffect_of_comesBack, fun t args w v hv => ?_⟩
  have hreturns := returns_of_invoke hv
  obtain ⟨d, hd⟩ := hreturns.exists_method
  exact ⟨d, hd, fun hanswers => hreturns.admits hd fun entry => hanswers.admits entry⟩

/-- A method that calls another one through a function value, and one that calls the host. -/
def doubler : Module :=
  ⟨"doubler", [⟨"Type", [⟨0⟩, ⟨1⟩, ⟨2⟩, ⟨3⟩]⟩],
    [⟨⟨0⟩, "twice", ⟨[.int32], .value .int32, true⟩,
        some ⟨[], [.op (.ldarg 0), .op (.ldarg 0), .op .add, .op .ret]⟩⟩,
      ⟨⟨0⟩, "log", ⟨[], .void, true⟩, none⟩,
      ⟨⟨0⟩, "eight", ⟨[], .value .int32, true⟩,
        some ⟨[], [.op (.ldcI4 4), .op (.ldftn ⟨0⟩), .call (.indirect 1), .op .ret]⟩⟩,
      ⟨⟨0⟩, "logged", ⟨[], .value .int32, true⟩, some ⟨[], [.call (.direct ⟨1⟩), .op .ret]⟩⟩]⟩

/-- The answer of a host that answers everything alike. -/
def answering (v : Option Value) : Host Unit where
  installed _ := ⟨0⟩
  intercept _ _ _ _ w := (.ok .null, w)
  native? _ := some fun _ w => (.ok v, w)

theorem calls_keep_to_signatures_doubler :
    let M := load doubler (answering none) .standard
    ∃ s s', M.Visits ⟨2⟩ [] ⟨.empty, ()⟩ s ∧ M.executed? s = some (.call (.indirect 1)) ∧
      M.ComesBack s.callers.length s s' ∧
      (∃ u d args v, M.module.method? u = some d ∧ CallEffect (.indirect 1) u d args v s s' ∧
        d.signature.returns.admits v = true) ∧
      (M.invoke ⟨2⟩ [] ⟨.empty, ()⟩).outcome = .ok (some (.int32 8)) ∧
      ReturnType.admits (.value .int32) (some (.int32 8)) = true := by
  intro M
  have hback : ∃ s s', M.Visits ⟨2⟩ [] ⟨.empty, ()⟩ s ∧
      M.executed? s = some (.call (.indirect 1)) ∧ M.ComesBack s.callers.length s s' ∧
      s.frame.stack = [.function ⟨0⟩, .int32 4] :=
    ⟨_, _, ⟨_, _, rfl, .head rfl (.head rfl .refl)⟩, rfl,
      .more rfl (by decide) (.more rfl (by decide) (.more rfl (by decide) (.more rfl (by decide)
        (.last rfl (by decide))))), rfl⟩
  obtain ⟨s, s', hvisits, hexecuted, hback, hstack⟩ := hback
  obtain ⟨u, d, args, v, hd, effect, hadmits⟩ :=
    (calls_keep_to_signatures M).1 s s' (.indirect 1) hexecuted hback
  obtain ⟨rest, htaken, _⟩ := effect.stack
  obtain rfl : u = ⟨0⟩ := by
    rw [hstack] at htaken
    exact (Value.function.inj (List.cons.inj htaken).1).symm
  cases hd
  have hresult : (M.invoke ⟨2⟩ [] ⟨.empty, ()⟩).outcome = .ok (some (.int32 8)) := by decide +kernel
  obtain ⟨d', hd', hadmits'⟩ := (calls_keep_to_signatures M).2 _ _ _ _ hresult
  cases hd'
  exact ⟨s, s', hvisits, hexecuted, hback,
    ⟨⟨0⟩, _, args, v, rfl, effect, hadmits (.of_body rfl rfl)⟩, hresult,
    hadmits' (.of_body rfl rfl)⟩

/-- A host that answers for a void method puts its answer in the place of the arguments. -/
theorem pushes_answer_of_void_native :
    let M := load doubler (answering (some (.int32 5))) .standard
    (M.invoke ⟨1⟩ [] ⟨.empty, ()⟩).outcome = .ok (some (.int32 5)) ∧
      ∃ s s', M.Visits ⟨3⟩ [] ⟨.empty, ()⟩ s ∧ M.executed? s = some (.call (.direct ⟨1⟩)) ∧
        M.ComesBack s.callers.length s s' ∧ s'.frame.stack = .int32 5 :: s.frame.stack := by
  intro M
  refine ⟨rfl, _, _, ⟨_, _, rfl, .refl⟩, rfl, .last rfl (Nat.le_refl _), rfl⟩

end Machine

end Interpose
