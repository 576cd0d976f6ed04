import Interpose.Proofs.Interception.Intercepted
import Interpose.Proofs.Renaming.Run

/-!
# The interceptor that passes calls through

It undoes what redirected code does to the arguments of a call, makes the call in the module as it
was before redirection, and hands the result back in the form that redirected code undoes again. So
an intercepted call comes to what the call itself comes to.
-/

namespace Interpose

/-- The argument that a reference was passed on for. -/
def Value.takenAs (v : Value) (t : DataType) : Value :=
  if t.isValueType then v.unboxed?.getD v else v

def takeArgs : List DataType → List Value → List Value
  | t :: types, v :: values => v.takenAs t :: takeArgs types values
  | _, values => values

/-- The values of a call from what was passed on for them, the receiver in front. -/
def Signature.taken (s : Signature) (receiver : Value) (args : List Value) : List Value :=
  if s.isStatic then takeArgs s.params args else receiver :: takeArgs s.params args

/-- The answer that stands for a result; null stands for that of void methods. -/
def ReturnType.answer : ReturnType → Option Value → Value
  | .value t, some v => v.passedAs t
  | _, _ => .null

namespace Machine

variable {σ : Type}

/-- Makes an intercepted call in a machine and answers with its result. -/
def passThrough (M : Machine σ) (receiver : Value) (args : List Value) (callee : MethodIdentity)
    (w : World σ) : Except (NoAnswer InterceptError) Value × World σ :=
  let c := M.invoke callee.token (callee.signature.taken receiver args) w
  match c.outcome with
  | .ok v => (.ok (callee.signature.returns.answer v), c.world)
  | .error .endless => (.error .endless, c.world)
  | .error _ => (.error (.error (.failed ("no result of " ++ callee.qualifiedName))), c.world)

end Machine

/-- A host with an interceptor installed for good that passes calls through to a machine. -/
def Host.withPassThrough {σ : Type} (H : Host σ) (p : InterceptorId) (M : Machine σ) : Host σ where
  installed _ := p
  intercept q receiver args callee w :=
    if q = p then M.passThrough receiver args callee w else H.intercept q receiver args callee w
  native? := H.native?

theorem Host.intercept_withPassThrough {σ : Type} (H : Host σ) (p : InterceptorId)
    (M : Machine σ) : (H.withPassThrough p M).intercept p = M.passThrough := by
  funext receiver args callee w
  exact if_pos rfl

/-- Whether the answers of an interceptor, if it gives any, are those of passing calls through. -/
def Host.PassesThrough {σ : Type} (H : Host σ) (p : InterceptorId) (M : Machine σ) : Prop :=
  ∀ receiver args callee w a w', H.intercept p receiver args callee w = (.ok a, w') →
    M.passThrough receiver args callee w = (.ok a, w')

/-! ### Arguments -/

theorem Value.takenAs_passedAs (v : Value) (t : DataType) : (v.passedAs t).takenAs t = v := by
  unfold Value.takenAs Value.passedAs
  cases t.isValueType <;> rfl

namespace Frame

variable {f : Frame} {s : Signature} {args rest : List Value}

theorem exists_passArgs {types : List DataType} {values : List Value}
    (hfits : List.Forall₂ (fun t v => Value.fits v t = true) types values)
    (hstack : f.stack = values.reverse ++ rest) :
    ∃ passed, f.passArgs types = .ok (passed, { f with stack := rest }) ∧
      takeArgs types passed = values := by
  induction hfits generalizing rest with
  | nil =>
    refine ⟨[], ?_, rfl⟩
    rw [List.reverse_nil, List.nil_append] at hstack
    rw [← hstack]
    rfl
  | @cons t v types values hfits _ ih =>
    rw [List.reverse_cons, List.append_assoc, List.singleton_append] at hstack
    obtain ⟨passed, hpassed, htaken⟩ := ih hstack
    have hv : Frame.passOn { f with stack := v :: rest } t =
        .ok (v.passedAs t, { f with stack := rest }) := by
      rw [passOn_of_cons rfl, if_pos (Value.fits_passed hfits)]
    refine ⟨v.passedAs t :: passed, ?_, ?_⟩
    · unfold passArgs
      rw [hpassed]
      show (Frame.passOn { f with stack := v :: rest } t >>= _) = _
      rw [hv]
      rfl
    · rw [takeArgs, Value.takenAs_passedAs, htaken]

theorem exists_passCall (hlength : args.length = s.arity)
    (hfits : List.Forall₂ (fun t v => Value.fits v t = true) s.params (args.drop s.receivers))
    (hreceiver : s.isStatic = false → ∀ v ∈ args.head?, v.isReference = true)
    (hstack : f.stack = args.reverse ++ rest) :
    ∃ receiver passed, f.passCall s = .ok (receiver, passed, { f with stack := rest }) ∧
      s.taken receiver passed = args := by
  unfold passCall passReceiver Signature.taken
  unfold Signature.arity Signature.receivers at hlength
  unfold Signature.receivers at hfits
  cases hstatic : s.isStatic with
  | true =>
    rw [hstatic, if_pos rfl, List.drop_zero] at hfits
    obtain ⟨passed, hpassed, htaken⟩ := exists_passArgs hfits hstack
    refine ⟨.null, passed, ?_, htaken⟩
    rw [hpassed]
    rfl
  | false =>
    rw [hstatic, if_neg Bool.false_ne_true] at hlength hfits
    cases args with
    | nil => cases hlength
    | cons receiver values =>
      rw [List.drop_one, List.tail_cons] at hfits
      rw [List.reverse_cons, List.append_assoc, List.singleton_append] at hstack
      obtain ⟨passed, hpassed, htaken⟩ := exists_passArgs hfits hstack
      have hfitsObject : receiver.fits (DataType.passed .object) = true := by
        show receiver.fits .object = true
        rw [Value.fits_object]
        exact hreceiver hstatic receiver rfl
      have hpassOn : Frame.passOn { f with stack := receiver :: rest } .object =
          .ok (receiver, { f with stack := rest }) := by
        rw [passOn_of_cons rfl, if_pos hfitsObject]
        rfl
      refine ⟨receiver, passed, ?_, by rw [if_neg Bool.false_ne_true, htaken]⟩
      rw [hpassed]
      show (Frame.passOn { f with stack := receiver :: rest } .object >>= _) = _
      rw [hpassOn]
      rfl

end Frame

/-! ### Results -/

theorem Heap.coerce_passedAs (h : Heap) {v : Value} {t : DataType} (hfits : v.fits t = true) :
    h.coerce (v.passedAs t) t = .ok v := by
  unfold Heap.coerce Value.passedAs
  cases ht : t.isValueType with
  | true =>
    simp only [if_true]
    rw [if_pos hfits]
  | false =>
    simp only [Bool.false_eq_true, if_false]
    rw [if_pos hfits]

namespace Machine

variable {σ : Type} {M P : Machine σ} {f g : Frame} {w w' : World σ}

theorem takeAnswer_answer {r : ReturnType} {v : Option Value} (h : r.admits v = true) :
    takeAnswer f w r (r.answer v) = .proceed (resume f v) w := by
  cases r with
  | void =>
    cases v with
    | none => rfl
    | some v => cases h
  | value t =>
    cases v with
    | none => cases h
    | some v =>
      have hcoerce : w.heap.coerce (ReturnType.answer (.value t) (some v)) t = .ok v :=
        Heap.coerce_passedAs w.heap h
      simp only [takeAnswer, hcoerce]
      rfl

theorem interceptCall_of_invoke {callee : MethodIdentity} {receiver : Value} {passed : List Value}
    {v : Option Value} {k : Nat}
    (hp : M.host.intercept (M.host.installed w.host) = P.passThrough)
    (hpass : f.passCall callee.signature = .ok (receiver, passed, g))
    (hinvoke : P.invoke callee.token (callee.signature.taken receiver passed)
      (w.layOut passed.toArray) = ⟨.ok v, w', k⟩)
    (hadmits : callee.signature.returns.admits v = true) :
    M.interceptCall f w callee = .proceed (resume g v) w' := by
  simp only [interceptCall, hpass, hp, passThrough, hinvoke]
  exact takeAnswer_answer hadmits

end Machine

/-! ### Names -/

section Names

variable {σ : Type} {same : Likeness σ} {ρ : Naming} {w w' : World σ}

theorem World.Renamed.layOut_right (hw : w.Renamed same ρ w') (items : Array Value) :
    w.Renamed same ρ (w'.layOut items) :=
  ⟨hw.heap.newArray_right .object items, hw.host⟩

theorem Value.passedAs_renamed {v v' : Value} (hv : v.Renamed ρ v') (t : DataType) :
    (v.passedAs t).Renamed ρ (v'.passedAs t) := by
  unfold Value.passedAs
  split
  · exact .boxed hv
  · exact hv

theorem Value.takenAs_renamed {v v' : Value} (hv : v.Renamed ρ v') (t : DataType) :
    (v.takenAs t).Renamed ρ (v'.takenAs t) := by
  unfold Value.takenAs
  split
  · cases hv with
    | plain hplain =>
      cases v with
      | array _ | boxed _ => cases hplain
      | _ => exact .plain rfl
    | array ha => exact .array ha
    | boxed hinner => exact hinner
  · exact hv

theorem takeArgs_renamed (types : List DataType) {args args' : List Value}
    (hargs : List.Forall₂ (Value.Renamed ρ) args args') :
    List.Forall₂ (Value.Renamed ρ) (takeArgs types args) (takeArgs types args') := by
  induction types generalizing args args' with
  | nil => exact hargs
  | cons t types ih =>
    cases hargs with
    | nil => exact .nil
    | cons hv hrest => exact .cons (Value.takenAs_renamed hv t) (ih hrest)

theorem Signature.taken_renamed (s : Signature) {receiver receiver' : Value}
    {args args' : List Value} (hreceiver : receiver.Renamed ρ receiver')
    (hargs : List.Forall₂ (Value.Renamed ρ) args args') :
    List.Forall₂ (Value.Renamed ρ) (s.taken receiver args) (s.taken receiver' args') := by
  unfold Signature.taken
  split
  · exact takeArgs_renamed s.params hargs
  · exact .cons hreceiver (takeArgs_renamed s.params hargs)

theorem ReturnType.answer_renamed (r : ReturnType) {v v' : Option Value}
    (hv : Option.Rel (Value.Renamed ρ) v v') : (r.answer v).Renamed ρ (r.answer v') := by
  cases r with
  | void => exact .plain rfl
  | value t =>
    cases hv with
    | none => exact .plain rfl
    | some hv => exact Value.passedAs_renamed hv t

theorem ReturnType.admits_renamed (r : ReturnType) {v v' : Option Value}
    (hv : Option.Rel (Value.Renamed ρ) v v') : r.admits v' = r.admits v := by
  cases hv with
  | none => rfl
  | some hv =>
    cases r with
    | void => rfl
    | value t => exact hv.fits_eq t

theorem Machine.agree_of_hidesNames {m : Module} {H : Host σ} (hH : H.HidesNames same)
    (limits limits' : ExecutionLimits) : (load m H limits).Agree same (load m H limits') :=
  ⟨rfl, rfl, hH.toAgree⟩

/-- The interceptor that passes calls through does not depend on names if the host does not. -/
theorem Machine.passThrough_renamed {m : Module} {H : Host σ} (hH : H.HidesNames same)
    {limits : ExecutionLimits} {receiver receiver' : Value} {args args' : List Value}
    (callee : MethodIdentity) (hreceiver : receiver.Renamed ρ receiver')
    (hargs : List.Forall₂ (Value.Renamed ρ) args args') (hw : w.Renamed same ρ w') :
    Matches same ρ Value.Renamed ((load m H limits).passThrough receiver args callee w)
      ((load m H limits).passThrough receiver' args' callee w') := by
  have hvalues := callee.signature.taken_renamed hreceiver hargs
  simp only [passThrough]
  cases hv : ((load m H limits).invoke callee.token (callee.signature.taken receiver args)
    w).outcome with
  | error e => cases e <;> trivial
  | ok v =>
    obtain ⟨ρ', v', w₁', hextends, hreturns, hresult, hw₁⟩ :=
      (returns_of_invoke hv).renamed (agree_of_hidesNames hH limits limits) (Nat.le_refl _)
        (Nat.le_refl _) hH.installed (Nat.le_refl 0) (Nat.le_refl 0) hvalues hw
    rw [hreturns.invoke_eq]
    exact ⟨ρ', callee.signature.returns.answer v', w₁', hextends, rfl,
      callee.signature.returns.answer_renamed hresult, hw₁⟩

/-- Passing calls through in place of an interceptor that has no other answers changes nothing. -/
theorem Host.agree_withPassThrough {m : Module} {H : Host σ} (hH : H.HidesNames same)
    {p : InterceptorId} {limits : ExecutionLimits} (hp : H.PassesThrough p (.load m H limits)) :
    H.Agree same (H.withPassThrough p (.load m H limits)) := by
  refine ⟨hH.mono, fun {ρ receiver receiver' args args' w w'} q callee hreceiver hargs hw => ?_,
    hH.native⟩
  by_cases hq : q = p
  · rw [hq]
    simp only [withPassThrough, if_true]
    cases hanswer : H.intercept p receiver args callee w with
    | mk answer w₁ =>
      cases answer with
      | error e => trivial
      | ok a =>
        rw [← hp receiver args callee w a w₁ hanswer]
        exact Machine.passThrough_renamed hH callee hreceiver hargs hw
  · simp only [withPassThrough, if_neg hq]
    exact hH.intercept q callee hreceiver hargs hw

end Names

end Interpose
