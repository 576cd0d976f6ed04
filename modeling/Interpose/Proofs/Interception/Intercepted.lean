import Interpose.Proofs.Execution.Continues
import Interpose.Proofs.Execution.Identities

/-!
# Bodies whose calls are intercepted

What redirection is meant to do, told without redirected code: a body is executed as it is, and each
of its calls is one dispatch to the interceptor that is installed at that moment. Limits on steps
and on open frames have no part in this.
-/

namespace Interpose

/-- The type that a value must conform to where it is passed on for a parameter of a type: all
values of reference types are passed on as references of any kind. -/
def DataType.passed (t : DataType) : DataType := if t.isValueType then t else .object

/-- The reference that is passed on for a parameter of a type. -/
def Value.passedAs (v : Value) (t : DataType) : Value := if t.isValueType then .boxed v else v

namespace Frame

def passOn (f : Frame) (t : DataType) : Except Stop (Value × Frame) := do
  let (v, f) ← f.pop
  if v.fits t.passed then return (v.passedAs t, f) else mismatch (.box v.kind t.passed)

/-- Takes the arguments for parameters, the one for the last parameter first. -/
def passArgs (f : Frame) : List DataType → Except Stop (List Value × Frame)
  | [] => .ok ([], f)
  | t :: types => do
    let (values, f) ← f.passArgs types
    let (v, f) ← f.passOn t
    return (v :: values, f)

/-- Takes the receiver of a call; calls of static methods have null for one. -/
def passReceiver (f : Frame) (s : Signature) : Except Stop (Value × Frame) :=
  if s.isStatic then .ok (.null, f) else f.passOn .object

/-- Takes the arguments of a call and then its receiver. -/
def passCall (f : Frame) (s : Signature) : Except Stop (Value × List Value × Frame) := do
  let (args, f) ← f.passArgs s.params
  let (receiver, f) ← f.passReceiver s
  return (receiver, args, f)

end Frame

def World.layOut {σ : Type} (items : Array Value) (w : World σ) : World σ :=
  ⟨(w.heap.newArray .object items).2, w.host⟩

namespace Machine

variable {σ : Type} (M : Machine σ)

/-- Goes on behind a call with the answer of the interceptor in the form of the result. -/
def takeAnswer (f : Frame) (w : World σ) (returns : ReturnType) (answer : Value) : Request σ :=
  match returns with
  | .void => .proceed f w
  | .value t =>
    match w.heap.coerce answer t with
    | .ok v => .proceed (f.push v) w
    | .error e => .stop e w

def interceptCall (f : Frame) (w : World σ) (callee : MethodIdentity) : Request σ :=
  match f.passCall callee.signature with
  | .error e => .stop e w
  | .ok (receiver, args, f) =>
    match M.host.intercept (M.host.installed w.host) receiver args callee
        (w.layOut args.toArray) with
    | (.ok answer, w) => takeAnswer f w callee.signature.returns answer
    | (.error e, w) => .stop (e.map Fault.intercept).stop w

/-- Executes an instruction, a direct call of a known method by interception. -/
def execIntercepted (f : Frame) (w : World σ) (i : Instr) : Request σ :=
  match i with
  | .call (.direct t) =>
    match M.module.identity? t with
    | some callee => M.interceptCall f w callee
    | none => M.exec f w i
  | _ => M.exec f w i

/-- The execution of a frame with its calls intercepted: its outcome and the world it leaves. -/
inductive Intercepts (M : Machine σ) :
    Frame → World σ → Except Stop (Option Value) → World σ → Prop
  | ending {f w} (code : f.code[f.next]? = none) : M.Intercepts f w f.ending w
  | proceed {f w i f' w' outcome w''} (code : f.code[f.next]? = some i)
      (exec : M.execIntercepted f.advance w i = .proceed f' w')
      (rest : M.Intercepts f' w' outcome w'') : M.Intercepts f w outcome w''
  | leave {f w i v w'} (code : f.code[f.next]? = some i)
      (exec : M.execIntercepted f.advance w i = .leave v w') : M.Intercepts f w (.ok v) w'
  | stop {f w i e w'} (code : f.code[f.next]? = some i)
      (exec : M.execIntercepted f.advance w i = .stop e w') : M.Intercepts f w (.error e) w'

def InterceptsBody (method : String) (s : Signature) (b : Body) (args : List Value) (w : World σ)
    (outcome : Except Stop (Option Value)) (w' : World σ) : Prop :=
  match Frame.enter method s b args with
  | .ok f => M.Intercepts f w outcome w'
  | .error e => outcome = .error (.fault e) ∧ w' = w

end Machine

/-! ### What is taken for a call -/

section Passing

variable {f f' : Frame}

theorem Value.fits_object (v : Value) : v.fits .object = v.isReference := by
  cases v <;> rfl

theorem Value.fits_passed {v : Value} {t : DataType} (h : v.fits t = true) :
    v.fits t.passed = true := by
  unfold DataType.passed
  cases ht : t.isValueType with
  | true => exact h
  | false =>
    rw [if_neg Bool.false_ne_true, Value.fits_object]
    exact Value.isReference_of_fits h ht

theorem Value.isReference_passedAs {v : Value} {t : DataType} (h : v.fits t.passed = true) :
    (v.passedAs t).isReference = true := by
  unfold Value.passedAs
  unfold DataType.passed at h
  cases ht : t.isValueType with
  | true => rfl
  | false =>
    rw [ht] at h
    exact Value.isReference_of_fits (t := .object) h rfl

theorem Frame.passOn_of_nil {t : DataType} (h : f.stack = []) : f.passOn t = .error f.underflow := by
  unfold Frame.passOn Frame.pop
  rw [h]
  rfl

theorem Frame.passOn_of_cons {t : DataType} {v : Value} {rest : List Value}
    (h : f.stack = v :: rest) :
    f.passOn t =
      if v.fits t.passed then .ok (v.passedAs t, { f with stack := rest })
      else Frame.mismatch (.box v.kind t.passed) := by
  unfold Frame.passOn Frame.pop
  rw [h]
  rfl

theorem Frame.exists_stack_of_passOn {t : DataType} {p : Value × Frame} (h : f.passOn t = .ok p) :
    ∃ v rest, f.stack = v :: rest := by
  cases hs : f.stack with
  | nil => rw [passOn_of_nil hs] at h; cases h
  | cons v rest => exact ⟨v, rest, rfl⟩

/-- Taking a value changes the stack alone, and what is passed on is a reference. -/
theorem Frame.passOn_eq_ok {t : DataType} {v : Value} (h : f.passOn t = .ok (v, f')) :
    (∃ rest, f' = { f with stack := rest }) ∧ v.isReference = true := by
  cases hs : f.stack with
  | nil => rw [passOn_of_nil hs] at h; cases h
  | cons u rest =>
    rw [passOn_of_cons hs] at h
    split at h
    · rename_i hfits
      cases h
      exact ⟨⟨rest, rfl⟩, Value.isReference_passedAs hfits⟩
    · cases h

theorem Frame.passArgs_cons_eq_ok_iff {t : DataType} {types : List DataType} {values : List Value} :
    f.passArgs (t :: types) = .ok (values, f') ↔ ∃ later g v, f.passArgs types = .ok (later, g) ∧
      g.passOn t = .ok (v, f') ∧ values = v :: later := by
  constructor
  · intro h
    obtain ⟨⟨later, g⟩, hlater, h⟩ := bind_eq_ok_iff.1 h
    obtain ⟨⟨v, g'⟩, hv, h⟩ := bind_eq_ok_iff.1 h
    cases h
    exact ⟨later, g, v, hlater, hv, rfl⟩
  · rintro ⟨later, g, v, hlater, hv, rfl⟩
    exact bind_eq_ok_iff.2 ⟨_, hlater, bind_eq_ok_iff.2 ⟨_, hv, rfl⟩⟩

theorem Frame.passArgs_cons_eq_error {t : DataType} {types : List DataType} {e : Stop}
    (h : f.passArgs (t :: types) = .error e) : f.passArgs types = .error e ∨
      ∃ later g, f.passArgs types = .ok (later, g) ∧ g.passOn t = .error e := by
  obtain hargs | ⟨⟨later, g⟩, hargs, h⟩ := bind_eq_error_iff.1 h
  · exact .inl hargs
  · obtain hv | ⟨_, _, h⟩ := bind_eq_error_iff.1 h
    · exact .inr ⟨later, g, hargs, hv⟩
    · cases h

theorem Frame.passArgs_eq_ok {types : List DataType} {values : List Value}
    (h : f.passArgs types = .ok (values, f')) :
    (∃ rest, f' = { f with stack := rest }) ∧ values.length = types.length ∧
      ∀ v ∈ values, v.isReference = true := by
  induction types generalizing values f' with
  | nil =>
    cases h
    exact ⟨⟨f.stack, rfl⟩, rfl, by simp⟩
  | cons t types ih =>
    obtain ⟨later, g, v, hargs, hv, rfl⟩ := passArgs_cons_eq_ok_iff.1 h
    obtain ⟨⟨rest, hg⟩, hlength, hreferences⟩ := ih hargs
    obtain ⟨⟨rest', hg'⟩, hreference⟩ := passOn_eq_ok hv
    refine ⟨⟨rest', by rw [hg', hg]⟩, by rw [List.length_cons, hlength, List.length_cons], ?_⟩
    intro u hu
    obtain rfl | hu := List.mem_cons.1 hu
    · exact hreference
    · exact hreferences u hu

theorem Frame.passCall_eq_ok_iff_bind {s : Signature} {receiver : Value} {args : List Value} :
    f.passCall s = .ok (receiver, args, f') ↔ ∃ g, f.passArgs s.params = .ok (args, g) ∧
      g.passReceiver s = .ok (receiver, f') := by
  constructor
  · intro h
    obtain ⟨⟨args', g⟩, hargs, h⟩ := bind_eq_ok_iff.1 h
    obtain ⟨⟨receiver', g'⟩, hreceiver, h⟩ := bind_eq_ok_iff.1 h
    cases h
    exact ⟨g, hargs, hreceiver⟩
  · rintro ⟨g, hargs, hreceiver⟩
    exact bind_eq_ok_iff.2 ⟨_, hargs, bind_eq_ok_iff.2 ⟨_, hreceiver, rfl⟩⟩

theorem Frame.passCall_eq_error {s : Signature} {e : Stop} (h : f.passCall s = .error e) :
    f.passArgs s.params = .error e ∨
      ∃ args g, f.passArgs s.params = .ok (args, g) ∧ g.passReceiver s = .error e := by
  obtain hargs | ⟨⟨args, g⟩, hargs, h⟩ := bind_eq_error_iff.1 h
  · exact .inl hargs
  · obtain hreceiver | ⟨_, _, h⟩ := bind_eq_error_iff.1 h
    · exact .inr ⟨args, g, hargs, hreceiver⟩
    · cases h

theorem Frame.passCall_eq_ok {s : Signature} {receiver : Value} {args : List Value}
    (h : f.passCall s = .ok (receiver, args, f')) :
    (∃ rest, f' = { f with stack := rest }) ∧ args.length = s.params.length ∧
      ∀ v ∈ args, v.isReference = true := by
  obtain ⟨g, hargs, hreceiver⟩ := passCall_eq_ok_iff_bind.1 h
  obtain ⟨⟨rest, hg⟩, hpassed⟩ := passArgs_eq_ok hargs
  refine ⟨?_, hpassed⟩
  unfold Frame.passReceiver at hreceiver
  split at hreceiver
  · cases hreceiver
    exact ⟨rest, hg⟩
  · obtain ⟨⟨rest', hg'⟩, _⟩ := passOn_eq_ok hreceiver
    exact ⟨rest', by rw [hg', hg]⟩

end Passing

namespace Machine

variable {σ : Type} {M : Machine σ} {f : Frame} {w : World σ}

theorem takeAnswer_cases (f : Frame) (w : World σ) (returns : ReturnType) (answer : Value) :
    (∃ rest, takeAnswer f w returns answer = .proceed { f with stack := rest } w) ∨
      ∃ e, takeAnswer f w returns answer = .stop e w := by
  unfold takeAnswer
  cases returns with
  | void => exact .inl ⟨f.stack, rfl⟩
  | value t =>
    simp only
    cases w.heap.coerce answer t with
    | ok v => exact .inl ⟨v :: f.stack, rfl⟩
    | error e => exact .inr ⟨e, rfl⟩

theorem interceptCall_congr {M M' : Machine σ} (hhost : M'.host = M.host) (f : Frame) (w : World σ)
    (callee : MethodIdentity) : M'.interceptCall f w callee = M.interceptCall f w callee := by
  simp only [interceptCall, hhost]

theorem interceptCall_cases (M : Machine σ) (f : Frame) (w : World σ) (callee : MethodIdentity) :
    (∃ rest w', M.interceptCall f w callee = .proceed { f with stack := rest } w') ∨
      ∃ e w', M.interceptCall f w callee = .stop e w' := by
  unfold interceptCall
  cases hcall : f.passCall callee.signature with
  | error e => exact .inr ⟨e, w, rfl⟩
  | ok p =>
    obtain ⟨receiver, args, g⟩ := p
    obtain ⟨⟨rest, hg⟩, _⟩ := Frame.passCall_eq_ok hcall
    simp only
    split
    · rename_i answer w' _
      obtain ⟨rest', h⟩ | ⟨e, h⟩ := takeAnswer_cases g w' callee.signature.returns answer
      · exact .inl ⟨rest', w', by rw [h, hg]⟩
      · exact .inr ⟨e, w', h⟩
    · rename_i e w' _
      exact .inr ⟨_, w', rfl⟩

end Machine

end Interpose
