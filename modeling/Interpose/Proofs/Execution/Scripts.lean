import Interpose.Execution.Machine

/-!
# What instructions take and do

An instruction takes its operands from the stack, looks at them and at the heap, and then ends the
run or has one effect on its frame and its world. `Machine.script` says for each instruction of
`Machine::execute` what it takes and what comes of it, apart from any frame, and `Machine.exec_eq`
that `Machine.exec` does just that.
-/

namespace Interpose

theorem bind_eq_ok_iff {α β : Type} {x : Except Stop α} {k : α → Except Stop β} {b : β} :
    (x >>= k) = .ok b ↔ ∃ a, x = .ok a ∧ k a = .ok b := by
  cases x with
  | ok a => exact ⟨fun h => ⟨a, rfl, h⟩, fun ⟨_, ha, h⟩ => Except.ok.inj ha ▸ h⟩
  | error e => exact ⟨fun h => (nomatch h), fun ⟨_, ha, _⟩ => (nomatch ha)⟩

theorem bind_eq_error_iff {α β : Type} {x : Except Stop α} {k : α → Except Stop β} {e : Stop} :
    (x >>= k) = .error e ↔ x = .error e ∨ ∃ a, x = .ok a ∧ k a = .error e := by
  cases x with
  | ok a =>
    constructor
    · exact fun h => .inr ⟨a, rfl, h⟩
    · rintro (h | ⟨_, ha, h⟩)
      · cases h
      · exact Except.ok.inj ha ▸ h
  | error e' =>
    constructor
    · exact fun h => .inl (congrArg _ (Except.error.inj h))
    · rintro (h | ⟨_, ha, _⟩)
      · exact congrArg _ (Except.error.inj h)
      · cases ha

/-- What is left of an instruction once it has its operands. -/
inductive Effect where
  | push (values : List Value)
  | loadArg (index : Nat)
  | storeArg (index : Nat) (v : Value)
  | loadLocal (index : Nat)
  | storeLocal (index : Nat) (v : Value)
  | jump (l : Label)
  | leave (v : Option Value)
  | newObject (classType : TypeToken)
  | newArray (elem : DataType) (length : Nat)
  | store (s : Frame.Store)
  | pushInstalled
  | dispatch (d : Machine.Dispatch)
  | call (t : MethodToken) (args : List Value)

/-- An instruction without its frame: the operands it takes, one after the other, and what comes of
them. -/
inductive Script where
  | fail (why : Stop)
  | done (effect : Effect)
  | take (next : Value → Script)

theorem Frame.popMany_eq (f : Frame) (n : Nat) : f.popMany n =
    if n ≤ f.stack.length then
      .ok ((f.stack.take n).reverse, { f with stack := f.stack.drop n })
    else .error f.underflow := by
  unfold popMany splitStack
  rw [List.length_take]
  by_cases hn : n ≤ f.stack.length
  · rw [if_pos hn, if_neg (by omega), if_pos (by omega)]
    rfl
  · rw [if_neg hn, if_pos (by omega)]

theorem Frame.popMany_succ (f : Frame) (n : Nat) : f.popMany (n + 1) =
    f.pop >>= fun p => p.2.popMany n >>= fun q => .ok (q.1 ++ [p.1], q.2) := by
  unfold pop
  rw [popMany_eq]
  cases hstack : f.stack with
  | nil => rfl
  | cons v rest =>
    simp only [bind, Except.bind, popMany_eq, List.length_cons, Nat.add_le_add_iff_right]
    split
    · simp only [List.take_succ_cons, List.drop_succ_cons, List.reverse_cons]
    · rfl

namespace Script

variable {α : Type}

def run : Script → Frame → Except Stop (Effect × Frame)
  | .fail e, _ => .error e
  | .done x, f => .ok (x, f)
  | .take next, f => f.pop >>= fun p => (next p.1).run p.2

def refuse (cause : Mismatch) : Script := .fail (.fault (.typeMismatch cause))

def check (x : Except Stop α) (next : α → Script) : Script :=
  match x with
  | .ok a => next a
  | .error e => .fail e

def takeArray (next : ArrayRef → Script) : Script :=
  .take fun v =>
    match v with
    | .array r => next r
    | v => refuse (.array v.kind)

def takeMany : Nat → (List Value → Script) → Script
  | 0, next => next []
  | n + 1, next => .take fun v => takeMany n fun values => next (values ++ [v])

theorem run_take (next : Value → Script) (f : Frame) :
    (take next).run f = f.pop >>= fun p => (next p.1).run p.2 := rfl

theorem run_check (x : Except Stop α) (next : α → Script) (f : Frame) :
    (check x next).run f = x >>= fun a => (next a).run f := by
  cases x with
  | ok a => rfl
  | error e => rfl

theorem run_takeArray (next : ArrayRef → Script) (f : Frame) :
    (takeArray next).run f = f.popArray >>= fun p => (next p.1).run p.2 := by
  unfold takeArray Frame.popArray
  rw [run_take, bind_assoc]
  refine bind_congr fun p => ?_
  obtain ⟨v, g⟩ := p
  cases v <;> rfl

/-- Values are taken together or one after the other. -/
theorem run_takeMany (n : Nat) (next : List Value → Script) (f : Frame) :
    (takeMany n next).run f = f.popMany n >>= fun p => (next p.1).run p.2 := by
  induction n generalizing next f with
  | zero =>
    rw [Frame.popMany_eq]
    rfl
  | succ n ih =>
    unfold takeMany
    rw [run_take, Frame.popMany_succ, bind_assoc]
    refine bind_congr fun p => ?_
    rw [ih, bind_assoc]
    rfl

end Script

namespace Machine

variable {σ : Type} (M : Machine σ)

/-! ### Scripts of the instructions -/

def branchScript (wanted : Bool) (l : Label) : Script :=
  .take fun v => .check v.truth fun b => .done (if b = wanted then .jump l else .push [])

def binaryScript (o : BinaryOp) : Script :=
  .take fun right => .take fun left => .check (o.apply left right) fun v => .done (.push [v])

def boxScript (t : DataType) : Script :=
  .take fun v =>
    if v.fits t then .done (.push [if t.isValueType then .boxed v else v])
    else .refuse (.box v.kind t)

def storeScript (h : Heap) : Script :=
  .take fun v => .take fun i => .takeArray fun r => .check (h.arrayIndex i) fun index =>
    if v.isReference && v.fits (h.elem r) then
      if index < h.length r then .done (.store ⟨r, index, v⟩)
      else .fail (.fault (.indexOutOfRange index (h.length r)))
    else .refuse (.storeElement v.kind (h.elem r))

def elementScript (h : Heap) : Script :=
  .take fun i => .takeArray fun r => .check (h.arrayIndex i) fun index =>
    match h.get? r index with
    | some v => .done (.push [v])
    | none => .fail (.fault (.indexOutOfRange index (h.length r)))

def returnScript (method : String) : ReturnType → Script
  | .void => .done (.leave none)
  | .value t => .take fun v =>
    if v.fits t then .done (.leave (some v)) else .refuse (.result method t v.kind)

def resolveScript : Script :=
  .take fun method => .take fun type =>
    match type, method with
    | .token (.type t), .token (.method m) =>
      match M.identities.resolve? t m with
      | some identity => .done (.push [.method identity])
      | none => .fail (.fault (.unknownIdentity t m))
    | type, method => .refuse (.tokens type.kind method.kind)

def dispatchScript : Script :=
  .take fun identity => .takeArray fun arguments => .take fun receiver => .take fun interceptor =>
    match interceptor, identity with
    | .interceptor i, .method m => .done (.dispatch ⟨i, receiver, arguments, m⟩)
    | _, _ => .refuse .dispatch

def callScript (t : MethodToken) : Script :=
  .check (M.arityOf t) fun n => .takeMany n fun args => .done (.call t args)

def indirectScript (arity : UInt16) : Script :=
  .take fun v =>
    match v with
    | .function t => .check (M.arityOf t) fun expected =>
      if expected ≠ arity.toNat then
        .fail (.fault (.arityMismatch (M.module.qualifiedName t) expected arity.toNat))
      else M.callScript t
    | _ => .refuse .function

/-- The script of an instruction in a method of this name and declared result. -/
def script (h : Heap) (method : String) (returns : ReturnType) : Instr → Script
  | .op .nop | .op (.label _) => .done (.push [])
  | .op (.ldarg i) => .done (.loadArg i.toNat)
  | .op (.starg i) => .take fun v => .done (.storeArg i.toNat v)
  | .op (.ldloc s) => .done (.loadLocal s.position)
  | .op (.stloc s) => .take fun v => .done (.storeLocal s.position v)
  | .op .ldnull => .done (.push [.null])
  | .op (.ldcI4 v) => .done (.push [.int32 v])
  | .op (.ldcI8 v) => .done (.push [.int64 v])
  | .op (.ldcR8 v) => .done (.push [.float64 v])
  | .op (.ldstr s) => .done (.push [.str s])
  | .op .dup => .take fun v => .done (.push [v, v])
  | .op .pop => .take fun _ => .done (.push [])
  | .op .add => binaryScript .add
  | .op .sub => binaryScript .sub
  | .op .mul => binaryScript .mul
  | .op .clt => binaryScript .clt
  | .op .ceq => .take fun right => .take fun left =>
    .done (.push [.ofTruth (left.equals right)])
  | .op (.br l) => .done (.jump l)
  | .op (.brtrue l) => branchScript true l
  | .op (.brfalse l) => branchScript false l
  | .op .ret => returnScript method returns
  | .op (.box t) => boxScript t
  | .op (.unboxAny t) => .take fun v => .check (h.coerce v t) fun u => .done (.push [u])
  | .op (.newobj t) => .done (.newObject t)
  | .op (.newarr t) => .take fun v => .check (h.arrayLength v) fun n => .done (.newArray t n)
  | .op .stelemRef => storeScript h
  | .op .ldelemRef => elementScript h
  | .op .ldlen => .takeArray fun r => .done (.push [.int32 (Int32.ofNat (h.length r))])
  | .op (.ldtoken t) => .done (.push [.token t])
  | .op (.ldftn m) => .done (.push [.function m])
  | .op .resolveMethod => M.resolveScript
  | .op .getInterceptor => .done .pushInstalled
  | .op .intercept => dispatchScript
  | .call (.direct t) => M.callScript t
  | .call (.indirect arity) => M.indirectScript arity

/-! ### What effects do -/

def settle (f : Frame) (w : World σ) : Effect → Request σ
  | .push values => .proceed { f with stack := values ++ f.stack } w
  | .loadArg index => inFrame w (f.loadArg index)
  | .storeArg index v => inFrame w ((f.push v).storeArg index)
  | .loadLocal index => inFrame w (f.loadLocal index)
  | .storeLocal index v => inFrame w ((f.push v).storeLocal index)
  | .jump l => inFrame w (f.jump l)
  | .leave v => .leave v w
  | .newObject t => .proceed (f.push (.object (w.newObject t).1)) (w.newObject t).2
  | .newArray t n => .proceed (f.push (.array (w.newArray t n).1)) (w.newArray t n).2
  | .store s => .proceed f (w.store s.array s.index s.value)
  | .pushInstalled => .proceed (f.push (.interceptor (M.host.installed w.host))) w
  | .dispatch d => M.ask f w d
  | .call t args => .call f t args w

def finish (w : World σ) : Except Stop (Effect × Frame) → Request σ
  | .ok (x, f) => M.settle f w x
  | .error e => .stop e w

variable {M} {f : Frame} {w : World σ}

/-- A script that takes what an operation takes settles as the operation does if what follows does. -/
theorem finish_bind {α : Type} {x : Except Stop α} {next : α → Except Stop (Effect × Frame)}
    {next' : α → Except Stop Frame} (h : ∀ a, M.finish w (next a) = inFrame w (next' a)) :
    M.finish w (x >>= next) = inFrame w (x >>= next') := by
  cases x with
  | ok a => exact h a
  | error e => rfl

theorem finish_binary (o : BinaryOp) :
    M.finish w ((binaryScript o).run f) = inFrame w (f.binary o) := by
  simp only [binaryScript, Script.run_take, Script.run_check]
  exact finish_bind fun _ => finish_bind fun _ => finish_bind fun _ => rfl

theorem finish_branch (wanted : Bool) (l : Label) :
    M.finish w ((branchScript wanted l).run f) = inFrame w (f.branchIf wanted l) := by
  simp only [branchScript, Script.run_take, Script.run_check]
  refine finish_bind fun _ => finish_bind fun b => ?_
  by_cases hb : b = wanted
  · rw [if_pos hb, if_pos hb]
    rfl
  · rw [if_neg hb, if_neg hb]
    rfl

theorem finish_box (t : DataType) :
    M.finish w ((boxScript t).run f) = inFrame w (f.box t) := by
  simp only [boxScript, Script.run_take]
  refine finish_bind fun p => ?_
  cases hfits : p.1.fits t with
  | true =>
    simp only [hfits, if_true]
    rfl
  | false =>
    simp only [hfits]
    rfl

theorem finish_element :
    M.finish w ((elementScript w.heap).run f) = inFrame w (f.loadElement w.heap) := by
  simp only [elementScript, Script.run_take, Script.run_takeArray, Script.run_check]
  refine finish_bind fun _ => finish_bind fun p => finish_bind fun index => ?_
  cases w.heap.get? p.1 index with
  | none => rfl
  | some v => rfl

theorem finish_resolve :
    M.finish w (M.resolveScript.run f) = inFrame w (M.resolveMethod f) := by
  simp only [resolveScript, Script.run_take]
  refine finish_bind fun p => finish_bind fun q => ?_
  obtain ⟨method, g⟩ := p
  obtain ⟨type, k⟩ := q
  cases type with
  | token type =>
    cases type with
    | method => rfl
    | type t =>
      cases method with
      | token method =>
        cases method with
        | type => rfl
        | method m =>
          simp only
          cases M.identities.resolve? t m with
          | none => rfl
          | some identity => rfl
      | _ => rfl
  | _ => rfl

theorem finish_return :
    M.finish w ((returnScript f.method f.returns).run f) = M.exec f w (.op .ret) := by
  unfold returnScript exec execOp Frame.result
  cases f.returns with
  | void => rfl
  | value t =>
    simp only [Script.run_take, Frame.pop]
    cases f.stack with
    | nil => rfl
    | cons v rest =>
      simp only [bind, Except.bind]
      split <;> rfl

theorem run_store (h : Heap) :
    (storeScript h).run f = f.popStore h >>= fun p => .ok (.store p.1, p.2) := by
  unfold storeScript Frame.popStore
  simp only [bind_assoc, Script.run_take, Script.run_takeArray, Script.run_check]
  refine bind_congr fun _ => bind_congr fun _ => bind_congr fun _ => bind_congr fun _ => ?_
  split
  · split <;> rfl
  · rfl

theorem run_dispatch :
    dispatchScript.run f = popDispatch f >>= fun p => .ok (.dispatch p.1, p.2) := by
  unfold dispatchScript popDispatch
  simp only [bind_assoc, Script.run_take, Script.run_takeArray]
  refine bind_congr fun p => bind_congr fun q => bind_congr fun r => bind_congr fun s => ?_
  obtain ⟨identity, _⟩ := p
  obtain ⟨interceptor, g⟩ := s
  cases interceptor with
  | interceptor i => cases identity <;> rfl
  | _ => rfl

theorem run_callScript (t : MethodToken) : (M.callScript t).run f =
    M.arityOf t >>= fun n => f.popMany n >>= fun p => .ok (.call t p.1, p.2) := by
  unfold callScript
  simp only [Script.run_check, Script.run_takeMany]
  rfl

theorem run_call (target : CallTarget) :
    (M.script w.heap f.method f.returns (.call target)).run f =
      M.callArgs f target >>= fun p => .ok (.call p.1 p.2.1, p.2.2) := by
  cases target with
  | direct t =>
    have hcallArgs : M.callArgs f (.direct t) =
        (M.arityOf t >>= fun n => f.popMany n >>= fun p => .ok (t, p.1, p.2)) := rfl
    rw [script, run_callScript, hcallArgs]
    simp only [bind_assoc]
    rfl
  | indirect arity =>
    unfold script indirectScript callArgs callee
    simp only [Script.run_take, bind_assoc]
    refine bind_congr fun p => ?_
    obtain ⟨v, g⟩ := p
    cases v with
    | function t =>
      simp only [Script.run_check, bind_assoc]
      refine bind_congr fun expected => ?_
      split
      · rfl
      · rw [run_callScript]
        rfl
    | _ => rfl

theorem popDispatch_of_run {d : Dispatch} {g : Frame}
    (h : dispatchScript.run f = .ok (.dispatch d, g)) : popDispatch f = .ok (d, g) := by
  rw [run_dispatch] at h
  obtain ⟨⟨d', g'⟩, hpop, h⟩ := bind_eq_ok_iff.1 h
  cases h
  exact hpop

theorem exec_eq (M : Machine σ) (f : Frame) (w : World σ) (i : Instr) :
    M.exec f w i = M.finish w ((M.script w.heap f.method f.returns i).run f) := by
  cases i with
  | call target =>
    rw [run_call, exec]
    cases M.callArgs f target with
    | error e => rfl
    | ok p => rfl
  | op o =>
    cases o with
    | nop | label | ldarg | ldloc | ldnull | ldcI4 | ldcI8 | ldcR8 | ldstr | br | newobj | ldtoken
    | ldftn | getInterceptor => rfl
    | add => exact (finish_binary .add).symm
    | sub => exact (finish_binary .sub).symm
    | mul => exact (finish_binary .mul).symm
    | clt => exact (finish_binary .clt).symm
    | brtrue l => exact (finish_branch true l).symm
    | brfalse l => exact (finish_branch false l).symm
    | ret => exact finish_return.symm
    | box t => exact (finish_box t).symm
    | stelemRef =>
      simp only [exec, execOp, script, run_store]
      cases f.popStore w.heap with
      | error e => rfl
      | ok p => rfl
    | ldelemRef => exact finish_element.symm
    | resolveMethod => exact finish_resolve.symm
    | intercept =>
      simp only [exec, execOp, intercept, script, run_dispatch]
      cases popDispatch f with
      | error e => rfl
      | ok p => rfl
    | starg | stloc | dup | pop =>
      cases f with
      | mk method returns code labels declared args locals stack next => cases stack <;> rfl
    | ceq => exact (finish_bind fun _ => finish_bind fun _ => rfl).symm
    | unboxAny t =>
      simp only [script, Script.run_take, Script.run_check]
      exact (finish_bind fun _ => finish_bind fun _ => rfl).symm
    | newarr t =>
      simp only [exec, execOp, script, Frame.popLength, Script.run_take]
      rcases f.pop with e | ⟨v, g⟩
      · rfl
      · simp only [bind, Except.bind, Script.run_check]
        cases w.heap.arrayLength v with
        | error e => rfl
        | ok n => rfl
    | ldlen =>
      simp only [script, Script.run_takeArray]
      exact (finish_bind fun _ => rfl).symm

end Machine

end Interpose
