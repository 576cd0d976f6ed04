import Interpose.Proofs.Execution.Operations

/-!
# What operations leave alone

An operation changes the stack, an argument or a local of its frame, or the place where the frame
goes on. All else stays, and so does the number of locals.
-/

namespace Interpose

/-- What an operation with a branch target makes of its frame. -/
structure Frame.Continues (f : Frame) (target : Option Label) (f' : Frame) : Prop where
  method : f'.method = f.method
  returns : f'.returns = f.returns
  code : f'.code = f.code
  labels : f'.labels = f.labels
  declared : f'.declared = f.declared
  locals : f'.locals.size = f.locals.size
  next : f'.next = f.next ∨ ∃ l, target = some l ∧ f.labels.place? l = some f'.next

namespace Frame

variable {f g : Frame} {index : Nat}

theorem pop_eq_ok {v : Value} (h : f.pop = .ok (v, g)) :
    ∃ rest, f.stack = v :: rest ∧ g = { f with stack := rest } := by
  unfold pop at h
  split at h
  · rename_i rest hstack
    cases h
    exact ⟨rest, hstack, rfl⟩
  · cases h

theorem storeArg_push (f : Frame) (v : Value) (index : Nat) : (f.push v).storeArg index =
    if index < f.args.size then .ok { f with args := f.args.setIfInBounds index v }
    else .error (.fault (.invalidIndex (.argument index))) := rfl

theorem storeLocal_push (f : Frame) (v : Value) (index : Nat) : (f.push v).storeLocal index =
    match f.declared[index]? with
    | none => .error (.fault (.invalidIndex (.local index)))
    | some t =>
      if v.fits t then
        if index < f.locals.size then .ok { f with locals := f.locals.setIfInBounds index v }
        else .error (.breach .localSlot)
      else mismatch (.storeLocal v.kind index t) := rfl

theorem storeArg_eq_ok_iff : f.storeArg index = .ok g ↔
    ∃ v rest, f.stack = v :: rest ∧ index < f.args.size ∧
      g = { f with stack := rest, args := f.args.setIfInBounds index v } := by
  unfold storeArg
  constructor
  · intro h
    obtain ⟨⟨v, f'⟩, hpop, hstore⟩ := bind_eq_ok_iff.1 h
    obtain ⟨rest, hstack, rfl⟩ := pop_eq_ok hpop
    simp only at hstore
    split at hstore
    · rename_i hlt
      cases hstore
      exact ⟨v, rest, hstack, hlt, rfl⟩
    · cases hstore
  · intro ⟨v, rest, hstack, hlt, hg⟩
    rw [hg]
    simp only [pop, hstack, bind, Except.bind, if_pos hlt]
    rfl

theorem storeLocal_eq_ok (h : f.storeLocal index = .ok g) :
    ∃ v rest t, f.stack = v :: rest ∧ f.declared[index]? = some t ∧ v.fits t = true ∧
      g = { f with stack := rest, locals := f.locals.setIfInBounds index v } := by
  unfold storeLocal at h
  obtain ⟨⟨v, f'⟩, hpop, hstore⟩ := bind_eq_ok_iff.1 h
  obtain ⟨rest, hstack, rfl⟩ := pop_eq_ok hpop
  simp only at hstore
  split at hstore
  · cases hstore
  · rename_i t ht
    split at hstore
    · rename_i hfits
      split at hstore
      · cases hstore
        exact ⟨v, rest, t, hstack, ht, hfits, rfl⟩
      · cases hstore
    · cases hstore

end Frame

/-- What an operation with a branch target makes of a frame whose arguments and locals it leaves
alone. -/
structure Frame.Moves (f : Frame) (target : Option Label) (f' : Frame) : Prop where
  frame : f' = { f with stack := f'.stack, next := f'.next }
  next : f'.next = f.next ∨ ∃ l, target = some l ∧ f.labels.place? l = some f'.next

namespace Frame.Moves

variable {f f' : Frame} {target : Option Label}

theorem of_stack (stack : List Value) : f.Moves target { f with stack := stack } :=
  ⟨rfl, .inl rfl⟩

theorem continues (h : f.Moves target f') : f.Continues target f' := by
  obtain ⟨frame, next⟩ := h
  rw [frame]
  exact ⟨rfl, rfl, rfl, rfl, rfl, rfl, next⟩

theorem jump {l : Label} (h : f.jump l = .ok f') : f.Moves (some l) f' := by
  unfold Frame.jump at h
  split at h
  · rename_i place hplace
    cases h
    exact ⟨rfl, .inr ⟨l, rfl, hplace⟩⟩
  · cases h

end Frame.Moves

/-! ### What instructions ask for -/

namespace Machine

variable {σ : Type} {M : Machine σ} {f f' g : Frame} {w w' : World σ} {i : Instr} {o : Op}

theorem inFrame_eq_proceed {r : Except Stop Frame} (h : inFrame w r = .proceed f' w') :
    r = .ok f' := by
  cases r with
  | ok f =>
    cases h
    rfl
  | error e => cases h

theorem inFrame_ne_call {r : Except Stop Frame} {t : MethodToken} {args : List Value} :
    inFrame w r ≠ .call g t args w' := by
  intro h
  cases r <;> cases h

theorem inFrame_ne_leave {r : Except Stop Frame} {v : Option Value} :
    inFrame w r ≠ .leave v w' := by
  intro h
  cases r <;> cases h

/-- An instruction that goes on in its frame leaves the slots of the frame alone, unless it stores to
one. -/
theorem moves_or_stores (h : M.exec f w i = .proceed f' w') :
    f.Moves i.target? f' ∨ (∃ k, i = .op (.starg k) ∧ f.storeArg k.toNat = .ok f') ∨
      ∃ s, i = .op (.stloc s) ∧ f.storeLocal s.position = .ok f' := by
  cases M.does f w i with
  | stops _ _ exec =>
    rw [exec] at h
    cases h
  | @settles x rest effect _ _ exec =>
    have hsettle := exec.symm.trans h
    cases effect with
    | push | newObject | newArray | store | pushInstalled =>
      cases hsettle
      exact .inl (.of_stack _)
    | loadArg =>
      have hload := inFrame_eq_proceed hsettle
      unfold Frame.loadArg at hload
      split at hload
      · cases hload
        exact .inl (.of_stack _)
      · cases hload
    | loadLocal =>
      have hload := inFrame_eq_proceed hsettle
      unfold Frame.loadLocal at hload
      split at hload
      · cases hload
        exact .inl (.of_stack _)
      · cases hload
    | @storeArg k _ _ hi =>
      subst hi
      exact .inr (.inl ⟨k, rfl, inFrame_eq_proceed h⟩)
    | @storeLocal s _ _ hi =>
      subst hi
      exact .inr (.inr ⟨s, rfl, inFrame_eq_proceed h⟩)
    | jump hi =>
      have hmoves := Frame.Moves.jump (inFrame_eq_proceed hsettle)
      rw [hi]
      exact .inl ⟨hmoves.frame, hmoves.next⟩
    | dispatch =>
      simp only [settle, ask] at hsettle
      split at hsettle
      · cases hsettle
        exact .inl (.of_stack _)
      · cases hsettle
    | leave | call => cases hsettle

theorem eq_call_of_settle {x : Effect} {t : MethodToken} {args : List Value}
    (h : M.settle f w x = .call g t args w') : x = .call t args ∧ g = f ∧ w' = w := by
  cases x with
  | call =>
    cases h
    exact ⟨rfl, rfl, rfl⟩
  | loadArg | storeArg | loadLocal | storeLocal | jump => exact absurd h inFrame_ne_call
  | dispatch =>
    simp only [settle, ask] at h
    split at h <;> cases h
  | _ => cases h

theorem eq_leave_of_settle {x : Effect} {v : Option Value} (h : M.settle f w x = .leave v w') :
    x = .leave v ∧ w' = w := by
  cases x with
  | leave =>
    cases h
    exact ⟨rfl, rfl⟩
  | loadArg | storeArg | loadLocal | storeLocal | jump => exact absurd h inFrame_ne_leave
  | dispatch =>
    simp only [settle, ask] at h
    split at h <;> cases h
  | _ => cases h

/-- A call is asked for by call instructions only, and for as many values as the callee takes. -/
theorem of_exec_call {t : MethodToken} {args : List Value} (h : M.exec f w i = .call g t args w') :
    w' = w ∧ (∃ target, i = .call target) ∧ (∃ rest, g = { f with stack := rest }) ∧
      ∃ d, M.module.method? t = some d ∧ args.length = d.signature.arity := by
  cases M.does f w i with
  | stops _ _ exec =>
    rw [exec] at h
    cases h
  | @settles x rest effect _ _ exec =>
    obtain ⟨rfl, rfl, rfl⟩ := eq_call_of_settle (exec.symm.trans h)
    cases effect with
    | call hi ht hd hlength => exact ⟨rfl, ⟨_, hi⟩, ⟨rest, rfl⟩, _, hd, hlength⟩

theorem callArgs_of_exec {t : MethodToken} {args : List Value}
    (h : M.exec f w i = .call g t args w') :
    ∃ target, i = .call target ∧ M.callArgs f target = .ok (t, args, g) ∧ w' = w := by
  obtain ⟨rfl, ⟨target, rfl⟩, _⟩ := of_exec_call h
  simp only [exec] at h
  split at h
  · rename_i hargs
    cases h
    exact ⟨target, rfl, hargs, rfl⟩
  · cases h

theorem execOp_ne_call {t : MethodToken} {args : List Value} :
    M.execOp f w o ≠ .call g t args w' := by
  intro h
  obtain ⟨_, ⟨target, htarget⟩, _⟩ := of_exec_call (M := M) (i := .op o) h
  cases htarget

theorem moves_of_exec_call {t : MethodToken} {args : List Value}
    (h : M.exec f w i = .call g t args w') : f.Moves none g := by
  obtain ⟨_, _, ⟨rest, rfl⟩, _⟩ := of_exec_call h
  exact .of_stack rest

theorem world_of_exec_call {t : MethodToken} {args : List Value}
    (h : M.exec f w i = .call g t args w') : w' = w :=
  (of_exec_call h).1

/-- A frame is left with a result of its declared type. -/
theorem admits_of_exec_leave {v : Option Value} (h : M.exec f w i = .leave v w') :
    f.returns.admits v = true := by
  cases M.does f w i with
  | stops _ _ exec =>
    rw [exec] at h
    cases h
  | settles effect _ _ exec =>
    obtain ⟨rfl, rfl⟩ := eq_leave_of_settle (exec.symm.trans h)
    cases effect with
    | leave hadmits => exact hadmits

/-- Why an effect ends the run. -/
inductive SettleFails (M : Machine σ) (f : Frame) (w : World σ) : Effect → Stop → World σ → Prop
  | fault {x : Effect} {e : Fault} : M.SettleFails f w x (.fault e) w
  | branchTarget {l : Label} (hl : f.labels.place? l = none) :
      M.SettleFails f w (.jump l) (.breach .branchTarget) w
  | localSlot {index : Nat} {v : Value} (hdeclared : index < f.declared.size)
      (hlocals : ¬index < f.locals.size) :
      M.SettleFails f w (.storeLocal index v) (.breach .localSlot) w
  | host {d : Dispatch} {e : NoAnswer InterceptError} {w' : World σ}
      (answer : M.host.intercept d.interceptor d.receiver (w.heap.items d.arguments).toList
        d.identity w = (.error e, w')) :
      M.SettleFails f w (.dispatch d) (e.map Fault.intercept).stop w'

theorem settleFails_of_settle {x : Effect} {e : Stop} (h : M.settle f w x = .stop e w') :
    M.SettleFails f w x e w' := by
  cases x with
  | loadArg index =>
    simp only [settle, Frame.loadArg] at h
    split at h <;> cases h
    exact .fault
  | loadLocal index =>
    simp only [settle, Frame.loadLocal] at h
    split at h <;> cases h
    exact .fault
  | storeArg index v =>
    rw [settle, Frame.storeArg_push] at h
    split at h <;> cases h
    exact .fault
  | storeLocal index v =>
    rw [settle, Frame.storeLocal_push] at h
    split at h
    · cases h
      exact .fault
    · rename_i t ht
      split at h
      · split at h
        · cases h
        · rename_i hlocals
          cases h
          exact .localSlot (Array.getElem?_eq_some_iff.1 ht).1 hlocals
      · cases h
        exact .fault
  | jump l =>
    simp only [settle, Frame.jump] at h
    split at h
    · cases h
    · rename_i hl
      cases h
      exact .branchTarget hl
  | dispatch d =>
    simp only [settle, ask] at h
    split at h
    · cases h
    · rename_i answer
      cases h
      exact .host answer
  | _ => cases h

theorem exec_call_ne_proceed {target : CallTarget} :
    M.exec f w (.call target) ≠ .proceed g w' := by
  intro h
  simp only [exec] at h
  split at h <;> cases h

theorem exec_call_ne_leave {target : CallTarget} {v : Option Value} :
    M.exec f w (.call target) ≠ .leave v w' := by
  intro h
  simp only [exec] at h
  split at h <;> cases h

end Machine

namespace Frame.Continues

variable {f f' : Frame} {target : Option Label}

theorem of_storeArg {index : Nat} (h : f.storeArg index = .ok f') : f.Continues target f' := by
  obtain ⟨v, rest, _, _, rfl⟩ := storeArg_eq_ok_iff.1 h
  exact ⟨rfl, rfl, rfl, rfl, rfl, rfl, .inl rfl⟩

theorem of_storeLocal {index : Nat} (h : f.storeLocal index = .ok f') : f.Continues target f' := by
  obtain ⟨v, rest, _, _, _, _, rfl⟩ := storeLocal_eq_ok h
  exact ⟨rfl, rfl, rfl, rfl, rfl, Array.size_setIfInBounds, .inl rfl⟩

theorem of_exec {σ : Type} {M : Machine σ} {i : Instr} {w w' : World σ}
    (h : M.exec f w i = .proceed f' w') : f.Continues i.target? f' := by
  obtain hmoves | ⟨i, _, hstore⟩ | ⟨s, _, hstore⟩ := Machine.moves_or_stores h
  · exact hmoves.continues
  · exact of_storeArg hstore
  · exact of_storeLocal hstore

/-- An operation that goes on in its frame. -/
theorem of_execOp {σ : Type} {M : Machine σ} {o : Op} {w w' : World σ}
    (h : M.execOp f w o = .proceed f' w') : f.Continues (Instr.op o).target? f' :=
  of_exec (M := M) (i := .op o) h

end Frame.Continues

namespace Machine

variable {σ : Type} {M : Machine σ} {f : Frame} {w : World σ} {o : Op}

/-! ### Locals that operations name -/

/-- An operation names a local only if there is one, unless it ends the run. -/
theorem slots_lt_of_execOp (hsize : f.declared.size = f.locals.size)
    (h : ∀ e, M.execOp f w o ≠ .stop e w) :
    ∀ s ∈ (Instr.op o).slots, s.position < f.locals.size := by
  intro s hs
  cases o with
  | ldloc t =>
    cases List.mem_singleton.1 hs
    refine Nat.lt_of_not_le fun hle => ?_
    have hnone : f.locals[s.position]? = none := Array.getElem?_eq_none hle
    refine h (.fault (.invalidIndex (.local s.position))) ?_
    simp only [Machine.execOp, Frame.loadLocal, hnone, Machine.inFrame]
  | stloc t =>
    cases List.mem_singleton.1 hs
    refine Nat.lt_of_not_le fun hle => ?_
    have hnone : f.declared[s.position]? = none := Array.getElem?_eq_none (hsize ▸ hle)
    cases hstack : f.stack with
    | nil =>
      refine h f.underflow ?_
      simp only [Machine.execOp, Frame.storeLocal, Frame.pop, hstack]
      rfl
    | cons v rest =>
      refine h (.fault (.invalidIndex (.local s.position))) ?_
      simp only [Machine.execOp, Frame.storeLocal, Frame.pop, hstack, bind, Except.bind, hnone]
      rfl
  | _ => cases hs

end Machine

end Interpose
