import Interpose.Proofs.Execution.Typed

/-!
# The open frames of a run

A step works on the innermost frame: it changes the frame, opens another one on top of it, or leaves
it for the frame that waits below. It never exchanges the code of an open frame, and the frames that
wait stay as they are.
-/

namespace Interpose

/-- Frames in the same run of a body: only arguments, locals, stacks and places may differ. -/
structure Frame.Alike (f g : Frame) : Prop where
  method : g.method = f.method
  returns : g.returns = f.returns
  code : g.code = f.code
  labels : g.labels = f.labels
  declared : g.declared = f.declared
  locals : g.locals.size = f.locals.size

namespace Frame.Alike

variable {f g h : Frame}

theorem of_move (f : Frame) (stack : List Value) (next : Nat) :
    f.Alike { f with stack := stack, next := next } :=
  ⟨rfl, rfl, rfl, rfl, rfl, rfl⟩

theorem trans (hfg : f.Alike g) (hgh : g.Alike h) : f.Alike h :=
  ⟨hgh.method.trans hfg.method, hgh.returns.trans hfg.returns, hgh.code.trans hfg.code,
    hgh.labels.trans hfg.labels, hgh.declared.trans hfg.declared, hgh.locals.trans hfg.locals⟩

end Frame.Alike

theorem Frame.Continues.alike {f g : Frame} {target : Option Label} (h : f.Continues target g) :
    f.Alike g :=
  ⟨h.method, h.returns, h.code, h.labels, h.declared, h.locals⟩

/-- Frames in the same run of a body that have the same arguments. -/
structure Frame.Rests (f g : Frame) : Prop extends Frame.Alike f g where
  args : g.args = f.args

namespace Frame.Rests

variable {f g h : Frame}

theorem of_move (f : Frame) (stack : List Value) (next : Nat) :
    f.Rests { f with stack := stack, next := next } :=
  ⟨.of_move f stack next, rfl⟩

theorem trans (hfg : f.Rests g) (hgh : g.Rests h) : f.Rests h :=
  ⟨hfg.toAlike.trans hgh.toAlike, hgh.args.trans hfg.args⟩

theorem of_moves {target : Option Label} (h : f.Moves target g) : f.Rests g := by
  rw [h.frame]
  exact of_move f g.stack g.next

theorem storeLocal {index : Nat} (h : f.storeLocal index = .ok g) : f.Rests g := by
  obtain ⟨v, rest, _, _, _, _, rfl⟩ := storeLocal_eq_ok h
  exact ⟨⟨rfl, rfl, rfl, rfl, rfl, Array.size_setIfInBounds⟩, rfl⟩

end Frame.Rests

namespace Machine

variable {σ : Type} {M : Machine σ} {t : MethodToken} {args : List Value} {w w' : World σ}
  {s s' : State σ} {f g : Frame}

theorem rests_advance (f : Frame) : f.Rests f.advance := .of_move f f.stack (f.next + 1)

theorem rests_resume (f : Frame) (v : Option Value) : f.Rests (resume f v) := by
  cases v with
  | none => exact .of_move f f.stack f.next
  | some v => exact .of_move f (v :: f.stack) f.next

theorem alike_resume (f : Frame) (v : Option Value) : f.Alike (resume f v) :=
  (rests_resume f v).toAlike

theorem rests_or_stores_of_proceed {i : Instr} (h : M.exec f w i = .proceed g w') :
    f.Rests g ∨ ∃ k, i = .op (.starg k) ∧ f.storeArg k.toNat = .ok g := by
  obtain hmoves | hstores | ⟨s, _, hstore⟩ := moves_or_stores h
  · exact .inl (.of_moves hmoves)
  · exact .inr hstores
  · exact .inl (.storeLocal hstore)

/-- What a step makes of the open frames. -/
inductive Shifts (M : Machine σ) (s s' : State σ) : Prop
  | stays (frame : s.frame.Alike s'.frame) (callers : s'.callers = s.callers)
  | opens {f : Frame} {u : MethodToken} {values : List Value}
      (entry : M.enter u values (s.callers.length + 1) s.world = .body s'.frame s'.world)
      (caller : s.frame.Alike f) (callers : s'.callers = f :: s.callers)
  | leaves {f : Frame} {v : Option Value} (completes : M.Completes s v)
      (callers : s.callers = f :: s'.callers) (frame : s'.frame = resume f v)

theorem leave_eq_running {callers : List Frame} {n : Nat} {v : Option Value}
    (h : leave callers n v w = .running s) :
    ∃ g, callers = g :: s.callers ∧ s.frame = resume g v := by
  cases callers with
  | nil => cases h
  | cons g callers =>
    cases h
    exact ⟨g, rfl, rfl⟩

/-- What a step makes of the open frames and their arguments: only the frame that runs stores to an
argument, and only to one of its own. -/
inductive Turns (M : Machine σ) (s s' : State σ) : Prop
  | stays (frame : s.frame.Rests s'.frame) (callers : s'.callers = s.callers)
  | stores {i : UInt16} (executed : M.executed? s = some (.op (.starg i)))
      (stored : s.frame.advance.storeArg i.toNat = .ok s'.frame) (callers : s'.callers = s.callers)
  | opens {f : Frame} {u : MethodToken} {values : List Value}
      (entry : M.enter u values (s.callers.length + 1) s.world = .body s'.frame s'.world)
      (caller : s.frame.Rests f) (callers : s'.callers = f :: s.callers)
  | leaves {f : Frame} {v : Option Value} (completes : M.Completes s v)
      (callers : s.callers = f :: s'.callers) (frame : s'.frame = resume f v)

theorem turns_of_step (h : M.step s = .running s') : M.Turns s s' := by
  cases code : s.frame.code[s.frame.next]? with
  | none =>
    rw [step_of_code_eq_none code, runOff] at h
    split at h
    · rename_i v ending
      obtain ⟨g, callers, frame⟩ := leave_eq_running h
      exact .leaves (.runOff code ending) callers frame
    · cases h
  | some i =>
    rcases step_running_cases h with ⟨hnone, _⟩ | ⟨j, executed, serves⟩
    · rcases step_of_executed?_eq_none hnone with hcode | hlimit
      · cases code.symm.trans hcode
      · cases hlimit.symm.trans h
    · cases exec : M.exec s.frame.advance s.world j with
      | stop e w => rw [exec] at serves; cases serves
      | leave v w =>
        rw [exec] at serves
        obtain ⟨g, callers, frame⟩ := leave_eq_running serves
        exact .leaves (.ret executed exec) callers frame
      | proceed f w =>
        rw [exec] at serves
        cases serves
        obtain hrests | ⟨k, rfl, hstore⟩ := rests_or_stores_of_proceed exec
        · exact .stays ((rests_advance s.frame).trans hrests) rfl
        · exact .stores executed hstore rfl
      | call g t args w =>
        have hg := (rests_advance s.frame).trans (.of_moves (moves_of_exec_call exec))
        obtain rfl := world_of_exec_call exec
        simp only [exec, serve] at serves
        cases entry : M.enter t args (s.callers.length + 1) s.world with
        | stop e w => rw [entry] at serves; cases serves
        | result v w =>
          rw [entry] at serves
          cases serves
          exact .stays (hg.trans (rests_resume g v)) rfl
        | body callee w =>
          rw [entry] at serves
          cases serves
          exact .opens entry hg rfl

theorem shifts_of_step (h : M.step s = .running s') : M.Shifts s s' := by
  cases turns_of_step h with
  | stays frame callers => exact .stays frame.toAlike callers
  | @stores i executed stored callers =>
    have hcontinues : s.frame.advance.Continues none s'.frame := .of_storeArg stored
    exact .stays ((rests_advance s.frame).toAlike.trans hcontinues.alike) callers
  | opens entry caller callers => exact .opens entry caller.toAlike callers
  | leaves completes callers frame => exact .leaves completes callers frame

/-! ### What open frames keep -/

/-- What holds of a frame when it is entered, and of all frames alike to one that it holds of, holds
of every open frame in a run. -/
theorem forall_open_of_visits {P : Frame → Prop}
    (entered : ∀ name s b args f, Frame.enter name s b args = .ok f → P f)
    (kept : ∀ f g, f.Alike g → P f → P g) (h : M.Visits t args w s) :
    ∀ f ∈ s.frame :: s.callers, P f := by
  obtain ⟨f, w', entry, hreaches⟩ := h
  induction hreaches with
  | refl =>
    obtain ⟨_, _, d, b, _, _, _, hf⟩ := enter_eq_body_iff.1 entry
    exact List.forall_mem_cons.2 ⟨entered _ _ _ _ f hf, fun g hg => (nomatch hg)⟩
  | tail _ hstep ih =>
    obtain ⟨hframe, hcallers⟩ := List.forall_mem_cons.1 ih
    cases shifts_of_step hstep with
    | stays frame callers =>
      rw [callers]
      exact List.forall_mem_cons.2 ⟨kept _ _ frame hframe, hcallers⟩
    | opens entry caller callers =>
      obtain ⟨_, _, d, b, _, _, _, hf⟩ := enter_eq_body_iff.1 entry
      rw [callers]
      exact List.forall_mem_cons.2
        ⟨entered _ _ _ _ _ hf, List.forall_mem_cons.2 ⟨kept _ _ caller hframe, hcallers⟩⟩
    | @leaves g v completes callers frame =>
      rw [callers] at hcallers
      obtain ⟨hg, hcallers⟩ := List.forall_mem_cons.1 hcallers
      rw [frame]
      exact List.forall_mem_cons.2 ⟨kept _ _ (alike_resume g v) hg, hcallers⟩

end Machine

end Interpose
