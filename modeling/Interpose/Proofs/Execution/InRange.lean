import Interpose.Proofs.Execution.CallEffects
import Interpose.Proofs.Execution.Lookups
import Interpose.Proofs.Execution.Labels

/-!
# No access out of range

Four accesses of `Machine::execute`, `Machine::call` and `Frame::pop_n` are made without looking
whether they are in range, since something that was looked at before says so: branch targets when
the frame was entered, the local of a store in the declarations, receivers and the values of a call
in a count. Modules need not be sound for that. So a run without a result ends on a fault, or it
does not end, in the text of an array that lies in itself or in the host.
-/

namespace Interpose

/-! ### Frames that can be run -/

/-- Every branch target of the code has its place, where the label stands, and every declaration has
its local. -/
structure Frame.Guarded (f : Frame) : Prop where
  targets : ∀ i ∈ f.code, ∀ l, i.target? = some l →
    ∃ place, f.labels.place? l = some place ∧ f.code[place]? = some (.op (.label l))
  locals : f.declared.size = f.locals.size

namespace Frame.Guarded

variable {f g : Frame}

theorem of_enter {name : String} {s : Signature} {b : Body} {args : List Value}
    (h : Frame.enter name s b args = .ok f) : f.Guarded := by
  obtain ⟨labels, hlabels, rfl⟩ := Frame.enter_eq_ok_iff.1 h
  refine ⟨fun i hi l hl => ?_, ?_⟩
  · obtain ⟨place, hplace, hcode⟩ := target_of_indexLabels hlabels (List.mem_toArray.1 hi) hl
    exact ⟨place, hplace, by rw [List.getElem?_toArray, hcode]⟩
  · simp only [List.size_toArray, List.length_map]

theorem alike (hf : f.Guarded) (h : f.Alike g) : g.Guarded := by
  refine ⟨fun i hi l hl => ?_, ?_⟩
  · rw [h.code] at hi ⊢
    rw [h.labels]
    exact hf.targets i hi l hl
  · rw [h.declared, h.locals]
    exact hf.locals

end Frame.Guarded

namespace Machine

variable {σ : Type} {M : Machine σ} {t : MethodToken} {args : List Value} {depth : Nat}
  {w w' : World σ} {s s' : State σ} {f g : Frame}

/-! ### Requests -/

/-- Only branches and stores of locals make an access that their frame has to be guarded for. -/
theorem of_exec_breach {i : Instr} {b : Breach} (h : M.exec f w i = .stop (.breach b) w') :
    (∃ l, i.target? = some l ∧ f.labels.place? l = none) ∨
      ∃ slot, slot < f.declared.size ∧ ¬slot < f.locals.size := by
  cases M.does f w i with
  | stops why _ exec =>
    cases exec.symm.trans h
    rcases why with (hrejects | hmethod) | hunderflow
    · cases hrejects
    · cases hunderflow
  | settles effect _ _ exec =>
    have hsettle := exec.symm.trans h
    generalize he : Stop.breach b = e at hsettle
    cases settleFails_of_settle hsettle with
    | fault => cases he
    | branchTarget hl =>
      cases effect with
      | jump htarget => exact .inl ⟨_, htarget, hl⟩
    | localSlot hdeclared hlocals => exact .inr ⟨_, hdeclared, hlocals⟩
    | @host _ answer _ _ => cases answer <;> cases he

/-- A method is entered or refused, whatever it is called with. -/
theorem enter_ne_breach (M : Machine σ) (t : MethodToken) (args : List Value) (depth : Nat)
    (w w' : World σ) (b : Breach) : M.enter t args depth w ≠ .stop (.breach b) w' := by
  intro h
  generalize he : Stop.breach b = e at h
  cases entryFails_of_enter h with
  | args hrejects =>
    subst he
    cases hrejects
  | @native answer _ _ => cases answer <;> cases he
  | _ => cases he

/-! ### States -/

theorem guarded_of_visits (h : M.Visits t args w s) : ∀ f ∈ s.frame :: s.callers, f.Guarded :=
  forall_open_of_visits (fun _ _ _ _ _ => Frame.Guarded.of_enter) (fun _ _ hfg hf => hf.alike hfg) h

theorem exec_ne_breach (hs : s.frame.Guarded) {i : Instr} (hi : M.executed? s = some i)
    (b : Breach) (w : World σ) : M.exec s.frame.advance s.world i ≠ .stop (.breach b) w := by
  intro h
  rcases of_exec_breach h with ⟨l, hl, hnone⟩ | ⟨slot, hdeclared, hlocals⟩
  · have hmem : i ∈ s.frame.code := Array.mem_of_getElem? (executed?_eq_some_iff.1 hi).2
    obtain ⟨place, hplace, _⟩ := hs.targets i hmem l hl
    cases hplace.symm.trans hnone
  · exact hlocals (hs.locals ▸ hdeclared)

theorem step_ne_breach (hs : s.frame.Guarded) {c : Completion σ} (h : M.step s = .ended c)
    (b : Breach) : c.outcome ≠ .error (.breach b) := by
  intro hb
  have hends := stepEnds_of_step h
  rw [hb] at hends
  cases hends with
  | instr executed exec => exact exec_ne_breach hs executed b _ exec
  | entry executed exec entry => exact M.enter_ne_breach _ _ _ _ _ b entry

/-- What an instruction accesses without looking is there: the place of its branch target, the local
that it stores to if one is declared, the values of a call and the receiver among them. -/
structure InRange (M : Machine σ) (s : State σ) (i : Instr) : Prop where
  branch : ∀ l, i.target? = some l →
    ∃ place, s.frame.labels.place? l = some place ∧ s.frame.code[place]? = some (.op (.label l))
  store : ∀ slot, i = .op (.stloc slot) → slot.position < s.frame.declared.size →
    slot.position < s.frame.locals.size
  split : ∀ g u args w, M.exec s.frame.advance s.world i = .call g u args w →
    args.length ≤ s.frame.stack.length
  receiver : ∀ g u args w, M.exec s.frame.advance s.world i = .call g u args w →
    ∃ d, M.module.method? u = some d ∧ d.signature.receivers ≤ args.length
  request : ∀ b w, M.exec s.frame.advance s.world i ≠ .stop (.breach b) w

theorem inRange_of_guarded (hs : s.frame.Guarded) {i : Instr} (hi : M.executed? s = some i) :
    M.InRange s i := by
  have hmem : i ∈ s.frame.code := Array.mem_of_getElem? (executed?_eq_some_iff.1 hi).2
  have taken {g : Frame} {u : MethodToken} {args : List Value} {w : World σ}
      (h : M.exec s.frame.advance s.world i = .call g u args w) :
      args.length ≤ s.frame.stack.length ∧
        ∃ d, M.module.method? u = some d ∧ d.signature.receivers ≤ args.length := by
    cases i with
    | op o => exact absurd h execOp_ne_call
    | call target =>
      obtain ⟨d, rest, hd, _, hlength, hstack, _⟩ := exec_call_eq_call h
      have hsize : s.frame.stack.length =
          (target.functions u ++ (args.reverse ++ rest)).length := congrArg List.length hstack
      simp only [List.length_append, List.length_reverse] at hsize
      unfold Signature.arity at hlength
      exact ⟨by omega, d, hd, by omega⟩
  exact ⟨hs.targets i hmem, fun slot _ hslot => hs.locals ▸ hslot, fun _ _ _ _ h => (taken h).1,
    fun _ _ _ _ h => (taken h).2, exec_ne_breach hs hi⟩

/-! ### Runs -/

theorem invoke_ne_breach (M : Machine σ) (t : MethodToken) (args : List Value) (w : World σ)
    (b : Breach) : (M.invoke t args w).outcome ≠ .error (.breach b) := by
  intro hb
  obtain ⟨states, htraces⟩ := M.exists_traces t args w
  generalize M.invoke t args w = c at htraces hb
  cases htraces with
  | result entry => cases hb
  | stop entry =>
    cases hb
    exact M.enter_ne_breach t args 0 w _ b entry
  | body entry run =>
    obtain ⟨s, last, ended⟩ := run.ends
    have hvisits := (Traces.body entry run).visits (List.mem_of_getLast? last)
    exact step_ne_breach (guarded_of_visits hvisits s.frame List.mem_cons_self) ended b hb

/-- In every state of a run of any module, what the next instruction accesses without looking is
there; a method is entered or refused, whatever it is called with; and a run without a result ends
on a fault, unless it hangs. -/
theorem accesses_in_range (M : Machine σ) (t : MethodToken) (args : List Value) (w : World σ) :
    (∀ s i, M.Visits t args w s → M.executed? s = some i → M.InRange s i) ∧
    (∀ u values depth w₁ w₂ b, M.enter u values depth w₁ ≠ .stop (.breach b) w₂) ∧
    ∃ states, M.Traces t args w states (M.invoke t args w) ∧
      ∀ e, (M.invoke t args w).outcome = .error e →
        (∃ x, e = .fault x) ∨ e = .endless ∧ M.Hangs t args w states := by
  obtain ⟨states, htraces⟩ := M.exists_traces t args w
  refine ⟨fun s i hs hi => ?_, M.enter_ne_breach, states, htraces, fun e he => ?_⟩
  · exact inRange_of_guarded (guarded_of_visits hs s.frame List.mem_cons_self) hi
  · cases e with
    | fault x => exact .inl ⟨x, rfl⟩
    | breach b => exact absurd he (M.invoke_ne_breach t args w b)
    | endless => exact .inr ⟨rfl, htraces.hangs he⟩

/-- No check of a module accepts this one: its method is of no type, one label stands in two places,
and no local is declared for the store. -/
def unsound : Module :=
  ⟨"unsound", [], [⟨⟨7⟩, "branch", ⟨[], .void, true⟩, some ⟨[],
    [.op (.ldcI4 1), .op (.brtrue ⟨3⟩), .op (.label ⟨3⟩), .op (.label ⟨3⟩), .op (.ldcI4 1),
      .op (.stloc ⟨0⟩)]⟩⟩]⟩

theorem accesses_in_range_unsound :
    let M := load unsound (answering none) .standard
    (∃ s place, M.Visits ⟨0⟩ [] ⟨.empty, ()⟩ s ∧ M.executed? s = some (.op (.brtrue ⟨3⟩)) ∧
      s.frame.labels.place? ⟨3⟩ = some place ∧
      s.frame.code[place]? = some (.op (.label ⟨3⟩))) ∧
    ∃ x, (M.invoke ⟨0⟩ [] ⟨.empty, ()⟩).outcome = .error (.fault x) := by
  intro M
  obtain ⟨inRange, -, states, -, ends⟩ := accesses_in_range M ⟨0⟩ [] ⟨.empty, ()⟩
  have hvisits : ∃ s, M.Visits ⟨0⟩ [] ⟨.empty, ()⟩ s ∧
      M.executed? s = some (.op (.brtrue ⟨3⟩)) :=
    ⟨_, ⟨_, _, rfl, .head rfl .refl⟩, rfl⟩
  obtain ⟨s, hvisits, hexecuted⟩ := hvisits
  obtain ⟨place, hplace, hlabel⟩ := (inRange s _ hvisits hexecuted).branch ⟨3⟩ rfl
  have hended : (M.invoke ⟨0⟩ [] ⟨.empty, ()⟩).outcome =
      .error (.fault (.invalidIndex (.local 0))) := by decide +kernel
  obtain ⟨x, hx⟩ | ⟨hx, _⟩ := ends _ hended
  · exact ⟨⟨s, place, hvisits, hexecuted, hplace, hlabel⟩, x, hx ▸ hended⟩
  · cases hx

/-- An index of such a kind is refused with the text of the index. -/
theorem invoke_endless_of_index :
    let M := load (ringed [.op (.ldloc ⟨0⟩), .op (.ldloc ⟨0⟩), .op .ldelemRef, .op .ret])
      (answering none) .standard
    (M.invoke ⟨0⟩ [] ⟨.empty, ()⟩).outcome = .error .endless := by
  decide +kernel

end Machine

end Interpose
