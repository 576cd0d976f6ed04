import Interpose.Proofs.Execution.OpenFrames

/-!
# Argument slots

The arguments of a call are compared with the types of the parameters when `Machine::call` enters
the callee, and from then on only the code of the callee writes to their slots. Storing to a local
(`stloc`) compares the value with the declared type; storing to an argument (`starg`) does not. So a
slot holds values of its type for as long as the code of the callee stores no others to it.
-/

namespace Interpose

/-- Whether a slot for an argument holds a value that conforms to a type. -/
def Frame.SlotFits (f : Frame) (slot : Nat) (type : DataType) : Prop :=
  ∃ v, f.args[slot]? = some v ∧ v.fits type = true

namespace Machine

variable {σ : Type} {M : Machine σ} {t u : MethodToken} {d : MethodDef} {args values : List Value}
  {w : World σ} {s₀ s s' : State σ} {f f' : Frame} {below inner inner' : List Frame} {k slot : Nat}
  {type : DataType}

/-- The state right after a call of a method was entered. -/
def Enters (M : Machine σ) (u : MethodToken) (values : List Value) (s : State σ) : Prop :=
  M.enter u values s.callers.length s.world = .body s.frame s.world

/-- What has become of the innermost frame of a state, for as long as it is open. -/
inductive OpenSince (M : Machine σ) (s₀ : State σ) : State σ → Frame → Prop
  | entered : M.OpenSince s₀ s₀ s₀.frame
  | later {s s' : State σ} {f f' : Frame} {inner : List Frame} (before : M.OpenSince s₀ s f)
      (step : M.step s = .running s')
      (isOpen : s'.frame :: s'.callers = inner ++ f' :: s₀.callers) : M.OpenSince s₀ s' f'

/-! ### One step of an open frame -/

/-- What a step makes of an open frame: it leaves the arguments alone, unless the frame is the one
that runs and stores to one of them. -/
def OpenStep (M : Machine σ) (s : State σ) (below : List Frame) (f f' : Frame) : Prop :=
  f.Rests f' ∨ s.frame = f ∧ s.callers = below ∧
    ∃ i, M.executed? s = some (.op (.starg i)) ∧ f.advance.storeArg i.toNat = .ok f'

theorem OpenStep.refl (f : Frame) : M.OpenStep s below f f := .inl (.of_move f f.stack f.next)

theorem open_before_stay (hframe : M.OpenStep s s.callers s.frame s'.frame)
    (hcallers : s'.callers = s.callers)
    (hopen : s'.frame :: s'.callers = inner' ++ f' :: below) :
    ∃ inner f, s.frame :: s.callers = inner ++ f :: below ∧ M.OpenStep s below f f' := by
  rw [hcallers] at hopen
  cases inner' with
  | nil =>
    obtain ⟨rfl, rfl⟩ := List.cons.inj hopen
    exact ⟨[], s.frame, rfl, hframe⟩
  | cons top inner =>
    obtain ⟨_, hrest⟩ := List.cons.inj hopen
    exact ⟨s.frame :: inner, f', by rw [hrest]; rfl, .refl f'⟩

/-- A frame that is open behind a step was open in front of it, or is entered by it. -/
theorem open_before_step (h : M.step s = .running s')
    (hopen : s'.frame :: s'.callers = inner' ++ f' :: below) :
    (∃ inner f, s.frame :: s.callers = inner ++ f :: below ∧ M.OpenStep s below f f') ∨
      s'.frame = f' ∧ s'.callers = below ∧ below.length = s.callers.length + 1 ∧
        ∃ u values, M.Enters u values s' := by
  cases turns_of_step h with
  | stays frame callers => exact .inl (open_before_stay (.inl frame) callers hopen)
  | @stores i executed stored callers =>
    exact .inl (open_before_stay (.inr ⟨rfl, rfl, i, executed, stored⟩) callers hopen)
  | @opens g u values entry caller callers =>
    -- the frame is the one that is entered, the one that waits for it, or further below
    cases inner' with
    | nil =>
      obtain ⟨rfl, rfl⟩ := List.cons.inj hopen
      have hlength : s'.callers.length = s.callers.length + 1 := by
        rw [callers, List.length_cons]
      obtain ⟨_, hworld, _⟩ := enter_eq_body_iff.1 entry
      refine .inr ⟨rfl, rfl, hlength, u, values, ?_⟩
      rw [Enters, hlength]
      rw [← hworld] at entry
      exact entry
    | cons top inner =>
      obtain ⟨_, hcallers⟩ := List.cons.inj hopen
      rw [callers] at hcallers
      cases inner with
      | nil =>
        obtain ⟨rfl, rfl⟩ := List.cons.inj hcallers
        exact .inl ⟨[], s.frame, rfl, .inl caller⟩
      | cons next inner =>
        obtain ⟨_, hcallers⟩ := List.cons.inj hcallers
        exact .inl ⟨s.frame :: inner, f', by rw [hcallers]; rfl, .refl f'⟩
  | @leaves g v completes callers frame =>
    cases inner' with
    | nil =>
      obtain ⟨rfl, rfl⟩ := List.cons.inj hopen
      rw [frame]
      exact .inl ⟨[s.frame], g, by rw [callers]; rfl, .inl (rests_resume g v)⟩
    | cons top inner =>
      obtain ⟨_, hcallers⟩ := List.cons.inj hopen
      exact .inl ⟨s.frame :: g :: inner, f', by rw [callers, hcallers]; rfl, .refl f'⟩

/-! ### From the entry on -/

theorem OpenSince.isOpen (h : M.OpenSince s₀ s f) :
    ∃ inner, s.frame :: s.callers = inner ++ f :: s₀.callers := by
  cases h with
  | entered => exact ⟨[], rfl⟩
  | later _ _ isOpen => exact ⟨_, isOpen⟩

theorem OpenSince.openStep (h : M.OpenSince s₀ s f) (hstep : M.step s = .running s')
    (hopen : s'.frame :: s'.callers = inner' ++ f' :: s₀.callers) :
    M.OpenStep s s₀.callers f f' := by
  obtain ⟨inner, hbefore⟩ := h.isOpen
  obtain ⟨inner₁, g, hbefore', hopenStep⟩ | ⟨_, _, hlength, _⟩ := open_before_step hstep hopen
  · have hsame := List.append_inj_right' (hbefore.symm.trans hbefore') rfl
    rw [(List.cons.inj hsame).1]
    exact hopenStep
  · -- a frame that is only entered now lies above the one that runs
    have hlengths := congrArg List.length hbefore
    simp only [List.length_cons, List.length_append] at hlengths
    omega

/-- Every open frame of a run was entered by a call and has been open since. -/
theorem exists_entry_of_visits (h : M.Visits t args w s)
    (hopen : s.frame :: s.callers = inner ++ f :: below) :
    ∃ u values s₀, M.Visits t args w s₀ ∧ M.Enters u values s₀ ∧ s₀.callers = below ∧
      M.OpenSince s₀ s f := by
  obtain ⟨f₀, w', entry, hreaches⟩ := h
  induction hreaches generalizing inner f below with
  | refl =>
    obtain ⟨_, rfl, _⟩ := enter_eq_body_iff.1 entry
    have hnil : inner = [] ∧ f = f₀ ∧ below = [] := by
      cases inner with
      | nil =>
        obtain ⟨rfl, rfl⟩ := List.cons.inj hopen
        exact ⟨rfl, rfl, rfl⟩
      | cons top inner =>
        obtain ⟨_, hcallers⟩ := List.cons.inj hopen
        simp at hcallers
    obtain ⟨_, rfl, rfl⟩ := hnil
    exact ⟨t, args, ⟨f, [], w', 0⟩, ⟨f, w', entry, .refl⟩, entry, rfl, .entered⟩
  | @tail s s' hreaches hstep ih =>
    obtain ⟨inner₁, g, hbefore, _⟩ | ⟨rfl, rfl, _, u, values, hentry⟩ :=
      open_before_step hstep hopen
    · obtain ⟨u, values, s₀, hvisits, hentry, rfl, hsince⟩ := ih hbefore
      exact ⟨u, values, s₀, hvisits, hentry, rfl, hsince.later hstep hopen⟩
    · exact ⟨u, values, s', ⟨f₀, w', entry, hreaches.tail hstep⟩, hentry, rfl, .entered⟩

/-! ### Slots -/

/-- The check of a call makes every slot of a parameter conform to its type. -/
theorem slotFits_of_enters (h : M.Enters u values s) (hd : M.module.method? u = some d)
    (hk : d.signature.params[k]? = some type) :
    s.frame.SlotFits (d.signature.receivers + k) type := by
  obtain ⟨_, _, d', b, hd', _, hcheck, hframe⟩ := enter_eq_body_iff.1 h
  cases hd.symm.trans hd'
  obtain ⟨_, hfits⟩ := checkCall_eq_ok_iff.1 hcheck
  have hargs : s.frame.args = values.toArray := by
    obtain ⟨_, _, hf⟩ := Frame.enter_eq_ok_iff.1 hframe
    rw [hf]
  obtain ⟨hlength, hall⟩ := List.forall₂_iff_get.1 hfits
  obtain ⟨hlt, hget⟩ := List.getElem?_eq_some_iff.1 hk
  have hlt' : k < (values.drop d.signature.receivers).length := hlength ▸ hlt
  refine ⟨(values.drop d.signature.receivers)[k], ?_, ?_⟩
  · rw [hargs, List.getElem?_toArray, ← List.getElem?_drop, List.getElem?_eq_getElem hlt']
  · have hfit := hall k hlt hlt'
    rwa [List.get_eq_getElem, List.get_eq_getElem, hget] at hfit

/-- Every value that the frame of a state stores to a slot, for as long as it is open, conforms to a
type. -/
def StoresFit (M : Machine σ) (s₀ : State σ) (slot : Nat) (type : DataType) : Prop :=
  ∀ s i v rest, M.OpenSince s₀ s s.frame → s.callers = s₀.callers →
    M.executed? s = some (.op (.starg i)) → i.toNat = slot → s.frame.stack = v :: rest →
    v.fits type = true

theorem OpenSince.slotFits (h : M.OpenSince s₀ s f) (hfirst : s₀.frame.SlotFits slot type)
    (hstores : M.StoresFit s₀ slot type) : f.SlotFits slot type := by
  induction h with
  | entered => exact hfirst
  | @later s s' f f' inner before step isOpen ih =>
    obtain ⟨v, hv, hfits⟩ := ih
    obtain hrests | ⟨rfl, hcallers, i, executed, stored⟩ := before.openStep step isOpen
    · exact ⟨v, by rw [hrests.args, hv], hfits⟩
    · obtain ⟨u, rest, hstack, hlt, rfl⟩ := Frame.storeArg_eq_ok_iff.1 stored
      by_cases hslot : i.toNat = slot
      · refine ⟨u, ?_, hstores s i u rest before hcallers executed hslot hstack⟩
        rw [← hslot]
        exact Array.getElem?_setIfInBounds_self_of_lt hlt
      · exact ⟨v, (Array.getElem?_setIfInBounds_ne hslot).trans hv, hfits⟩

/-- A frame that stores to a slot holds the value there in the next state. -/
theorem OpenSince.stored (h : M.OpenSince s₀ s s.frame) (hcallers : s.callers = s₀.callers)
    {i : UInt16} {v : Value} {rest : List Value} (executed : M.executed? s = some (.op (.starg i)))
    (hlt : i.toNat < s.frame.args.size) (hstack : s.frame.stack = v :: rest) :
    ∃ s', M.OpenSince s₀ s' s'.frame ∧ s'.frame.args[i.toNat]? = some v := by
  let g : Frame :=
    { s.frame.advance with stack := rest, args := s.frame.args.setIfInBounds i.toNat v }
  have hstore : s.frame.advance.storeArg i.toNat = .ok g :=
    Frame.storeArg_eq_ok_iff.2 ⟨v, rest, hstack, hlt, rfl⟩
  have hstep : M.step s = .running ⟨g, s.callers, s.world, s.steps + 1⟩ := by
    rw [step_of_executed? executed]
    simp only [exec, execOp, hstore, inFrame, serve]
  have hopen : g :: s.callers = [] ++ g :: s₀.callers := by rw [hcallers]; rfl
  exact ⟨_, h.later hstep hopen, Array.getElem?_setIfInBounds_self_of_lt hlt⟩

theorem OpenSince.code (h : M.OpenSince s₀ s f) : f.code = s₀.frame.code := by
  induction h with
  | entered => rfl
  | @later s s' f f' inner before step isOpen ih =>
    obtain hrests | ⟨_, _, i, _, stored⟩ := before.openStep step isOpen
    · exact hrests.code.trans ih
    · obtain ⟨_, _, _, _, rfl⟩ := Frame.storeArg_eq_ok_iff.1 stored
      exact ih

theorem slotFits_iff_storesFit (hentry : M.Enters u values s₀) (hd : M.module.method? u = some d)
    (hk : d.signature.params[k]? = some type) :
    (∀ s f, M.OpenSince s₀ s f → f.SlotFits (d.signature.receivers + k) type) ↔
      M.StoresFit s₀ (d.signature.receivers + k) type := by
  constructor
  · intro hfits s i v rest hsince hcallers executed hslot hstack
    obtain ⟨u, hu, _⟩ := hfits s s.frame hsince
    have hlt : i.toNat < s.frame.args.size := hslot ▸ (Array.getElem?_eq_some_iff.1 hu).1
    obtain ⟨s', hsince', hstored⟩ := hsince.stored hcallers executed hlt hstack
    obtain ⟨v', hv', hfit⟩ := hfits s' s'.frame hsince'
    rw [← hslot, hstored] at hv'
    exact Option.some.inj hv' ▸ hfit
  · exact fun hstores s f hsince => hsince.slotFits (slotFits_of_enters hentry hd hk) hstores

/-- Code without a store to a slot stores nothing to it. -/
theorem storesFit_of_code {b : Body} (hentry : M.Enters u values s₀)
    (hd : M.module.method? u = some d) (hb : d.body = some b)
    (hcode : ∀ i, .op (.starg i) ∈ b.code → i.toNat ≠ slot) : M.StoresFit s₀ slot type := by
  intro s i v rest hsince _ executed hslot _
  obtain ⟨_, _, d', b', hd', hb', _, hframe⟩ := enter_eq_body_iff.1 hentry
  cases hd.symm.trans hd'
  cases hb.symm.trans hb'
  obtain ⟨_, _, hf⟩ := Frame.enter_eq_ok_iff.1 hframe
  have hi := (executed?_eq_some_iff.1 executed).2
  rw [hsince.code, hf, List.getElem?_toArray] at hi
  exact absurd hslot (hcode i (List.mem_of_getElem? hi))

/-- Every open frame of a run was entered by a call. From then on, a slot of one of its parameters
holds a value of the type of the parameter as long as the frame stores no others to it, which it
cannot do if its code has no store to the slot. -/
theorem argument_slots (M : Machine σ) :
    (∀ t args w s, M.Visits t args w s → ∀ f ∈ s.frame :: s.callers, ∃ u values s₀,
      M.Visits t args w s₀ ∧ M.Enters u values s₀ ∧ M.OpenSince s₀ s f) ∧
    ∀ u values s₀ d k type, M.Enters u values s₀ → M.module.method? u = some d →
      d.signature.params[k]? = some type →
      ((∀ s f, M.OpenSince s₀ s f → f.SlotFits (d.signature.receivers + k) type) ↔
        M.StoresFit s₀ (d.signature.receivers + k) type) ∧
      ∀ b, d.body = some b →
        (∀ i, .op (.starg i) ∈ b.code → i.toNat ≠ d.signature.receivers + k) →
        ∀ s f, M.OpenSince s₀ s f → f.SlotFits (d.signature.receivers + k) type := by
  constructor
  · intro t args w s hvisits f hf
    obtain ⟨inner, below, hopen⟩ := List.append_of_mem hf
    obtain ⟨u, values, s₀, hvisits₀, hentry, _, hsince⟩ := exists_entry_of_visits hvisits hopen
    exact ⟨u, values, s₀, hvisits₀, hentry, hsince⟩
  · intro u values s₀ d k type hentry hd hk
    have hiff := slotFits_iff_storesFit hentry hd hk
    exact ⟨hiff, fun b hb hcode => hiff.2 (storesFit_of_code hentry hd hb hcode)⟩

/-- A method that stores a number to its first argument, and one that stores a text to it. -/
def storing : Module :=
  ⟨"storing", [⟨"Type", [⟨0⟩, ⟨1⟩]⟩],
    [⟨⟨0⟩, "next", ⟨[.int32, .string], .value .int32, true⟩,
      some ⟨[], [.op (.ldarg 0), .op (.ldcI4 1), .op .add, .op (.starg 0), .op (.ldarg 0),
        .op .ret]⟩⟩,
    ⟨⟨0⟩, "swap", ⟨[.int32], .value .string, true⟩,
      some ⟨[], [.op (.ldstr "text"), .op (.starg 0), .op (.ldarg 0), .op .ret]⟩⟩]⟩

theorem argument_slots_storing :
    let M := load storing counting .standard
    ∃ s₀, M.Visits ⟨0⟩ [.int32 1, .null] ⟨.empty, 0⟩ s₀ ∧ M.Enters ⟨0⟩ [.int32 1, .null] s₀ ∧
      (∀ s f, M.OpenSince s₀ s f → f.SlotFits 1 .string) ∧ M.StoresFit s₀ 1 .string ∧
      (M.invoke ⟨0⟩ [.int32 1, .null] ⟨.empty, 0⟩).outcome = .ok (some (.int32 2)) := by
  intro M
  have hentered : ∃ s₀, M.Visits ⟨0⟩ [.int32 1, .null] ⟨.empty, 0⟩ s₀ ∧
      M.Enters ⟨0⟩ [.int32 1, .null] s₀ := ⟨_, ⟨_, _, rfl, .refl⟩, rfl⟩
  obtain ⟨s₀, hvisits, hentry⟩ := hentered
  obtain ⟨hiff, hcode⟩ := (argument_slots M).2 ⟨0⟩ _ s₀ _ 1 .string hentry rfl rfl
  have hfits := hcode _ rfl fun i hi => by
    simp only [List.mem_cons, Instr.op.injEq, Op.starg.injEq, reduceCtorEq, false_or, or_false,
      List.not_mem_nil] at hi
    rw [hi]
    decide
  exact ⟨s₀, hvisits, hentry, hfits, hiff.1 hfits, by decide +kernel⟩

/-- A text in the slot of a parameter that is declared as a number. -/
theorem argument_slot_overwritten :
    let M := load storing counting .standard
    ∃ s₀ s, M.Visits ⟨1⟩ [.int32 1] ⟨.empty, 0⟩ s₀ ∧ M.Enters ⟨1⟩ [.int32 1] s₀ ∧
      M.OpenSince s₀ s s.frame ∧ s.frame.args[0]? = some (.str "text") ∧
      Value.fits (.str "text") .int32 = false ∧
      (M.invoke ⟨1⟩ [.int32 1] ⟨.empty, 0⟩).outcome = .ok (some (.str "text")) := by
  intro M
  have hsince : ∃ s₀ s, M.Visits ⟨1⟩ [.int32 1] ⟨.empty, 0⟩ s₀ ∧ M.Enters ⟨1⟩ [.int32 1] s₀ ∧
      M.OpenSince s₀ s s.frame ∧ s.frame.args[0]? = some (.str "text") :=
    ⟨_, _, ⟨_, _, rfl, .refl⟩, rfl, .later (.later .entered rfl (List.nil_append _).symm) rfl
      (List.nil_append _).symm, rfl⟩
  obtain ⟨s₀, s, hvisits, hentry, hsince, htext⟩ := hsince
  exact ⟨s₀, s, hvisits, hentry, hsince, htext, rfl, by decide +kernel⟩

end Machine

end Interpose
