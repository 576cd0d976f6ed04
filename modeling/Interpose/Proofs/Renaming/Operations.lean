import Interpose.Proofs.Renaming.Values

/-!
# Instructions do not see names

An instruction that does not end the run asks for the same in the frame with its arrays renamed, up
to names. Faults are left out: their texts may show an array that only one of the two heaps has.
-/

namespace Interpose

structure Frame.Renamed (ρ : Naming) (f f' : Frame) : Prop where
  method : f'.method = f.method
  returns : f'.returns = f.returns
  code : f'.code = f.code
  labels : f'.labels = f.labels
  declared : f'.declared = f.declared
  next : f'.next = f.next
  args : List.Forall₂ (Value.Renamed ρ) f.args.toList f'.args.toList
  locals : List.Forall₂ (Value.Renamed ρ) f.locals.toList f'.locals.toList
  stack : List.Forall₂ (Value.Renamed ρ) f.stack f'.stack

/-! ### Hosts and requests -/

/-- When two states of a host are the same but for the names in them. -/
abbrev Likeness (σ : Type) := Naming → σ → σ → Prop

structure World.Renamed {σ : Type} (same : Likeness σ) (ρ : Naming) (w w' : World σ) : Prop where
  heap : w.heap.Renamed ρ w'.heap
  host : same ρ w.host w'.host

/-- Whether a result in a world is matched by another result in another world. Arrays that came
about on the way may have got names. -/
def Matches {σ ε α β : Type} (same : Likeness σ) (ρ : Naming) (R : Naming → α → β → Prop) :
    Except ε α × World σ → Except ε β × World σ → Prop
  | (.ok a, w), r => ∃ ρ' b w', Naming.Extends ρ' ρ ∧ r = (.ok b, w') ∧ R ρ' a b ∧
      w.Renamed same ρ' w'
  | (.error _, _), _ => True

structure Host.Agree {σ : Type} (same : Likeness σ) (H H' : Host σ) : Prop where
  mono {ρ ρ' : Naming} {s s' : σ} (h : same ρ s s') (hρ : ρ'.Extends ρ) : same ρ' s s'
  intercept {ρ : Naming} {receiver receiver' : Value} {args args' : List Value} {w w' : World σ}
    (p : InterceptorId) (callee : MethodIdentity) (hreceiver : receiver.Renamed ρ receiver')
    (hargs : List.Forall₂ (Value.Renamed ρ) args args') (hw : w.Renamed same ρ w') :
    Matches same ρ Value.Renamed (H.intercept p receiver args callee w)
      (H'.intercept p receiver' args' callee w')
  native {ρ : Naming} {t : MethodToken} {run} {args args' : List Value} {w w' : World σ}
    (hrun : H.native? t = some run) (hargs : List.Forall₂ (Value.Renamed ρ) args args')
    (hw : w.Renamed same ρ w') :
    ∃ run', H'.native? t = some run' ∧
      Matches same ρ (fun ρ => Option.Rel (Value.Renamed ρ)) (run args w) (run' args' w')

structure Host.HidesNames {σ : Type} (same : Likeness σ) (H : Host σ) : Prop extends
    H.Agree same H where
  installed {ρ : Naming} {s s' : σ} (h : same ρ s s') : H.installed s' = H.installed s

/-- Two machines that execute the same code in hosts that do the same. -/
structure Machine.Agree {σ : Type} (same : Likeness σ) (M M' : Machine σ) : Prop where
  module : M'.module = M.module
  identities : M'.identities = M.identities
  hosts : M.host.Agree same M'.host

/-- Whether what an instruction asks for is matched by what another asks for. Where the one ends the
run without a result, the other may ask for anything. -/
inductive Request.Renamed {σ : Type} (same : Likeness σ) (ρ : Naming) :
    Request σ → Request σ → Prop
  | proceed {ρ' f f' w w'} (hρ : ρ'.Extends ρ) (hf : f.Renamed ρ' f')
      (hw : w.Renamed same ρ' w') : Renamed same ρ (.proceed f w) (.proceed f' w')
  | call {f f' t args args' w w'} (hf : f.Renamed ρ f')
      (hargs : List.Forall₂ (Value.Renamed ρ) args args') (hw : w.Renamed same ρ w') :
      Renamed same ρ (.call f t args w) (.call f' t args' w')
  | leave {v v' w w'} (hv : Option.Rel (Value.Renamed ρ) v v') (hw : w.Renamed same ρ w') :
      Renamed same ρ (.leave v w) (.leave v' w')
  | stop {e w r} : Renamed same ρ (.stop e w) r

variable {σ : Type} {same : Likeness σ} {ρ ρ' : Naming} {w w' : World σ}

namespace World.Renamed

theorem newObject (hw : w.Renamed same ρ w') (classType : TypeToken) :
    (w'.newObject classType).1 = (w.newObject classType).1 ∧
      (w.newObject classType).2.Renamed same ρ (w'.newObject classType).2 :=
  ⟨(hw.heap.newObject classType).1, (hw.heap.newObject classType).2, hw.host⟩

theorem store (hw : w.Renamed same ρ w') {r r' : ArrayRef} (hr : ρ r.id r'.id) (index : Nat)
    {v v' : Value} (hv : v.Renamed ρ v') :
    (w.store r index v).Renamed same ρ (w'.store r' index v') :=
  ⟨hw.heap.set hr index hv, hw.host⟩

theorem newArray (hw : w.Renamed same ρ w')
    (hmono : ∀ {ρ'} {s s' : σ}, same ρ s s' → Naming.Extends ρ' ρ → same ρ' s s')
    (elem : DataType) (n : Nat) :
    ∃ ρ', ρ'.Extends ρ ∧ ρ' (w.newArray elem n).1.id (w'.newArray elem n).1.id ∧
      (w.newArray elem n).2.Renamed same ρ' (w'.newArray elem n).2 := by
  have hzeros : List.Forall₂ (Value.Renamed ρ) (Array.replicate n (Value.default elem)).toList
      (Array.replicate n (Value.default elem)).toList := by
    rw [Array.toList_replicate]
    exact List.forall₂_same.2 fun v hv => List.eq_of_mem_replicate hv ▸ .default elem
  obtain ⟨ρ', hextends, hnamed, hheap⟩ := hw.heap.newArray elem hzeros
  exact ⟨ρ', hextends, hnamed, hheap, hmono hw.host hextends⟩

end World.Renamed

namespace Frame.Renamed

variable {f f' g : Frame} {v v' : Value} {index : Nat}

theorem mono (hf : f.Renamed ρ f') (hρ : ρ'.Extends ρ) : f.Renamed ρ' f' := by
  refine ⟨hf.method, hf.returns, hf.code, hf.labels, hf.declared, hf.next, ?_, ?_, ?_⟩
  · exact hf.args.imp fun _ _ hv => hv.mono hρ
  · exact hf.locals.imp fun _ _ hv => hv.mono hρ
  · exact hf.stack.imp fun _ _ hv => hv.mono hρ

theorem withStack (hf : f.Renamed ρ f') {stack stack' : List Value}
    (hstack : List.Forall₂ (Value.Renamed ρ) stack stack') :
    Renamed ρ { f with stack := stack } { f' with stack := stack' } :=
  ⟨hf.method, hf.returns, hf.code, hf.labels, hf.declared, hf.next, hf.args, hf.locals, hstack⟩

theorem push (hf : f.Renamed ρ f') (hv : v.Renamed ρ v') : (f.push v).Renamed ρ (f'.push v') :=
  hf.withStack (.cons hv hf.stack)

theorem advance (hf : f.Renamed ρ f') : f.advance.Renamed ρ f'.advance :=
  ⟨hf.method, hf.returns, hf.code, hf.labels, hf.declared, congrArg Nat.succ hf.next, hf.args,
    hf.locals, hf.stack⟩

theorem ending (hf : f.Renamed ρ f') {v : Option Value} (hv : f.ending = .ok v) :
    ∃ v', f'.ending = .ok v' ∧ Option.Rel (Value.Renamed ρ) v v' := by
  unfold Frame.ending at hv ⊢
  rw [hf.returns]
  cases hreturns : f.returns with
  | void =>
    rw [hreturns] at hv
    cases hv
    exact ⟨none, rfl, .none⟩
  | value t =>
    rw [hreturns] at hv
    cases hv

/-! ### Slots and labels -/

theorem jump (hf : f.Renamed ρ f') {l : Label} (h : f.jump l = .ok g) :
    ∃ g', f'.jump l = .ok g' ∧ g.Renamed ρ g' := by
  unfold Frame.jump at h ⊢
  rw [hf.labels]
  split at h
  · cases h
    exact ⟨_, rfl, hf.method, hf.returns, hf.code, rfl, hf.declared, rfl, hf.args, hf.locals,
      hf.stack⟩
  · cases h

theorem loadArg (hf : f.Renamed ρ f') (h : f.loadArg index = .ok g) :
    ∃ g', f'.loadArg index = .ok g' ∧ g.Renamed ρ g' := by
  unfold Frame.loadArg at h ⊢
  split at h
  · rename_i v hv
    cases h
    rw [← Array.getElem?_toList] at hv ⊢
    obtain ⟨v', hv', hrenamed⟩ := forall₂_getElem? hf.args hv
    rw [hv']
    exact ⟨_, rfl, hf.push hrenamed⟩
  · cases h

theorem loadLocal (hf : f.Renamed ρ f') (h : f.loadLocal index = .ok g) :
    ∃ g', f'.loadLocal index = .ok g' ∧ g.Renamed ρ g' := by
  unfold Frame.loadLocal at h ⊢
  split at h
  · rename_i v hv
    cases h
    rw [← Array.getElem?_toList] at hv ⊢
    obtain ⟨v', hv', hrenamed⟩ := forall₂_getElem? hf.locals hv
    rw [hv']
    exact ⟨_, rfl, hf.push hrenamed⟩
  · cases h

theorem storeArg (hf : f.Renamed ρ f') (hv : v.Renamed ρ v')
    (h : (f.push v).storeArg index = .ok g) :
    ∃ g', (f'.push v').storeArg index = .ok g' ∧ g.Renamed ρ g' := by
  have hsize := hf.args.length_eq
  rw [Array.length_toList, Array.length_toList] at hsize
  rw [Frame.storeArg_push] at h ⊢
  rw [← hsize]
  split at h
  · rename_i hlt
    cases h
    have hargs := forall₂_set hf.args index hv
    rw [← Array.toList_setIfInBounds, ← Array.toList_setIfInBounds] at hargs
    rw [if_pos hlt]
    exact ⟨_, rfl, hf.method, hf.returns, hf.code, hf.labels, hf.declared, hf.next, hargs,
      hf.locals, hf.stack⟩
  · cases h

theorem storeLocal (hf : f.Renamed ρ f') (hv : v.Renamed ρ v')
    (h : (f.push v).storeLocal index = .ok g) :
    ∃ g', (f'.push v').storeLocal index = .ok g' ∧ g.Renamed ρ g' := by
  have hsize := hf.locals.length_eq
  rw [Array.length_toList, Array.length_toList] at hsize
  rw [Frame.storeLocal_push] at h ⊢
  rw [hf.declared, ← hsize]
  split at h
  · cases h
  · simp only [hv.fits_eq]
    split at h
    · rename_i hfits
      split at h
      · rename_i hlt
        cases h
        have hlocals := forall₂_set hf.locals index hv
        rw [← Array.toList_setIfInBounds, ← Array.toList_setIfInBounds] at hlocals
        rw [if_pos hfits, if_pos hlt]
        exact ⟨_, rfl, hf.method, hf.returns, hf.code, hf.labels, rfl, hf.next, hf.args, hlocals,
          hf.stack⟩
      · cases h
    · cases h

end Frame.Renamed

/-! ### Instructions -/

namespace Machine

variable {M M' : Machine σ} {f f' : Frame}

theorem inFrame_renamed (hw : w.Renamed same ρ w') {x x' : Except Stop Frame}
    (h : ∀ g, x = .ok g → ∃ g', x' = .ok g' ∧ g.Renamed ρ g') :
    Request.Renamed same ρ (inFrame w x) (inFrame w' x') := by
  cases x with
  | error e => exact .stop
  | ok g =>
    obtain ⟨g', hx', hg⟩ := h g rfl
    rw [hx']
    exact .proceed (.refl ρ) hg hw

theorem ask_renamed (h : M.Agree same M') (hf : f.Renamed ρ f') (hw : w.Renamed same ρ w')
    (p : InterceptorId) (callee : MethodIdentity) {receiver receiver' : Value} {r r' : ArrayRef}
    (hreceiver : receiver.Renamed ρ receiver') (hr : ρ r.id r'.id) :
    Request.Renamed same ρ (M.ask f w ⟨p, receiver, r, callee⟩)
      (M'.ask f' w' ⟨p, receiver', r', callee⟩) := by
  have hitems := (hw.heap.cells _ _ hr).items
  have hanswers := h.hosts.intercept p callee hreceiver hitems hw
  unfold ask Heap.items
  simp only
  generalize M.host.intercept p receiver _ callee w = answer at hanswers ⊢
  obtain ⟨answer, w₁⟩ := answer
  cases answer with
  | error e => exact .stop
  | ok a =>
    obtain ⟨ρ', a', w₁', hextends, hanswer', ha, hw₁⟩ := hanswers
    rw [hanswer']
    exact .proceed hextends ((hf.mono hextends).push ha) hw₁

theorem settle_renamed (h : M.Agree same M') (hf : f.Renamed ρ f') (hw : w.Renamed same ρ w')
    {i : Instr} {x x' : Effect}
    (effect : Effect.Alike M.module w.heap (Value.Renamed ρ) f.returns i x x')
    (hinstalled : i = .op .getInterceptor →
      M'.host.installed w'.host = M.host.installed w.host) :
    Request.Renamed same ρ (M.settle f w x) (M'.settle f' w' x') := by
  cases effect with
  | push hvalues =>
    exact .proceed (.refl ρ) (hf.withStack (List.rel_append hvalues hf.stack)) hw
  | loadArg => exact inFrame_renamed hw fun g => hf.loadArg
  | storeArg _ hv => exact inFrame_renamed hw fun g => hf.storeArg hv
  | loadLocal => exact inFrame_renamed hw fun g => hf.loadLocal
  | storeLocal _ hv => exact inFrame_renamed hw fun g => hf.storeLocal hv
  | jump => exact inFrame_renamed hw fun g => hf.jump
  | leave _ hv => exact .leave hv hw
  | @newObject t =>
    obtain ⟨hobject, hworld⟩ := hw.newObject t
    rw [settle, settle, hobject]
    exact .proceed (.refl ρ) (hf.push (.plain rfl)) hworld
  | @newArray t n =>
    obtain ⟨ρ', hextends, hnamed, hworld⟩ := hw.newArray h.hosts.mono t n
    exact .proceed hextends ((hf.mono hextends).push (.array hnamed)) hworld
  | store hr hv =>
    cases hr with
    | plain hplain => cases hplain
    | array hr => exact .proceed (.refl ρ) hf (hw.store hr _ hv)
  | pushInstalled hi =>
    rw [settle, settle, hinstalled hi]
    exact .proceed (.refl ρ) (hf.push (.plain rfl)) hw
  | dispatch _ hreceiver hr =>
    cases hr with
    | plain hplain => cases hplain
    | array hr => exact ask_renamed h hf hw _ _ hreceiver hr
  | call _ _ _ _ hargs => exact .call hf hargs hw

/-- What an instruction asks for does not depend on names. Only where it asks for the installed
interceptor, the hosts must have the same one. -/
theorem exec_renamed (h : M.Agree same M') (hf : f.Renamed ρ f') (hw : w.Renamed same ρ w')
    {i : Instr} (hinstalled : i = .op .getInterceptor →
      M'.host.installed w'.host = M.host.installed w.host) :
    Request.Renamed same ρ (M.exec f w i) (M'.exec f' w' i) := by
  have halike : M.ExecAlike M' (Value.Renamed ρ) (Value.Renamed ρ) f f' w w' i :=
    exec_alike hw.heap.alike h.module h.identities hf.method hf.returns hf.stack
      fun t _ => .plain rfl
  cases halike with
  | settles effect operands exec exec' =>
    rw [exec, exec']
    exact settle_renamed h (hf.withStack operands) hw effect hinstalled
  | stops _ exec _ =>
    rw [exec]
    exact .stop

end Machine

end Interpose
