import Interpose.Proofs.Execution.Arrays

/-!
# Typed storage

Whatever code runs, checked before or not: each open frame runs the body of a method of the module,
its locals are those that the body declares and hold values of their types, and what it returns is
what the method declares.
-/

namespace Interpose

/-! ### Locals -/

/-- There are as many locals as declared, and each of them conforms to its type. -/
def Frame.LocalsFit (f : Frame) : Prop :=
  List.Forall₂ (fun t v => Value.fits v t = true) f.declared.toList f.locals.toList

theorem forall₂_set_right {α β : Type} {R : α → β → Prop} {as : List α} {bs : List β}
    (h : List.Forall₂ R as bs) {k : Nat} {b : β} (hb : ∀ a, as[k]? = some a → R a b) :
    List.Forall₂ R as (bs.set k b) := by
  induction h generalizing k with
  | nil => exact .nil
  | cons hfirst hrest ih =>
    cases k with
    | zero => exact .cons (hb _ rfl) hrest
    | succ k => exact .cons hfirst (ih hb)

namespace Frame.LocalsFit

variable {f g : Frame}

theorem enter {name : String} {s : Signature} {b : Body} {args : List Value}
    (h : Frame.enter name s b args = .ok f) : f.LocalsFit := by
  obtain ⟨_, _, rfl⟩ := Frame.enter_eq_ok_iff.1 h
  unfold LocalsFit
  simp only [List.forall₂_map_right_iff]
  exact List.forall₂_same.2 fun t _ => Value.fits_default t

theorem storeLocal (hf : f.LocalsFit) {index : Nat} (h : f.storeLocal index = .ok g) :
    g.LocalsFit := by
  obtain ⟨v, rest, t, _, ht, hfits, rfl⟩ := storeLocal_eq_ok h
  have hset := forall₂_set_right hf (k := index) (b := v) fun t' ht' => by
    rw [Array.getElem?_toList, ht] at ht'
    exact Option.some.inj ht' ▸ hfits
  rw [← Array.toList_setIfInBounds] at hset
  exact hset

theorem moves (hf : f.LocalsFit) {target : Option Label} (h : f.Moves target g) :
    g.LocalsFit := by
  rw [h.frame]
  exact hf

theorem storeArg (hf : f.LocalsFit) {index : Nat} (h : f.storeArg index = .ok g) :
    g.LocalsFit := by
  obtain ⟨v, rest, _, _, rfl⟩ := storeArg_eq_ok_iff.1 h
  exact hf

variable {σ : Type} {M : Machine σ} {w w' : World σ}

/-- Only storing a local changes locals, and it compares the value with the declared type. -/
theorem exec (hf : f.LocalsFit) {i : Instr} (h : M.exec f w i = .proceed g w') : g.LocalsFit := by
  obtain hmoves | ⟨k, _, hstore⟩ | ⟨s, _, hstore⟩ := Machine.moves_or_stores h
  · exact hf.moves hmoves
  · exact hf.storeArg hstore
  · exact hf.storeLocal hstore

end Frame.LocalsFit

/-! ### Frames of methods -/

/-- A frame that runs the body of a method of a module. -/
structure Frame.Of (m : Module) (u : MethodToken) (d : MethodDef) (b : Body) (f : Frame) :
    Prop where
  definition : m.method? u = some d
  body : d.body = some b
  method : f.method = m.qualifiedName u
  returns : f.returns = d.signature.returns
  code : f.code = b.code.toArray
  declared : f.declared = b.locals.toArray

theorem Frame.Of.continues {m : Module} {u : MethodToken} {d : MethodDef} {b : Body} {f g : Frame}
    {target : Option Label} (hf : f.Of m u d b) (h : f.Continues target g) : g.Of m u d b :=
  ⟨hf.definition, hf.body, h.method.trans hf.method, h.returns.trans hf.returns,
    h.code.trans hf.code, h.declared.trans hf.declared⟩

/-- A frame of some method, with the locals that the method declares. -/
def Frame.Typed (m : Module) (f : Frame) : Prop :=
  (∃ u d b, f.Of m u d b) ∧ f.LocalsFit

theorem Frame.Typed.move {m : Module} {f : Frame} (hf : f.Typed m) (stack : List Value)
    (next : Nat) : Frame.Typed m { f with stack := stack, next := next } := by
  obtain ⟨⟨u, d, b, hof⟩, hlocals⟩ := hf
  exact ⟨⟨u, d, b, hof.definition, hof.body, hof.method, hof.returns, hof.code, hof.declared⟩,
    hlocals⟩

namespace Machine

variable {σ : Type} {M : Machine σ} {t : MethodToken} {args : List Value} {depth : Nat}
  {w w' : World σ} {s s' : State σ} {f g : Frame}

theorem typed_of_enter (h : M.enter t args depth w = .body f w') : f.Typed M.module := by
  obtain ⟨_, _, d, b, hd, hb, _, hframe⟩ := enter_eq_body_iff.1 h
  have hlocals := Frame.LocalsFit.enter hframe
  obtain ⟨_, _, rfl⟩ := Frame.enter_eq_ok_iff.1 hframe
  exact ⟨⟨t, d, b, hd, hb, rfl, rfl, rfl, rfl⟩, hlocals⟩

theorem typed_resume (hf : f.Typed M.module) (v : Option Value) :
    (resume f v).Typed M.module := by
  cases v with
  | none => exact hf
  | some v => exact hf.move (v :: f.stack) f.next

theorem typed_proceed (hf : f.Typed M.module) {i : Instr} (h : M.exec f w i = .proceed g w') :
    g.Typed M.module := by
  obtain ⟨⟨u, d, b, hof⟩, hlocals⟩ := hf
  exact ⟨⟨u, d, b, hof.continues (Frame.Continues.of_exec h)⟩, hlocals.exec h⟩

theorem typed_call (hf : f.Typed M.module) {i : Instr} (h : M.exec f w i = .call g t args w') :
    g.Typed M.module := by
  obtain ⟨⟨u, d, b, hof⟩, hlocals⟩ := hf
  exact ⟨⟨u, d, b, hof.continues (continues_of_exec_call h)⟩, hlocals.moves (moves_of_exec_call h)⟩

/-! ### Steps -/

def TypedState (M : Machine σ) (s : State σ) : Prop :=
  ∀ f ∈ s.frame :: s.callers, f.Typed M.module

theorem typed_leave {callers : List Frame} {n : Nat} {v : Option Value}
    (hcallers : ∀ f ∈ callers, f.Typed M.module) (h : leave callers n v w = .running s) :
    M.TypedState s := by
  cases callers with
  | nil => cases h
  | cons f callers =>
    cases h
    obtain ⟨hf, hcallers⟩ := List.forall_mem_cons.1 hcallers
    exact List.forall_mem_cons.2 ⟨typed_resume hf v, hcallers⟩

theorem typed_step (hs : M.TypedState s) (h : M.step s = .running s') : M.TypedState s' := by
  obtain ⟨hframe, hcallers⟩ := List.forall_mem_cons.1 hs
  rcases step_running_cases h with ⟨_, v, hleave⟩ | ⟨i, _, hserve⟩
  · exact typed_leave hcallers hleave
  · have hadvance : s.frame.advance.Typed M.module := hframe.move s.frame.stack (s.frame.next + 1)
    cases exec : M.exec s.frame.advance s.world i with
    | stop e w' => rw [exec] at hserve; cases hserve
    | leave v w' =>
      rw [exec] at hserve
      exact typed_leave hcallers hserve
    | proceed g w' =>
      rw [exec] at hserve
      cases hserve
      exact List.forall_mem_cons.2 ⟨typed_proceed hadvance exec, hcallers⟩
    | call g t args w' =>
      have hg := typed_call hadvance exec
      simp only [exec, serve] at hserve
      cases entry : M.enter t args (s.callers.length + 1) w' with
      | stop e w'' => rw [entry] at hserve; cases hserve
      | result v w'' =>
        rw [entry] at hserve
        cases hserve
        exact List.forall_mem_cons.2 ⟨typed_resume hg v, hcallers⟩
      | body callee w'' =>
        rw [entry] at hserve
        cases hserve
        exact List.forall_mem_cons.2
          ⟨typed_of_enter entry, List.forall_mem_cons.2 ⟨hg, hcallers⟩⟩

theorem typed_of_visits (h : M.Visits t args w s) : M.TypedState s := by
  obtain ⟨f, w', entry, hreaches⟩ := h
  induction hreaches with
  | refl => exact List.forall_mem_cons.2 ⟨typed_of_enter entry, fun g hg => (nomatch hg)⟩
  | tail _ hstep ih => exact typed_step ih hstep

/-! ### Results -/

/-- The frame of a state is left with a result in the next step. -/
inductive Completes (M : Machine σ) (s : State σ) : Option Value → Prop
  | runOff {v} (code : s.frame.code[s.frame.next]? = none) (ending : s.frame.ending = .ok v) :
      M.Completes s v
  | ret {i v w'} (executed : M.executed? s = some i)
      (exec : M.exec s.frame.advance s.world i = .leave v w') : M.Completes s v

theorem Completes.admits {v : Option Value} (h : M.Completes s v) :
    s.frame.returns.admits v = true := by
  cases h with
  | runOff code ending => exact admits_of_ending ending
  | ret executed exec =>
    have hadmits : s.frame.advance.returns.admits v = true := admits_of_exec_leave exec
    exact hadmits

theorem admits_of_invoke {d : MethodDef} {b : Body} {v : Option Value}
    (hd : M.module.method? t = some d) (hb : d.body = some b)
    (hv : (M.invoke t args w).outcome = .ok v) : d.signature.returns.admits v = true := by
  refine (returns_of_invoke hv).admits hd fun entry => ?_
  obtain ⟨_, d', _, hd', hnone, _⟩ := enter_eq_result_iff.1 entry
  cases hd.symm.trans hd'
  cases hb.symm.trans hnone

/-! ### Typed storage -/

/-- In every state of a run, each open frame has the locals that the body of its method declares,
with values of their types; a frame that is left hands over what its method declares, and so does
the run. An array that is made gets its type and its length, and it keeps both, with elements of the
type, up to the first write of the host, in this run and in later ones. -/
theorem storage_typed (M : Machine σ) (t : MethodToken) (args : List Value) (w : World σ) :
    (∀ s, M.Visits t args w s → ∀ f ∈ s.frame :: s.callers, ∃ u d b, f.Of M.module u d b ∧
      List.Forall₂ (fun type v => Value.fits v type = true) b.locals f.locals.toList) ∧
    (∀ s v, M.Visits t args w s → M.Completes s v → ∃ u d b, s.frame.Of M.module u d b ∧
      d.signature.returns.admits v = true) ∧
    (∀ d b v, M.module.method? t = some d → d.body = some b →
      (M.invoke t args w).outcome = .ok v → d.signature.returns.admits v = true) ∧
    (∀ s type length g, M.Visits t args w s → M.executed? s = some (.op (.newarr type)) →
      s.frame.advance.popLength s.world.heap = .ok (length, g) →
      ∃ s' r, M.step s = .running s' ∧ s'.frame = g.push (.array r) ∧
        s.world.heap.arrays[r.id]? = none ∧
        ∀ h, M.HeapAfter r s' h → h.Holds r type length) ∧
    ∀ r type length, w.heap.Holds r type length → (∀ c ∈ M.entryCall? t args 0 w, M.Leaves r c) →
      (∀ s, M.Visits t args w s → ∀ c ∈ M.hostCall? s, M.Leaves r c) →
      (∀ s, M.Visits t args w s → s.world.heap.Holds r type length) ∧
        (M.invoke t args w).world.heap.Holds r type length := by
  refine ⟨fun s hs f hf => ?_, fun s v hs hv => ?_, fun d b v => admits_of_invoke,
    fun s type length g _ hi hlength => ?_, fun r type length hr hentry hhost => ?_⟩
  · obtain ⟨⟨u, d, b, hof⟩, hlocals⟩ := typed_of_visits hs f hf
    refine ⟨u, d, b, hof, ?_⟩
    unfold Frame.LocalsFit at hlocals
    rw [hof.declared] at hlocals
    exact hlocals
  · obtain ⟨⟨u, d, b, hof⟩, _⟩ := typed_of_visits hs s.frame List.mem_cons_self
    exact ⟨u, d, b, hof, hof.returns ▸ hv.admits⟩
  · obtain ⟨s', hstep, hframe, hholds⟩ := step_newarr hi hlength
    refine ⟨s', ⟨s.world.heap.arrays.size⟩, hstep, hframe, Array.getElem?_size, fun h hafter => ?_⟩
    exact holds_of_heapAfter hholds hafter
  · exact ⟨fun s hs => holds_of_visits hr hhost hs, holds_invoke hr hentry hhost⟩

/-- A method that makes an array, keeps it in a local, and fills its first element. -/
def maker : Module :=
  ⟨"maker", [⟨"Type", [⟨0⟩]⟩],
    [⟨⟨0⟩, "make", ⟨[], .value .objectArray, true⟩,
      some ⟨[.objectArray], [.op (.ldcI4 2), .op (.newarr .string), .op (.stloc ⟨0⟩),
        .op (.ldloc ⟨0⟩), .op (.ldcI4 0), .op (.ldstr "first"), .op .stelemRef,
        .op (.ldloc ⟨0⟩), .op .ret]⟩⟩]⟩

theorem leaves_counting {limits : ExecutionLimits} {m : Module} (r : ArrayRef)
    (call : HostCall Nat) : (load m counting limits).Leaves r call := by
  intro answer w' h
  cases call with
  | native t args w =>
    cases h
    rfl
  | intercept i receiver args identity w =>
    cases h
    rfl

theorem storage_typed_maker :
    let M := load maker counting .standard
    let made := M.invoke ⟨0⟩ [] ⟨.empty, 0⟩
    made.outcome = .ok (some (.array ⟨0⟩)) ∧
      ReturnType.admits (.value .objectArray) (some (.array ⟨0⟩)) = true ∧
      made.world.heap.Holds ⟨0⟩ .string 2 ∧
      (M.invoke ⟨0⟩ [] made.world).outcome = .ok (some (.array ⟨1⟩)) ∧
      (M.invoke ⟨0⟩ [] made.world).world.heap.Holds ⟨0⟩ .string 2 := by
  intro M made
  have hmade : made.outcome = .ok (some (.array ⟨0⟩)) := by decide +kernel
  have hagain : (M.invoke ⟨0⟩ [] made.world).outcome = .ok (some (.array ⟨1⟩)) := by
    decide +kernel
  have hcell : made.world.heap.arrays[0]? = some ⟨.string, #[.str "first", .null]⟩ := by
    decide +kernel
  have hholds : made.world.heap.Holds ⟨0⟩ .string 2 :=
    ⟨#[.str "first", .null], hcell, rfl, by decide⟩
  obtain ⟨_, _, hresult, _, _⟩ := storage_typed M ⟨0⟩ [] ⟨.empty, 0⟩
  obtain ⟨_, _, _, _, hkept⟩ := storage_typed M ⟨0⟩ [] made.world
  have hadmits := hresult _ _ _ rfl rfl hmade
  have hstays := hkept ⟨0⟩ .string 2 hholds (fun c _ => leaves_counting _ c)
    (fun s _ c _ => leaves_counting _ c)
  exact ⟨hmade, hadmits, hholds, hagain, hstays.2⟩

end Machine

end Interpose
