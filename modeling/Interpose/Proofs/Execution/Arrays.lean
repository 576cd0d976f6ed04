import Interpose.Proofs.Execution.Limits

/-!
# Arrays along a run

Running code makes arrays full of zeros (`newarr`) and stores an element only after a comparison
with the type of the array (`stelem.ref`). So an array keeps its type and its length and holds what
conforms to the type, up to the first write of the host.
-/

namespace Interpose

/-- An array of a heap that has a length and holds nothing but elements of a type. -/
def Heap.Holds (h : Heap) (r : ArrayRef) (type : DataType) (length : Nat) : Prop :=
  ∃ items, h.arrays[r.id]? = some ⟨type, items⟩ ∧ items.size = length ∧
    ∀ v ∈ items, v.fits type = true

namespace Heap.Holds

variable {h h' : Heap} {r : ArrayRef} {type : DataType} {length : Nat}

theorem elem_eq (hr : h.Holds r type length) : h.elem r = type := by
  obtain ⟨items, hcell, _⟩ := hr
  simp [elem, cell, Array.getD_eq_getD_getElem?, hcell]

theorem of_arrays (hr : h.Holds r type length) (harrays : h'.arrays[r.id]? = h.arrays[r.id]?) :
    h'.Holds r type length := by
  unfold Holds
  rw [harrays]
  exact hr

theorem newArray (hr : h.Holds r type length) (elem : DataType) (items : Array Value) :
    (h.newArray elem items).2.Holds r type length := by
  refine hr.of_arrays ?_
  obtain ⟨items', hcell, _⟩ := hr
  obtain ⟨hlt, _⟩ := Array.getElem?_eq_some_iff.1 hcell
  exact Array.getElem?_push_lt hlt ▸ (Array.getElem?_eq_getElem hlt).symm

theorem of_newArray (h : Heap) (type : DataType) (length : Nat) :
    (h.newArray type (.replicate length (.default type))).2.Holds
      (h.newArray type (.replicate length (.default type))).1 type length := by
  refine ⟨.replicate length (.default type), Array.getElem?_push_size, Array.size_replicate,
    fun v hv => ?_⟩
  rw [(Array.mem_replicate.1 hv).2]
  exact Value.fits_default type

/-- Whatever array is stored into, the value conforms to its type. -/
theorem set (hr : h.Holds r type length) (s : ArrayRef) (index : Nat) {v : Value}
    (hv : v.fits (h.elem s) = true) : (h.set s index v).Holds r type length := by
  by_cases hsame : s.id = r.id
  · have helem : h.elem s = type := by
      rw [← hr.elem_eq]
      simp only [elem, cell, hsame]
    rw [helem] at hv
    obtain ⟨items, hcell, hsize, hfits⟩ := hr
    refine ⟨items.setIfInBounds index v, ?_, ?_, fun u hu => ?_⟩
    · simp only [Heap.set, Array.getElem?_modify, if_pos hsame, hcell, Option.map_some]
    · rw [Array.size_setIfInBounds, hsize]
    · rcases Array.mem_or_eq_of_mem_setIfInBounds hu with hmem | rfl
      · exact hfits u hmem
      · exact hv
  · refine hr.of_arrays ?_
    simp only [Heap.set, Array.getElem?_modify, if_neg hsame]

end Heap.Holds

def HostCall.world {σ : Type} : HostCall σ → World σ
  | .native _ _ w => w
  | .intercept _ _ _ _ w => w

def Request.world {σ : Type} : Request σ → World σ
  | .proceed _ w | .call _ _ _ w | .leave _ w | .stop _ w => w

def Entry.world {σ : Type} : Entry σ → World σ
  | .body _ w | .result _ w | .stop _ w => w

def Next.world {σ : Type} : Next σ → World σ
  | .running s => s.world
  | .ended c => c.world

namespace Machine

variable {σ : Type}

/-- The host leaves an array as it is when it is called. -/
def Leaves (M : Machine σ) (r : ArrayRef) (call : HostCall σ) : Prop :=
  ∀ answer w', M.host.answer? call = some (answer, w') →
    w'.heap.arrays[r.id]? = call.world.heap.arrays[r.id]?

/-- The heaps after a state, also at the end of the run, up to the first write of the host to an
array. -/
inductive HeapAfter (M : Machine σ) (r : ArrayRef) : State σ → Heap → Prop
  | here {s} : M.HeapAfter r s s.world.heap
  | later {s s' h} (leaves : ∀ c ∈ M.hostCall? s, M.Leaves r c) (step : M.step s = .running s')
      (rest : M.HeapAfter r s' h) : M.HeapAfter r s h
  | ended {s c} (leaves : ∀ c ∈ M.hostCall? s, M.Leaves r c) (step : M.step s = .ended c) :
      M.HeapAfter r s c.world.heap

variable {M : Machine σ} {t : MethodToken} {args : List Value} {depth : Nat} {w w' : World σ}
  {s s' : State σ} {f : Frame} {r : ArrayRef} {type : DataType} {length : Nat}

/-! ### What happens to the heap -/

theorem world_inFrame (w : World σ) (x : Except Stop Frame) : (inFrame w x).world = w := by
  cases x with
  | ok f => rfl
  | error e => rfl

/-- An instruction stores to arrays what conforms to their type, and the host is asked by one. -/
theorem holds_exec (hr : w.heap.Holds r type length) {i : Instr}
    (hhost : ∀ c ∈ M.instrCall? f depth w i, M.Leaves r c) :
    (M.exec f w i).world.heap.Holds r type length := by
  cases M.does f w i with
  | stops _ _ exec =>
    rw [exec]
    exact hr
  | settles effect _ run exec =>
    rw [exec]
    cases effect with
    | newObject => exact hr.of_arrays rfl
    | newArray => exact hr.newArray _ _
    | store _ _ hfits => exact hr.set _ _ hfits
    | @dispatch p callee receiver _ args =>
      obtain ⟨rfl, hpop⟩ := dispatch_of_run run
      have hleaves := hhost (.intercept p receiver (w.heap.items args).toList callee w)
        (by simp only [instrCall?, hpop]; rfl)
      simp only [settle, ask]
      split
      · rename_i v w' hv
        exact hr.of_arrays (hleaves (.ok (some v)) w' (by simp only [Host.answer?, hv]))
      · rename_i e w' he
        exact hr.of_arrays
          (hleaves (.error (e.map .intercept)) w' (by simp only [Host.answer?, he]))
    | loadArg | storeArg | loadLocal | storeLocal | jump => exact (world_inFrame w _).symm ▸ hr
    | push | leave | pushInstalled | call => exact hr

theorem holds_enter (hr : w.heap.Holds r type length)
    (hhost : ∀ c ∈ M.entryCall? t args depth w, M.Leaves r c) :
    (M.enter t args depth w).world.heap.Holds r type length := by
  unfold entryCall? at hhost
  rw [enter_eq_checkEntry]
  cases hd : M.checkEntry t args depth w with
  | error e => exact hr
  | ok d =>
    rw [hd] at hhost
    simp only [enterChecked]
    cases hb : d.body with
    | some b =>
      simp only
      split <;> exact hr
    | none =>
      cases hrun : M.host.native? t with
      | none => exact hr
      | some run =>
        have hleaves := hhost (.native t args w) (by simp [hb, hrun])
        simp only
        split
        · rename_i e w' hanswer
          exact hr.of_arrays (hleaves (.error e) w' (by simp [Host.answer?, hrun, hanswer]))
        · rename_i v w' hanswer
          exact hr.of_arrays (hleaves (.ok v) w' (by simp [Host.answer?, hrun, hanswer]))

theorem world_leave (callers : List Frame) (n : Nat) (v : Option Value) (w : World σ) :
    (leave callers n v w).world = w := by
  cases callers with
  | nil => rfl
  | cons f callers => rfl

theorem holds_serve {callers : List Frame} {n : Nat} {q : Request σ}
    (hr : q.world.heap.Holds r type length)
    (hhost : ∀ f t args w, q = .call f t args w →
      ∀ c ∈ M.entryCall? t args (callers.length + 1) w, M.Leaves r c) :
    (M.serve callers n q).world.heap.Holds r type length := by
  cases q with
  | proceed f w => exact hr
  | leave v w => exact (world_leave callers n v w).symm ▸ hr
  | stop e w => exact hr
  | call f t args w =>
    have hentry : (M.enter t args (callers.length + 1) w).world.heap.Holds r type length :=
      holds_enter hr (hhost f t args w rfl)
    simp only [serve]
    cases entry : M.enter t args (callers.length + 1) w with
    | _ =>
      rw [entry] at hentry
      exact hentry

/-- A step keeps an array that the host does not write to. -/
theorem holds_step (hr : s.world.heap.Holds r type length)
    (hhost : ∀ c ∈ M.hostCall? s, M.Leaves r c) :
    (M.step s).world.heap.Holds r type length := by
  cases hi : M.executed? s with
  | none =>
    rcases step_of_executed?_eq_none hi with hcode | hlimit
    · rw [step_of_code_eq_none hcode, runOff]
      split
      · exact (world_leave _ _ _ _).symm ▸ hr
      · exact hr
    · rw [hlimit]
      exact hr
  | some i =>
    rw [hostCall?_of_executed? hi] at hhost
    rw [step_of_executed? hi]
    refine holds_serve (holds_exec hr hhost) fun f t args w hcall => ?_
    obtain ⟨target, rfl, hargs, rfl⟩ := callArgs_of_exec hcall
    simp only [instrCall?, hargs] at hhost
    exact hhost

/-! ### Arrays along a run -/

theorem holds_of_heapAfter {h : Heap} (hr : s.world.heap.Holds r type length)
    (hafter : M.HeapAfter r s h) : h.Holds r type length := by
  induction hafter with
  | here => exact hr
  | later leaves step rest ih =>
    have hnext := holds_step hr leaves
    rw [step] at hnext
    exact ih hnext
  | ended leaves step =>
    have hnext := holds_step hr leaves
    rw [step] at hnext
    exact hnext

/-- What making an array leads to: the reference on the stack, and the array behind it. -/
theorem step_newarr (hi : M.executed? s = some (.op (.newarr type))) {g : Frame}
    (hlength : s.frame.advance.popLength s.world.heap = .ok (length, g)) :
    ∃ s', M.step s = .running s' ∧ s'.frame = g.push (.array ⟨s.world.heap.arrays.size⟩) ∧
      s'.world.heap.Holds ⟨s.world.heap.arrays.size⟩ type length := by
  have hstep := step_of_executed? hi
  simp only [exec, execOp, hlength, serve] at hstep
  exact ⟨_, hstep, rfl, .of_newArray s.world.heap type length⟩

theorem holds_of_visits (hr : w.heap.Holds r type length)
    (hhost : ∀ s, M.Visits t args w s → ∀ c ∈ M.hostCall? s, M.Leaves r c)
    (hs : M.Visits t args w s) : s.world.heap.Holds r type length := by
  obtain ⟨f, w', entry, hreaches⟩ := hs
  induction hreaches with
  | refl =>
    obtain ⟨_, rfl, _⟩ := enter_eq_body_iff.1 entry
    exact hr
  | @tail s s' hreaches hstep ih =>
    have hnext := holds_step ih (hhost s ⟨f, w', entry, hreaches⟩)
    rw [hstep] at hnext
    exact hnext

theorem holds_invoke (hr : w.heap.Holds r type length)
    (hentry : ∀ c ∈ M.entryCall? t args 0 w, M.Leaves r c)
    (hhost : ∀ s, M.Visits t args w s → ∀ c ∈ M.hostCall? s, M.Leaves r c) :
    (M.invoke t args w).world.heap.Holds r type length := by
  have hentered := holds_enter hr hentry
  obtain ⟨states, htraces⟩ := M.exists_traces t args w
  generalize M.invoke t args w = c at htraces
  cases htraces with
  | result entry =>
    rw [entry] at hentered
    exact hentered
  | stop entry =>
    rw [entry] at hentered
    exact hentered
  | body entry run =>
    obtain ⟨s, last, ended⟩ := run.ends
    have hvisits := (Traces.body entry run).visits (List.mem_of_getLast? last)
    have hnext := holds_step (holds_of_visits hr hhost hvisits) (hhost s hvisits)
    rw [ended] at hnext
    exact hnext

end Machine

end Interpose
