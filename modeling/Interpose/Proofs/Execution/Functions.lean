import Interpose.Proofs.Execution.Continues

/-!
# Where function values go

A function value comes from the code that loads it, from a caller or from the host, and it stays on
stacks, among arguments and in arrays. Operations move values that a frame holds, take elements out
of arrays that the frame can reach, and make values that are no functions. So a bound on the methods
of all functions that a frame can reach is kept by all of them, and no operation in front of a call
fails for a method or a local slot that does not exist.
-/

namespace Interpose

/-! ### Functions that a value leads to -/

/-- What running code can come by from a value: the value itself, and what is in arrays. Nothing
leads out of a box, since only values of value types are taken from boxes. -/
inductive Heap.Leads (h : Heap) : Value → Value → Prop where
  | here (v : Value) : h.Leads v v
  | element {r : ArrayRef} {u v : Value} (hu : u ∈ h.items r) (hv : h.Leads u v) :
    h.Leads (.array r) v

/-- Every function that a value leads to is one of the first `methods`. -/
def Heap.FunctionsWithin (h : Heap) (methods : Nat) (v : Value) : Prop :=
  ∀ t, h.Leads v (.function t) → t.position < methods

namespace Heap

variable {h : Heap} {n : Nat} {u v : Value} {r : ArrayRef}

theorem FunctionsWithin.of_isClosed (hv : v.isClosed = true) : h.FunctionsWithin n v := by
  intro t ht
  cases ht with
  | here => cases hv
  | element hu _ => cases hv

theorem functionsWithin_function {t : MethodToken} :
    h.FunctionsWithin n (.function t) ↔ t.position < n := by
  constructor
  · intro ht
    exact ht t (.here _)
  · intro ht u hu
    cases hu
    exact ht

theorem FunctionsWithin.element (hr : h.FunctionsWithin n (.array r)) (hu : u ∈ h.items r) :
    h.FunctionsWithin n u :=
  fun t ht => hr t (.element hu ht)

theorem functionsWithin_default (type : DataType) : h.FunctionsWithin n (.default type) := by
  cases type <;> exact .of_isClosed rfl

/-- Arrays may get other elements, as long as these lead to no other functions. -/
theorem FunctionsWithin.of_items {h' : Heap}
    (hitems : ∀ r, ∀ u ∈ h'.items r, u ∈ h.items r ∨ h.FunctionsWithin n u)
    (hv : h.FunctionsWithin n v) : h'.FunctionsWithin n v := by
  intro t ht
  generalize hf : Value.function t = f at ht
  induction ht with
  | here =>
    subst hf
    exact functionsWithin_function.1 hv
  | @element r u f hu _ ih =>
    rcases hitems r u hu with hmem | hwithin
    · exact ih (hv.element hmem) hf
    · exact ih hwithin hf

theorem FunctionsWithin.set {index : Nat} {x : Value} (hx : h.FunctionsWithin n x)
    (hv : h.FunctionsWithin n v) : (h.set r index x).FunctionsWithin n v := by
  refine hv.of_items fun s u hu => ?_
  simp only [items, cell_set] at hu
  split at hu
  · rcases Array.mem_or_eq_of_mem_setIfInBounds hu with hmem | rfl
    · exact .inl hmem
    · exact .inr hx
  · exact .inl hu

theorem functionsWithin_newArray {elem : DataType} {length : Nat} :
    (h.newArray elem (.replicate length (.default elem))).2.FunctionsWithin n
      (.array (h.newArray elem (.replicate length (.default elem))).1) := by
  intro t ht
  cases ht with
  | element hu hv =>
    rw [items, cell_newArray] at hu
    rw [(Array.mem_replicate.1 hu).2] at hv
    exact functionsWithin_default elem t hv

/-- A reference that led nowhere may lead to a new array, but there is no function in it. -/
theorem FunctionsWithin.newArray {elem : DataType} {length : Nat}
    (hv : h.FunctionsWithin n v) :
    (h.newArray elem (.replicate length (.default elem))).2.FunctionsWithin n v := by
  refine hv.of_items fun s u hu => ?_
  by_cases hs : s.id = h.arrays.size
  · have hnew : s = (h.newArray elem (.replicate length (.default elem))).1 := by
      cases s
      exact congrArg ArrayRef.mk hs
    rw [hnew, items, cell_newArray] at hu
    rw [(Array.mem_replicate.1 hu).2]
    exact .inr (functionsWithin_default elem)
  · have hold : (h.newArray elem (.replicate length (.default elem))).2.cell s = h.cell s := by
      simp [Heap.newArray, cell, Array.getD_eq_getD_getElem?, Array.getElem?_push, hs]
    rw [items, hold] at hu
    exact .inl hu

end Heap

/-! ### Stops for what does not exist -/

/-- Whether a fault is about a method or a local slot that does not exist. -/
def Fault.isMissing : Fault → Bool
  | .methodNotFound _ | .invalidIndex (.local _) => true
  | _ => false

def Stop.isMissing : Stop → Bool
  | .fault e => e.isMissing
  | .breach _ | .endless => false

/-- Every function that a frame can reach is one of the first `methods`. -/
structure Frame.FunctionsWithin (methods : Nat) (h : Heap) (f : Frame) : Prop where
  stack : ∀ v ∈ f.stack, h.FunctionsWithin methods v
  args : ∀ v ∈ f.args, h.FunctionsWithin methods v
  locals : ∀ v ∈ f.locals, h.FunctionsWithin methods v

namespace Frame.FunctionsWithin

variable {n : Nat} {h h' : Heap} {f : Frame} {v : Value}

theorem push (hf : f.FunctionsWithin n h) (hv : h.FunctionsWithin n v) :
    (f.push v).FunctionsWithin n h :=
  ⟨List.forall_mem_cons.2 ⟨hv, hf.stack⟩, hf.args, hf.locals⟩

theorem setArg (hf : f.FunctionsWithin n h) (index : Nat) (hv : h.FunctionsWithin n v) :
    ({ f with args := f.args.setIfInBounds index v } : Frame).FunctionsWithin n h := by
  refine ⟨hf.stack, fun u hu => ?_, hf.locals⟩
  rcases Array.mem_or_eq_of_mem_setIfInBounds hu with hu | rfl
  · exact hf.args u hu
  · exact hv

theorem setLocal (hf : f.FunctionsWithin n h) (index : Nat) (hv : h.FunctionsWithin n v) :
    ({ f with locals := f.locals.setIfInBounds index v } : Frame).FunctionsWithin n h := by
  refine ⟨hf.stack, hf.args, fun u hu => ?_⟩
  rcases Array.mem_or_eq_of_mem_setIfInBounds hu with hu | rfl
  · exact hf.locals u hu
  · exact hv

theorem mono (hf : f.FunctionsWithin n h)
    (hkeeps : ∀ v, h.FunctionsWithin n v → h'.FunctionsWithin n v) : f.FunctionsWithin n h' :=
  ⟨fun v hv => hkeeps v (hf.stack v hv), fun v hv => hkeeps v (hf.args v hv),
    fun v hv => hkeeps v (hf.locals v hv)⟩

end Frame.FunctionsWithin

/-! ### Instructions -/

/-- A request that keeps its frame and the frames below to the first `n` methods, and that does not
end the run for something missing. -/
def Request.Safe {σ : Type} (n : Nat) (callers : List Frame) (w : World σ) : Request σ → Prop
  | .proceed f w' => ∀ g ∈ f :: callers, g.FunctionsWithin n w'.heap
  | .call f t args w' => w' = w ∧ t.position < n ∧ (∀ v ∈ args, w.heap.FunctionsWithin n v) ∧
    f.FunctionsWithin n w.heap
  | .leave v w' => w' = w ∧ ∀ u ∈ v, w.heap.FunctionsWithin n u
  | .stop e _ => e.isMissing = false

namespace Machine

variable {σ : Type} {M : Machine σ} {f : Frame} {callers : List Frame} {w w' : World σ} {n : Nat}

theorem isMissing_of_rejects {h : Heap} {P : Value → Prop} {e : Stop} (he : h.Rejects P e) :
    e.isMissing = false := by
  cases he with
  | endless _ _ => rfl
  | @fault e he => cases e <;> first | rfl | cases he

theorem safe_proceed (hcallers : ∀ g ∈ callers, g.FunctionsWithin n w.heap)
    (hkeeps : ∀ v, w.heap.FunctionsWithin n v → w'.heap.FunctionsWithin n v)
    (hf : f.FunctionsWithin n w'.heap) : (Request.proceed f w').Safe n callers w :=
  List.forall_mem_cons.2 ⟨hf, fun g hg => (hcallers g hg).mono hkeeps⟩

/-- What an interceptor answers and leaves in the heap keeps a frame and those below it to the first
`n` methods. -/
def AnswerKeeps (M : Machine σ) (n : Nat) (callers : List Frame) (f : Frame) (w : World σ)
    (d : Dispatch) : Prop :=
  ∀ v w', M.host.intercept d.interceptor d.receiver (w.heap.items d.arguments).toList d.identity w =
      (.ok v, w') →
    w'.heap.FunctionsWithin n v ∧
      ∀ g ∈ f :: callers, g.FunctionsWithin n w.heap → g.FunctionsWithin n w'.heap

/-- What the effects of instructions do to functions, if the references of the instruction lie in
their tables. -/
theorem safe_settle (hf : f.FunctionsWithin M.module.methods.length w.heap)
    (hcallers : ∀ g ∈ callers, g.FunctionsWithin M.module.methods.length w.heap)
    (hsize : f.declared.size = f.locals.size) {i : Instr}
    (hi : i.Within M.module.types.length M.module.methods.length f.locals.size) {x : Effect}
    (effect : Effect.Alike M.module w.heap
      (Value.Same (w.heap.FunctionsWithin M.module.methods.length)) f.returns i x x)
    (hhost : ∀ d, x = .dispatch d → M.AnswerKeeps M.module.methods.length callers f w d) :
    (M.settle f w x).Safe M.module.methods.length callers w := by
  cases effect with
  | push hvalues =>
    refine safe_proceed hcallers (fun _ hv => hv) ⟨fun v hv => ?_, hf.args, hf.locals⟩
    rcases List.mem_append.1 hv with hv | hv
    · exact (List.forall₂_same.1 hvalues v hv).2
    · exact hf.stack v hv
  | @loadArg k hi =>
    simp only [settle, Frame.loadArg]
    cases harg : f.args[k.toNat]? with
    | none => rfl
    | some v =>
      have hv := hf.args v (Array.mem_of_getElem? harg)
      exact safe_proceed hcallers (fun _ hv => hv) (hf.push hv)
  | @loadLocal s hslot =>
    subst hslot
    have hs := hi.slots s (List.mem_singleton.2 rfl)
    simp only [settle, Frame.loadLocal, Array.getElem?_eq_getElem hs]
    have hv := hf.locals _ (Array.getElem_mem hs)
    exact safe_proceed hcallers (fun _ hv => hv) (hf.push hv)
  | storeArg _ hv =>
    rw [settle, Frame.storeArg_push]
    split
    · exact safe_proceed hcallers (fun _ hv => hv) (hf.setArg _ hv.2)
    · rfl
  | @storeLocal s _ _ hslot hv =>
    subst hslot
    have hs : s.position < f.declared.size := hsize ▸ hi.slots s (List.mem_singleton.2 rfl)
    rw [settle, Frame.storeLocal_push]
    simp only [Array.getElem?_eq_getElem hs]
    split
    · split
      · exact safe_proceed hcallers (fun _ hv => hv) (hf.setLocal _ hv.2)
      · rfl
    · rfl
  | jump =>
    simp only [settle, Frame.jump]
    split
    · exact safe_proceed hcallers (fun _ hv => hv) ⟨hf.stack, hf.args, hf.locals⟩
    · rfl
  | leave _ hv =>
    refine ⟨rfl, fun u hu => ?_⟩
    cases hv with
    | none => cases hu
    | some hv =>
      cases hu
      exact hv.2
  | @newObject t =>
    have hkeeps : ∀ v, w.heap.FunctionsWithin M.module.methods.length v →
        (w.newObject t).2.heap.FunctionsWithin M.module.methods.length v :=
      fun v hv => Heap.FunctionsWithin.of_items (h := w.heap) (fun r u hu => .inl hu) hv
    exact safe_proceed hcallers hkeeps ((hf.mono hkeeps).push (.of_isClosed rfl))
  | @newArray t k =>
    have hkeeps : ∀ v, w.heap.FunctionsWithin M.module.methods.length v →
        (w.newArray t k).2.heap.FunctionsWithin M.module.methods.length v :=
      fun v hv => hv.newArray
    have hnew : (w.newArray t k).2.heap.FunctionsWithin M.module.methods.length
        (.array (w.newArray t k).1) := Heap.functionsWithin_newArray
    exact safe_proceed hcallers hkeeps ((hf.mono hkeeps).push hnew)
  | @store r _ k v _ _ hv =>
    have hkeeps : ∀ u, w.heap.FunctionsWithin M.module.methods.length u →
        (w.store r k v).heap.FunctionsWithin M.module.methods.length u :=
      fun u hu => hv.2.set hu
    exact safe_proceed hcallers hkeeps (hf.mono hkeeps)
  | pushInstalled => exact safe_proceed hcallers (fun _ hv => hv) (hf.push (.of_isClosed rfl))
  | dispatch =>
    simp only [settle, ask]
    split
    · rename_i v w' hanswer
      obtain ⟨hv, hkeeps⟩ := hhost _ rfl v w' hanswer
      have hg' := hkeeps _ List.mem_cons_self hf
      refine List.forall_mem_cons.2 ⟨hg'.push hv, fun f hf => ?_⟩
      exact hkeeps f (List.mem_cons_of_mem _ hf) (hcallers f hf)
    · rename_i e w' hanswer
      cases e <;> rfl
  | call _ ht _ _ hargs =>
    have hvalues := fun v hv => (List.forall₂_same.1 hargs v hv).2
    exact ⟨rfl, Heap.functionsWithin_function.1 ht.2, hvalues, hf⟩

/-- Instructions whose references lie in their tables keep a frame to the methods of the module, if
interceptors do. -/
theorem safe_exec (hf : f.FunctionsWithin M.module.methods.length w.heap)
    (hcallers : ∀ g ∈ callers, g.FunctionsWithin M.module.methods.length w.heap)
    (hsize : f.declared.size = f.locals.size) {i : Instr}
    (hi : i.Within M.module.types.length M.module.methods.length f.locals.size)
    (hhost : ∀ d g, i = .op .intercept → popDispatch f = .ok (d, g) →
      M.AnswerKeeps M.module.methods.length callers g w d) :
    (M.exec f w i).Safe M.module.methods.length callers w := by
  have hdoes := M.exec_does (f := f) (w := w) (i := i)
    (P := w.heap.FunctionsWithin M.module.methods.length)
    (Q := w.heap.FunctionsWithin M.module.methods.length) (fun _ hv => hv)
    (fun _ hv => .of_isClosed hv) (fun r k u hr hu => hr.element (Array.mem_of_getElem? hu))
    hf.stack fun t ht => Heap.functionsWithin_function.2 (hi.methods t ht)
  cases hdoes with
  | stops why _ exec =>
    rw [exec]
    rcases why with (hrejects | ⟨hnone, _, ht⟩) | rfl
    · exact isMissing_of_rejects hrejects
    · have hlt := Heap.functionsWithin_function.1 ht
      rw [Module.method?, List.getElem?_eq_getElem hlt] at hnone
      cases hnone
    · rfl
  | @settles x rest effect stack run exec =>
    rw [exec]
    refine safe_settle (f := { f with stack := rest }) ⟨stack, hf.args, hf.locals⟩ hcallers hsize hi
      effect fun d hd => ?_
    subst hd
    obtain ⟨hintercept, hpop⟩ := dispatch_of_run run
    exact hhost d _ hintercept hpop

end Machine

end Interpose
