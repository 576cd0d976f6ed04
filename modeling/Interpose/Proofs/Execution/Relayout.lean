import Interpose.Proofs.Execution.Continues

/-!
# Frames laid out anew

An instruction does not look at the code of its frame, at locals it does not name, or at the places
of other instructions. A frame that is laid out anew, with other code around the same instruction
and further locals behind its own, does the same, and its faults differ in the places they report
only.
-/

namespace Interpose

/-- Other surroundings for the instructions of a frame. -/
structure Relayout where
  code : Array Instr
  labels : LabelIndex
  declared : Array DataType
  locals : Array Value
  /-- Where the frame goes on, for each place where it went on before. -/
  place : Nat → Nat
  /-- The place that a fault reports, for each place that it reported before. -/
  report : Nat → Nat

namespace Relayout

variable (X : Relayout)

def frame (f : Frame) : Frame :=
  { f with
    code := X.code
    labels := X.labels
    declared := f.declared ++ X.declared
    locals := f.locals ++ X.locals
    next := X.place f.next }

def stop : Stop → Stop
  | .fault (.stackUnderflow method place) => .fault (.stackUnderflow method (X.report place))
  | e => e

/-- A result with its value changed and its fault reported anew. -/
def result {α β : Type} (change : α → β) : Except Stop α → Except Stop β
  | .ok a => .ok (change a)
  | .error e => .error (X.stop e)

def request {σ : Type} : Request σ → Request σ
  | .proceed f w => .proceed (X.frame f) w
  | .call f t args w => .call (X.frame f) t args w
  | .leave v w => .leave v w
  | .stop e w => .stop (X.stop e) w

/-- The faults of a frame in front of a place are reported where they arise. -/
def Reports (n : Nat) : Prop := X.place n - 1 = X.report (n - 1)

variable {X}

theorem inFrame_result {σ : Type} (w : World σ) (r : Except Stop Frame) :
    Machine.inFrame w (X.result X.frame r) = X.request (Machine.inFrame w r) := by
  cases r with
  | ok f => rfl
  | error e => rfl

/-! ### Operands -/

variable {f : Frame}

theorem stop_refuses {m : Module} {h : Heap} {V W : Value → Value → Prop} {e : Stop}
    (he : m.Refuses h V W e) : X.stop e = e := by
  cases he with
  | method => rfl
  | operands hrejects =>
    cases hrejects with
    | endless => rfl
    | @fault e he => cases e <;> first | rfl | cases he

/-- A script takes the same from a frame laid out anew, and only what runs out is reported anew. -/
theorem run_frame {V : Value → Value → Prop} {R : Effect → Effect → Prop} {E : Stop → Prop}
    {s : Script} (hs : s.Parallel V R E s) (hV : ∀ v, V v v) (hE : ∀ e, E e → X.stop e = e)
    (hf : X.Reports f.next) :
    s.run (X.frame f) = X.result (fun p => (p.1, X.frame p.2)) (s.run f) := by
  induction s generalizing f with
  | fail e =>
    cases hs with
    | fail he => exact congrArg Except.error (hE e he).symm
  | done x => rfl
  | take next ih =>
    cases hs with
    | take hnext =>
      have hframe : (X.frame f).stack = f.stack := rfl
      have hu : X.place f.next - 1 = X.report (f.next - 1) := hf
      simp only [Script.run_take, Frame.pop, hframe]
      cases f.stack with
      | nil => simp [bind, Except.bind, result, stop, Frame.underflow, frame, hu]
      | cons v rest => exact ih v (f := { f with stack := rest }) (hnext v v (hV v)) hf

/-! ### Effects -/

theorem frame_loadArg (index : Nat) :
    (X.frame f).loadArg index = X.result X.frame (f.loadArg index) := by
  have hargs : (X.frame f).args = f.args := rfl
  unfold Frame.loadArg
  rw [hargs]
  cases f.args[index]? with
  | some v => rfl
  | none => rfl

theorem frame_storeArg (v : Value) (index : Nat) :
    ((X.frame f).push v).storeArg index = X.result X.frame ((f.push v).storeArg index) := by
  have hargs : (X.frame f).args = f.args := rfl
  rw [Frame.storeArg_push, Frame.storeArg_push, hargs]
  split <;> rfl

theorem frame_loadLocal {index : Nat} (hi : index < f.locals.size) :
    (X.frame f).loadLocal index = X.result X.frame (f.loadLocal index) := by
  have hget : (X.frame f).locals[index]? = f.locals[index]? := Array.getElem?_append_left hi
  simp only [Frame.loadLocal, hget, Array.getElem?_eq_getElem hi]
  rfl

theorem frame_storeLocal (v : Value) {index : Nat} (hl : index < f.locals.size)
    (hd : index < f.declared.size) :
    ((X.frame f).push v).storeLocal index = X.result X.frame ((f.push v).storeLocal index) := by
  have hget : (f.declared ++ X.declared)[index]? = some f.declared[index] := by
    rw [Array.getElem?_append_left hd, Array.getElem?_eq_getElem hd]
  have hroom : index < (f.locals ++ X.locals).size := by
    rw [Array.size_append]
    omega
  have hset : (f.locals ++ X.locals).setIfInBounds index v =
      f.locals.setIfInBounds index v ++ X.locals := by
    rw [Array.setIfInBounds_append, if_pos hl]
  rw [Frame.storeLocal_push, Frame.storeLocal_push]
  simp only [frame, hget, Array.getElem?_eq_getElem hd, if_pos hroom, if_pos hl, hset]
  split <;> rfl

theorem frame_jump {l : Label} (hl : X.labels.place? l = (f.labels.place? l).map X.place) :
    (X.frame f).jump l = X.result X.frame (f.jump l) := by
  have hlabels : (X.frame f).labels = X.labels := rfl
  unfold Frame.jump
  rw [hlabels, hl]
  cases f.labels.place? l with
  | some place => rfl
  | none => rfl

variable {σ : Type} (M : Machine σ)

theorem ask_frame (w : World σ) (d : Machine.Dispatch) :
    M.ask (X.frame f) w d = X.request (M.ask f w d) := by
  unfold Machine.ask
  split
  · rfl
  · rename_i e w' _
    cases e <;> rfl

theorem settle_frame (w : World σ) {i : Instr} {W : Value → Value → Prop} {x : Effect}
    (effect : Effect.Alike M.module w.heap W f.returns i x x)
    (hslots : ∀ s ∈ i.slots, s.position < f.locals.size ∧ s.position < f.declared.size)
    (hlabels : ∀ l, i.target? = some l →
      X.labels.place? l = (f.labels.place? l).map X.place) :
    M.settle (X.frame f) w x = X.request (M.settle f w x) := by
  have onFrame {r r' : Except Stop Frame} (h : r' = X.result X.frame r) :
      Machine.inFrame w r' = X.request (Machine.inFrame w r) := by
    rw [h, inFrame_result]
  cases effect with
  | loadArg => exact onFrame (frame_loadArg _)
  | storeArg => exact onFrame (frame_storeArg _ _)
  | @loadLocal s hi =>
    subst hi
    exact onFrame (frame_loadLocal (hslots s (List.mem_singleton_self s)).1)
  | @storeLocal s _ _ hi =>
    subst hi
    obtain ⟨hl, hd⟩ := hslots s (List.mem_singleton_self s)
    exact onFrame (frame_storeLocal _ hl hd)
  | jump hi => exact onFrame (frame_jump (hlabels _ hi))
  | dispatch => exact ask_frame M w _
  | push | leave | newObject | newArray | store | pushInstalled | call => rfl

/-- An instruction in a frame laid out anew, if it names only the locals of the frame and finds the
labels it branches to. -/
theorem exec_frame (hf : X.Reports f.next) (w : World σ) {i : Instr}
    (hslots : ∀ s ∈ i.slots, s.position < f.locals.size ∧ s.position < f.declared.size)
    (hlabels : ∀ l, i.target? = some l →
      X.labels.place? l = (f.labels.place? l).map X.place) :
    M.exec (X.frame f) w i = X.request (M.exec f w i) := by
  have hV : w.heap.Alike (Value.Same fun _ => True) (Value.Same fun _ => True) w.heap :=
    .self (fun _ hv => hv) (fun _ _ => trivial) fun _ _ _ _ _ => trivial
  have hscript := Machine.script_alike hV M f.method f.returns (i := i) fun _ _ => ⟨rfl, trivial⟩
  have hrun := run_frame (X := X) hscript (fun _ => ⟨rfl, trivial⟩) (fun _ => stop_refuses) hf
  rw [Machine.exec_eq, Machine.exec_eq]
  refine (congrArg (M.finish w) hrun).trans ?_
  cases M.does f w i with
  | stops _ run _ =>
    rw [run]
    rfl
  | @settles x rest effect _ run _ =>
    rw [run]
    exact settle_frame M w (f := { f with stack := rest }) effect hslots hlabels

end Relayout

end Interpose
