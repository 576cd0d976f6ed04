import Interpose.Proofs.Execution.Relayout
import Interpose.Proofs.Interception.ExpansionRun
import Interpose.Proofs.Interception.Layout

/-!
# Redirected code mirrors the code it stands for

A frame that runs the redirected form of a body is the frame that runs the body, laid out anew: the
slots of all expansions stand behind its locals. Where the body executes one instruction with its
calls intercepted, the operations that stand for the instruction do the same.
-/

namespace Interpose

/-! ### The slots of a call site -/

namespace Callee

variable {c : Callee} {n : Nat}

/-- Where the slot types of a callee are declared, the argument array has a slot for arrays and
all else a slot for objects. -/
theorem declared_slotsFrom {declared : Array DataType}
    (hdeclared : ∀ j, j < c.slotTypes.length → declared[n + j]? = c.slotTypes[j]?)
    (hfew : n + c.slotTypes.length ≤ 2 ^ 32) :
    declared[(c.slotsFrom n).receiver.position]? = some .object ∧
      (∀ q ∈ (c.slotsFrom n).params, declared[q.position]? = some .object) ∧
      declared[(c.slotsFrom n).arguments.position]? = some .objectArray := by
  have hlength := c.length_slotTypes
  have hposition (k : Nat) (hk : k < c.slotTypes.length) :
      (LocalSlot.ofPosition (n + k)).position = n + k := by
    have hk32 : n + k < 2 ^ 32 := by omega
    exact LocalSlot.position_ofPosition hk32
  have htype (k : Nat) (hk : k < c.slotTypes.length) :
      declared[(LocalSlot.ofPosition (n + k)).position]? = c.slotTypes[k]? := by
    rw [hposition k hk]
    exact hdeclared k hk
  have hparam (i : Nat) (hi : i < c.signature.params.length) :
      c.slotTypes[1 + i]? = some .object := by
    rw [Nat.add_comm, slotTypes, List.getElem?_cons_succ, List.getElem?_append_left (by simpa),
      List.getElem?_replicate, if_pos hi]
  have hlast : c.slotTypes[1 + c.signature.params.length]? = some .objectArray := by
    rw [Nat.add_comm, slotTypes, List.getElem?_cons_succ, List.getElem?_append_right (by simp)]
    simp
  refine ⟨htype 0 (by omega), ?_, ?_⟩
  · intro q hq
    obtain ⟨i, hi, rfl⟩ := List.mem_map.1 hq
    have hi' := List.mem_range.1 hi
    rw [Nat.add_assoc, htype (1 + i) (by omega)]
    exact hparam i hi'
  · show declared[(LocalSlot.ofPosition (n + 1 + c.signature.params.length)).position]? = _
    rw [Nat.add_assoc, htype _ (by omega)]
    exact hlast

theorem readyFor_slotsFrom {declared : Array DataType} {locals size : Nat}
    (hdeclared : ∀ j, j < c.slotTypes.length → declared[n + j]? = c.slotTypes[j]?)
    (hlocals : locals ≤ n) (hsize : n + c.slotTypes.length ≤ size) (hfew : size < 2 ^ 31) :
    (c.slotsFrom n).ReadyFor c declared locals size := by
  have hlength := c.length_slotTypes
  have hpositions := c.positions_slotsFrom n (by omega)
  obtain ⟨hreceiver, hparams, harguments⟩ := declared_slotsFrom hdeclared (by omega)
  refine ⟨by simp [slotsFrom], by omega, hreceiver, hparams, harguments, ?_, ?_⟩
  · intro q hq
    have hmem : q.position ∈ List.range' n c.slotTypes.length := by
      rw [← hpositions]
      exact List.mem_map_of_mem hq
    have hrange := List.mem_range'_1.1 hmem
    omega
  · rw [hpositions]
    exact List.nodup_range'

end Callee

/-! ### Frames of redirected code -/

theorem exists_eq_append_of_agree {α : Type} {L front back : Array α}
    (hsize : L.size = (front ++ back).size)
    (hsame : ∀ j, j < front.size → L[j]? = (front ++ back)[j]?) :
    ∃ back', back'.size = back.size ∧ L = front ++ back' := by
  rw [Array.size_append] at hsize
  refine ⟨L.extract front.size L.size, by rw [Array.size_extract]; omega, ?_⟩
  refine Array.ext_getElem? fun j => ?_
  by_cases hj : j < front.size
  · rw [hsame j hj, Array.getElem?_append_left hj, Array.getElem?_append_left hj]
  · rw [Array.getElem?_append_right (Nat.le_of_not_lt hj), Array.getElem?_extract,
      Nat.add_sub_cancel' (Nat.le_of_not_lt hj)]
    split
    · rfl
    · exact Array.getElem?_eq_none (by omega)

structure Frame.Runs (b : Body) (labels : LabelIndex) (f : Frame) : Prop where
  code : f.code = b.code.toArray
  labels : f.labels = labels
  declared : f.declared = b.locals.toArray
  locals : f.locals.size = b.locals.length

theorem Frame.Runs.getElem?_code {b : Body} {labels : LabelIndex} {f : Frame}
    (hf : f.Runs b labels) (k : Nat) : f.code[k]? = b.code[k]? := by
  rw [hf.code, List.getElem?_toArray]

namespace Module

variable (m : Module) (b : Body)

/-- The surroundings of an operation in the redirected form of a body. -/
def relayout (labels : LabelIndex) (extra : Array Value) : Relayout where
  code := (m.redirected b).code.toArray
  labels := labels
  declared := (b.code.flatMap m.slotTypesFor).toArray
  locals := extra
  place := m.place b
  report := m.place b

def StandsFor (k q : Nat) : Prop := m.place b k ≤ q ∧ q < m.place b (k + 1)

/-- What the operations that stand for an instruction ask for, next to what the instruction asks
for with calls intercepted. -/
inductive Mirrors {σ : Type} (labels : LabelIndex) : Request σ → Request σ → Prop
  | proceed {f : Frame} {w : World σ} {extra : Array Value}
      (h : extra.size = (b.code.flatMap m.slotTypesFor).length) :
      Mirrors labels (.proceed f w) (.proceed ((m.relayout b labels extra).frame f) w)
  | leave {v : Option Value} {w : World σ} : Mirrors labels (.leave v w) (.leave v w)
  | stop {e e' : Stop} {w : World σ} (h : e.Counterpart (m.StandsFor b) b.locals.length e') :
      Mirrors labels (.stop e w) (.stop e' w)

variable {m b} {σ : Type} {M M' : Machine σ} {f : Frame} {labels labels' : LabelIndex}
  {extra : Array Value} {w : World σ}

theorem place_succ_of_op {o : Op} {k : Nat} (h : b.code[k]? = some (.op o)) :
    m.place b (k + 1) = m.place b k + 1 := by
  rw [place_succ h]
  rfl

theorem advance_relayout {o : Op} (h : b.code[f.next]? = some (.op o)) :
    ((m.relayout b labels' extra).frame f).advance =
      (m.relayout b labels' extra).frame f.advance := by
  simp only [Frame.advance, Relayout.frame, relayout, place_succ_of_op h]

end Module

theorem Machine.execOp_congr {σ : Type} {M M' : Machine σ} (hhost : M'.host = M.host)
    (hidentities : M'.identities = M.identities) (f : Frame) (w : World σ) (o : Op) :
    M'.execOp f w o = M.execOp f w o := by
  cases o with
  | resolveMethod => simp only [execOp, resolveMethod, hidentities]
  | getInterceptor => simp only [execOp, hhost]
  | intercept => simp only [execOp, intercept, ask, hhost]
  | _ => rfl

/-- The fault of an operation that finds too few values is reported at its place. -/
theorem Machine.place_of_underflow {σ : Type} {M : Machine σ} {f : Frame} {w w' : World σ} {o : Op}
    (hslots : ∀ s ∈ (Instr.op o).slots, s.position < f.locals.size ∧ s.position < f.declared.size)
    {method : String} {k : Nat}
    (h : M.execOp f w o = .stop (.fault (.stackUnderflow method k)) w') : k = f.next - 1 := by
  -- nothing changes but the places that faults report
  let X : Relayout := ⟨f.code, f.labels, #[], #[], id, fun _ => f.next - 1⟩
  have hX : X.frame f = f := by simp [X, Relayout.frame]
  have hlabels (l : Label) (_ : (Instr.op o).target? = some l) :
      X.labels.place? l = (f.labels.place? l).map X.place := by
    simp [X]
  have hexec := Relayout.exec_frame (X := X) (f := f) (i := .op o) M rfl w hslots hlabels
  rw [hX, exec, h] at hexec
  have hstop : Stop.fault (.stackUnderflow method k) =
      .fault (.stackUnderflow method (f.next - 1)) := (Request.stop.inj hexec).1
  cases hstop
  rfl

namespace Module

variable {m : Module} {b : Body} {σ : Type} {M M' : Machine σ} {f : Frame}
  {labels labels' : LabelIndex} {extra : Array Value} {w : World σ}

theorem mirrors_op (hf : f.Runs b labels) (hmoved : m.LabelsMoved b labels labels')
    (hextra : extra.size = (b.code.flatMap m.slotTypesFor).length) {o : Op}
    (hi : b.code[f.next]? = some (.op o))
    (hslots : ∀ s ∈ (Instr.op o).slots, s.position < b.locals.length) :
    m.Mirrors b labels' (M.execOp f.advance w o)
      (M.execOp ((m.relayout b labels' extra).frame f).advance w o) := by
  have hslots' : ∀ s ∈ (Instr.op o).slots,
      s.position < f.advance.locals.size ∧ s.position < f.advance.declared.size := by
    intro s hs
    show s.position < f.locals.size ∧ s.position < f.declared.size
    rw [hf.locals, hf.declared, List.size_toArray]
    exact ⟨hslots s hs, hslots s hs⟩
  have hreports : (m.relayout b labels' extra).Reports f.advance.next := by
    show m.place b (f.next + 1) - 1 = m.place b (f.next + 1 - 1)
    rw [place_succ_of_op hi]
    rfl
  have hlabels (l : Label) (_ : (Instr.op o).target? = some l) :
      (m.relayout b labels' extra).labels.place? l =
        (f.advance.labels.place? l).map (m.relayout b labels' extra).place := by
    show labels'.place? l = (f.labels.place? l).map (m.place b)
    rw [hf.labels]
    exact hmoved l
  have hframe : M.execOp ((m.relayout b labels' extra).frame f.advance) w o =
      (m.relayout b labels' extra).request (M.execOp f.advance w o) :=
    Relayout.exec_frame (i := .op o) M hreports w hslots' hlabels
  rw [advance_relayout hi, hframe]
  cases hexec : M.execOp f.advance w o with
  | proceed g w' => exact .proceed hextra
  | leave v w' => exact .leave
  | call g t args w' => exact absurd hexec Machine.execOp_ne_call
  | stop e w' =>
    refine .stop ?_
    cases e with
    | breach | endless => exact .same _
    | fault reason =>
      cases reason with
      | stackUnderflow method k =>
        have hk := Machine.place_of_underflow hslots' hexec
        have hplace : m.place b (k + 1) = m.place b k + 1 := by
          rw [hk]
          exact place_succ_of_op hi
        exact .underflow ⟨Nat.le_refl _, by rw [hplace]; exact Nat.lt_succ_self _⟩
      | _ => exact .same _

theorem readyFor_call (hf : f.Runs b labels)
    (hextra : extra.size = (b.code.flatMap m.slotTypesFor).length)
    (hfew : (m.redirected b).locals.length < 2 ^ 31) {t : CallTarget} {c : Callee} {k : Nat}
    (hi : b.code[k]? = some (.call t)) (hc : m.describe (.call t) = .ok c) :
    (c.slotsFrom (m.slotsBefore b k)).ReadyFor c ((m.relayout b labels' extra).frame f).declared
      b.locals.length (f.locals ++ extra).size := by
  have htypes := slotTypesFor_of_describe hc
  have hdeclared : ((m.relayout b labels' extra).frame f).declared =
      (m.redirected b).locals.toArray := by
    show f.declared ++ (b.code.flatMap m.slotTypesFor).toArray = _
    rw [hf.declared, redirected, List.append_toArray]
  have hsize : (f.locals ++ extra).size = (m.redirected b).locals.length := by
    rw [Array.size_append, hf.locals, hextra, redirected, List.length_append]
  refine Callee.readyFor_slotsFrom ?_ (Nat.le_add_right _ _) ?_ (hsize ▸ hfew)
  · intro j hj
    rw [hdeclared, List.getElem?_toArray, ← htypes]
    exact getElem?_locals_redirected hi (htypes ▸ hj)
  · rw [hsize, ← htypes]
    exact slotsBefore_add_le hi

theorem mirrors_call (hf : f.Runs b labels)
    (hextra : extra.size = (b.code.flatMap m.slotTypesFor).length)
    (hfew : (m.redirected b).locals.length < 2 ^ 31) {t : CallTarget} {c : Callee}
    {callee : MethodIdentity} (hi : b.code[f.next]? = some (.call t))
    (hc : m.describe (.call t) = .ok c) (hsignature : callee.signature = c.signature)
    (hresolve : M.identities.resolve? c.declaringType c.method = some callee) :
    m.Mirrors b labels' (M.interceptCall f.advance w callee)
      (M.execOps (m.opsFor (m.slotsBefore b f.next) (.call t))
        ((m.relayout b labels' extra).frame f) w) := by
  let F := (m.relayout b labels' extra).frame f
  have hops := opsFor_of_describe hc (m.slotsBefore b f.next)
  have hready : (c.slotsFrom (m.slotsBefore b f.next)).ReadyFor c F.declared b.locals.length
      (f.locals ++ extra).size := readyFor_call hf hextra hfew hi hc
  have hnext : m.place b (f.next + 1) = m.place b f.next +
      (c.expansion (c.slotsFrom (m.slotsBefore b f.next))).length := by
    rw [place_succ hi, hops]
  rw [hops]
  unfold Machine.interceptCall
  rw [hsignature]
  cases hcall : f.advance.passCall c.signature with
  | error e =>
    have hplace (j : Nat)
        (hj : j < (c.expansion (c.slotsFrom (m.slotsBefore b f.next))).length) :
        m.StandsFor b (f.advance.next - 1) (m.place b f.next + j) := by
      show m.StandsFor b f.next (m.place b f.next + j)
      exact ⟨Nat.le_add_right _ _, by omega⟩
    obtain ⟨e', hrun, hcounterpart⟩ := Machine.execOps_expansion_error (M := M) (w := w) (F := F)
      (f := f.advance) hready rfl hplace hcall
    exact hrun ▸ .stop hcounterpart
  | ok r =>
    obtain ⟨receiver, args, g⟩ := r
    obtain ⟨⟨rest, hg⟩, _⟩ := Frame.passCall_eq_ok hcall
    obtain ⟨L, hsizeL, hsame, hrun⟩ := Machine.execOps_expansion (M := M) (w := w) (F := F)
      (p := m.place b f.next) hready hresolve hcall
    have hF : F.holding f.advance.stack (f.locals ++ extra) (m.place b f.next) = F := rfl
    rw [hF] at hrun
    rw [hrun]
    -- the slots behind the old locals are all that the expansion has changed
    obtain ⟨extra', hextra', hL⟩ := exists_eq_append_of_agree hsizeL (hf.locals ▸ hsame)
    have hmirror (rest' : List Value) (w' : World σ) :
        m.Mirrors b labels' (.proceed { f.advance with stack := rest' } w')
          (.proceed (F.holding rest' L (m.place b f.next +
            (c.expansion (c.slotsFrom (m.slotsBefore b f.next))).length)) w') := by
      rw [hL, ← hnext]
      exact .proceed (hextra'.trans hextra)
    simp only
    cases M.host.intercept (M.host.installed w.host) receiver args callee
        (w.layOut args.toArray) with
    | mk answer w' =>
      cases answer with
      | error e => exact .stop (.same _)
      | ok v =>
        simp only
        obtain ⟨rest', htake⟩ | ⟨e, htake⟩ :=
          Machine.takeAnswer_cases g w' c.signature.returns v
        · rw [htake, hg]
          exact hmirror rest' w'
        · rw [htake]
          exact .stop (.same _)

end Module

end Interpose
