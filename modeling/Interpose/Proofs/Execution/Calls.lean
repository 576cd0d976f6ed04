import Mathlib.Data.List.Forall2
import Mathlib.Logic.Relation
import Interpose.Proofs.Execution.Continues
import Interpose.Proofs.Execution.Executes

/-!
# Calls

What it takes for `Machine::call` to enter a method, what a direct call hands over, and what comes
back: a method that returns gives a value of its declared type. The states between a call and the
code behind it are those that steps lead through.
-/

namespace Interpose

/-! ### Entering methods -/

theorem Frame.enter_eq_ok_iff {name : String} {s : Signature} {b : Body} {args : List Value}
    {f : Frame} : Frame.enter name s b args = .ok f ↔
      ∃ labels, indexLabels name b.code = .ok labels ∧
        f = ⟨name, s.returns, b.code.toArray, labels, b.locals.toArray, args.toArray,
          (b.locals.map Value.default).toArray, [], 0⟩ := by
  unfold Frame.enter
  cases indexLabels name b.code with
  | error e => exact ⟨fun h => (nomatch h), fun ⟨_, h, _⟩ => (nomatch h)⟩
  | ok labels =>
    constructor
    · intro h
      cases h
      exact ⟨labels, rfl, rfl⟩
    · intro ⟨labels', hlabels, hf⟩
      cases hlabels
      rw [hf]

theorem Frame.enter_eq_error {name : String} {s : Signature} {b : Body}
    {args : List Value} {e : Fault}
    (h : Frame.enter name s b args = .error e) : ∃ l, e = .unknownLabel name l := by
  unfold Frame.enter indexLabels at h
  simp only at h
  cases hlabel : missingLabel? (LabelIndex.collect [] 0 b.code) b.code with
  | none => rw [hlabel] at h; cases h
  | some l =>
    rw [hlabel] at h
    cases h
    exact ⟨l.id, rfl⟩

namespace Machine

variable {σ : Type} {M : Machine σ} {t : MethodToken} {args : List Value} {depth : Nat}
  {w w' : World σ}

theorem checkArgs_eq_ok_iff {h : Heap} {name : String} {types : List DataType}
    {values : List Value} (hlength : values.length = types.length) :
    checkArgs h name types values = .ok () ↔
      List.Forall₂ (fun t v => Value.fits v t = true) types values := by
  induction types generalizing values with
  | nil =>
    rw [List.length_nil, List.length_eq_zero_iff] at hlength
    rw [hlength]
    exact ⟨fun _ => .nil, fun _ => rfl⟩
  | cons t types ih =>
    cases values with
    | nil => cases hlength
    | cons v values =>
      unfold checkArgs
      rw [List.forall₂_cons]
      by_cases hfits : v.fits t = true
      · rw [if_pos hfits, ih (Nat.succ.inj hlength)]
        exact ⟨fun h => ⟨hfits, h⟩, fun h => h.2⟩
      · rw [if_neg hfits]
        exact ⟨fun h => absurd h Heap.refuse_ne_ok, fun h => absurd h.1 hfits⟩

theorem checkCall_eq_ok_iff {h : Heap} {name : String} {s : Signature} :
    checkCall h name s args = .ok () ↔ args.length = s.arity ∧
      List.Forall₂ (fun t v => Value.fits v t = true) s.params (args.drop s.receivers) := by
  unfold checkCall withoutReceiver
  by_cases hlength : args.length = s.arity
  · have hreceivers : ¬args.length < s.receivers := by
      unfold Signature.arity at hlength
      omega
    have hparams : (args.drop s.receivers).length = s.params.length := by
      rw [List.length_drop, hlength]
      exact Nat.add_sub_cancel _ _
    rw [if_neg (not_not_intro hlength), if_neg hreceivers]
    exact (checkArgs_eq_ok_iff hparams).trans ⟨fun h => ⟨hlength, h⟩, fun h => h.2⟩
  · rw [if_pos hlength]
    exact ⟨fun h => (nomatch h), fun h => absurd h.1 hlength⟩

theorem enter_eq_iff {r : Entry σ} (hr : ∀ e w', r ≠ .stop e w') :
    M.enter t args depth w = r ↔
      depth < M.limits.callDepth ∧ ∃ d, M.module.method? t = some d ∧
        checkCall w.heap (M.module.qualifiedName t) d.signature args = .ok () ∧
        M.enterChecked t d args w = r := by
  unfold enter
  by_cases hdepth : M.limits.callDepth ≤ depth
  · rw [if_pos hdepth]
    exact ⟨fun h => absurd h.symm (hr _ _), fun h => absurd h.1 (Nat.not_lt_of_le hdepth)⟩
  · rw [if_neg hdepth]
    have hroom : depth < M.limits.callDepth := Nat.lt_of_not_le hdepth
    cases hd : M.module.method? t with
    | none => exact ⟨fun h => absurd h.symm (hr _ _), fun ⟨_, _, h, _⟩ => (nomatch h)⟩
    | some d =>
      simp only
      cases hcheck : checkCall w.heap (M.module.qualifiedName t) d.signature args with
      | error e =>
        refine ⟨fun h => absurd h.symm (hr _ _), fun ⟨_, d', hd', hok, _⟩ => ?_⟩
        cases hd'
        exact nomatch hcheck.symm.trans hok
      | ok u =>
        constructor
        · intro h
          exact ⟨hroom, d, rfl, hcheck, h⟩
        · intro ⟨_, d', hd', _, h⟩
          cases hd'
          exact h

theorem enter_eq_body_iff {f : Frame} : M.enter t args depth w = .body f w' ↔
    depth < M.limits.callDepth ∧ w' = w ∧ ∃ d b, M.module.method? t = some d ∧ d.body = some b ∧
      checkCall w.heap (M.module.qualifiedName t) d.signature args = .ok () ∧
      Frame.enter (M.module.qualifiedName t) d.signature b args = .ok f := by
  rw [enter_eq_iff (r := .body f w') nofun]
  constructor
  · intro ⟨hroom, d, hd, hcheck, h⟩
    unfold enterChecked at h
    split at h
    · rename_i b hb
      split at h
      · cases h
      · rename_i g hf
        cases h
        exact ⟨hroom, rfl, d, b, hd, hb, hcheck, hf⟩
    · split at h
      · cases h
      · split at h <;> cases h
  · intro ⟨hroom, hw, d, b, hd, hb, hcheck, hf⟩
    refine ⟨hroom, d, hd, hcheck, ?_⟩
    simp only [enterChecked, hb, hf, hw]

theorem enter_eq_result_iff {v : Option Value} : M.enter t args depth w = .result v w' ↔
    depth < M.limits.callDepth ∧ ∃ d run, M.module.method? t = some d ∧ d.body = none ∧
      checkCall w.heap (M.module.qualifiedName t) d.signature args = .ok () ∧
      M.host.native? t = some run ∧ run args w = (.ok v, w') := by
  rw [enter_eq_iff (r := .result v w') nofun]
  constructor
  · intro ⟨hroom, d, hd, hcheck, h⟩
    unfold enterChecked at h
    split at h
    · split at h <;> cases h
    · rename_i hb
      split at h
      · cases h
      · rename_i run hrun
        split at h
        · cases h
        · rename_i v' w'' hv
          cases h
          exact ⟨hroom, d, run, hd, hb, hcheck, hrun, hv⟩
  · intro ⟨hroom, d, run, hd, hb, hcheck, hrun, hv⟩
    refine ⟨hroom, d, hd, hcheck, ?_⟩
    simp only [enterChecked, hb, hrun, hv]

/-! ### Methods that are not entered -/

theorem checkArgs_eq_error {h : Heap} {name : String} {types : List DataType} {values : List Value}
    {e : Stop} (he : checkArgs h name types values = .error e) : h.Rejects (· ∈ values) e := by
  induction types generalizing values with
  | nil => cases he
  | cons t types ih =>
    cases values with
    | nil => cases he
    | cons v values =>
      unfold checkArgs at he
      split at he
      · exact (ih he).mono fun u hu => List.mem_cons_of_mem v hu
      · exact Heap.rejects_of_refuse List.mem_cons_self (fun _ => rfl) he

theorem checkCall_eq_error {h : Heap} {name : String} {s : Signature} {e : Stop}
    (he : checkCall h name s args = .error e) : h.Rejects (· ∈ args) e := by
  unfold checkCall withoutReceiver at he
  split at he
  · cases he
    exact .fault rfl
  · rename_i hlength
    -- the arguments are counted before the receiver is split off
    have hreceivers : ¬args.length < s.receivers := by
      unfold Signature.arity at hlength
      omega
    rw [if_neg hreceivers] at he
    exact (checkArgs_eq_error he).mono fun u hu => List.mem_of_mem_drop hu

/-- What a method of the host answers to a call that is made below `depth` frames. -/
def NativeAnswers (M : Machine σ) (t : MethodToken) (args : List Value) (depth : Nat) (w : World σ)
    (answer : Except (NoAnswer Fault) (Option Value)) (w' : World σ) : Prop :=
  depth < M.limits.callDepth ∧ ∃ d run, M.module.method? t = some d ∧ d.body = none ∧
    checkCall w.heap (M.module.qualifiedName t) d.signature args = .ok () ∧
    M.host.native? t = some run ∧ run args w = (answer, w')

/-- Why a method is not entered. -/
inductive EntryFails (M : Machine σ) (t : MethodToken) (args : List Value) (depth : Nat)
    (w : World σ) : Stop → World σ → Prop
  | depth (hdepth : M.limits.callDepth ≤ depth) :
      EntryFails M t args depth w (.fault (.callDepthExceeded M.limits.callDepth)) w
  | method (ht : M.module.method? t = none) :
      EntryFails M t args depth w (.fault (.methodNotFound t.text)) w
  | args {e : Stop} (he : w.heap.Rejects (· ∈ args) e) : EntryFails M t args depth w e w
  | label {name : String} {l : UInt32} :
      EntryFails M t args depth w (.fault (.unknownLabel name l)) w
  | unregistered {name : String} : EntryFails M t args depth w (.fault (.missingNative name)) w
  | native {e : NoAnswer Fault} {w' : World σ}
      (answers : M.NativeAnswers t args depth w (.error e) w') :
      EntryFails M t args depth w e.stop w'

theorem entryFails_of_enter {e : Stop} (h : M.enter t args depth w = .stop e w') :
    M.EntryFails t args depth w e w' := by
  unfold enter at h
  split at h
  · rename_i hdepth
    cases h
    exact .depth hdepth
  · rename_i hdepth
    split at h
    · rename_i ht
      cases h
      exact .method ht
    · rename_i d ht
      split at h
      · rename_i e' hcheck
        cases h
        exact .args (checkCall_eq_error hcheck)
      · rename_i hcheck
        unfold enterChecked at h
        split at h
        · split at h
          · rename_i x henter
            cases h
            obtain ⟨l, rfl⟩ := Frame.enter_eq_error henter
            exact .label
          · cases h
        · rename_i hbody
          split at h
          · cases h
            exact .unregistered
          · rename_i run hrun
            split at h
            · rename_i x w₁ hanswer
              cases h
              exact .native ⟨Nat.lt_of_not_le hdepth, d, run, ht, hbody, hcheck, hrun, hanswer⟩
            · cases h

/-! ### Direct calls -/

variable {f g : Frame}

theorem popMany_eq_ok_iff {n : Nat} : f.popMany n = .ok (args, g) ↔
    args.length = n ∧ ∃ rest, f.stack = args.reverse ++ rest ∧ g = { f with stack := rest } := by
  rw [Frame.popMany_eq]
  constructor
  · intro h
    split at h
    · rename_i hn
      cases h
      refine ⟨?_, f.stack.drop n, ?_, rfl⟩
      · rw [List.length_reverse, List.length_take_of_le hn]
      · rw [List.reverse_reverse, List.take_append_drop]
    · cases h
  · intro ⟨hlength, rest, hstack, hg⟩
    have hn : n = args.reverse.length := by rw [List.length_reverse, hlength]
    rw [hg, hstack, if_pos (by rw [List.length_append]; omega), hn, List.take_left, List.drop_left,
      List.reverse_reverse]

/-- A direct call takes as many values as its callee wants, the one pushed first in front. -/
theorem exec_call_eq_iff {u : MethodToken} :
    M.exec f w (.call (.direct t)) = .call g u args w' ↔
      u = t ∧ w' = w ∧ ∃ d rest, M.module.method? t = some d ∧ args.length = d.signature.arity ∧
        f.stack = args.reverse ++ rest ∧ g = { f with stack := rest } := by
  have hcallArgs : M.callArgs f (.direct t) =
      (M.arityOf t >>= fun n => f.popMany n >>= fun p => .ok (t, p.1, p.2)) := rfl
  unfold exec
  simp only [hcallArgs, arityOf]
  constructor
  · intro h
    cases hd : M.module.method? t with
    | none => rw [hd] at h; cases h
    | some d =>
      simp only [hd, bind, Except.bind] at h
      cases hpop : f.popMany d.signature.arity with
      | error e => rw [hpop] at h; cases h
      | ok p =>
        rw [hpop] at h
        cases h
        obtain ⟨hlength, rest, hstack, hg⟩ := popMany_eq_ok_iff.1 hpop
        exact ⟨rfl, rfl, d, rest, rfl, hlength, hstack, hg⟩
  · intro h
    obtain ⟨ht, hw, d, rest, hd, hlength, hstack, hg⟩ := h
    simp only [hd, bind, Except.bind, popMany_eq_ok_iff.2 ⟨hlength, rest, hstack, hg⟩, ht, hw]

theorem continues_of_exec_call {i : Instr} (h : M.exec f w i = .call g t args w') :
    f.Continues none g :=
  (moves_of_exec_call h).continues

theorem returns_resume (g : Frame) (v : Option Value) : (resume g v).returns = g.returns := by
  cases v <;> rfl

theorem code_resume (g : Frame) (v : Option Value) : (resume g v).code = g.code := by
  cases v <;> rfl

theorem returns_of_exec_proceed {i : Instr} {f' : Frame} (h : M.exec f w i = .proceed f' w') :
    f'.returns = f.returns := by
  exact (Frame.Continues.of_exec h).returns

/-! ### Results -/

theorem admits_of_ending {v : Option Value} (h : f.ending = .ok v) :
    f.returns.admits v = true := by
  unfold Frame.ending at h
  cases hreturns : f.returns with
  | void =>
    rw [hreturns] at h
    cases h
    rfl
  | value t => rw [hreturns] at h; cases h

theorem Executes.admits {n : Nat} {c : Completion σ} (h : M.Executes depth f w n c)
    {v : Option Value} (hv : c.outcome = .ok v) : f.returns.admits v = true := by
  induction h with
  | ending code => exact admits_of_ending hv
  | limit code limit => cases hv
  | proceed code room exec rest ih =>
    have hreturns := returns_of_exec_proceed exec
    exact hreturns ▸ ih hv
  | leave code room exec =>
    cases hv
    have hadmits := admits_of_exec_leave exec
    exact hadmits
  | stop code room exec => cases hv
  | refused code room exec entry => cases hv
  | native code room exec entry rest ih =>
    have hreturns := (continues_of_exec_call exec).returns
    rw [returns_resume] at ih
    exact hreturns ▸ ih hv
  | failed code room exec entry inner ih => cases hv
  | returned code room exec entry inner rest ihInner ihRest =>
    have hreturns := (continues_of_exec_call exec).returns
    rw [returns_resume] at ihRest
    exact hreturns ▸ ihRest hv

/-- A call that comes to a result: of a method of the host at once, of a method with a body when its
frame comes to one. -/
inductive Returns (M : Machine σ) (t : MethodToken) (args : List Value) (depth : Nat) (w : World σ)
    (n : Nat) : Option Value → World σ → (k : Nat) → Prop
  | native {v w'} (entry : M.enter t args depth w = .result v w') :
      M.Returns t args depth w n v w' n
  | body {f w₁ v w' k} (entry : M.enter t args depth w = .body f w₁)
      (inner : M.Executes depth f w₁ n ⟨.ok v, w', k⟩) : M.Returns t args depth w n v w' k

theorem Returns.invoke_eq {v : Option Value} {k : Nat} (h : M.Returns t args 0 w 0 v w' k) :
    M.invoke t args w = ⟨.ok v, w', k⟩ := by
  cases h with
  | native entry => rw [invoke, entry]
  | body entry inner => exact invoke_eq_of_executes entry inner

theorem returns_of_invoke {v : Option Value} (h : (M.invoke t args w).outcome = .ok v) :
    M.Returns t args 0 w 0 v (M.invoke t args w).world (M.invoke t args w).steps := by
  cases entry : M.enter t args 0 w with
  | stop e w₁ =>
    rw [invoke, entry] at h
    cases h
  | result u w₁ =>
    rw [invoke, entry] at h ⊢
    cases h
    exact .native entry
  | body f w₁ =>
    have hend : M.invoke t args w =
        ⟨.ok v, (M.invoke t args w).world, (M.invoke t args w).steps⟩ := by rw [← h]
    have hexecutes := executes_of_invoke entry
    rw [hend] at hexecutes
    exact .body entry hexecutes

theorem returns_of_enter {name : String} {s : Signature} {b : Body}
    (h : Frame.enter name s b args = .ok f) : f.returns = s.returns := by
  obtain ⟨_, _, rfl⟩ := Frame.enter_eq_ok_iff.1 h
  rfl

/-- A method with a body gives a value of its declared type; methods of the host may not. -/
theorem Returns.admits {d : MethodDef} {v : Option Value} {n k : Nat}
    (h : M.Returns t args depth w n v w' k) (hd : M.module.method? t = some d)
    (hnative : M.enter t args depth w = .result v w' → d.signature.returns.admits v = true) :
    d.signature.returns.admits v = true := by
  cases h with
  | native entry => exact hnative entry
  | @body f w₁ _ _ _ entry inner =>
    obtain ⟨_, _, d', b, hd', _, _, hframe⟩ := enter_eq_body_iff.1 entry
    cases hd.symm.trans hd'
    exact returns_of_enter hframe ▸ inner.admits rfl

/-- The arguments of a call that is entered conform to the signature of the callee. -/
theorem Returns.checkCall_eq_ok {d : MethodDef} {v : Option Value} {n k : Nat}
    (h : M.Returns t args depth w n v w' k) (hd : M.module.method? t = some d) :
    checkCall w.heap (M.module.qualifiedName t) d.signature args = .ok () := by
  cases h with
  | native entry =>
    obtain ⟨_, d', _, hd', _, hcheck, _⟩ := enter_eq_result_iff.1 entry
    cases hd.symm.trans hd'
    exact hcheck
  | body entry inner =>
    obtain ⟨_, _, d', _, hd', _, hcheck, _⟩ := enter_eq_body_iff.1 entry
    cases hd.symm.trans hd'
    exact hcheck

/-! ### States on the way -/

def Reaches (M : Machine σ) : State σ → State σ → Prop :=
  Relation.ReflTransGen fun s s' => M.step s = .running s'

def Visits (M : Machine σ) (t : MethodToken) (args : List Value) (w : World σ) (s : State σ) :
    Prop :=
  ∃ f w', M.enter t args 0 w = .body f w' ∧ M.Reaches ⟨f, [], w', 0⟩ s

/-- A frame that comes to a result leads to the code behind the call that it was made for. -/
theorem Executes.reaches {n : Nat} {c : Completion σ} (h : M.Executes depth f w n c)
    {v : Option Value} (hv : c.outcome = .ok v) {callers : List Frame}
    (hdepth : callers.length + 1 = depth) (caller : Frame) :
    M.Reaches ⟨f, caller :: callers, w, n⟩ ⟨resume caller v, callers, c.world, c.steps⟩ := by
  induction h generalizing v callers caller with
  | ending code =>
    refine Relation.ReflTransGen.single ?_
    simp only at hv
    simp only [step, code, hv, Machine.leave]
  | limit code limit => cases hv
  | proceed code room exec rest ih =>
    refine Relation.ReflTransGen.head ?_ (ih hv hdepth caller)
    simp only [step_of_exec code room, exec, serve]
  | leave code room exec =>
    cases hv
    refine Relation.ReflTransGen.single ?_
    simp only [step_of_exec code room, exec, serve, Machine.leave]
  | stop code room exec => cases hv
  | refused code room exec entry => cases hv
  | native code room exec entry rest ih =>
    refine Relation.ReflTransGen.head ?_ (ih hv hdepth caller)
    simp only [step_of_exec code room, exec, serve, List.length_cons, hdepth, entry]
  | failed code room exec entry inner ih => cases hv
  | @returned depth f w n i g t args w₁ callee w₂ u w₃ k c code room exec entry inner rest ihInner
      ihRest =>
    have hcallee := @ihInner u rfl (caller :: callers) (congrArg Nat.succ hdepth) g
    refine Relation.ReflTransGen.head ?_ (hcallee.trans (ihRest hv hdepth caller))
    simp only [step_of_exec code room, exec, serve, List.length_cons, hdepth, entry]

end Machine

end Interpose
