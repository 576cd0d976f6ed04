import Mathlib.Data.List.Forall2
import Interpose.Proofs.Execution.Scripts
import Interpose.Proofs.Execution.Texts
import Interpose.Proofs.Image.References

/-!
# What a step can do

Operands that no instruction can tell apart come to like effects. `Machine.script_alike` goes
through the instructions of `Machine::execute` once to say so, in terms of what is handed on and why
an instruction refuses; `Machine.exec_alike` carries it to frames. What a step keeps is the case of
one frame beside itself.
-/

namespace Interpose

/-- Whether a result conforms to a declared one. -/
def ReturnType.admits : ReturnType → Option Value → Bool
  | .void, none => true
  | .value t, some v => v.fits t
  | _, _ => false

/-! ### Two computations side by side -/

/-- Whether two computations come to results that are related, or both to none, the first for a
reason of a kind. -/
inductive Parallel {α β : Type} (R : α → β → Prop) (E : Stop → Prop) :
    Except Stop α → Except Stop β → Prop
  | ok {a b} (h : R a b) : Parallel R E (.ok a) (.ok b)
  | error {e e'} (h : E e) : Parallel R E (.error e) (.error e')

theorem Parallel.self {α : Type} {R : α → α → Prop} {E : Stop → Prop} {x : Except Stop α}
    (h : Parallel R E x x) : (∃ a, x = .ok a ∧ R a a) ∨ ∃ e, x = .error e ∧ E e := by
  cases x with
  | ok a => cases h with | ok h => exact .inl ⟨a, rfl, h⟩
  | error e => cases h with | error h => exact .inr ⟨e, rfl, h⟩

/-- The same for scripts that are given related operands. -/
inductive Script.Parallel (V : Value → Value → Prop) (R : Effect → Effect → Prop)
    (E : Stop → Prop) : Script → Script → Prop
  | fail {e e'} (h : E e) : Script.Parallel V R E (.fail e) (.fail e')
  | done {x x'} (h : R x x') : Script.Parallel V R E (.done x) (.done x')
  | take {next next'} (h : ∀ v v', V v v' → Script.Parallel V R E (next v) (next' v')) :
      Script.Parallel V R E (.take next) (.take next')

namespace Script.Parallel

variable {α β : Type} {V : Value → Value → Prop} {R : Effect → Effect → Prop} {E : Stop → Prop}
  {s s' : Script}

theorem check {S : α → β → Prop} {x : Except Stop α} {x' : Except Stop β} {next : α → Script}
    {next' : β → Script} (hx : Interpose.Parallel S E x x')
    (hnext : ∀ a b, S a b → Script.Parallel V R E (next a) (next' b)) :
    Script.Parallel V R E (.check x next) (.check x' next') := by
  cases hx with
  | ok h => exact hnext _ _ h
  | error h => exact .fail h

theorem takeMany {n : Nat} {next next' : List Value → Script}
    (hnext : ∀ values values', values.length = n → List.Forall₂ V values values' →
      Script.Parallel V R E (next values) (next' values')) :
    Script.Parallel V R E (.takeMany n next) (.takeMany n next') := by
  induction n generalizing next next' with
  | zero => exact hnext [] [] rfl .nil
  | succ n ih =>
    refine .take fun v v' hv => ih fun values values' hlength hvalues => ?_
    refine hnext _ _ ?_ (List.rel_append hvalues (.cons hv .nil))
    rw [List.length_append, hlength, List.length_singleton]

/-- Scripts side by side in two frames with related stacks. -/
theorem run (hs : s.Parallel V R E s') {f f' : Frame} (hstack : List.Forall₂ V f.stack f'.stack) :
    Interpose.Parallel
      (fun p p' => R p.1 p'.1 ∧ ∃ rest rest', p.2 = { f with stack := rest } ∧
        p'.2 = { f' with stack := rest' } ∧ List.Forall₂ V rest rest')
      (fun e => E e ∨ e = f.underflow) (s.run f) (s'.run f') := by
  induction hs generalizing f f' with
  | fail h => exact .error (.inl h)
  | done h => exact .ok ⟨h, f.stack, f'.stack, rfl, rfl, hstack⟩
  | take h ih =>
    rw [run_take, run_take]
    unfold Frame.pop
    cases hf : f.stack with
    | nil =>
      have hf' : f'.stack = [] := List.forall₂_nil_left_iff.1 (hf ▸ hstack)
      rw [hf']
      exact .error (.inr rfl)
    | cons v rest =>
      obtain ⟨v', rest', hv, hrest, hf'⟩ := List.forall₂_cons_left_iff.1 (hf ▸ hstack)
      rw [hf']
      have hstack' : List.Forall₂ V ({ f with stack := rest } : Frame).stack
          ({ f' with stack := rest' } : Frame).stack := hrest
      exact ih v v' hv hstack'

end Script.Parallel

/-! ### Like operands -/

/-- Whether there is no array and no function in a value. -/
def Value.isClosed : Value → Bool
  | .array _ | .function _ => false
  | .boxed v => v.isClosed
  | _ => true

/-- Whether a value is of a value type. -/
def Value.isPrimitive : Value → Bool
  | .bool _ | .int32 _ | .int64 _ | .float64 _ => true
  | _ => false

namespace Value

variable {v : Value}

theorem isClosed_of_isPrimitive (hv : v.isPrimitive = true) : v.isClosed = true := by
  cases v with
  | bool _ | int32 _ | int64 _ | float64 _ => rfl
  | _ => cases hv

theorem isPrimitive_of_fits {t : DataType} (hv : v.fits t = true) (ht : t.isValueType = true) :
    v.isPrimitive = true := by
  cases t with
  | bool | int32 | int64 | float64 =>
    cases v with
    | bool _ | int32 _ | int64 _ | float64 _ => rfl
    | _ => cases hv
  | _ => cases ht

end Value

theorem Value.array?_of_isClosed {v : Value} (hv : v.isClosed = true) : v.array? = none := by
  induction v with
  | array r => cases hv
  | boxed v ih => exact ih hv
  | _ => rfl

theorem BinaryOp.isPrimitive_of_apply {o : BinaryOp} {v u r : Value} (h : o.apply v u = .ok r) :
    v.isPrimitive = true ∧ u.isPrimitive = true ∧ r.isPrimitive = true := by
  unfold BinaryOp.apply at h
  split at h
  all_goals cases h
  all_goals exact ⟨rfl, rfl, rfl⟩

theorem BinaryOp.apply_eq_error {o : BinaryOp} {v u : Value} {e : Stop}
    (h : o.apply v u = .error e) : ∃ cause, e = .fault (.typeMismatch cause) := by
  unfold BinaryOp.apply at h
  split at h
  all_goals cases h
  exact ⟨_, rfl⟩

/-- What instructions can tell of operands: they are told apart by an array that is in them at most,
and like arrays hold like elements. What is handed on is related as `W` says, which may ask less
than what `V` asks of operands. -/
structure Heap.Alike (V W : Value → Value → Prop) (h h' : Heap) : Prop where
  handed {v v'} (hv : V v v') : W v v'
  closed {v} (hv : v.isClosed = true) : W v v
  eq_of_array? {v v'} (hv : V v v') (harray : v.array? = none) : v' = v
  array {r v'} (hv : V (.array r) v') : ∃ r', v' = .array r' ∧ h'.elem r' = h.elem r ∧
    h'.length r' = h.length r ∧
      ∀ i u, h.get? r i = some u → ∃ u', h'.get? r' i = some u' ∧ W u u'
  boxed {u v'} (hv : V (.boxed u) v') : ∃ u', v' = .boxed u' ∧ ∀ t, u'.fits t = u.fits t
  equals {v v' u u'} (hv : V v v') (hu : V u u') : v'.equals u' = v.equals u

/-- The same value on both sides, with a property. -/
def Value.Same (P : Value → Prop) (v v' : Value) : Prop := v' = v ∧ P v

/-- One heap beside itself: operands have a property, and what is handed on has one that follows. -/
theorem Heap.Alike.self {h : Heap} {P Q : Value → Prop} (handed : ∀ v, P v → Q v)
    (closed : ∀ v, v.isClosed = true → Q v)
    (element : ∀ r i u, P (.array r) → h.get? r i = some u → Q u) :
    h.Alike (Value.Same P) (Value.Same Q) h where
  handed hv := ⟨hv.1, handed _ hv.2⟩
  closed hv := ⟨rfl, closed _ hv⟩
  eq_of_array? hv _ := hv.1
  array {r v'} hv := by
    obtain ⟨rfl, hr⟩ := hv
    exact ⟨r, rfl, rfl, rfl, fun i u hu => ⟨u, hu, rfl, element r i u hr hu⟩⟩
  boxed {u v'} hv := ⟨u, hv.1, fun _ => rfl⟩
  equals hv hu := by rw [hv.1, hu.1]

/-- Two values that are the same, unless both refer to an array or both are boxed. -/
inductive Value.Similar : Value → Value → Prop
  | same (v : Value) : Similar v v
  | array (r r' : ArrayRef) : Similar (.array r) (.array r')
  | boxed (u u' : Value) : Similar (.boxed u) (.boxed u')

theorem Heap.Alike.similar {V W : Value → Value → Prop} {h h' : Heap} (hV : h.Alike V W h')
    {v v' : Value} (hv : V v v') : v.Similar v' := by
  cases v with
  | array r =>
    obtain ⟨r', rfl, _⟩ := hV.array hv
    exact .array r r'
  | boxed u =>
    obtain ⟨u', rfl, _⟩ := hV.boxed hv
    exact .boxed u u'
  | _ =>
    cases hV.eq_of_array? hv rfl
    exact .same _

/-- Faults that arise over the operands of an instruction. -/
def Fault.isOverOperands : Fault → Bool
  | .typeMismatch _ | .invalidCast _ _ | .indexOutOfRange _ _ | .unknownIdentity _ _
  | .arityMismatch _ _ _ => true
  | _ => false

/-- Why a run ends over values that are not what is asked for: with a fault that shows one, or in
writing one that leads to an array that lies in itself. -/
inductive Heap.Rejects (h : Heap) (P : Value → Prop) : Stop → Prop
  | fault {e : Fault} (he : e.isOverOperands = true) : h.Rejects P (.fault e)
  | endless {v : Value} (hv : P v) (hloops : h.Loops v) : h.Rejects P .endless

theorem Heap.Rejects.mono {h : Heap} {P Q : Value → Prop} {e : Stop} (he : h.Rejects P e)
    (hPQ : ∀ v, P v → Q v) : h.Rejects Q e := by
  cases he with
  | fault he => exact .fault he
  | endless hv hloops => exact .endless (hPQ _ hv) hloops

theorem Heap.rejects_of_refuse {α : Type} {h : Heap} {P : Value → Prop} {wording : Wording}
    {v : Value} {fault : String → Fault} {e : Stop} (hv : P v)
    (hfault : ∀ s, (fault s).isOverOperands = true)
    (he : (h.refuse wording v fault : Except Stop α) = .error e) : h.Rejects P e := by
  unfold Heap.refuse at he
  split at he
  · cases he
    exact .fault (hfault _)
  · rename_i hnone
    cases he
    exact .endless hv (write?_eq_none_iff.1 hnone)

theorem Heap.refuse_ne_ok {α : Type} {h : Heap} {wording : Wording} {v : Value}
    {fault : String → Fault} {a : α} : h.refuse wording v fault ≠ .ok a := by
  unfold Heap.refuse
  split <;> exact nofun

/-- Why an instruction that has its operands does nothing with them. -/
inductive Module.Refuses (m : Module) (h : Heap) (V W : Value → Value → Prop) : Stop → Prop
  | operands {e : Stop} (he : h.Rejects (fun v => ∃ v', V v v') e) : Refuses m h V W e
  | method {t : MethodToken} (ht : m.method? t = none) (hfunction : W (.function t) (.function t)) :
      Refuses m h V W (.fault (.methodNotFound t.text))

section Operands

variable {m : Module} {V W : Value → Value → Prop} {h h' : Heap} {v v' u u' : Value}

namespace Heap.Alike

theorem fits_eq (hV : h.Alike V W h') (hv : V v v') (t : DataType) : v'.fits t = v.fits t := by
  cases hV.similar hv with
  | same => rfl
  | array | boxed => cases t <;> rfl

theorem isReference_eq (hV : h.Alike V W h') (hv : V v v') : v'.isReference = v.isReference := by
  cases hV.similar hv <;> rfl

theorem eq_of_isPrimitive (hV : h.Alike V W h') (hv : V v v')
    (hprimitive : v.isPrimitive = true ∨ v'.isPrimitive = true) : v' = v := by
  cases hV.similar hv with
  | same => rfl
  | array | boxed => rcases hprimitive with hv | hv <;> cases hv

theorem refuse {α β : Type} {R : α → β → Prop} (h h' : Heap) (hv : V v v') (wording : Wording)
    {fault : String → Fault} (hfault : ∀ s, (fault s).isOverOperands = true) :
    Parallel R (m.Refuses h V W) (h.refuse wording v fault) (h'.refuse wording v' fault) := by
  cases hleft : (h.refuse wording v fault : Except Stop α) with
  | ok a => exact absurd hleft refuse_ne_ok
  | error e =>
    cases hright : (h'.refuse wording v' fault : Except Stop β) with
    | ok b => exact absurd hright refuse_ne_ok
    | error e' => exact .error (.operands (rejects_of_refuse ⟨v', hv⟩ hfault hleft))

theorem count (hV : h.Alike V W h') (hv : V v v') (message : String → Mismatch) :
    Parallel Eq (m.Refuses h V W) (h.count message v) (h'.count message v') := by
  have hrefuse : Parallel Eq (m.Refuses h V W)
      (h.refuse .text v fun shown => .typeMismatch (message shown) : Except Stop Nat)
      (h'.refuse .text v' fun shown => .typeMismatch (message shown)) :=
    refuse h h' hv .text fun _ => rfl
  unfold Heap.count
  cases hV.similar hv with
  | same =>
    cases v with
    | int32 n =>
      simp only
      split
      · exact .ok rfl
      · exact hrefuse
    | _ => exact hrefuse
  | array | boxed => exact hrefuse

theorem apply (hV : h.Alike V W h') (o : BinaryOp) (hv : V v v') (hu : V u u') :
    Parallel W (m.Refuses h V W) (o.apply v u) (o.apply v' u') := by
  cases happly : o.apply v u with
  | ok r =>
    obtain ⟨hleft, hright, hr⟩ := BinaryOp.isPrimitive_of_apply happly
    rw [hV.eq_of_isPrimitive hv (.inl hleft), hV.eq_of_isPrimitive hu (.inl hright), happly]
    exact .ok (hV.closed (Value.isClosed_of_isPrimitive hr))
  | error e =>
    obtain ⟨cause, rfl⟩ := BinaryOp.apply_eq_error happly
    cases happly' : o.apply v' u' with
    | ok r =>
      obtain ⟨hleft, hright, _⟩ := BinaryOp.isPrimitive_of_apply happly'
      rw [hV.eq_of_isPrimitive hv (.inr hleft), hV.eq_of_isPrimitive hu (.inr hright), happly]
        at happly'
      cases happly'
    | error e' => exact .error (.operands (.fault rfl))

theorem truth (hV : h.Alike V W h') (hv : V v v') :
    Parallel Eq (m.Refuses h V W) v.truth v'.truth := by
  cases hV.similar hv with
  | same =>
    cases v with
    | null | bool | int32 | int64 | str | object | array | boxed => exact .ok rfl
    | _ => exact .error (.operands (.fault rfl))
  | array | boxed => exact .ok rfl

/-- What is taken out of a box is of a value type. -/
theorem coerce (hV : h.Alike V W h') (hv : V v v') (t : DataType) :
    Parallel W (m.Refuses h V W) (h.coerce v t) (h'.coerce v' t) := by
  have hrefuse : Parallel W (m.Refuses h V W)
      (h.refuse .form v fun shown => .invalidCast shown t)
      (h'.refuse .form v' fun shown => .invalidCast shown t) :=
    refuse h h' hv .form fun _ => rfl
  unfold Heap.coerce
  cases ht : t.isValueType with
  | false =>
    simp only [hV.fits_eq hv t]
    split
    · exact .ok (hV.handed hv)
    · exact hrefuse
  | true =>
    cases v with
    | boxed u =>
      obtain ⟨u', rfl, hfits⟩ := hV.boxed hv
      simp only [hfits t]
      split
      · rename_i hu
        have hclosed := Value.isClosed_of_isPrimitive (Value.isPrimitive_of_fits hu ht)
        have harray : (Value.boxed u).array? = none := Value.array?_of_isClosed hclosed
        cases hV.eq_of_array? hv harray
        exact .ok (hV.closed hclosed)
      · exact hrefuse
    | _ => cases hV.similar hv <;> exact hrefuse

end Heap.Alike

theorem Machine.arityOf_parallel {σ : Type} {M : Machine σ} {t : MethodToken}
    (ht : W (.function t) (.function t)) :
    Parallel (fun n n' => n' = n ∧ ∃ d, M.module.method? t = some d ∧ d.signature.arity = n)
      (M.module.Refuses h V W) (M.arityOf t) (M.arityOf t) := by
  unfold arityOf
  cases hd : M.module.method? t with
  | none => exact .error (.method hd ht)
  | some d => exact .ok ⟨rfl, d, rfl, rfl⟩

end Operands

/-! ### Like effects -/

/-- Whether two effects of an instruction are alike, and what is true of each effect. -/
inductive Effect.Alike (m : Module) (h : Heap) (W : Value → Value → Prop) (returns : ReturnType)
    (i : Instr) : Effect → Effect → Prop
  | push {values values'} (hvalues : List.Forall₂ W values values') :
      Alike m h W returns i (.push values) (.push values')
  | loadArg {k} (hi : i = .op (.ldarg k)) :
      Alike m h W returns i (.loadArg k.toNat) (.loadArg k.toNat)
  | storeArg {k v v'} (hi : i = .op (.starg k)) (hv : W v v') :
      Alike m h W returns i (.storeArg k.toNat v) (.storeArg k.toNat v')
  | loadLocal {s} (hi : i = .op (.ldloc s)) :
      Alike m h W returns i (.loadLocal s.position) (.loadLocal s.position)
  | storeLocal {s v v'} (hi : i = .op (.stloc s)) (hv : W v v') :
      Alike m h W returns i (.storeLocal s.position v) (.storeLocal s.position v')
  | jump {l} (hi : i.target? = some l) : Alike m h W returns i (.jump l) (.jump l)
  | leave {v v'} (hadmits : returns.admits v = true) (hv : Option.Rel W v v') :
      Alike m h W returns i (.leave v) (.leave v')
  | newObject {t} : Alike m h W returns i (.newObject t) (.newObject t)
  | newArray {t n} : Alike m h W returns i (.newArray t n) (.newArray t n)
  | store {r r' k v v'} (hr : W (.array r) (.array r')) (hv : W v v')
      (hfits : v.fits (h.elem r) = true) :
      Alike m h W returns i (.store ⟨r, k, v⟩) (.store ⟨r', k, v'⟩)
  | pushInstalled (hi : i = .op .getInterceptor) :
      Alike m h W returns i .pushInstalled .pushInstalled
  | dispatch {p callee receiver receiver' r r'} (hi : i = .op .intercept)
      (hreceiver : W receiver receiver') (hr : W (.array r) (.array r')) :
      Alike m h W returns i (.dispatch ⟨p, receiver, r, callee⟩)
        (.dispatch ⟨p, receiver', r', callee⟩)
  | call {target t d args args'} (hi : i = .call target) (ht : W (.function t) (.function t))
      (hd : m.method? t = some d) (hlength : args.length = d.signature.arity)
      (hargs : List.Forall₂ W args args') :
      Alike m h W returns i (.call t args) (.call t args')

/-! ### The scripts of the instructions -/

namespace Machine

variable {σ : Type} {M : Machine σ} {V W : Value → Value → Prop} {h h' : Heap} {method : String}
  {returns : ReturnType} {i : Instr}

/-- Whether two scripts of an instruction lead from like operands to like effects. -/
abbrev ScriptsAlike (M : Machine σ) (V W : Value → Value → Prop) (h : Heap) (returns : ReturnType)
    (i : Instr) : Script → Script → Prop :=
  Script.Parallel V (Effect.Alike M.module h W returns i) (M.module.Refuses h V W)

theorem scriptsAlike_refuse (cause cause' : Mismatch) :
    M.ScriptsAlike V W h returns i (.refuse cause) (.refuse cause') :=
  .fail (.operands (.fault rfl))

theorem scriptsAlike_push (hV : h.Alike V W h') {v : Value} (hv : v.isClosed = true) :
    M.ScriptsAlike V W h returns i (.done (.push [v])) (.done (.push [v])) :=
  .done (.push (.cons (hV.closed hv) .nil))

theorem scriptsAlike_takeArray (hV : h.Alike V W h') {next next' : ArrayRef → Script}
    (hnext : ∀ r r', V (.array r) (.array r') →
      M.ScriptsAlike V W h returns i (next r) (next' r')) :
    M.ScriptsAlike V W h returns i (.takeArray next) (.takeArray next') := by
  refine .take fun v v' hv => ?_
  cases hV.similar hv with
  | same =>
    cases v with
    | array r => exact hnext r r hv
    | _ => exact scriptsAlike_refuse _ _
  | array r r' => exact hnext r r' hv
  | boxed => exact scriptsAlike_refuse _ _

theorem binaryScript_alike (hV : h.Alike V W h') (o : BinaryOp) :
    M.ScriptsAlike V W h returns i (binaryScript o) (binaryScript o) := by
  refine .take fun right right' hright => .take fun left left' hleft => ?_
  exact .check (hV.apply o hleft hright) fun v v' hv => .done (.push (.cons hv .nil))

theorem branchScript_alike (hV : h.Alike V W h') (wanted : Bool) {l : Label}
    (hi : i.target? = some l) :
    M.ScriptsAlike V W h returns i (branchScript wanted l) (branchScript wanted l) := by
  refine .take fun v v' hv => .check (hV.truth hv) fun b b' hb => ?_
  cases hb
  split
  · exact .done (.jump hi)
  · exact .done (.push .nil)

theorem boxScript_alike (hV : h.Alike V W h') (t : DataType) :
    M.ScriptsAlike V W h returns i (boxScript t) (boxScript t) := by
  refine .take fun v v' hv => ?_
  simp only [hV.fits_eq hv t]
  split
  · rename_i hfits
    cases ht : t.isValueType with
    | true =>
      have hprimitive : v.isPrimitive = true := Value.isPrimitive_of_fits hfits ht
      have hclosed : v.isClosed = true := Value.isClosed_of_isPrimitive hprimitive
      cases hV.eq_of_isPrimitive hv (.inl hprimitive)
      exact scriptsAlike_push (v := .boxed v) hV hclosed
    | false => exact .done (.push (.cons (hV.handed hv) .nil))
  · exact scriptsAlike_refuse _ _

theorem storeScript_alike (hV : h.Alike V W h') :
    M.ScriptsAlike V W h returns i (storeScript h) (storeScript h') := by
  refine .take fun v v' hv => .take fun k k' hk => scriptsAlike_takeArray hV fun r r' hr => ?_
  refine .check (hV.count hk .arrayIndex) fun index index' hindex => ?_
  cases hindex
  obtain ⟨_, hr', helem, hlength, _⟩ := hV.array hr
  cases hr'
  simp only [hV.fits_eq hv, hV.isReference_eq hv, helem, hlength]
  split
  · rename_i hfits
    split
    · exact .done (.store (hV.handed hr) (hV.handed hv) (Bool.and_eq_true_iff.1 hfits).2)
    · exact .fail (.operands (.fault rfl))
  · exact scriptsAlike_refuse _ _

theorem elementScript_alike (hV : h.Alike V W h') :
    M.ScriptsAlike V W h returns i (elementScript h) (elementScript h') := by
  refine .take fun k k' hk => scriptsAlike_takeArray hV fun r r' hr => ?_
  refine .check (hV.count hk .arrayIndex) fun index index' hindex => ?_
  cases hindex
  obtain ⟨_, hr', _, hlength, helement⟩ := hV.array hr
  cases hr'
  cases hget : h.get? r index with
  | some v =>
    obtain ⟨v', hget', hv⟩ := helement index v hget
    rw [hget']
    exact .done (.push (.cons hv .nil))
  | none =>
    have hnone : h'.get? r' index = none := by
      unfold Heap.get? Heap.length at *
      rw [Array.getElem?_eq_none_iff] at hget ⊢
      omega
    rw [hnone]
    exact .fail (.operands (.fault rfl))

theorem returnScript_alike (hV : h.Alike V W h') :
    M.ScriptsAlike V W h returns i (returnScript method returns) (returnScript method returns) := by
  cases returns with
  | void => exact .done (.leave rfl .none)
  | value t =>
    refine .take fun v v' hv => ?_
    simp only [hV.fits_eq hv t]
    split
    · rename_i hfits
      exact .done (.leave hfits (.some (hV.handed hv)))
    · exact scriptsAlike_refuse _ _

theorem resolveScript_alike (hV : h.Alike V W h') :
    M.ScriptsAlike V W h returns i M.resolveScript M.resolveScript := by
  refine .take fun method method' hmethod => .take fun type type' htype => ?_
  cases hV.similar htype with
  | array | boxed => exact scriptsAlike_refuse _ _
  | same =>
    cases hV.similar hmethod with
    | array | boxed =>
      cases type with
      | token t => cases t <;> exact scriptsAlike_refuse _ _
      | _ => exact scriptsAlike_refuse _ _
    | same =>
      split
      · split
        · exact scriptsAlike_push hV rfl
        · exact .fail (.operands (.fault rfl))
      · exact scriptsAlike_refuse _ _

theorem dispatchScript_alike (hV : h.Alike V W h') (hi : i = .op .intercept) :
    M.ScriptsAlike V W h returns i dispatchScript dispatchScript := by
  refine .take fun callee callee' hcallee => scriptsAlike_takeArray hV fun r r' hr =>
    .take fun receiver receiver' hreceiver => .take fun p p' hp => ?_
  cases hV.similar hp with
  | array | boxed => exact scriptsAlike_refuse _ _
  | same =>
    cases hV.similar hcallee with
    | array | boxed => cases p <;> exact scriptsAlike_refuse _ _
    | same =>
      cases p with
      | interceptor p =>
        cases callee with
        | method callee => exact .done (.dispatch hi (hV.handed hreceiver) (hV.handed hr))
        | _ => exact scriptsAlike_refuse _ _
      | _ => exact scriptsAlike_refuse _ _

theorem callScript_alike (hV : h.Alike V W h') {target : CallTarget} (hi : i = .call target)
    {t : MethodToken} (ht : W (.function t) (.function t)) :
    M.ScriptsAlike V W h returns i (M.callScript t) (M.callScript t) := by
  refine .check (arityOf_parallel ht) fun n n' ⟨hn, d, hd, harity⟩ => ?_
  cases hn
  refine .takeMany fun args args' hlength hargs => .done ?_
  exact .call hi ht hd (hlength.trans harity.symm) (hargs.imp fun _ _ hv => hV.handed hv)

theorem indirectScript_alike (hV : h.Alike V W h') {arity : UInt16}
    (hi : i = .call (.indirect arity)) :
    M.ScriptsAlike V W h returns i (M.indirectScript arity) (M.indirectScript arity) := by
  refine .take fun v v' hv => ?_
  cases hV.similar hv with
  | array | boxed => exact scriptsAlike_refuse _ _
  | same =>
    cases v with
    | function t =>
      refine .check (arityOf_parallel (hV.handed hv)) fun n n' ⟨hn, _⟩ => ?_
      cases hn
      split
      · exact .fail (.operands (.fault rfl))
      · exact callScript_alike hV hi (hV.handed hv)
    | _ => exact scriptsAlike_refuse _ _

/-- What an instruction does with operands depends on nothing but what can be told of them. -/
theorem script_alike (hV : h.Alike V W h') (M : Machine σ) (method : String) (returns : ReturnType)
    {i : Instr} (hfunctions : ∀ t ∈ i.methodTokens, W (.function t) (.function t)) :
    M.ScriptsAlike V W h returns i (M.script h method returns i)
      (M.script h' method returns i) := by
  cases i with
  | call target =>
    cases target with
    | direct t => exact callScript_alike hV rfl (hfunctions t (List.mem_singleton.2 rfl))
    | indirect arity => exact indirectScript_alike hV rfl
  | op o =>
    cases o with
    | nop | label => exact .done (.push .nil)
    | ldarg k => exact .done (.loadArg rfl)
    | starg k => exact .take fun v v' hv => .done (.storeArg rfl (hV.handed hv))
    | ldloc s => exact .done (.loadLocal rfl)
    | stloc s => exact .take fun v v' hv => .done (.storeLocal rfl (hV.handed hv))
    | ldnull | ldcI4 v | ldcI8 v | ldcR8 v | ldstr s | ldtoken t => exact scriptsAlike_push hV rfl
    | ldftn t =>
      exact .done (.push (.cons (hfunctions t (List.mem_singleton.2 rfl)) .nil))
    | dup =>
      exact .take fun v v' hv => .done (.push (.cons (hV.handed hv) (.cons (hV.handed hv) .nil)))
    | pop => exact .take fun v v' hv => .done (.push .nil)
    | add => exact binaryScript_alike hV .add
    | sub => exact binaryScript_alike hV .sub
    | mul => exact binaryScript_alike hV .mul
    | clt => exact binaryScript_alike hV .clt
    | ceq =>
      refine .take fun right right' hright => .take fun left left' hleft => ?_
      simp only [hV.equals hleft hright]
      exact scriptsAlike_push hV rfl
    | br l => exact .done (.jump rfl)
    | brtrue l => exact branchScript_alike hV true rfl
    | brfalse l => exact branchScript_alike hV false rfl
    | ret => exact returnScript_alike hV
    | box t => exact boxScript_alike hV t
    | unboxAny t =>
      refine .take fun v v' hv => .check (hV.coerce hv t) fun u u' hu => ?_
      exact .done (.push (.cons hu .nil))
    | newobj t => exact .done .newObject
    | newarr t =>
      refine .take fun v v' hv => .check (hV.count hv .arrayLength) fun n n' hn => ?_
      cases hn
      exact .done .newArray
    | stelemRef => exact storeScript_alike hV
    | ldelemRef => exact elementScript_alike hV
    | ldlen =>
      refine scriptsAlike_takeArray hV fun r r' hr => ?_
      obtain ⟨_, hr', _, hlength, _⟩ := hV.array hr
      cases hr'
      simp only [hlength]
      exact scriptsAlike_push hV rfl
    | resolveMethod => exact resolveScript_alike hV
    | getInterceptor => exact .done (.pushInstalled rfl)
    | intercept => exact dispatchScript_alike hV rfl

/-! ### Steps -/

theorem script_congr {M' : Machine σ} (hmodule : M'.module = M.module)
    (hidentities : M'.identities = M.identities) :
    M'.script h method returns i = M.script h method returns i := by
  obtain ⟨module, identities, host, limits⟩ := M
  obtain ⟨module', identities', host', limits'⟩ := M'
  cases hmodule
  cases hidentities
  cases i with
  | call target => cases target <;> rfl
  | op o => cases o <;> rfl

variable {M' : Machine σ} {f f' : Frame} {w w' : World σ}

/-- What an instruction comes to in two frames: like effects on what is left of the stacks, or both
times the end of the run. -/
inductive ExecAlike (M M' : Machine σ) (V W : Value → Value → Prop) (f f' : Frame) (w w' : World σ)
    (i : Instr) : Prop
  | settles {x x' : Effect} {rest rest' : List Value}
      (effect : Effect.Alike M.module w.heap W f.returns i x x')
      (operands : List.Forall₂ V rest rest')
      (exec : M.exec f w i = M.settle { f with stack := rest } w x)
      (exec' : M'.exec f' w' i = M'.settle { f' with stack := rest' } w' x')
  | stops {e e' : Stop} (why : M.module.Refuses w.heap V W e ∨ e = f.underflow)
      (exec : M.exec f w i = .stop e w) (exec' : M'.exec f' w' i = .stop e' w')

theorem exec_alike (hV : w.heap.Alike V W w'.heap) (hmodule : M'.module = M.module)
    (hidentities : M'.identities = M.identities) (hmethod : f'.method = f.method)
    (hreturns : f'.returns = f.returns) (hstack : List.Forall₂ V f.stack f'.stack)
    (hfunctions : ∀ t ∈ i.methodTokens, W (.function t) (.function t)) :
    M.ExecAlike M' V W f f' w w' i := by
  have hrun := (script_alike hV M f.method f.returns hfunctions).run hstack
  have hexec := exec_eq M f w i
  have hexec' := exec_eq M' f' w' i
  rw [script_congr hmodule hidentities, hmethod, hreturns] at hexec'
  generalize (M.script w.heap f.method f.returns i).run f = r at hrun hexec
  generalize (M.script w'.heap f.method f.returns i).run f' = r' at hrun hexec'
  cases hrun with
  | @ok p p' h =>
    obtain ⟨x, g⟩ := p
    obtain ⟨x', g'⟩ := p'
    obtain ⟨heffect, rest, rest', rfl, rfl, hrest⟩ := h
    exact .settles heffect hrest hexec hexec'
  | error h => exact .stops h hexec hexec'

/-- What an instruction does in a frame whose operands have a property: it has an effect on what is
left of the stack, or ends the run. -/
inductive Does (M : Machine σ) (P Q : Value → Prop) (f : Frame) (w : World σ) (i : Instr) : Prop
  | settles {x : Effect} {rest : List Value}
      (effect : Effect.Alike M.module w.heap (Value.Same Q) f.returns i x x)
      (stack : ∀ v ∈ rest, P v)
      (run : (M.script w.heap f.method f.returns i).run f = .ok (x, { f with stack := rest }))
      (exec : M.exec f w i = M.settle { f with stack := rest } w x)
  | stops {e : Stop}
      (why : M.module.Refuses w.heap (Value.Same P) (Value.Same Q) e ∨ e = f.underflow)
      (run : (M.script w.heap f.method f.returns i).run f = .error e)
      (exec : M.exec f w i = .stop e w)

theorem exec_does (M : Machine σ) {P Q : Value → Prop} (handed : ∀ v, P v → Q v)
    (closed : ∀ v, v.isClosed = true → Q v)
    (element : ∀ r i u, P (.array r) → w.heap.get? r i = some u → Q u)
    (hstack : ∀ v ∈ f.stack, P v) (hfunctions : ∀ t ∈ i.methodTokens, Q (.function t)) :
    M.Does P Q f w i := by
  have hV : w.heap.Alike (Value.Same P) (Value.Same Q) w.heap := .self handed closed element
  have hrun := (script_alike hV M f.method f.returns fun t ht => ⟨rfl, hfunctions t ht⟩).run
    (List.forall₂_same.2 fun v hv => ⟨rfl, hstack v hv⟩)
  have hexec := exec_eq M f w i
  rcases hrun.self with ⟨⟨x, g⟩, hok, heffect, rest, rest', rfl, hframe, hrest⟩ | ⟨e, herror, hwhy⟩
  · have hsame : rest = rest' := congrArg Frame.stack hframe
    subst hsame
    have hvalues : ∀ v ∈ rest, P v := fun v hv => (List.forall₂_same.1 hrest v hv).2
    exact .settles heffect hvalues hok (hexec.trans (congrArg _ hok))
  · exact .stops hwhy herror (hexec.trans (congrArg _ herror))

theorem does (M : Machine σ) (f : Frame) (w : World σ) (i : Instr) :
    M.Does (fun _ => True) (fun _ => True) f w i :=
  exec_does M (fun _ hv => hv) (fun _ _ => trivial) (fun _ _ _ _ _ => trivial) (fun _ _ => trivial)
    fun _ _ => trivial

theorem dispatch_of_run {d : Dispatch} {g : Frame}
    (h : (M.script w.heap f.method f.returns i).run f = .ok (.dispatch d, g)) :
    i = .op .intercept ∧ popDispatch f = .ok (d, g) := by
  cases M.does f w i with
  | stops _ run _ => cases run.symm.trans h
  | settles effect _ run _ =>
    cases run.symm.trans h
    cases effect with
    | dispatch hi =>
      subst hi
      exact ⟨rfl, popDispatch_of_run run⟩

end Machine

end Interpose
