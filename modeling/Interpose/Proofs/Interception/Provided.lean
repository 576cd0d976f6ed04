import Interpose.Proofs.Interception.Intercepted

/-!
# What a call passes on

An intercepted call takes its arguments and its receiver from the stack. Which stacks hold them can
be told from the signature: the category of a parameter decides what may stand for it.
-/

namespace Interpose

/-- A stack holds what a call passes on: enough values, values that conform to the parameters of
value types, and references for all other parameters and for the receiver. -/
structure Signature.Provided (s : Signature) (stack : List Value) : Prop where
  enough : s.arity ≤ stack.length
  args : ∀ p ∈ s.params.zip (stack.take s.params.length).reverse,
    if p.1.isValueType then p.2.fits p.1 = true else p.2.isReference = true
  receiver : s.isStatic = false → ∀ v ∈ stack[s.params.length]?, v.isReference = true

instance (s : Signature) (stack : List Value) : Decidable (s.Provided stack) :=
  decidable_of_iff
    (s.arity ≤ stack.length ∧
      (∀ p ∈ s.params.zip (stack.take s.params.length).reverse,
        if p.1.isValueType then p.2.fits p.1 = true else p.2.isReference = true) ∧
      (s.isStatic = false → ∀ v ∈ stack[s.params.length]?, v.isReference = true))
    ⟨fun h => ⟨h.1, h.2.1, h.2.2⟩, fun h => ⟨h.enough, h.args, h.receiver⟩⟩

/-- The references that a call passes on for its arguments, in the order of declaration. -/
def Signature.passedArgs (s : Signature) (stack : List Value) : List Value :=
  s.params.zipWith (fun t v => v.passedAs t) (stack.take s.params.length).reverse

/-- The receiver that a call passes on, which is null for a static method. -/
def Signature.passedReceiver (s : Signature) (stack : List Value) : Value :=
  if s.isStatic then .null else stack.getD s.params.length .null

theorem Signature.arity_le_iff {s : Signature} {n : Nat} :
    s.arity ≤ n ↔ s.params.length ≤ n ∧ (s.isStatic = false → s.params.length < n) := by
  unfold arity receivers
  cases s.isStatic with
  | true => simp
  | false =>
    simp
    omega

theorem Value.fits_passed_iff {v : Value} {t : DataType} : v.fits t.passed = true ↔
    if t.isValueType then v.fits t = true else v.isReference = true := by
  unfold DataType.passed
  cases t.isValueType with
  | true => exact Iff.rfl
  | false => exact Value.fits_object v ▸ Iff.rfl

namespace Frame

variable {f f' : Frame} {s : Signature}

theorem passOn_eq_ok_iff {t : DataType} {v : Value} : f.passOn t = .ok (v, f') ↔
    ∃ u rest, f.stack = u :: rest ∧ u.fits t.passed = true ∧ v = u.passedAs t ∧
      f' = { f with stack := rest } := by
  cases hs : f.stack with
  | nil =>
    rw [passOn_of_nil hs]
    exact ⟨nofun, fun ⟨u, rest, hnil, _⟩ => nomatch hnil⟩
  | cons u rest =>
    rw [passOn_of_cons hs]
    split
    · rename_i hfits
      constructor
      · intro h
        cases h
        exact ⟨u, rest, rfl, hfits, rfl, rfl⟩
      · rintro ⟨u', rest', hcons, _, rfl, rfl⟩
        cases hcons
        rfl
    · rename_i hfits
      constructor
      · exact nofun
      · rintro ⟨u', rest', hcons, hfits', _⟩
        cases hcons
        exact absurd hfits' hfits

theorem passOn_drop_eq_ok_iff {t : DataType} {v : Value} (n : Nat) :
    passOn { f with stack := f.stack.drop n } t = .ok (v, f') ↔
      ∃ u, f.stack[n]? = some u ∧ u.fits t.passed = true ∧ v = u.passedAs t ∧
        f' = { f with stack := f.stack.drop (n + 1) } := by
  rw [passOn_eq_ok_iff]
  constructor
  · rintro ⟨u, rest, hdrop, hfits, hv, rfl⟩
    have hdrop : f.stack.drop n = u :: rest := hdrop
    have hget : (f.stack.drop n)[0]? = some u := by rw [hdrop]; rfl
    have htail : (f.stack.drop n).tail = rest := by rw [hdrop]; rfl
    rw [List.getElem?_drop] at hget
    rw [List.tail_drop] at htail
    exact ⟨u, hget, hfits, hv, by rw [htail]⟩
  · rintro ⟨u, hget, hfits, hv, hf'⟩
    obtain ⟨hlt, rfl⟩ := List.getElem?_eq_some_iff.1 hget
    exact ⟨_, _, List.drop_eq_getElem_cons hlt, hfits, hv, hf'⟩

theorem passArgs_eq_ok_iff {types : List DataType} {values : List Value} :
    f.passArgs types = .ok (values, f') ↔ types.length ≤ f.stack.length ∧
      (∀ p ∈ types.zip (f.stack.take types.length).reverse, p.2.fits p.1.passed = true) ∧
      values = types.zipWith (fun t v => v.passedAs t) (f.stack.take types.length).reverse ∧
      f' = { f with stack := f.stack.drop types.length } := by
  induction types generalizing values f' with
  | nil =>
    constructor
    · intro h
      cases h
      exact ⟨Nat.zero_le _, nofun, rfl, rfl⟩
    · rintro ⟨_, _, rfl, rfl⟩
      rfl
  | cons t types ih =>
    -- the first argument was pushed first, so it is the last one that is taken
    have hlast {u : Value} (hget : f.stack[types.length]? = some u) :
        (f.stack.take (types.length + 1)).reverse = u :: (f.stack.take types.length).reverse := by
      rw [List.take_add_one, hget, List.reverse_append]
      rfl
    rw [passArgs_cons_eq_ok_iff, List.length_cons]
    constructor
    · rintro ⟨later, g, v, hlater, hv, rfl⟩
      obtain ⟨_, hfits, rfl, rfl⟩ := ih.1 hlater
      obtain ⟨u, hget, hu, rfl, rfl⟩ := (passOn_drop_eq_ok_iff _).1 hv
      obtain ⟨hlt, _⟩ := List.getElem?_eq_some_iff.1 hget
      rw [hlast hget]
      exact ⟨hlt, List.forall_mem_cons.2 ⟨hu, hfits⟩, rfl, rfl⟩
    · rintro ⟨hlt, hfits, rfl, rfl⟩
      have hget := List.getElem?_eq_getElem hlt
      rw [hlast hget] at hfits ⊢
      obtain ⟨hu, hfits⟩ := List.forall_mem_cons.1 hfits
      exact ⟨_, _, _, ih.2 ⟨Nat.le_of_lt hlt, hfits, rfl, rfl⟩,
        (passOn_drop_eq_ok_iff _).2 ⟨_, hget, hu, rfl, rfl⟩, rfl⟩

theorem passReceiver_drop_eq_ok_iff {receiver : Value} :
    passReceiver { f with stack := f.stack.drop s.params.length } s = .ok (receiver, f') ↔
      (s.isStatic = false → ∃ v, f.stack[s.params.length]? = some v ∧ v.isReference = true) ∧
        receiver = s.passedReceiver f.stack ∧ f' = { f with stack := f.stack.drop s.arity } := by
  unfold passReceiver Signature.passedReceiver Signature.arity Signature.receivers
  cases s.isStatic with
  | true =>
    constructor
    · intro h
      cases h
      exact ⟨nofun, rfl, rfl⟩
    · rintro ⟨_, rfl, rfl⟩
      rfl
  | false =>
    have hobject (v : Value) : v.fits (DataType.passed .object) = v.isReference := v.fits_object
    simp only [Bool.false_eq_true, if_false, passOn_drop_eq_ok_iff, hobject, forall_const]
    constructor
    · rintro ⟨_, hget, hu, rfl, rfl⟩
      refine ⟨⟨_, hget, hu⟩, ?_, rfl⟩
      rw [List.getD_eq_getElem?_getD, hget]
      rfl
    · rintro ⟨⟨u, hget, hu⟩, rfl, rfl⟩
      refine ⟨u, hget, hu, ?_, rfl⟩
      rw [List.getD_eq_getElem?_getD, hget]
      rfl

/-- A call takes what it passes on exactly from the stacks that hold it, and leaves the values below
on them. -/
theorem passCall_eq_ok_iff {receiver : Value} {args : List Value} :
    f.passCall s = .ok (receiver, args, f') ↔ s.Provided f.stack ∧
      receiver = s.passedReceiver f.stack ∧ args = s.passedArgs f.stack ∧
      f' = { f with stack := f.stack.drop s.arity } := by
  rw [passCall_eq_ok_iff_bind]
  simp only [passArgs_eq_ok_iff, Value.fits_passed_iff]
  constructor
  · rintro ⟨_, ⟨hargs, hfits, rfl, rfl⟩, hreceiver⟩
    obtain ⟨hrefers, rfl, rfl⟩ := passReceiver_drop_eq_ok_iff.1 hreceiver
    refine ⟨⟨?_, hfits, fun hstatic v hv => ?_⟩, rfl, rfl, rfl⟩
    · rw [Signature.arity_le_iff]
      refine ⟨hargs, fun hstatic => ?_⟩
      obtain ⟨v, hget, _⟩ := hrefers hstatic
      exact (List.getElem?_eq_some_iff.1 hget).1
    · obtain ⟨u, hget, hu⟩ := hrefers hstatic
      cases hget.symm.trans hv
      exact hu
  · rintro ⟨hprovided, rfl, rfl, rfl⟩
    obtain ⟨hargs, hlt⟩ := Signature.arity_le_iff.1 hprovided.enough
    refine ⟨_, ⟨hargs, hprovided.args, rfl, rfl⟩, passReceiver_drop_eq_ok_iff.2 ⟨?_, rfl, rfl⟩⟩
    intro hstatic
    have hget := List.getElem?_eq_getElem (hlt hstatic)
    exact ⟨_, hget, hprovided.receiver hstatic _ hget⟩

end Frame

/-! ### Stacks that do not hold it -/

/-- The faults of a stack that does not hold what is taken from it. -/
inductive Stop.Refuses : Stop → Prop
  | underflow {method : String} {place : Nat} : Refuses (.fault (.stackUnderflow method place))
  | mismatch {cause : Mismatch} : Refuses (.fault (.typeMismatch cause))

namespace Frame

variable {f : Frame} {s : Signature} {e : Stop}

theorem refuses_of_passOn {t : DataType} (h : f.passOn t = .error e) : e.Refuses := by
  cases hs : f.stack with
  | nil =>
    rw [passOn_of_nil hs] at h
    cases h
    exact .underflow
  | cons v rest =>
    rw [passOn_of_cons hs] at h
    split at h
    · cases h
    · cases h
      exact .mismatch

theorem refuses_of_passArgs {types : List DataType} (h : f.passArgs types = .error e) :
    e.Refuses := by
  induction types with
  | nil => cases h
  | cons t types ih =>
    obtain hargs | ⟨later, g, _, hv⟩ := passArgs_cons_eq_error h
    · exact ih hargs
    · exact refuses_of_passOn hv

theorem refuses_of_passCall (h : f.passCall s = .error e) : e.Refuses := by
  obtain hargs | ⟨args, g, _, hreceiver⟩ := passCall_eq_error h
  · exact refuses_of_passArgs hargs
  · unfold passReceiver at hreceiver
    split at hreceiver
    · cases hreceiver
    · exact refuses_of_passOn hreceiver

end Frame

end Interpose
