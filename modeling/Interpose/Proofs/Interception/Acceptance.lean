import Interpose.Proofs.Interception.Dispatches

/-!
# What calls accept and what their call sites accept

Two places look at the values of an intercepted call. `Machine::call` compares each argument with
the declared type of its parameter and does not look at the receiver. The code of `expand_call_site`
goes by the category of a parameter: value types are boxed, and everything else, the receiver
included, must be a reference. Where references are what they are declared to be, both accept the
same stacks.
-/

namespace Interpose

namespace Signature

/-- A stack holds enough values for a call, and its arguments conform to the declared types. -/
structure Conforms (s : Signature) (stack : List Value) : Prop where
  enough : s.arity ≤ stack.length
  args : ∀ p ∈ s.params.zip (stack.take s.params.length).reverse, p.2.fits p.1 = true

/-- The receiver of a call is a reference. -/
def ReceiverRefers (s : Signature) (stack : List Value) : Prop :=
  s.isStatic = false → ∀ v ∈ stack[s.params.length]?, v.isReference = true

/-- References that stand for parameters of reference types conform to them. -/
def ArgsRefer (s : Signature) (stack : List Value) : Prop :=
  ∀ p ∈ s.params.zip (stack.take s.params.length).reverse,
    p.1.isValueType = false → p.2.isReference = true → p.2.fits p.1 = true

instance (s : Signature) (stack : List Value) : Decidable (s.Conforms stack) :=
  decidable_of_iff
    (s.arity ≤ stack.length ∧
      ∀ p ∈ s.params.zip (stack.take s.params.length).reverse, p.2.fits p.1 = true)
    ⟨fun h => ⟨h.1, h.2⟩, fun h => ⟨h.enough, h.args⟩⟩

instance (s : Signature) (stack : List Value) : Decidable (s.ReceiverRefers stack) :=
  inferInstanceAs (Decidable (s.isStatic = false → ∀ v ∈ stack[s.params.length]?,
    v.isReference = true))

instance (s : Signature) (stack : List Value) : Decidable (s.ArgsRefer stack) :=
  inferInstanceAs (Decidable (∀ p ∈ s.params.zip (stack.take s.params.length).reverse,
    p.1.isValueType = false → p.2.isReference = true → p.2.fits p.1 = true))

variable {s : Signature} {stack : List Value}

theorem Conforms.provided (h : s.Conforms stack) (hreceiver : s.ReceiverRefers stack) :
    s.Provided stack := by
  refine ⟨h.enough, fun p hp => ?_, hreceiver⟩
  rw [← Value.fits_passed_iff]
  exact Value.fits_passed (h.args p hp)

theorem Provided.conforms (h : s.Provided stack) (hargs : s.ArgsRefer stack) :
    s.Conforms stack := by
  refine ⟨h.enough, fun p hp => ?_⟩
  have hfits := h.args p hp
  cases htype : p.1.isValueType with
  | true => rwa [htype, if_pos rfl] at hfits
  | false =>
    rw [htype, if_neg Bool.false_ne_true] at hfits
    exact hargs p hp htype hfits

theorem provided_iff_conforms (hargs : s.ArgsRefer stack) (hreceiver : s.ReceiverRefers stack) :
    s.Provided stack ↔ s.Conforms stack :=
  ⟨fun h => h.conforms hargs, fun h => h.provided hreceiver⟩

end Signature

namespace Machine

variable {σ : Type}

/-- The direct call that a frame comes to passes its checks: the values are there, and the callee
takes them. -/
def ChecksPass (M : Machine σ) (f : Frame) (w : World σ) : Prop :=
  ∃ t d args g, f.code[f.next]? = some (.call (.direct t)) ∧ M.module.method? t = some d ∧
    M.exec f.advance w (.call (.direct t)) = .call g t args w ∧
    checkCall w.heap (M.module.qualifiedName t) d.signature args = .ok ()

variable {M : Machine σ} {f : Frame} {w : World σ} {t : MethodToken} {d : MethodDef}

/-- The arguments of a call on the stack, without its receiver. -/
theorem take_reverse_of_args {s : Signature} {args : List Value} (hlength : args.length = s.arity)
    (rest : List Value) :
    ((args.reverse ++ rest).take s.params.length).reverse = args.drop s.receivers := by
  have hsplit : args.length - s.params.length = s.receivers := by
    rw [hlength]
    exact Nat.add_sub_cancel_left _ _
  rw [List.take_append_of_le_length (by rw [List.length_reverse, hlength]; exact Nat.le_add_right _ _),
    List.take_reverse, List.reverse_reverse, hsplit]

theorem checksPass_iff (hcode : f.code[f.next]? = some (.call (.direct t)))
    (hd : M.module.method? t = some d) : M.ChecksPass f w ↔ d.signature.Conforms f.stack := by
  constructor
  · rintro ⟨t', d', args, g, hcode', hd', hexec, hcheck⟩
    cases hcode.symm.trans hcode'
    cases hd.symm.trans hd'
    obtain ⟨_, _, d', rest, hd', hlength, hstack, _⟩ := exec_call_eq_iff.1 hexec
    obtain ⟨_, hfits⟩ := checkCall_eq_ok_iff.1 hcheck
    have hstack : f.stack = args.reverse ++ rest := hstack
    cases hd.symm.trans hd'
    refine ⟨?_, fun p hp => ?_⟩
    · rw [hstack, List.length_append, List.length_reverse, hlength]
      exact Nat.le_add_right _ _
    · rw [hstack, take_reverse_of_args hlength] at hp
      exact (List.forall₂_iff_zip.1 hfits).2 hp
  · intro h
    have hlength : ((f.stack.take d.signature.arity).reverse).length = d.signature.arity := by
      rw [List.length_reverse, List.length_take_of_le h.enough]
    have hstack : f.stack = (f.stack.take d.signature.arity).reverse.reverse ++
        f.stack.drop d.signature.arity := by
      rw [List.reverse_reverse, List.take_append_drop]
    refine ⟨t, d, _, _, hcode, hd, exec_call_eq_iff.2 ⟨rfl, rfl, d, _, hd, hlength, hstack, rfl⟩,
      checkCall_eq_ok_iff.2 ⟨hlength, ?_⟩⟩
    have hargs := take_reverse_of_args hlength (f.stack.drop d.signature.arity)
    rw [← hstack] at hargs
    rw [← hargs]
    refine List.forall₂_iff_zip.2 ⟨?_, fun hp => h.args _ hp⟩
    have henough := h.enough
    unfold Signature.arity at henough
    rw [List.length_reverse, List.length_take_of_le (by omega)]

theorem AtExpansion.asked_ne_nil_iff {c : Callee} {site : CallSite} {callee : MethodIdentity}
    {s : State σ} (h : M.AtExpansion c site callee s) :
    M.asked callee.signature.expansionLength s ≠ [] ↔
      callee.signature.Provided s.frame.stack := by
  rw [h.asked]
  split
  · rename_i hprovided
    exact ⟨fun _ => hprovided, fun _ => List.cons_ne_nil _ _⟩
  · rename_i hprovided
    exact ⟨fun h => absurd rfl h, fun h => absurd h hprovided⟩

/-! ### A call and its call site -/

section

variable {m m' : Module} {b : Body} {name : String} {k : Nat} {r : Redirected}
  (hmethods : m.methods.length < 2 ^ 32) (hlocals : b.locals.length < 2 ^ 32)
  (hr : m.redirectBody name b (Redirector.withMaxLocals k).maxLocals = .ok r)
  (hm' : m.Declares m') (host : Host σ) (limits : ExecutionLimits) {site : CallSite}
  (hsite : site ∈ r.callSites) {s : State σ} {labels : LabelIndex}
  (hruns : s.frame.Runs (r.commit b) labels) (hnext : s.frame.next = site.start)
  (hroom : s.steps + (site.stop - site.start) ≤ limits.steps)
  (hcode : f.code = b.code.toArray) (hplace : f.next = site.position)
  (hstack : f.stack = s.frame.stack)

include hmethods hlocals hr hm' hsite hruns hnext hroom hcode hplace hstack

/-- What the expansion of a call and the call itself look for on a stack. -/
theorem exists_accepts : ∃ callee, m.identity? site.callee = some callee ∧
    ((load m' host limits).asked callee.signature.expansionLength s ≠ [] ↔
      callee.signature.Provided s.frame.stack) ∧
    ((load m host limits).ChecksPass f s.world ↔ callee.signature.Conforms s.frame.stack) := by
  obtain ⟨c, callee, _, hidentity, hat⟩ := Module.atExpansion_of_runs hmethods hlocals
    (Redirector.maxLocals_withMaxLocals_lt k) hr hm' host limits hsite hruns hnext hroom
  obtain ⟨_, hcall, _⟩ := Module.exists_of_mem_callSites hlocals hr hsite
  obtain ⟨_, d, hd, hsignature⟩ := Module.method?_of_identity? hidentity
  refine ⟨callee, hidentity, hat.asked_ne_nil_iff, ?_⟩
  have hcode' : f.code[f.next]? = some (.call (.direct site.callee)) := by
    rw [hcode, hplace, List.getElem?_toArray]
    exact hcall
  rw [checksPass_iff hcode' hd, hsignature, hstack]

/-- The expansion of a call and the call itself, in frames with the same stack. The expansion asks
the interceptor exactly if the stack holds what the call passes on, the call passes its checks
exactly if the arguments conform to the signature, and where references are what they are declared
to be this is the same. A call that passes its checks with a reference for a receiver is dispatched
in any case. -/
theorem callSite_accepts : ∃ callee, m.identity? site.callee = some callee ∧
    ((load m' host limits).asked callee.signature.expansionLength s ≠ [] ↔
      callee.signature.Provided s.frame.stack) ∧
    ((load m host limits).ChecksPass f s.world ↔ callee.signature.Conforms s.frame.stack) ∧
    (callee.signature.ReceiverRefers s.frame.stack → (load m host limits).ChecksPass f s.world →
      (load m' host limits).asked callee.signature.expansionLength s ≠ []) ∧
    (callee.signature.ReceiverRefers s.frame.stack → callee.signature.ArgsRefer s.frame.stack →
      ((load m' host limits).asked callee.signature.expansionLength s ≠ [] ↔
        (load m host limits).ChecksPass f s.world)) := by
  obtain ⟨callee, hidentity, hreaches, hchecks⟩ := exists_accepts hmethods hlocals hr hm' host
    limits hsite hruns hnext hroom hcode hplace hstack
  refine ⟨callee, hidentity, hreaches, hchecks, fun hreceiver hpass => ?_,
    fun hreceiver hargs => ?_⟩
  · exact hreaches.2 ((hchecks.1 hpass).provided hreceiver)
  · rw [hreaches, hchecks]
    exact Signature.provided_iff_conforms hargs hreceiver

end

def offerBody (receiver arg : Op) : Body :=
  ⟨[], [.op receiver, .op arg, .call (.direct ⟨0⟩), .op .ret]⟩

/-- A module with the body and the method that it calls, which takes a text. -/
def offer (receiver arg : Op) : Module where
  name := "offer"
  types := [⟨"Sink", [⟨0⟩, ⟨1⟩]⟩]
  methods := [⟨⟨0⟩, "take", ⟨[.string], .void, false⟩, none⟩,
    ⟨⟨0⟩, "main", ⟨[], .void, true⟩, some (offerBody receiver arg)⟩]

def offerRedirected (receiver arg : Op) : Redirected where
  code := [receiver, arg, .stloc ⟨1⟩, .stloc ⟨0⟩, .getInterceptor, .ldcI4 1, .newarr .object,
    .stloc ⟨2⟩, .ldloc ⟨2⟩, .ldcI4 0, .ldloc ⟨1⟩, .stelemRef, .ldloc ⟨0⟩, .ldloc ⟨2⟩,
    .ldtoken (.type ⟨0⟩), .ldtoken (.method ⟨0⟩), .resolveMethod, .intercept, .pop, .ret].map .op
  newLocals := [.object, .object, .objectArray]
  callSites := [⟨2, ⟨0⟩, ⟨⟨0⟩, [⟨1⟩], ⟨2⟩⟩, 2, 19⟩]

def OfferRedirects (receiver arg : Op) : Prop :=
  (offer receiver arg).redirectBody "Sink::main" (offerBody receiver arg)
    (Redirector.withMaxLocals 3).maxLocals = .ok (offerRedirected receiver arg)

def offered (receiver arg : Op) : Machine Unit :=
  load ((offer receiver arg).setBody ⟨1⟩
    ((offerRedirected receiver arg).commit (offerBody receiver arg))) echo .standard

def offerFrame (receiver arg : Op) (stack : List Value) : Frame where
  method := "Sink::main"
  returns := .void
  code := (offerBody receiver arg).code.toArray
  labels := []
  declared := #[]
  args := #[]
  locals := #[]
  stack := stack
  next := 2

/-- The state of the redirected body at its call site. -/
def offerState (receiver arg : Op) (stack : List Value) : State Unit where
  frame := { offerFrame receiver arg stack with
    code := (offerRedirected receiver arg).code.toArray
    declared := (offerRedirected receiver arg).newLocals.toArray
    locals := #[.null, .null, .null] }
  callers := []
  world := ⟨⟨1, #[]⟩, ()⟩
  steps := 2

/-- A text for a text is taken by the call and dispatched. -/
theorem callSite_accepts_offer :
    (offered .ldnull (.ldstr "x")).asked 17 (offerState .ldnull (.ldstr "x") [.str "x", .null]) ≠
        [] ∧
      (load (offer .ldnull (.ldstr "x")) echo .standard).ChecksPass
        (offerFrame .ldnull (.ldstr "x") [.str "x", .null]) ⟨⟨1, #[]⟩, ()⟩ := by
  have hr : OfferRedirects .ldnull (.ldstr "x") := rfl
  have hroom : 2 + (19 - 2) ≤ ExecutionLimits.standard.steps := by decide
  obtain ⟨callee, hidentity, hreaches, _, _, hiff⟩ := callSite_accepts
    (f := offerFrame .ldnull (.ldstr "x") [.str "x", .null])
    (s := offerState .ldnull (.ldstr "x") [.str "x", .null]) (by decide) (by decide) hr
    (Module.declares_setBody _ ⟨1⟩ _) echo .standard List.mem_cons_self ⟨rfl, rfl, rfl, rfl⟩ rfl
    hroom rfl rfl rfl
  cases hidentity
  have hasked := hreaches.2 (by decide)
  exact ⟨hasked, (hiff (by decide) (by decide)).1 hasked⟩

theorem offer_accepts {receiver arg : Op} (hr : OfferRedirects receiver arg)
    (stack : List Value) :
    ((offered receiver arg).asked 17 (offerState receiver arg stack) ≠ [] ↔
        (⟨[.string], .void, false⟩ : Signature).Provided stack) ∧
      ((load (offer receiver arg) echo .standard).ChecksPass (offerFrame receiver arg stack)
          ⟨⟨1, #[]⟩, ()⟩ ↔ (⟨[.string], .void, false⟩ : Signature).Conforms stack) := by
  have hmethods : (offer receiver arg).methods.length < 2 ^ 32 := by
    show 2 < 2 ^ 32
    decide
  have hlocals : (offerBody receiver arg).locals.length < 2 ^ 32 := Nat.two_pow_pos 32
  have hroom : 2 + (19 - 2) ≤ ExecutionLimits.standard.steps := by decide
  obtain ⟨callee, hidentity, haccepts⟩ := exists_accepts (f := offerFrame receiver arg stack)
    (s := offerState receiver arg stack) hmethods hlocals hr (Module.declares_setBody _ ⟨1⟩ _) echo
    .standard List.mem_cons_self ⟨rfl, rfl, rfl, rfl⟩ rfl hroom rfl rfl rfl
  cases hidentity
  exact haccepts

/-- Where references are not what they are declared to be, the two part: an object for a text is
refused by the call but dispatched, and a call with a number for its receiver is made but not
dispatched. -/
theorem callSite_accepts_otherwise :
    (OfferRedirects .ldnull (.newobj ⟨0⟩) ∧
        (offered .ldnull (.newobj ⟨0⟩)).asked 17
          (offerState .ldnull (.newobj ⟨0⟩) [.object ⟨0, ⟨0⟩⟩, .null]) ≠ [] ∧
        ¬(load (offer .ldnull (.newobj ⟨0⟩)) echo .standard).ChecksPass
          (offerFrame .ldnull (.newobj ⟨0⟩) [.object ⟨0, ⟨0⟩⟩, .null]) ⟨⟨1, #[]⟩, ()⟩) ∧
      OfferRedirects (.ldcI4 5) .ldnull ∧
        (offered (.ldcI4 5) .ldnull).asked 17 (offerState (.ldcI4 5) .ldnull [.null, .int32 5]) = [] ∧
        (load (offer (.ldcI4 5) .ldnull) echo .standard).ChecksPass
          (offerFrame (.ldcI4 5) .ldnull [.null, .int32 5]) ⟨⟨1, #[]⟩, ()⟩ := by
  have hobject : OfferRedirects .ldnull (.newobj ⟨0⟩) := rfl
  have hnumber : OfferRedirects (.ldcI4 5) .ldnull := rfl
  obtain ⟨hreaches, hchecks⟩ := offer_accepts hobject [.object ⟨0, ⟨0⟩⟩, .null]
  obtain ⟨hreaches', hchecks'⟩ := offer_accepts hnumber [.null, .int32 5]
  refine ⟨⟨hobject, hreaches.2 (by decide), fun hpass => ?_⟩, hnumber, ?_,
    hchecks'.2 (by decide)⟩
  · exact absurd (hchecks.1 hpass) (by decide)
  · exact Decidable.byContradiction fun hasked => absurd (hreaches'.1 hasked) (by decide)

end Machine

end Interpose
