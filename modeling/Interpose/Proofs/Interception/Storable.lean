import Interpose.Proofs.Image.RoundTrip
import Interpose.Proofs.Interception.Tasks

/-!
# Storing redirected modules

The operations of an expansion name a slot that the body was given for them, the callee, or a type
that the callee's declaration names, so what is redirected keeps its references inside their tables.
A module that was read and then redirected, once or many times, can be written and read again unless
its code or its image has outgrown the limits, which no redirector looks at.
-/

namespace Interpose

/-! ### References of redirected code -/

theorem Instr.Within.mono {types methods n k : Nat} {i : Instr} (h : i.Within types methods n)
    (hk : n ≤ k) : i.Within types methods k :=
  ⟨h.types, h.methods, fun s hs => Nat.lt_of_lt_of_le (h.slots s hs) hk⟩

namespace Callee

/-- The callee and every type that its declaration names lie in their tables. -/
structure Within (types methods : Nat) (c : Callee) : Prop where
  method : c.method.position < methods
  declaringType : c.declaringType.position < types
  params : ∀ t ∈ c.signature.params, TypesWithin types t.typeTokens
  returns : TypesWithin types c.signature.returns.typeTokens

variable {types methods n : Nat} {c : Callee} {s : CallSiteSlots} {o : Op}

theorem Within.emits (h : c.Within types methods) (hs : ∀ slot ∈ s.all, slot.position < n)
    (ho : c.Emits s o) : (Instr.op o).Within types methods n := by
  have htypes : TypesWithin types (Instr.op o).typeTokens := by
    cases ho with
    | box ht => exact h.params _ ht
    | unboxAny ht =>
      have hreturns := h.returns
      rw [ht] at hreturns
      exact hreturns
    | ldtokenType => simpa [TypesWithin, Instr.typeTokens] using h.declaringType
    | _ => simp [TypesWithin, Instr.typeTokens, DataType.typeTokens]
  have hmethods : MethodsWithin methods (Instr.op o).methodTokens := by
    cases ho with
    | ldtokenMethod => simpa [MethodsWithin, Instr.methodTokens] using h.method
    | _ => simp [MethodsWithin, Instr.methodTokens]
  have hslots : ∀ slot ∈ (Instr.op o).slots, slot.position < n := by
    cases ho with
    | stloc hslot | ldloc hslot => simpa [Instr.slots] using hs _ hslot
    | _ => simp [Instr.slots]
  exact ⟨htypes, hmethods, hslots⟩

theorem position_lt_of_mem_slotsFrom (h : n + c.slotTypes.length ≤ 2 ^ 32) {slot : LocalSlot}
    (hslot : slot ∈ (c.slotsFrom n).all) : slot.position < n + c.slotTypes.length := by
  have hmem := List.mem_map_of_mem (f := LocalSlot.position) hslot
  rw [c.positions_slotsFrom n h] at hmem
  exact (List.mem_range'_1.1 hmem).2

end Callee

namespace Module

variable {m m' : Module} {b : Body}

theorem Closed.callee (hm : m.Closed) {i : Instr} {c : Callee} (h : m.describe i = .ok c) :
    c.Within m.types.length m.methods.length := by
  obtain ⟨t, rfl, hcallee⟩ := describe_eq_ok_iff.1 h
  obtain ⟨d, _, hd, _, rfl⟩ := callee_eq_ok_iff.1 hcallee
  have hwithin := hm.methods d (List.mem_of_getElem? hd)
  have ht : t.position < m.methods.length := (List.getElem?_eq_some_iff.1 hd).1
  exact ⟨ht, hwithin.declaringType, hwithin.params, hwithin.returns⟩

/-- What stands for code names the slots below those in use, and those of its calls. -/
theorem Closed.opsFrom (hm : m.Closed) {n : Nat} {code : List Instr}
    (hcode : ∀ i ∈ code, i.Within m.types.length m.methods.length n)
    (hfew : n + (code.flatMap m.slotTypesFor).length ≤ 2 ^ 32) :
    ∀ o ∈ m.opsFrom n code, (Instr.op o).Within m.types.length m.methods.length
      (n + (code.flatMap m.slotTypesFor).length) := by
  intro o ho
  rcases mem_opsFrom ho with hmem | ⟨i, c, k, hc, hemits, hk⟩
  · exact (hcode _ hmem).mono (Nat.le_add_right _ _)
  · have hslots : ∀ slot ∈ (c.slotsFrom k).all, slot.position < k + c.slotTypes.length :=
      fun slot hslot => Callee.position_lt_of_mem_slotsFrom (by omega) hslot
    have hwithin := (hm.callee hc).emits hslots hemits
    exact hwithin.mono hk

theorem Closed.redirected (hm : m.Closed) (hb : b.Within m.types.length m.methods.length)
    (hfew : (m.redirected b).locals.length ≤ 2 ^ 32) :
    (m.redirected b).Within m.types.length m.methods.length := by
  have hlength : (m.redirected b).locals.length =
      b.locals.length + (b.code.flatMap m.slotTypesFor).length := List.length_append
  refine ⟨?_, ?_⟩
  · intro type htype
    rcases List.mem_append.1 htype with htype | htype
    · exact hb.locals type htype
    · obtain ⟨i, _, hi⟩ := List.mem_flatMap.1 htype
      rcases Redirector.mem_slotTypesFor hi with rfl | rfl
      · exact fun t ht => (nomatch ht)
      · exact fun t ht => (nomatch ht)
  · intro i hi
    obtain ⟨o, ho, rfl⟩ := List.mem_map.1 hi
    rw [hlength] at hfew ⊢
    exact hm.opsFrom hb.code hfew o ho

end Module

/-! ### Modules that can be stored at some length -/

structure Body.Storable (limits : Image.Limits) (types methods : Nat) (b : Body) : Prop where
  locals : b.locals.length ≤ 65535
  constants : ∀ s, .op (.ldstr s) ∈ b.code → (Image.utf8 s).length ≤ limits.stringLength
  references : b.Within types methods

structure MethodDef.Storable (limits : Image.Limits) (types methods : Nat) (d : MethodDef) :
    Prop where
  name : (Image.utf8 d.name).length ≤ limits.stringLength
  params : d.signature.params.length ≤ 65535
  references : d.declaration.Within types methods
  body : ∀ b, d.body = some b → b.Storable limits types methods

/-- What limits ask of a module, but for the length of its code and of its image. -/
structure Module.Storable (limits : Image.Limits) (m : Module) : Prop where
  name : (Image.utf8 m.name).length ≤ limits.stringLength
  types : m.types.length ≤ limits.types
  typeDefs : ∀ t ∈ m.types, (Image.utf8 t.name).length ≤ limits.stringLength ∧
    t.methods.length ≤ limits.methods ∧ MethodsWithin m.methods.length t.methods
  methods : m.methods.length ≤ limits.methods
  methodDefs : ∀ d ∈ m.methods, d.Storable limits m.types.length m.methods.length

theorem Module.Storable.closed {limits : Image.Limits} {m : Module} (h : m.Storable limits) :
    m.Closed := by
  refine ⟨fun t ht => (h.typeDefs t ht).2.2, fun d hd => ?_⟩
  have hd' := h.methodDefs d hd
  have hdeclared := hd'.references
  exact ⟨hdeclared.declaringType, hdeclared.params, hdeclared.returns,
    fun b hb => (hd'.body b hb).references⟩

theorem Image.encodable_iff {limits : Limits} {m : Module} :
    Encodable limits m ↔ m.Storable limits ∧
      (∀ d ∈ m.methods, ∀ b, d.body = some b → b.code.length ≤ limits.instructions) ∧
        (encode m).length ≤ limits.bufferSize := by
  constructor
  · intro h
    have htypeDefs : ∀ t ∈ m.types, (utf8 t.name).length ≤ limits.stringLength ∧
        t.methods.length ≤ limits.methods ∧ MethodsWithin m.methods.length t.methods :=
      fun t ht => ⟨h.typeNames t ht, h.methodLists t ht, h.references.methodLists t ht⟩
    have hmethodDefs : ∀ d ∈ m.methods, d.Storable limits m.types.length m.methods.length := by
      intro d hd
      have hwithin := h.references.methods d hd
      refine ⟨h.methodNames d hd, h.params d hd, ?_, fun b hb => ?_⟩
      · exact ⟨hwithin.declaringType, hwithin.params, hwithin.returns, fun _ hb => (nomatch hb)⟩
      · exact ⟨h.locals d hd b hb, h.constants d hd b hb, hwithin.body b hb⟩
    exact ⟨⟨h.name, h.types, htypeDefs, h.methods, hmethodDefs⟩, h.instructions, h.size⟩
  · intro ⟨h, hcode, hsize⟩
    have hbody : ∀ d ∈ m.methods, ∀ b, d.body = some b →
        b.Storable limits m.types.length m.methods.length :=
      fun d hd b hb => (h.methodDefs d hd).body b hb
    exact ⟨hsize, h.name, fun t ht => (h.typeDefs t ht).1, fun d hd => (h.methodDefs d hd).name,
      fun d hd b hb => (hbody d hd b hb).constants, h.types, h.methods,
      fun t ht => (h.typeDefs t ht).2.1, fun d hd => (h.methodDefs d hd).params,
      fun d hd b hb => (hbody d hd b hb).locals, hcode, h.closed⟩

theorem Image.decodeWithin_encode_iff {limits : Limits} {m : Module}
    (hsmall : limits.bufferSize < 2 ^ 32) :
    decodeWithin limits (encode m) = .ok m ↔ Encodable limits m := by
  rw [decodeWithin_eq_ok_iff]
  constructor
  · intro ⟨hsize, hfits, hclosed, _⟩
    exact encodable_of_fits hfits hsize hclosed
  · intro h
    exact ⟨h.size, h.fits hsmall, h.references, 0, rfl⟩

/-- What can be read keeps to the limits, though not all that was in the input is written again. -/
theorem Image.storable_of_decodeWithin {limits : Limits} {bytes : List UInt8} {m : Module}
    (h : decodeWithin limits bytes = .ok m) : m.Storable limits := by
  obtain ⟨hsize, hfits, hclosed, flags, hbytes⟩ := decodeWithin_eq_ok_iff.1 h
  have hlength : (encode m).length = (spelling flags m).length := by
    rw [← set_flags_spelling flags m, List.length_set, List.length_set]
  rw [hbytes, ← hlength] at hsize
  exact (encodable_iff.1 (encodable_of_fits hfits hsize hclosed)).1

/-! ### What redirecting keeps -/

theorem Module.Closed.commit {m : Module} (hm : m.Closed) {limits : Image.Limits} {b : Body}
    (hb : b.Storable limits m.types.length m.methods.length) {method : String} {limit : Nat}
    {x : Redirected} (hlimit : limit ≤ slotCeiling) (h : m.redirectBody method b limit = .ok x) :
    (x.commit b).Storable limits m.types.length m.methods.length := by
  have hlocals := hb.locals
  obtain ⟨hcommit, _, hroom⟩ := redirectBody_eq_ok (by omega) h
  have hlength : (m.redirected b).locals.length =
      b.locals.length + (b.code.flatMap m.slotTypesFor).length := List.length_append
  have hfew : (m.redirected b).locals.length ≤ 65535 := by
    rcases hroom with hnone | hroom
    · rw [hlength, hnone, List.length_nil]
      exact hlocals
    · exact Nat.le_trans hroom hlimit
  rw [hcommit]
  refine ⟨hfew, fun s hs => ?_, hm.redirected hb.references (by omega)⟩
  obtain ⟨o, ho, hos⟩ := List.mem_map.1 hs
  cases hos
  -- expansions have no constants of their own
  rcases mem_opsFrom ho with hmem | ⟨_, _, _, _, hemits, _⟩
  · exact hb.constants s hmem
  · cases hemits

namespace Redirector

variable {r : Redirector} {m m' : Module} {ts : List MethodToken} {limits : Image.Limits}

theorem Applied.storable (h : r.Applied m ts m') (hr : r.maxLocals ≤ slotCeiling)
    (hm : m.Storable limits) : m'.Storable limits := by
  have hcount := h.declares.length_methods
  refine ⟨?_, ?_, ?_, ?_, ?_⟩
  · rw [h.name]
    exact hm.name
  · rw [h.declares.types]
    exact hm.types
  · rw [h.declares.types, hcount]
    exact hm.typeDefs
  · rw [hcount]
    exact hm.methods
  · rw [h.declares.types, hcount]
    intro d' hd'
    obtain ⟨k, hk⟩ := List.mem_iff_getElem?.1 hd'
    rcases h.getElem?_cases hk with ⟨_, hd⟩ | ⟨_, d, b, x, hd, hb, hx, rfl⟩
    · exact hm.methodDefs d' (List.mem_of_getElem? hd)
    · have hbefore := hm.methodDefs d (List.mem_of_getElem? hd)
      refine ⟨hbefore.name, hbefore.params, hbefore.references, fun b' hb' => ?_⟩
      cases hb'
      exact hm.closed.commit (hbefore.body b hb) hr hx

theorem perform_storable (hr : r.maxLocals ≤ slotCeiling) (hm : m.Storable limits) (task : Task) :
    (r.perform m task).module.Storable limits := by
  rcases perform_cases r m task with ⟨reports, _, hdelivers⟩ | ⟨_, hsame⟩
  · exact hdelivers.applied.storable hr hm
  · rw [hsame]
    exact hm

end Redirector

/-- A module that redirectors made of another, by any tasks in a row. -/
inductive Module.Becomes (m : Module) : Module → Prop where
  | refl : m.Becomes m
  | step {m' : Module} (h : m.Becomes m') (maxLocals : Nat) (task : Redirector.Task) :
    m.Becomes ((Redirector.withMaxLocals maxLocals).perform m' task).module

theorem Module.Becomes.storable {limits : Image.Limits} {m m' : Module} (h : m.Becomes m')
    (hm : m.Storable limits) : m'.Storable limits := by
  induction h with
  | refl => exact hm
  | step _ maxLocals task ih =>
    have hr : (Redirector.withMaxLocals maxLocals).maxLocals ≤ slotCeiling := Nat.min_le_right _ _
    exact Redirector.perform_storable hr ih task

namespace Image

/-- Whatever redirectors make of a module that was read can be read again, unless a body or the
image has become too long for the limits. -/
theorem decodeWithin_encode_of_becomes {limits : Limits} {bytes : List UInt8} {m m' : Module}
    (hsmall : limits.bufferSize < 2 ^ 32) (hread : decodeWithin limits bytes = .ok m)
    (hm' : m.Becomes m') :
    m'.Closed ∧ (∀ d ∈ m'.methods, ∀ b, d.body = some b → b.locals.length ≤ 65535) ∧
      (decodeWithin limits (encode m') = .ok m' ↔
        (∀ d ∈ m'.methods, ∀ b, d.body = some b → b.code.length ≤ limits.instructions) ∧
          (encode m').length ≤ limits.bufferSize) := by
  have hstorable := hm'.storable (storable_of_decodeWithin hread)
  refine ⟨hstorable.closed, fun d hd b hb => ((hstorable.methodDefs d hd).body b hb).locals, ?_⟩
  rw [decodeWithin_encode_iff hsmall, encodable_iff]
  exact ⟨fun h => h.2, fun h => ⟨hstorable, h⟩⟩

/-- The module that calls itself, redirected with the standard bound. -/
def redirectedProbe : Module := (Redirector.standard.perform probe .all).module

theorem decodeWithin_encode_of_becomes_probe :
    decodeWithin .standard (encode probe) = .ok probe ∧ probe.Becomes redirectedProbe ∧
      redirectedProbe ≠ probe ∧
        decodeWithin .standard (encode redirectedProbe) = .ok redirectedProbe := by
  have hsmall : Limits.standard.bufferSize < 2 ^ 32 := by decide
  have hread := (decodeWithin_encode_iff hsmall).2 encodable_probe
  have hm' : probe.Becomes redirectedProbe := .step .refl 65534 .all
  have hafter := decodeWithin_encode_of_becomes hsmall hread hm'
  have hlength : (encode redirectedProbe).length ≤ Limits.standard.bufferSize := by decide +kernel
  refine ⟨hread, hm', by decide, hafter.2.2.2 ⟨?_, hlength⟩⟩
  decide

end Image

end Interpose
