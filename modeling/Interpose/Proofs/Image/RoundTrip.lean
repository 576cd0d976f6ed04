import Interpose.Proofs.Image.Delimited
import Interpose.Proofs.Image.References

/-!
# Reading and writing undo each other

`decode_with_limits` accepts an input exactly if it is the image of a module within the limits, with
any flags, and all references of the module lie inside their tables. So a module that `encode`
writes can be read back exactly if it keeps to the limits, and an image that is read can only have
been written from what was read.
-/

namespace Interpose.Image

/-! ### Accepted inputs -/

theorem decodeWithin_eq_ok_iff {limits : Limits} {bytes : List UInt8} {m : Module} :
    decodeWithin limits bytes = .ok m ↔
      bytes.length ≤ limits.bufferSize ∧ ModuleFits limits m ∧ m.Closed ∧
        ∃ flags, bytes = spelling flags m := by
  constructor
  · intro h
    unfold decodeWithin at h
    split at h
    · cases h
    · rename_i size
      split at h
      · cases h
      · rename_i m' d read
        split at h
        · cases h
        · rename_i done
          split at h
          · cases h
          · rename_i checked
            cases h
            obtain ⟨fits, flags, passed⟩ := Reader.module_eq_ok_iff.1 read
            have empty : d.rest = [] := by simpa using done
            have whole := passed.rest
            rw [empty, List.append_nil] at whole
            exact ⟨Nat.le_of_not_lt size, fits, checkReferences_eq_ok_iff.1 checked, flags, whole⟩
  · intro h
    obtain ⟨size, fits, closed, flags, rfl⟩ := h
    have passed : (Cursor.start (spelling flags m)).Passes (spelling flags m)
        ⟨[], (spelling flags m).length, (spelling flags m).length⟩ :=
      ⟨(List.append_nil _).symm, (Nat.zero_add _).symm, rfl⟩
    have read := Reader.module_eq_ok_iff.2 ⟨fits, flags, passed⟩
    have checked := checkReferences_eq_ok_iff.2 closed
    simp only [decodeWithin, if_neg (Nat.not_lt.2 size), read, checked]
    rfl

/-! ### Modules that can be read back -/

/-- A module keeps to limits: its image is not too long, no text and no list in it is, and its
references are sound. -/
structure Encodable (limits : Limits) (m : Module) : Prop where
  size : (encode m).length ≤ limits.bufferSize
  name : (utf8 m.name).length ≤ limits.stringLength
  typeNames : ∀ t ∈ m.types, (utf8 t.name).length ≤ limits.stringLength
  methodNames : ∀ d ∈ m.methods, (utf8 d.name).length ≤ limits.stringLength
  constants : ∀ d ∈ m.methods, ∀ b, d.body = some b → ∀ s, .op (.ldstr s) ∈ b.code →
    (utf8 s).length ≤ limits.stringLength
  types : m.types.length ≤ limits.types
  methods : m.methods.length ≤ limits.methods
  methodLists : ∀ t ∈ m.types, t.methods.length ≤ limits.methods
  params : ∀ d ∈ m.methods, d.signature.params.length ≤ 65535
  locals : ∀ d ∈ m.methods, ∀ b, d.body = some b → b.locals.length ≤ 65535
  instructions : ∀ d ∈ m.methods, ∀ b, d.body = some b → b.code.length ≤ limits.instructions
  references : m.Closed

section Sizes

variable {α : Type} (item : α → List UInt8) (items : List α) {a : α}

theorem length_le_length_writeList (filled : ∀ a, item a ≠ []) :
    items.length ≤ (writeList item items).length := by
  have h := length_le_length_flatMap filled items
  simp only [writeList, List.length_append]
  omega

theorem length_item_le_length_writeList (h : a ∈ items) :
    (item a).length ≤ (writeList item items).length := by
  obtain ⟨front, back, rfl⟩ := List.append_of_mem h
  simp only [writeList, List.flatMap_append, List.flatMap_cons, List.length_append]
  omega

end Sizes

/-! An image below 2^32 bytes has no text and no list whose length is cut. -/

theorem typeDef_lengths_le (t : TypeDef) :
    (utf8 t.name).length ≤ (writeTypeDef t).length ∧ t.methods.length ≤ (writeTypeDef t).length := by
  have h := length_le_length_writeList writeMethod t.methods writeMethod_ne_nil
  simp only [writeTypeDef, writeString, List.length_append]
  omega

theorem methodDef_lengths_le (d : MethodDef) :
    (utf8 d.name).length ≤ (writeMethodDef d).length ∧
      (writeBody d.body).length ≤ (writeMethodDef d).length := by
  simp only [writeMethodDef, writeString, List.length_append]
  omega

theorem body_lengths_le (b : Body) :
    b.code.length ≤ (writeBody (some b)).length ∧
      ∀ i ∈ b.code, (writeInstr i).length ≤ (writeBody (some b)).length := by
  have h := length_le_length_writeList writeInstr b.code writeInstr_ne_nil
  simp only [writeBody, List.length_cons, List.length_append]
  refine ⟨by omega, ?_⟩
  intro i hi
  have member := length_item_le_length_writeList writeInstr b.code hi
  omega

theorem constant_length_le (s : String) : (utf8 s).length ≤ (writeInstr (.op (.ldstr s))).length := by
  simp only [writeInstr, writeOp, writeString, List.length_cons, List.length_append]
  omega

theorem Encodable.fits {limits : Limits} {m : Module} (h : Encodable limits m)
    (small : limits.bufferSize < 2 ^ 32) : ModuleFits limits m := by
  have total := h.size
  simp only [encode, List.length_append] at total
  have types := length_le_length_writeList writeTypeDef m.types writeTypeDef_ne_nil
  have methods := length_le_length_writeList writeMethodDef m.methods writeMethodDef_ne_nil
  have name : (utf8 m.name).length ≤ (writeString m.name).length := by
    simp only [writeString, List.length_append]
    omega
  refine ⟨⟨by omega, h.name⟩, ⟨by omega, h.types⟩, ?_, ⟨by omega, h.methods⟩, ?_⟩
  · intro t ht
    have size := length_item_le_length_writeList writeTypeDef m.types ht
    have parts := typeDef_lengths_le t
    exact ⟨⟨by omega, h.typeNames t ht⟩, by omega, h.methodLists t ht⟩
  · intro d hd
    have size := length_item_le_length_writeList writeMethodDef m.methods hd
    have parts := methodDef_lengths_le d
    have params := h.params d hd
    refine ⟨⟨by omega, h.methodNames d hd⟩, ⟨by omega, params⟩, ?_⟩
    intro b hb
    have inner := body_lengths_le b
    have locals := h.locals d hd b hb
    rw [hb] at parts
    refine ⟨⟨by omega, locals⟩, ⟨by omega, h.instructions d hd b hb⟩, ?_⟩
    intro i hi
    unfold InstrFits
    split
    · rename_i s
      have size' := inner.2 _ hi
      have constant := constant_length_le s
      exact ⟨by omega, h.constants d hd b hb s hi⟩
    · trivial

theorem encodable_of_fits {limits : Limits} {m : Module} (fits : ModuleFits limits m)
    (size : (encode m).length ≤ limits.bufferSize) (closed : m.Closed) : Encodable limits m where
  size := size
  name := fits.name.2
  typeNames t ht := (fits.typeDefs t ht).name.2
  methodNames d hd := (fits.methodDefs d hd).name.2
  constants d hd b hb _ hs := (((fits.methodDefs d hd).body b hb).instrs _ hs).2
  types := fits.types.2
  methods := fits.methods.2
  methodLists t ht := (fits.typeDefs t ht).methods.2
  params d hd := (fits.methodDefs d hd).signature.2
  locals d hd b hb := ((fits.methodDefs d hd).body b hb).locals.2
  instructions d hd b hb := ((fits.methodDefs d hd).body b hb).code.2
  references := closed

/-- An image can be read back exactly if its module keeps to the limits, and then it is the same
module that is read. A length that was cut does not pass for a shorter one. -/
theorem decodeWithin_encode {limits : Limits} (small : limits.bufferSize < 2 ^ 32) (m : Module) :
    ((∃ m', decodeWithin limits (encode m) = .ok m') ↔ Encodable limits m) ∧
      ∀ m', decodeWithin limits (encode m) = .ok m' → m' = m := by
  have same : ∀ m', decodeWithin limits (encode m) = .ok m' → m' = m := by
    intro m' h
    obtain ⟨size, -, -, flags, spelled⟩ := decodeWithin_eq_ok_iff.1 h
    rw [encode_eq_spelling] at size spelled
    exact (eq_of_spelling_eq (Nat.lt_of_le_of_lt size small) spelled).symm
  refine ⟨⟨?_, ?_⟩, same⟩
  · intro h
    obtain ⟨m', h⟩ := h
    obtain rfl := same m' h
    obtain ⟨size, fits, closed, -⟩ := decodeWithin_eq_ok_iff.1 h
    exact encodable_of_fits fits size closed
  · intro h
    exact ⟨m, decodeWithin_eq_ok_iff.2 ⟨h.size, h.fits small, h.references, 0, rfl⟩⟩

/-- A module with a text of two-byte characters, a constant that is not a number and a call. -/
def probe : Module :=
  ⟨"probe", [⟨"Type", [⟨0⟩]⟩],
    [⟨⟨0⟩, "run", ⟨[.classType ⟨0⟩], .value .float64, true⟩,
      some ⟨[.int32], [.op (.ldstr "é"), .op (.stloc ⟨0⟩), .call (.direct ⟨0⟩),
        .op (.ldcR8 ⟨0x7ff8000000000001⟩), .op .ret]⟩⟩]⟩

theorem encodable_probe : Encodable .standard probe := by
  refine ⟨by decide, by decide, by decide, by decide, ?_, by decide, by decide, by decide,
    by decide, ?_, ?_, checkReferences_eq_ok_iff.1 rfl⟩
  · intro d hd b hb s hs
    obtain rfl := List.mem_singleton.1 hd
    cases hb
    obtain rfl : s = "é" := by simpa using hs
    decide
  · intro d hd b hb
    obtain rfl := List.mem_singleton.1 hd
    cases hb
    decide
  · intro d hd b hb
    obtain rfl := List.mem_singleton.1 hd
    cases hb
    decide

theorem decodeWithin_standard_probe : decodeWithin .standard (encode probe) = .ok probe :=
  decodeWithin_eq_ok_iff.2 ⟨encodable_probe.size, encodable_probe.fits (by decide),
    encodable_probe.references, 0, rfl⟩

theorem decodeWithin_encode_probe :
    Limits.standard.bufferSize < 2 ^ 32 ∧ decodeWithin .standard (encode probe) = .ok probe := by
  have small : Limits.standard.bufferSize < 2 ^ 32 := by decide
  have both := decodeWithin_encode small probe
  obtain ⟨m, read⟩ := both.1.2 encodable_probe
  rw [both.2 m read] at read
  exact ⟨small, read⟩

/-! ### Images that were read -/

theorem set_flags_spelling (flags : UInt16) (m : Module) :
    ((spelling flags m).set 6 0).set 7 0 = encode m := rfl

/-- Writing what was read gives the input back, but for its two bytes of flags. So inputs that are
read as the same module differ in those two bytes at most. -/
theorem encode_of_decodeWithin {limits : Limits} {bytes : List UInt8} {m : Module}
    (h : decodeWithin limits bytes = .ok m) :
    encode m = (bytes.set 6 0).set 7 0 ∧
      ∀ limits' bytes', decodeWithin limits' bytes' = .ok m →
        bytes'.length = bytes.length ∧ ∀ i, i ≠ 6 → i ≠ 7 → bytes'[i]? = bytes[i]? := by
  have unflagged : ∀ limits' bytes', decodeWithin limits' bytes' = .ok m →
      encode m = (bytes'.set 6 0).set 7 0 := by
    intro limits' bytes' h'
    obtain ⟨-, -, -, flags, rfl⟩ := decodeWithin_eq_ok_iff.1 h'
    exact (set_flags_spelling flags m).symm
  refine ⟨unflagged limits bytes h, ?_⟩
  intro limits' bytes' h'
  have same : (bytes'.set 6 0).set 7 0 = (bytes.set 6 0).set 7 0 :=
    (unflagged limits' bytes' h').symm.trans (unflagged limits bytes h)
  refine ⟨?_, ?_⟩
  · simpa only [List.length_set] using congrArg List.length same
  · intro i h₆ h₇
    have entry := congrArg (fun l => l[i]?) same
    simpa only [List.getElem?_set_ne (Ne.symm h₆), List.getElem?_set_ne (Ne.symm h₇)] using entry

theorem encode_of_decodeWithin_probe :
    decodeWithin .standard (spelling 0x1234 probe) = .ok probe ∧
      encode probe = ((spelling 0x1234 probe).set 6 0).set 7 0 := by
  have small : Limits.standard.bufferSize < 2 ^ 32 := by decide
  have read : decodeWithin .standard (spelling 0x1234 probe) = .ok probe :=
    decodeWithin_eq_ok_iff.2
      ⟨by decide, encodable_probe.fits small, encodable_probe.references, 0x1234, rfl⟩
  exact ⟨read, (encode_of_decodeWithin read).1⟩

end Interpose.Image
