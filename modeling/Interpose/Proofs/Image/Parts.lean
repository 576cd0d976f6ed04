import Interpose.Image.Decode
import Interpose.Proofs.Image.Codec

/-!
# The parts of an image

For each part of the format, reader and writer belong together. The bounds on a part are those that
are looked at while it is read; references are checked later and play no part here.
-/

namespace Interpose.Image

/-! ### Bounds on parts -/

/-- The length of a text can be written and lies within a limit. -/
def TextFits (limit : Nat) (s : String) : Prop :=
  (utf8 s).length < 2 ^ 32 ∧ (utf8 s).length ≤ limit

/-- The number of elements can be written and lies within a limit. -/
def ListFits {α : Type} (limit : Nat) (items : List α) : Prop :=
  items.length < 2 ^ 32 ∧ items.length ≤ limit

def SignatureFits (s : Signature) : Prop := ListFits maxParams s.params

def InstrFits (limits : Limits) : Instr → Prop
  | .op (.ldstr s) => TextFits limits.stringLength s
  | _ => True

structure BodyFits (limits : Limits) (b : Body) : Prop where
  locals : ListFits maxLocals b.locals
  code : ListFits limits.instructions b.code
  instrs : ∀ i ∈ b.code, InstrFits limits i

structure TypeDefFits (limits : Limits) (t : TypeDef) : Prop where
  name : TextFits limits.stringLength t.name
  methods : ListFits limits.methods t.methods

structure MethodDefFits (limits : Limits) (m : MethodDef) : Prop where
  name : TextFits limits.stringLength m.name
  signature : SignatureFits m.signature
  body : ∀ b, m.body = some b → BodyFits limits b

structure ModuleFits (limits : Limits) (m : Module) : Prop where
  name : TextFits limits.stringLength m.name
  types : ListFits limits.types m.types
  typeDefs : ∀ t ∈ m.types, TypeDefFits limits t
  methods : ListFits limits.methods m.methods
  methodDefs : ∀ d ∈ m.methods, MethodDefFits limits d

namespace Reader

/-! ### Forms behind a tag -/

section Tagged

variable {α β : Type} {r : Reader α} {write : α → List UInt8} {fits : α → Prop}
  (spell : β → List UInt8) (ok : β → Prop) {mk : α → β} {c d e : Cursor} {tag : UInt8} {n : Nat}
  {b : β}

theorem eq_ofNat_of_toNat_eq (h : tag.toNat = n) : tag = UInt8.ofNat n := by
  rw [← h, UInt8.ofNat_toNat]

theorem passes_of_bare {a : β} (passed : c.Passes [tag] e)
    (done : (Pure.pure a : Reader β) e = .ok (b, d)) (h : tag.toNat = n) (fit : ok a)
    (spelled : spell a = [UInt8.ofNat n]) : ok b ∧ c.Passes (spell b) d := by
  cases done
  rw [spelled, ← eq_ofNat_of_toNat_eq h]
  exact ⟨fit, passed⟩

theorem passes_of_operand (pair : Codec r write fits) (passed : c.Passes [tag] e)
    (done : (r >>= fun a => (Pure.pure (mk a) : Reader β)) e = .ok (b, d)) (h : tag.toNat = n)
    (fit : ∀ a, fits a → ok (mk a)) (spelled : ∀ a, spell (mk a) = UInt8.ofNat n :: write a) :
    ok b ∧ c.Passes (spell b) d := by
  obtain ⟨a, e', ⟨fit', passed'⟩, done⟩ := pair.bind_iff.1 done
  cases done
  rw [spelled, ← eq_ofNat_of_toNat_eq h, Cursor.passes_cons_iff]
  exact ⟨fit a fit', e, passed, passed'⟩

/-- Where a tag and its operand stand, the form that goes with the tag reads the operand. -/
theorem tagged_eq_ok (pair : Codec r write fits) {a : α} (passed : c.Passes (tag :: write a) d)
    {form : UInt8 → Reader β} (which : form tag = r >>= fun a => Pure.pure (mk a)) (fit : fits a) :
    (u8 >>= form) c = .ok (mk a, d) := by
  obtain ⟨e, front, back⟩ := Cursor.passes_cons_iff.1 passed
  refine u8_bind_iff.2 ⟨tag, e, _, front, which, ?_⟩
  exact pair.bind_iff.2 ⟨a, d, ⟨fit, back⟩, rfl⟩

end Tagged

/-! ### Tokens and types -/

theorem type_codec : Codec type writeType fun _ => True :=
  u32_codec.map TypeToken.mk TypeToken.index (fun _ => True) (fun _ => rfl) (fun _ _ => rfl)
    fun _ => Iff.rfl

theorem method_codec : Codec method writeMethod fun _ => True :=
  u32_codec.map MethodToken.mk MethodToken.index (fun _ => True) (fun _ => rfl) (fun _ _ => rfl)
    fun _ => Iff.rfl

theorem slot_codec : Codec slot (fun s => writeU32 s.index) fun _ => True :=
  u32_codec.map LocalSlot.mk LocalSlot.index (fun _ => True) (fun _ => rfl) (fun _ _ => rfl)
    fun _ => Iff.rfl

theorem label_codec : Codec label (fun l => writeU32 l.id) fun _ => True :=
  u32_codec.map Label.mk Label.id (fun _ => True) (fun _ => rfl) (fun _ _ => rfl)
    fun _ => Iff.rfl

theorem dataType_codec : Codec dataType writeDataType fun _ => True := by
  intro c t d
  constructor
  · intro read
    obtain ⟨tag, e, r, passed, form, done⟩ := u8_bind_iff.1 read
    split at form <;> subst form <;> rename_i h
    · exact passes_of_bare writeDataType (fun _ => True) passed done h trivial rfl
    · exact passes_of_bare writeDataType (fun _ => True) passed done h trivial rfl
    · exact passes_of_bare writeDataType (fun _ => True) passed done h trivial rfl
    · exact passes_of_bare writeDataType (fun _ => True) passed done h trivial rfl
    · exact passes_of_bare writeDataType (fun _ => True) passed done h trivial rfl
    · exact passes_of_bare writeDataType (fun _ => True) passed done h trivial rfl
    · exact passes_of_bare writeDataType (fun _ => True) passed done h trivial rfl
    · exact passes_of_operand writeDataType (fun _ => True) type_codec passed done h (fun _ _ => trivial)
        fun _ => rfl
    · cases done
  · rintro ⟨-, passed⟩
    cases t with
    | classType t => exact tagged_eq_ok type_codec passed rfl trivial
    | _ => exact u8_bind_iff.2 ⟨_, d, _, passed, rfl, rfl⟩

theorem returnType_codec : Codec returnType writeReturnType fun _ => True := by
  intro c t d
  constructor
  · intro read
    obtain ⟨tag, e, r, passed, form, done⟩ := u8_bind_iff.1 read
    split at form <;> subst form <;> rename_i h
    · exact passes_of_bare writeReturnType (fun _ => True) passed done h trivial rfl
    · exact passes_of_operand writeReturnType (fun _ => True) dataType_codec passed done h (fun _ _ => trivial)
        fun _ => rfl
    · cases done
  · rintro ⟨-, passed⟩
    cases t with
    | void => exact u8_bind_iff.2 ⟨_, d, _, passed, rfl, rfl⟩
    | value t => exact tagged_eq_ok dataType_codec passed rfl trivial

theorem staticFlag_codec : Codec staticFlag (fun b => [if b then 1 else 0]) fun _ => True := by
  intro c b d
  constructor
  · intro read
    obtain ⟨tag, e, r, passed, form, done⟩ := u8_bind_iff.1 read
    split at form <;> subst form <;> rename_i h
    · exact passes_of_bare (fun b => [if b then 1 else 0]) (fun _ => True) passed done h trivial rfl
    · exact passes_of_bare (fun b => [if b then 1 else 0]) (fun _ => True) passed done h trivial rfl
    · cases done
  · rintro ⟨-, passed⟩
    cases b with
    | false => exact u8_bind_iff.2 ⟨_, d, _, passed, rfl, rfl⟩
    | true => exact u8_bind_iff.2 ⟨_, d, _, passed, rfl, rfl⟩

theorem signature_codec : Codec signature writeSignature SignatureFits := by
  intro c s d
  simp only [signature, (list_codec dataType_codec .params maxParams).bind_iff,
    returnType_codec.bind_iff, staticFlag_codec.bind_iff, pure_apply, writeSignature,
    Cursor.passes_append_iff]
  constructor
  · rintro ⟨params, e, ⟨⟨fit, -⟩, p⟩, returns, e', ⟨-, p'⟩, isStatic, e'', ⟨-, p''⟩, done⟩
    cases done
    exact ⟨fit, e, p, e', p', p''⟩
  · rintro ⟨fit, e, p, e', p', p''⟩
    exact ⟨s.params, e, ⟨⟨fit, fun _ _ => trivial⟩, p⟩, s.returns, e', ⟨trivial, p'⟩, s.isStatic, d,
      ⟨trivial, p''⟩, rfl⟩

/-! ### Instructions and bodies -/

theorem instr_of_operand {limits : Limits} {α : Type} {r : Reader α} {write : α → List UInt8}
    {fits : α → Prop} (pair : Codec r write fits) {mk : α → Instr} {tag : UInt8} {n : Nat}
    {c d e : Cursor} {i : Instr} (passed : c.Passes [tag] e)
    (done : (r >>= fun a => (Pure.pure (mk a) : Reader Instr)) e = .ok (i, d)) (h : tag.toNat = n)
    (fit : ∀ a, fits a → InstrFits limits (mk a))
    (spelled : ∀ a, writeInstr (mk a) = UInt8.ofNat n :: write a) :
    InstrFits limits i ∧ c.Passes (writeInstr i) d :=
  passes_of_operand writeInstr (InstrFits limits) pair passed done h fit spelled

theorem instr_eq_ok {limits : Limits} {α : Type} {r : Reader α} {write : α → List UInt8}
    {fits : α → Prop} (pair : Codec r write fits) {mk : α → Instr} {tag : UInt8} {c d : Cursor}
    {a : α} (passed : c.Passes (tag :: write a) d)
    (which : operand limits tag = r >>= fun a => Pure.pure (mk a)) (fit : fits a) :
    instr limits c = .ok (mk a, d) :=
  tagged_eq_ok pair passed which fit

theorem instr_codec (limits : Limits) : Codec (instr limits) writeInstr (InstrFits limits) := by
  intro c i d
  constructor
  · intro read
    obtain ⟨tag, e, r, passed, form, done⟩ := u8_bind_iff.1 read
    have bare := @passes_of_bare _ writeInstr (InstrFits limits) c d e tag
    unfold operand at form
    split at form <;> subst form <;> rename_i h
    · exact bare passed done h trivial rfl
    · exact instr_of_operand u16_codec passed done h (fun _ _ => trivial) fun _ => rfl
    · exact instr_of_operand u16_codec passed done h (fun _ _ => trivial) fun _ => rfl
    · exact instr_of_operand slot_codec passed done h (fun _ _ => trivial) fun _ => rfl
    · exact instr_of_operand slot_codec passed done h (fun _ _ => trivial) fun _ => rfl
    · exact bare passed done h trivial rfl
    · exact instr_of_operand u32_codec passed done h (fun _ _ => trivial) fun _ => rfl
    · exact instr_of_operand u64_codec passed done h (fun _ _ => trivial) fun _ => rfl
    · exact instr_of_operand u64_codec passed done h (fun _ _ => trivial) fun _ => rfl
    · exact instr_of_operand (string_codec limits.stringLength) passed done h (fun _ fit => fit)
        fun _ => rfl
    · exact bare passed done h trivial rfl
    · exact bare passed done h trivial rfl
    · exact bare passed done h trivial rfl
    · exact bare passed done h trivial rfl
    · exact bare passed done h trivial rfl
    · exact bare passed done h trivial rfl
    · exact bare passed done h trivial rfl
    · exact instr_of_operand label_codec passed done h (fun _ _ => trivial) fun _ => rfl
    · exact instr_of_operand label_codec passed done h (fun _ _ => trivial) fun _ => rfl
    · exact instr_of_operand label_codec passed done h (fun _ _ => trivial) fun _ => rfl
    · exact instr_of_operand label_codec passed done h (fun _ _ => trivial) fun _ => rfl
    · exact bare passed done h trivial rfl
    · exact instr_of_operand dataType_codec passed done h (fun _ _ => trivial) fun _ => rfl
    · exact instr_of_operand dataType_codec passed done h (fun _ _ => trivial) fun _ => rfl
    · exact instr_of_operand type_codec passed done h (fun _ _ => trivial) fun _ => rfl
    · exact instr_of_operand dataType_codec passed done h (fun _ _ => trivial) fun _ => rfl
    · exact bare passed done h trivial rfl
    · exact bare passed done h trivial rfl
    · exact bare passed done h trivial rfl
    · exact instr_of_operand type_codec passed done h (fun _ _ => trivial) fun _ => rfl
    · exact instr_of_operand method_codec passed done h (fun _ _ => trivial) fun _ => rfl
    · exact instr_of_operand method_codec passed done h (fun _ _ => trivial) fun _ => rfl
    · exact bare passed done h trivial rfl
    · exact bare passed done h trivial rfl
    · exact bare passed done h trivial rfl
    · exact instr_of_operand method_codec passed done h (fun _ _ => trivial) fun _ => rfl
    · exact instr_of_operand u16_codec passed done h (fun _ _ => trivial) fun _ => rfl
    · cases done
  · intro h
    obtain ⟨fit, passed⟩ := h
    cases i with
    | call target =>
      cases target with
      | direct m => exact instr_eq_ok method_codec passed rfl trivial
      | indirect arity => exact instr_eq_ok u16_codec passed rfl trivial
    | op o =>
      cases o with
      | ldarg | starg => exact instr_eq_ok u16_codec passed rfl trivial
      | ldloc | stloc => exact instr_eq_ok slot_codec passed rfl trivial
      | ldcI4 => exact instr_eq_ok u32_codec passed rfl trivial
      | ldcI8 | ldcR8 => exact instr_eq_ok u64_codec passed rfl trivial
      | ldstr => exact instr_eq_ok (string_codec limits.stringLength) passed rfl fit
      | label | br | brtrue | brfalse => exact instr_eq_ok label_codec passed rfl trivial
      | box | unboxAny | newarr => exact instr_eq_ok dataType_codec passed rfl trivial
      | newobj => exact instr_eq_ok type_codec passed rfl trivial
      | ldftn => exact instr_eq_ok method_codec passed rfl trivial
      | ldtoken t =>
        cases t with
        | type => exact instr_eq_ok type_codec passed rfl trivial
        | method => exact instr_eq_ok method_codec passed rfl trivial
      | _ => exact u8_bind_iff.2 ⟨_, d, _, passed, rfl, rfl⟩

theorem body_codec (limits : Limits) :
    Codec (body limits) writeBody fun b => ∀ x, b = some x → BodyFits limits x := by
  intro c b d
  constructor
  · intro read
    obtain ⟨tag, e, r, passed, form, done⟩ := u8_bind_iff.1 read
    split at form <;> subst form <;> rename_i h
    · exact passes_of_bare writeBody (fun b => ∀ x, b = some x → BodyFits limits x) passed done h
        (by simp) rfl
    · obtain ⟨locals, e', ⟨⟨fit, -⟩, p⟩, done⟩ :=
        (list_codec dataType_codec .locals maxLocals).bind_iff.1 done
      obtain ⟨code, e'', ⟨⟨fit', instrs⟩, p'⟩, done⟩ :=
        (list_codec (instr_codec limits) .instructions limits.instructions).bind_iff.1 done
      cases done
      rw [eq_ofNat_of_toNat_eq h] at passed
      rw [writeBody, Cursor.passes_cons_iff]
      refine ⟨?_, e, passed, Cursor.passes_append_iff.2 ⟨e', p, p'⟩⟩
      intro x hx
      cases hx
      exact ⟨fit, fit', instrs⟩
    · cases done
  · intro h
    obtain ⟨fit, passed⟩ := h
    cases b with
    | none => exact u8_bind_iff.2 ⟨_, d, _, passed, rfl, rfl⟩
    | some b =>
      have fit := fit b rfl
      rw [writeBody, Cursor.passes_cons_iff] at passed
      obtain ⟨e, p, rest⟩ := passed
      obtain ⟨e', p', p''⟩ := Cursor.passes_append_iff.1 rest
      refine u8_bind_iff.2 ⟨_, e, _, p, rfl, ?_⟩
      refine (list_codec dataType_codec .locals maxLocals).bind_iff.2
        ⟨b.locals, e', ⟨⟨fit.locals, fun _ _ => trivial⟩, p'⟩, ?_⟩
      exact (list_codec (instr_codec limits) .instructions limits.instructions).bind_iff.2
        ⟨b.code, d, ⟨⟨fit.code, fit.instrs⟩, p''⟩, rfl⟩

/-! ### Tables -/

theorem typeDef_codec (limits : Limits) :
    Codec (typeDef limits) writeTypeDef (TypeDefFits limits) := by
  intro c t d
  simp only [typeDef, (string_codec limits.stringLength).bind_iff,
    (list_codec method_codec .typeMethods limits.methods).bind_iff, pure_apply, writeTypeDef,
    Cursor.passes_append_iff]
  constructor
  · intro h
    obtain ⟨name, e, ⟨fit, p⟩, methods, e', ⟨⟨fit', -⟩, p'⟩, done⟩ := h
    cases done
    exact ⟨⟨fit, fit'⟩, e, p, p'⟩
  · intro h
    obtain ⟨⟨fit, fit'⟩, e, p, p'⟩ := h
    exact ⟨t.name, e, ⟨fit, p⟩, t.methods, d, ⟨⟨fit', fun _ _ => trivial⟩, p'⟩, rfl⟩

theorem methodDef_codec (limits : Limits) :
    Codec (methodDef limits) writeMethodDef (MethodDefFits limits) := by
  intro c m d
  simp only [methodDef, type_codec.bind_iff, (string_codec limits.stringLength).bind_iff,
    signature_codec.bind_iff, (body_codec limits).bind_iff, pure_apply, writeMethodDef,
    Cursor.passes_append_iff]
  constructor
  · intro h
    obtain ⟨declaring, e, ⟨-, p⟩, name, e', ⟨fit, p'⟩, signature, e'', ⟨fit', p''⟩, body, e''',
      ⟨fit'', p'''⟩, done⟩ := h
    cases done
    exact ⟨⟨fit, fit', fit''⟩, e, p, e', p', e'', p'', p'''⟩
  · intro h
    obtain ⟨⟨fit, fit', fit''⟩, e, p, e', p', e'', p'', p'''⟩ := h
    exact ⟨m.declaringType, e, ⟨trivial, p⟩, m.name, e', ⟨fit, p'⟩, m.signature, e'', ⟨fit', p''⟩,
      m.body, d, ⟨fit'', p'''⟩, rfl⟩

end Reader

/-! ### Whole images -/

/-- The image of a module, but with these flags. -/
def spelling (flags : UInt16) (m : Module) : List UInt8 :=
  magic ++ (writeU16 version ++ (writeU16 flags ++ (writeString m.name
    ++ (writeList writeTypeDef m.types ++ writeList writeMethodDef m.methods))))

theorem encode_eq_spelling (m : Module) : encode m = spelling 0 m := rfl

namespace Reader

theorem header_eq_ok_iff {u : Unit} {c d : Cursor} :
    header c = .ok (u, d) ↔
      ∃ flags, c.Passes (magic ++ (writeU16 version ++ writeU16 flags)) d := by
  simp only [header, bind_apply_eq_ok, bytes_eq_ok_iff, Cursor.passes_append_iff]
  constructor
  · intro h
    obtain ⟨m, e, ⟨-, p⟩, done⟩ := h
    split at done
    · cases done
    · rename_i hm
      obtain ⟨v, e', ⟨-, p'⟩, done⟩ := u16_codec.bind_iff.1 done
      split at done
      · cases done
      · rename_i hv
        obtain ⟨flags, e'', ⟨-, p''⟩, done⟩ := u16_codec.bind_iff.1 done
        cases done
        rw [Decidable.not_not.1 hm] at p
        rw [Decidable.not_not.1 hv] at p'
        exact ⟨flags, e, p, e', p', p''⟩
  · intro h
    obtain ⟨flags, e, p, e', p', p''⟩ := h
    refine ⟨magic, e, ⟨rfl, p⟩, ?_⟩
    rw [if_neg (by simp)]
    refine u16_codec.bind_iff.2 ⟨version, e', ⟨trivial, p'⟩, ?_⟩
    rw [if_neg (by simp)]
    exact u16_codec.bind_iff.2 ⟨flags, d, ⟨trivial, p''⟩, rfl⟩

theorem module_eq_ok_iff {limits : Limits} {m : Module} {c d : Cursor} :
    module limits c = .ok (m, d) ↔ ModuleFits limits m ∧ ∃ flags, c.Passes (spelling flags m) d := by
  simp only [module, bind_apply_eq_ok (r := header), header_eq_ok_iff,
    (string_codec limits.stringLength).bind_iff,
    (list_codec (typeDef_codec limits) .types limits.types).bind_iff,
    (list_codec (methodDef_codec limits) .methods limits.methods).bind_iff, pure_apply, spelling,
    Cursor.passes_append_iff]
  constructor
  · intro h
    obtain ⟨-, e, ⟨flags, e₁, p₁, e₂, p₂, p₃⟩, name, e₄, ⟨fit, p₄⟩, types, e₅, ⟨⟨fit', each⟩, p₅⟩,
      methods, e₆, ⟨⟨fit'', each'⟩, p₆⟩, done⟩ := h
    cases done
    exact ⟨⟨fit, fit', each, fit'', each'⟩, flags, e₁, p₁, e₂, p₂, e, p₃, e₄, p₄, e₅, p₅, p₆⟩
  · intro h
    obtain ⟨⟨fit, fit', each, fit'', each'⟩, flags, e₁, p₁, e₂, p₂, e, p₃, e₄, p₄, e₅, p₅, p₆⟩ := h
    exact ⟨(), e, ⟨flags, e₁, p₁, e₂, p₂, p₃⟩, m.name, e₄, ⟨fit, p₄⟩, m.types, e₅,
      ⟨⟨fit', each⟩, p₅⟩, m.methods, d, ⟨⟨fit'', each'⟩, p₆⟩, rfl⟩

end Reader

end Interpose.Image
