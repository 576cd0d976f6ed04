import Interpose.Proofs.Image.Parts

/-!
# Where a written part ends

Below 2^32 bytes, no written form of a part is the start of another one: two inputs that start with
written parts and are equal start with the same part. The bounds of a reader play no role in this.
-/

namespace Interpose.Image

/-- Equal inputs that start with something written start with the same thing. -/
def SelfDelimiting {α : Type} (write : α → List UInt8) : Prop :=
  ∀ a b r s, (write a).length < 2 ^ 32 → (write b).length < 2 ^ 32 →
    write a ++ r = write b ++ s → a = b ∧ r = s

/-- What a reader reads back whatever its size delimits itself. -/
theorem Codec.selfDelimiting {α : Type} {reader : Reader α} {write : α → List UInt8}
    {fits : α → Prop} (h : Codec reader write fits)
    (small : ∀ a, (write a).length < 2 ^ 32 → fits a) : SelfDelimiting write := by
  intro a b r s ha hb same
  have first : reader ⟨write a ++ r, 0, 0⟩ = .ok (a, ⟨r, 0 + (write a).length, 0⟩) :=
    (h _ _ _).2 ⟨small a ha, rfl, rfl, rfl⟩
  have second : reader ⟨write b ++ s, 0, 0⟩ = .ok (b, ⟨s, 0 + (write b).length, 0⟩) :=
    (h _ _ _).2 ⟨small b hb, rfl, rfl, rfl⟩
  rw [same, second] at first
  cases first
  exact ⟨rfl, rfl⟩

theorem length_writeCount (n : Nat) : (writeCount n).length = 4 := length_bytesOfNat 4 n

theorem selfDelimiting_writeString : SelfDelimiting writeString := by
  refine (Reader.string_codec (2 ^ 32)).selfDelimiting ?_
  intro s h
  simp only [writeString, List.length_append, length_writeCount] at h
  omega

/-! ### Lists -/

section Lists

variable {α : Type} {item : α → List UInt8}

theorem length_le_length_flatMap (filled : ∀ a, item a ≠ []) (items : List α) :
    items.length ≤ (items.flatMap item).length := by
  induction items with
  | nil => exact Nat.le_refl 0
  | cons a rest ih =>
    have positive : 0 < (item a).length := List.length_pos_iff.2 (filled a)
    simp only [List.flatMap_cons, List.length_append, List.length_cons]
    omega

theorem flatMap_append_cancel (h : SelfDelimiting item) {xs ys : List α} {r s : List UInt8}
    (hx : (xs.flatMap item).length < 2 ^ 32) (hy : (ys.flatMap item).length < 2 ^ 32)
    (count : xs.length = ys.length) (same : xs.flatMap item ++ r = ys.flatMap item ++ s) :
    xs = ys ∧ r = s := by
  -- equal numbers of elements end at the same place; without them one list may run into the rest
  induction xs generalizing ys with
  | nil =>
    obtain rfl := List.eq_nil_of_length_eq_zero count.symm
    exact ⟨rfl, same⟩
  | cons x xs ih =>
    cases ys with
    | nil => cases count
    | cons y ys =>
      simp only [List.flatMap_cons, List.length_append, List.append_assoc] at hx hy same
      obtain ⟨rfl, rest⟩ := h x y _ _ (by omega) (by omega) same
      obtain ⟨rfl, tail⟩ := ih (by omega) (by omega) (Nat.succ.inj count) rest
      exact ⟨rfl, tail⟩

/-- The count in front is cut to 32 bits, but a list with more elements has too many bytes. -/
theorem selfDelimiting_writeList (h : SelfDelimiting item) (filled : ∀ a, item a ≠ []) :
    SelfDelimiting (writeList item) := by
  intro xs ys r s hx hy same
  have boundx := length_le_length_flatMap filled xs
  have boundy := length_le_length_flatMap filled ys
  simp only [writeList, List.length_append, length_writeCount] at hx hy
  simp only [writeList, List.append_assoc] at same
  have counts : (writeCount xs.length).length = (writeCount ys.length).length := by
    rw [length_writeCount, length_writeCount]
  obtain ⟨front, back⟩ := List.append_inj same counts
  have count : xs.length = ys.length := by
    have values := congrArg natOfBytes front
    rw [writeCount, writeCount, natOfBytes_bytesOfNat, natOfBytes_bytesOfNat,
      Nat.mod_eq_of_lt (by omega), Nat.mod_eq_of_lt (by omega)] at values
    exact values
  exact flatMap_append_cancel h (by omega) (by omega) count back

end Lists

/-! ### Parts of a module -/

theorem selfDelimiting_writeDataType : SelfDelimiting writeDataType :=
  Reader.dataType_codec.selfDelimiting fun _ _ => trivial

theorem writeDataType_ne_nil (t : DataType) : writeDataType t ≠ [] := by
  cases t <;> simp [writeDataType]

theorem selfDelimiting_writeInstr : SelfDelimiting writeInstr := by
  refine (Reader.instr_codec { Limits.standard with stringLength := 2 ^ 32 }).selfDelimiting ?_
  intro i h
  unfold InstrFits
  split
  · rename_i text
    simp only [writeInstr, writeOp, writeString, List.length_cons, List.length_append] at h
    have bound : (utf8 text).length < 2 ^ 32 := by omega
    exact ⟨bound, Nat.le_of_lt bound⟩
  · trivial

theorem writeInstr_ne_nil (i : Instr) : writeInstr i ≠ [] := by
  cases i with
  | call target => cases target <;> simp [writeInstr]
  | op o =>
    cases o with
    | ldtoken t => cases t <;> simp [writeInstr, writeOp]
    | _ => simp [writeInstr, writeOp]

theorem selfDelimiting_writeSignature : SelfDelimiting writeSignature := by
  intro a b r s ha hb same
  simp only [writeSignature, List.length_append] at ha hb
  simp only [writeSignature, List.append_assoc] at same
  obtain ⟨params, same⟩ := selfDelimiting_writeList selfDelimiting_writeDataType
    writeDataType_ne_nil _ _ _ _ (by omega) (by omega) same
  obtain ⟨returns, same⟩ := (Reader.returnType_codec.selfDelimiting fun _ _ => trivial)
    _ _ _ _ (by omega) (by omega) same
  obtain ⟨isStatic, tail⟩ := (Reader.staticFlag_codec.selfDelimiting fun _ _ => trivial)
    a.isStatic b.isStatic _ _ (by simp) (by simp) same
  cases a
  cases b
  simp only at params returns isStatic
  rw [params, returns, isStatic]
  exact ⟨rfl, tail⟩

theorem selfDelimiting_writeBody : SelfDelimiting writeBody := by
  intro a b r s ha hb same
  cases a with
  | none =>
    cases b with
    | none => exact ⟨rfl, (List.cons.inj same).2⟩
    | some b => simp [writeBody] at same
  | some a =>
    cases b with
    | none => simp [writeBody] at same
    | some b =>
      simp only [writeBody, List.length_cons, List.length_append] at ha hb
      simp only [writeBody, List.cons_append, List.append_assoc, List.cons.injEq, true_and] at same
      obtain ⟨locals, same⟩ := selfDelimiting_writeList selfDelimiting_writeDataType
        writeDataType_ne_nil _ _ _ _ (by omega) (by omega) same
      obtain ⟨code, tail⟩ := selfDelimiting_writeList selfDelimiting_writeInstr
        writeInstr_ne_nil _ _ _ _ (by omega) (by omega) same
      cases a
      cases b
      simp only at locals code
      rw [locals, code]
      exact ⟨rfl, tail⟩

theorem selfDelimiting_writeMethod : SelfDelimiting writeMethod :=
  Reader.method_codec.selfDelimiting fun _ _ => trivial

theorem writeMethod_ne_nil (m : MethodToken) : writeMethod m ≠ [] := by
  simp [writeMethod, writeU32, bytesOfNat]

theorem selfDelimiting_writeTypeDef : SelfDelimiting writeTypeDef := by
  intro a b r s ha hb same
  simp only [writeTypeDef, List.length_append] at ha hb
  simp only [writeTypeDef, List.append_assoc] at same
  obtain ⟨name, same⟩ := selfDelimiting_writeString _ _ _ _ (by omega) (by omega) same
  obtain ⟨methods, tail⟩ := selfDelimiting_writeList selfDelimiting_writeMethod
    writeMethod_ne_nil _ _ _ _ (by omega) (by omega) same
  cases a
  cases b
  simp only at name methods
  rw [name, methods]
  exact ⟨rfl, tail⟩

theorem writeTypeDef_ne_nil (t : TypeDef) : writeTypeDef t ≠ [] := by
  simp [writeTypeDef, writeString, writeCount, bytesOfNat]

theorem selfDelimiting_writeMethodDef : SelfDelimiting writeMethodDef := by
  intro a b r s ha hb same
  simp only [writeMethodDef, List.length_append] at ha hb
  simp only [writeMethodDef, List.append_assoc] at same
  obtain ⟨declaringType, same⟩ := (Reader.type_codec.selfDelimiting fun _ _ => trivial)
    _ _ _ _ (by omega) (by omega) same
  obtain ⟨name, same⟩ := selfDelimiting_writeString _ _ _ _ (by omega) (by omega) same
  obtain ⟨signature, same⟩ := selfDelimiting_writeSignature _ _ _ _ (by omega) (by omega) same
  obtain ⟨body, tail⟩ := selfDelimiting_writeBody _ _ _ _ (by omega) (by omega) same
  cases a
  cases b
  simp only at declaringType name signature body
  rw [declaringType, name, signature, body]
  exact ⟨rfl, tail⟩

theorem writeMethodDef_ne_nil (d : MethodDef) : writeMethodDef d ≠ [] := by
  simp [writeMethodDef, writeType, writeU32, bytesOfNat]

/-- Below 2^32 bytes, an image with its flags determines the module. -/
theorem eq_of_spelling_eq {flags flags' : UInt16} {m m' : Module}
    (small : (spelling flags m).length < 2 ^ 32) (same : spelling flags m = spelling flags' m') :
    m = m' := by
  have small' : (spelling flags' m').length < 2 ^ 32 := same ▸ small
  have header : (magic ++ (writeU16 version ++ writeU16 flags)).length
      = (magic ++ (writeU16 version ++ writeU16 flags')).length := rfl
  simp only [spelling, List.length_append] at small small'
  have split : ∀ f (n : Module), spelling f n = (magic ++ (writeU16 version ++ writeU16 f))
      ++ (writeString n.name ++ (writeList writeTypeDef n.types
        ++ writeList writeMethodDef n.methods)) := by
    intro f n
    simp only [spelling, List.append_assoc]
  rw [split, split] at same
  obtain ⟨-, same⟩ := List.append_inj same header
  obtain ⟨name, same⟩ := selfDelimiting_writeString _ _ _ _ (by omega) (by omega) same
  obtain ⟨types, same⟩ := selfDelimiting_writeList selfDelimiting_writeTypeDef
    writeTypeDef_ne_nil _ _ _ _ (by omega) (by omega) same
  obtain ⟨methods, -⟩ := selfDelimiting_writeList selfDelimiting_writeMethodDef
    writeMethodDef_ne_nil m.methods m'.methods [] [] (by omega) (by omega) (by rw [same])
  cases m
  cases m'
  simp only at name types methods
  rw [name, types, methods]

end Interpose.Image
