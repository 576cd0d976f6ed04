import Interpose.Json.ModuleForm
import Interpose.Proofs.Json.Derived
import Interpose.Proofs.Json.Text

/-!
# The standard libraries keep to the documented format

`Serde.standard` follows the rules for derived types and reads and prints as documented. So what is
told of all libraries that do is told of it.
-/

namespace Interpose

namespace Json

/-! ### Numbers -/

theorem natBelow?_int {n : Int} {bound : Nat} (hlow : 0 ≤ n) (hhigh : n < bound) :
    natBelow? bound (int n) = some n.toNat := by
  obtain ⟨k, rfl⟩ := Int.eq_ofNat_of_zero_le hlow
  simp only [int, natBelow?, int?_ofInt]
  exact if_pos (Int.ofNat_lt.1 hhigh)

theorem intWithin?_int {bits : Nat} {n : Int} (hle : -Int.ofNat (1 <<< (bits - 1)) ≤ n)
    (hlt : n < Int.ofNat (1 <<< (bits - 1))) : intWithin? bits (int n) = some n := by
  simp only [int, intWithin?, int?_ofInt]
  exact if_pos (by simp only [hle, hlt, decide_true, Bool.and_self])

theorem whole_word16 :
    Serde.standard.word16.Whole (fun i => i.toNat) (fun n => .ofNat n.toNat) 0 (2 ^ 16) where
  form i := nat_eq_int i.toNat
  read hlow hhigh := congrArg (Option.map UInt16.ofNat) (natBelow?_int hlow hhigh)

theorem whole_word32 :
    Serde.standard.word32.Whole (fun i => i.toNat) (fun n => .ofNat n.toNat) 0 (2 ^ 32) where
  form i := nat_eq_int i.toNat
  read hlow hhigh := congrArg (Option.map UInt32.ofNat) (natBelow?_int hlow hhigh)

theorem whole_int32 :
    Serde.standard.int32.Whole Int32.toInt Int32.ofInt (-2 ^ 31) (2 ^ 31) where
  form _ := rfl
  read hlow hhigh := congrArg (Option.map Int32.ofInt) (intWithin?_int hlow hhigh)

theorem whole_int64 :
    Serde.standard.int64.Whole Int64.toInt Int64.ofInt (-2 ^ 63) (2 ^ 63) where
  form _ := rfl
  read hlow hhigh := congrArg (Option.map Int64.ofInt) (intWithin?_int hlow hhigh)

/-! ### Lists and options -/

theorem readAll_eq_mapM {α : Type} (item : Json → Option α) (done : List α) (items : List Json) :
    readAll item done items = (items.mapM item).map (done.reverse ++ ·) := by
  induction items generalizing done with
  | nil => simp [readAll]
  | cons v items ih =>
    rw [readAll, List.mapM_cons]
    cases item v with
    | none => rfl
    | some a =>
      simp only [ih]
      cases items.mapM item with
      | none => rfl
      | some as => simp

theorem list?_array {α : Type} (item : Json → Option α) (items : List Json) :
    list? item (.array items) = items.mapM item := by
  rw [list?, readAll_eq_mapM]
  cases items.mapM item with
  | none => rfl
  | some as => rfl

theorem option_read {α : Type} (item : Codec α) {v : Json} (hv : v ≠ .null) :
    item.option.read v = (item.read v).map some := by
  cases v with
  | null => exact absurd rfl hv
  | _ => rfl

/-! ### Choices -/

theorem Codec.tagged_of_forall {α : Type} {c : Codec α} {cases : List (Case α)}
    (h : ∀ k ∈ cases, k.Writes c ∧ k.Reads c) : c.Tagged cases where
  writes k hk := (h k hk).1
  reads hname := (h _ (List.mem_of_find?_eq_some hname)).2

/-- The entries of an object with the keys that a record asks for. -/
theorem exists_cons_of_keys {entries : List (String × Json)} {name : String} {names : List String}
    (h : entries.map (·.1) = name :: names) :
    ∃ v rest, entries = (name, v) :: rest ∧ rest.map (·.1) = names := by
  cases entries with
  | nil => cases h
  | cons e rest =>
    obtain ⟨rfl, hrest⟩ := List.cons.inj h
    exact ⟨e.2, rest, rfl, hrest⟩

theorem eq_nil_of_keys {entries : List (String × Json)} (h : entries.map (·.1) = []) :
    entries = [] :=
  List.map_eq_nil_iff.1 h

/-- The fields of a record are read one after another. -/
theorem Fields.map_read_cons {α β γ : Type} (name : String) (content : Codec β) (rest : Fields γ)
    (make : β × γ → α) (v : Json) (vs : List Json) :
    ((Fields.cons name content rest).read (v :: vs)).map make =
      (content.read v).bind fun b => (rest.read vs).map fun c => make (b, c) := by
  rw [Fields.read]
  cases content.read v with
  | none => rfl
  | some b => cases rest.read vs <;> rfl

theorem Fields.map_read_nil {α : Type} (make : Unit → α) (vs : List Json) :
    (Fields.nil.read vs).map make = some (make ()) := rfl

namespace Serde

theorem tagged_metadataToken :
    standard.metadataToken.Tagged standard.metadataTokenCases := by
  refine Codec.tagged_of_forall ?_
  simp only [metadataTokenCases, List.forall_mem_cons]
  exact ⟨⟨fun _ => rfl, fun _ => rfl⟩, ⟨fun _ => rfl, fun _ => rfl⟩, nofun⟩

theorem tagged_dataType : standard.dataType.Tagged standard.dataTypeCases := by
  refine Codec.tagged_of_forall ?_
  simp only [dataTypeCases, List.forall_mem_cons]
  exact ⟨⟨rfl, rfl⟩, ⟨rfl, rfl⟩, ⟨rfl, rfl⟩, ⟨rfl, rfl⟩, ⟨rfl, rfl⟩, ⟨rfl, rfl⟩, ⟨rfl, rfl⟩,
    ⟨fun _ => rfl, fun _ => rfl⟩, nofun⟩

theorem tagged_returnType : standard.returnType.Tagged standard.returnTypeCases := by
  refine Codec.tagged_of_forall ?_
  simp only [returnTypeCases, List.forall_mem_cons]
  exact ⟨⟨rfl, rfl⟩, ⟨fun _ => rfl, fun _ => rfl⟩, nofun⟩

theorem tagged_callTarget : standard.callTarget.Tagged standard.callTargetCases := by
  refine Codec.tagged_of_forall ?_
  simp only [callTargetCases, List.forall_mem_cons]
  refine ⟨⟨fun _ => rfl, fun _ => rfl⟩, ⟨fun _ => rfl, fun entries hkeys => ?_⟩, nofun⟩
  obtain ⟨arity, _, rfl, hrest⟩ := exists_cons_of_keys hkeys
  cases eq_nil_of_keys hrest
  have hread : standard.callTarget.read (.object [("Indirect", .object [("arity", arity)])]) =
      (word16? arity).map .indirect := rfl
  rw [hread]
  simp only [List.map_cons, Fields.map_read_cons, Fields.map_read_nil]
  exact Option.map_eq_bind

theorem tagged_op : standard.op.Tagged standard.opCases := by
  refine Codec.tagged_of_forall ?_
  simp only [opCases, List.forall_mem_cons]
  and_intros
  all_goals first
    | exact rfl
    | exact fun _ => rfl
    | exact fun _ => (Option.map_map _ _ _).symm
    | nofun

theorem tagged_instr : standard.instr.Tagged standard.instrCases := by
  refine Codec.tagged_of_forall ?_
  simp only [instrCases, List.forall_mem_cons]
  exact ⟨⟨fun _ => rfl, fun _ => rfl⟩, ⟨fun _ => rfl, fun _ => rfl⟩, nofun⟩

/-! ### Records -/

theorem record_signature : standard.signature.Record standard.signatureFields
    (fun s => (s.params, s.returns, s.isStatic, ())) fun c => ⟨c.1, c.2.1, c.2.2.1⟩ where
  form _ := rfl
  read hkeys := by
    obtain ⟨params, _, rfl, hkeys₁⟩ := exists_cons_of_keys hkeys
    obtain ⟨returns, _, rfl, hkeys₂⟩ := exists_cons_of_keys hkeys₁
    obtain ⟨isStatic, _, rfl, hkeys₃⟩ := exists_cons_of_keys hkeys₂
    cases eq_nil_of_keys hkeys₃
    have hread : standard.signature.read (.object [("params", params), ("ret", returns),
        ("is_static", isStatic)]) =
          (list? dataType? params).bind fun params =>
            (returnType? returns).bind fun returns =>
              (bool? isStatic).bind fun isStatic => some ⟨params, returns, isStatic⟩ := rfl
    rw [hread]
    simp only [signatureFields, List.map_cons, Fields.map_read_cons, Fields.map_read_nil]
    rfl

theorem record_localDecl :
    standard.localDecl.Record standard.localDeclFields (fun t => (t, ())) fun c => c.1 where
  form _ := rfl
  read hkeys := by
    obtain ⟨type, _, rfl, hkeys₁⟩ := exists_cons_of_keys hkeys
    cases eq_nil_of_keys hkeys₁
    have hread : standard.localDecl.read (.object [("ty", type)]) = dataType? type := rfl
    rw [hread]
    simp only [localDeclFields, List.map_cons, Fields.map_read_cons, Fields.map_read_nil]
    exact (Option.bind_fun_some _).symm

theorem record_body : standard.body.Record standard.bodyFields
    (fun b => (b.locals, b.code, ())) fun c => ⟨c.1, c.2.1⟩ where
  form _ := rfl
  read hkeys := by
    obtain ⟨locals, _, rfl, hkeys₁⟩ := exists_cons_of_keys hkeys
    obtain ⟨code, _, rfl, hkeys₂⟩ := exists_cons_of_keys hkeys₁
    cases eq_nil_of_keys hkeys₂
    have hread : standard.body.read (.object [("locals", locals), ("instructions", code)]) =
        (list? local? locals).bind fun locals =>
          (list? instr? code).bind fun code => some ⟨locals, code⟩ := rfl
    rw [hread]
    simp only [bodyFields, List.map_cons, Fields.map_read_cons, Fields.map_read_nil]
    rfl

theorem record_typeDef : standard.typeDef.Record standard.typeDefFields
    (fun t => (t.name, t.methods, ())) fun c => ⟨c.1, c.2.1⟩ where
  form _ := rfl
  read hkeys := by
    obtain ⟨name, _, rfl, hkeys₁⟩ := exists_cons_of_keys hkeys
    obtain ⟨methods, _, rfl, hkeys₂⟩ := exists_cons_of_keys hkeys₁
    cases eq_nil_of_keys hkeys₂
    have hread : standard.typeDef.read (.object [("name", name), ("methods", methods)]) =
        (string? name).bind fun name =>
          (list? method? methods).bind fun methods => some ⟨name, methods⟩ := rfl
    rw [hread]
    simp only [typeDefFields, List.map_cons, Fields.map_read_cons, Fields.map_read_nil]
    rfl

theorem optionalBody?_some (v : Json) :
    optionalBody? (some v) = standard.body.option.read v := by
  cases v <;> rfl

theorem record_methodDef : standard.methodDef.Record standard.methodDefFields
    (fun d => (d.declaringType, d.name, d.signature, d.body, ()))
    fun c => ⟨c.1, c.2.1, c.2.2.1, c.2.2.2.1⟩ where
  form d := by
    cases hbody : d.body with
    | none => simp [standard, ofMethodDef, methodDefFields, Fields.forms, Codec.option, hbody]
    | some b => simp [standard, ofMethodDef, methodDefFields, Fields.forms, Codec.option, hbody]
  read hkeys := by
    obtain ⟨declaringType, _, rfl, hkeys₁⟩ := exists_cons_of_keys hkeys
    obtain ⟨name, _, rfl, hkeys₂⟩ := exists_cons_of_keys hkeys₁
    obtain ⟨signature, _, rfl, hkeys₃⟩ := exists_cons_of_keys hkeys₂
    obtain ⟨body, _, rfl, hkeys₄⟩ := exists_cons_of_keys hkeys₃
    cases eq_nil_of_keys hkeys₄
    have hread : standard.methodDef.read (.object [("declaring_type", declaringType),
        ("name", name), ("signature", signature), ("body", body)]) =
          (type? declaringType).bind fun declaringType =>
            (string? name).bind fun name =>
              (signature? signature).bind fun signature =>
                (optionalBody? (some body)).bind fun body =>
                  some ⟨declaringType, name, signature, body⟩ := rfl
    rw [hread, optionalBody?_some]
    simp only [methodDefFields, List.map_cons, Fields.map_read_cons, Fields.map_read_nil]
    rfl

theorem record_module : standard.module.Record standard.moduleFields
    (fun m => (m.name, m.types, m.methods, ())) fun c => ⟨c.1, c.2.1, c.2.2.1⟩ where
  form _ := rfl
  read hkeys := by
    obtain ⟨name, _, rfl, hkeys₁⟩ := exists_cons_of_keys hkeys
    obtain ⟨types, _, rfl, hkeys₂⟩ := exists_cons_of_keys hkeys₁
    obtain ⟨methods, _, rfl, hkeys₃⟩ := exists_cons_of_keys hkeys₂
    cases eq_nil_of_keys hkeys₃
    have hread : standard.module.read (.object [("name", name), ("types", types),
        ("methods", methods)]) =
        (string? name).bind fun name =>
          (list? typeDef? types).bind fun types =>
            (list? methodDef? methods).bind fun methods => some ⟨name, types, methods⟩ := rfl
    rw [hread]
    simp only [moduleFields, List.map_cons, Fields.map_read_cons, Fields.map_read_nil]
    rfl

theorem documented_standard : standard.Documented where
  compact := compact_compact
  parse := parse_of_denotes
  bool_form _ := rfl
  bool_read _ := rfl
  string_form _ := rfl
  string_read _ := rfl
  word16 := whole_word16
  word32 := whole_word32
  int32 := whole_int32
  int64 := whole_int64
  list_form _ _ := rfl
  list_read item items := list?_array item.read items
  option_form_none _ := rfl
  option_form_some _ _ := rfl
  option_read_null _ := rfl
  option_read item _ hv := Json.option_read item hv
  type := ⟨fun _ => rfl, fun _ => rfl⟩
  method := ⟨fun _ => rfl, fun _ => rfl⟩
  slot := ⟨fun _ => rfl, fun _ => rfl⟩
  label := ⟨fun _ => rfl, fun _ => rfl⟩
  metadataToken := tagged_metadataToken
  dataType := tagged_dataType
  returnType := tagged_returnType
  signature := record_signature
  callTarget := tagged_callTarget
  op := tagged_op
  instr := tagged_instr
  localDecl := record_localDecl
  body := record_body
  typeDef := record_typeDef
  methodDef := record_methodDef
  module := record_module

end Serde

end Json

namespace Module

/-- With libraries that keep to their documented format, the JSON text of a module without
floating-point constants is read as the module, and as no other: modules with the same text are the
same. -/
theorem jsonText_faithful {S : Json.Serde} (hS : S.Documented) {m : Module}
    (hm : m.WithoutFloats) : ofJsonText? S (m.toJsonText S) = some m ∧
      ∀ m' : Module, m'.WithoutFloats → m'.toJsonText S = m.toJsonText S → m' = m := by
  refine ⟨ofJsonText?_toJsonText hS hm, fun m' hm' htext => ?_⟩
  have hread := ofJsonText?_toJsonText hS hm'
  rw [htext, ofJsonText?_toJsonText hS hm] at hread
  exact (Option.some.inj hread).symm

/-- A module with names that need escapes, extreme numbers, and a method without a body. -/
def awkward : Module :=
  ⟨"a \"quoted\" \\ name", [⟨"\x01\n", [⟨0⟩, ⟨4294967295⟩]⟩],
    [⟨⟨0⟩, "\u00e9", ⟨[.classType ⟨3⟩, .int32], .value .string, false⟩,
        some ⟨[.objectArray], [.op (.ldcI4 (-2147483648)), .op (.ldcI8 (-1)), .op (.ldstr "\t/"),
          .op (.ldtoken (.method ⟨1⟩)), .call (.indirect 2), .op .ret]⟩⟩,
      ⟨⟨7⟩, "", ⟨[], .void, true⟩, none⟩]⟩

theorem jsonText_faithful_awkward : ofJsonText? .standard (awkward.toJsonText .standard) =
      some awkward ∧
    (awkward.setBody ⟨1⟩ ⟨[], []⟩).toJsonText .standard ≠ awkward.toJsonText .standard := by
  have hm : awkward.WithoutFloats := by decide
  have hother : (awkward.setBody ⟨1⟩ ⟨[], []⟩).WithoutFloats := by decide
  have hne : awkward.setBody ⟨1⟩ ⟨[], []⟩ ≠ awkward := by decide
  obtain ⟨hread, hunique⟩ := jsonText_faithful Json.Serde.documented_standard hm
  exact ⟨hread, fun htext => hne (hunique _ hother htext)⟩

end Module

end Interpose
