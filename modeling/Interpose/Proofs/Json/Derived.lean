import Interpose.Json.Serde
import Interpose.Proofs.Json.Grammar

/-!
# Modules are read back from their JSON form

What `serde` documents of derived types, as rules for a codec and the table that its type declares:
records are objects, choices are tagged from outside, and a type that only wraps another one has its
form. What `serde_json` documents of texts is compact printing and the grammar. With no more than
that, each part of a module is read back, since tags tell the cases apart and whole numbers keep
their range. Floating-point constants are the only part that may not have a form.
-/

namespace Interpose

/-! ### Modules without floating-point constants -/

def Instr.hasFloat : Instr → Bool
  | .op (.ldcR8 _) => true
  | _ => false

def Body.WithoutFloats (b : Body) : Prop := ∀ i ∈ b.code, i.hasFloat = false

def Module.WithoutFloats (m : Module) : Prop := ∀ d ∈ m.methods, ∀ b ∈ d.body, b.WithoutFloats

instance (b : Body) : Decidable b.WithoutFloats :=
  inferInstanceAs (Decidable (∀ i ∈ b.code, i.hasFloat = false))

instance (m : Module) : Decidable m.WithoutFloats :=
  inferInstanceAs (Decidable (∀ d ∈ m.methods, ∀ b ∈ d.body, b.WithoutFloats))

namespace Json

/-! ### The documented rules -/

namespace Codec

variable {α β γ : Type}

/-- A type of whole numbers from `low` on and below `high`. -/
structure Whole (c : Codec α) (value : α → Int) (ofInt : Int → α) (low high : Int) : Prop where
  form (a : α) : c.form a = .int (value a)
  read {n : Int} (hlow : low ≤ n) (hhigh : n < high) : c.read (.int n) = some (ofInt n)

/-- A record with a single field without a name. -/
structure Wraps (c : Codec α) (content : Codec β) (unwrap : α → β) (wrap : β → α) : Prop where
  form (a : α) : c.form a = content.form (unwrap a)
  read (v : Json) : c.read v = (content.read v).map wrap

structure Record (c : Codec α) (fields : Fields γ) (split : α → γ) (make : γ → α) : Prop where
  form (a : α) : c.form a = .object (fields.forms (split a))
  read {entries : List (String × Json)} (hnames : entries.map (·.1) = fields.names) :
    c.read (.object entries) = (fields.read (entries.map (·.2))).map make

end Codec

namespace Case

variable {α : Type}

/-- A choice is tagged from outside: its form has the name of the case as a tag. -/
def Writes (c : Codec α) : Case α → Prop
  | .bare name a => c.form a = .str name
  | .holding name content make => ∀ b, c.form (make b) = .object [(name, content.form b)]
  | .record name fields make => ∀ b, c.form (make b) = .object [(name, .object (fields.forms b))]

def Reads (c : Codec α) : Case α → Prop
  | .bare name a => c.read (.str name) = some a
  | .holding name content make =>
    ∀ v, c.read (.object [(name, v)]) = (content.read v).map make
  | .record name fields make => ∀ entries : List (String × Json),
    entries.map (·.1) = fields.names →
      c.read (.object [(name, .object entries)]) = (fields.read (entries.map (·.2))).map make

end Case

/-- A choice by its cases. How a name is read is for the first case of the name to say. -/
structure Codec.Tagged {α : Type} (c : Codec α) (cases : List (Case α)) : Prop where
  writes : ∀ k ∈ cases, k.Writes c
  reads {name : String} {k : Case α} (h : cases.find? (·.name = name) = some k) : k.Reads c

/-- How deep the values in a text may be nested. -/
def nestingLimit : Nat := 127

/-- What is documented of the libraries. -/
structure Serde.Documented (S : Serde) : Prop where
  compact : Compact S.print
  parse {text : String} {v : Json} (h : Denotes nestingLimit text.toList v) : S.parse text = some v
  bool_form (b : Bool) : S.bool.form b = .bool b
  bool_read (b : Bool) : S.bool.read (.bool b) = some b
  string_form (s : String) : S.string.form s = .str s
  string_read (s : String) : S.string.read (.str s) = some s
  word16 : S.word16.Whole (fun i => i.toNat) (fun n => .ofNat n.toNat) 0 (2 ^ 16)
  word32 : S.word32.Whole (fun i => i.toNat) (fun n => .ofNat n.toNat) 0 (2 ^ 32)
  int32 : S.int32.Whole Int32.toInt Int32.ofInt (-2 ^ 31) (2 ^ 31)
  int64 : S.int64.Whole Int64.toInt Int64.ofInt (-2 ^ 63) (2 ^ 63)
  list_form {α : Type} (item : Codec α) (as : List α) :
    (S.list item).form as = .array (as.map item.form)
  list_read {α : Type} (item : Codec α) (items : List Json) :
    (S.list item).read (.array items) = items.mapM item.read
  option_form_none {α : Type} (item : Codec α) : (S.option item).form none = .null
  option_form_some {α : Type} (item : Codec α) (a : α) :
    (S.option item).form (some a) = item.form a
  option_read_null {α : Type} (item : Codec α) : (S.option item).read .null = some none
  option_read {α : Type} (item : Codec α) {v : Json} (hv : v ≠ .null) :
    (S.option item).read v = (item.read v).map some
  type : S.type.Wraps S.word32 TypeToken.index TypeToken.mk
  method : S.method.Wraps S.word32 MethodToken.index MethodToken.mk
  slot : S.slot.Wraps S.word32 LocalSlot.index LocalSlot.mk
  label : S.label.Wraps S.word32 Label.id Label.mk
  metadataToken : S.metadataToken.Tagged S.metadataTokenCases
  dataType : S.dataType.Tagged S.dataTypeCases
  returnType : S.returnType.Tagged S.returnTypeCases
  signature : S.signature.Record S.signatureFields (fun s => (s.params, s.returns, s.isStatic, ()))
    fun c => ⟨c.1, c.2.1, c.2.2.1⟩
  callTarget : S.callTarget.Tagged S.callTargetCases
  op : S.op.Tagged S.opCases
  instr : S.instr.Tagged S.instrCases
  localDecl : S.localDecl.Record S.localDeclFields (fun t => (t, ())) fun c => c.1
  body : S.body.Record S.bodyFields (fun b => (b.locals, b.code, ())) fun c => ⟨c.1, c.2.1⟩
  typeDef : S.typeDef.Record S.typeDefFields (fun t => (t.name, t.methods, ()))
    fun c => ⟨c.1, c.2.1⟩
  methodDef : S.methodDef.Record S.methodDefFields
    (fun d => (d.declaringType, d.name, d.signature, d.body, ()))
    fun c => ⟨c.1, c.2.1, c.2.2.1, c.2.2.2.1⟩
  module : S.module.Record S.moduleFields (fun m => (m.name, m.types, m.methods, ()))
    fun c => ⟨c.1, c.2.1, c.2.2.1⟩

/-! ### What is read back -/

/-- The form of a value can be printed, and the value is read from it. -/
structure Codec.Keeps {α : Type} (c : Codec α) (depth : Nat) (a : α) : Prop where
  plain : (c.form a).Plain depth
  read : c.read (c.form a) = some a

namespace Fields

def Keeps {γ : Type} (depth : Nat) : Fields γ → γ → Prop
  | .nil, () => True
  | .cons _ content rest, (b, c) => content.Keeps depth b ∧ rest.Keeps depth c

variable {γ : Type} {depth : Nat}

theorem names_forms (fields : Fields γ) (c : γ) : (fields.forms c).map (·.1) = fields.names := by
  induction fields with
  | nil => rfl
  | cons name content rest ih =>
    rw [forms, List.map_cons, ih, names]

theorem Keeps.plain {fields : Fields γ} {c : γ} (h : fields.Keeps depth c) :
    ∀ e ∈ fields.forms c, e.2.Plain depth := by
  induction fields with
  | nil => exact fun e he => nomatch he
  | cons name content rest ih =>
    obtain ⟨hcontent, hrest⟩ := h
    rw [forms]
    exact List.forall_mem_cons.2 ⟨hcontent.plain, ih hrest⟩

theorem Keeps.read {fields : Fields γ} {c : γ} (h : fields.Keeps depth c) :
    fields.read ((fields.forms c).map (·.2)) = some c := by
  induction fields with
  | nil => rfl
  | cons name content rest ih =>
    obtain ⟨hcontent, hrest⟩ := h
    simp only [forms, List.map_cons, Fields.read, hcontent.read, ih hrest]
    rfl

end Fields

namespace Codec

variable {α β γ : Type} {c : Codec α} {depth : Nat}

theorem Whole.keeps {value : α → Int} {ofInt : Int → α} {low high : Int} {a : α}
    (h : c.Whole value ofInt low high) (depth : Nat) (hlow : low ≤ value a)
    (hhigh : value a < high) (hofInt : ofInt (value a) = a) (hmin : -2 ^ 63 ≤ low)
    (hmax : high ≤ 2 ^ 64) : c.Keeps depth a where
  plain := h.form a ▸ .int (Int.le_trans hmin hlow) (Int.lt_of_lt_of_le hhigh hmax)
  read := by rw [h.form, h.read hlow hhigh, hofInt]

theorem Wraps.keeps {content : Codec β} {unwrap : α → β} {wrap : β → α} {a : α}
    (h : c.Wraps content unwrap wrap) (hcontent : content.Keeps depth (unwrap a))
    (hwrap : wrap (unwrap a) = a) : c.Keeps depth a where
  plain := h.form a ▸ hcontent.plain
  read := by rw [h.form, h.read, hcontent.read, Option.map_some, hwrap]

theorem Record.keeps {fields : Fields γ} {split : α → γ} {make : γ → α} {a : α}
    (h : c.Record fields split make) (hfields : fields.Keeps depth (split a))
    (hmake : make (split a) = a) : c.Keeps (depth + 1) a where
  plain := h.form a ▸ .object hfields.plain
  read := by
    rw [h.form, h.read (fields.names_forms (split a)), hfields.read, Option.map_some, hmake]

namespace Tagged

variable {cases : List (Case α)}

theorem keeps_bare {a : α} (h : c.Tagged cases) (name : String)
    (hname : cases.find? (·.name = name) = some (.bare name a)) : c.Keeps depth a := by
  have hform : c.form a = .str name := h.writes _ (List.mem_of_find?_eq_some hname)
  have hread : c.read (.str name) = some a := h.reads hname
  exact ⟨hform ▸ .str name, hform ▸ hread⟩

theorem keeps_holding {content : Codec β} {make : β → α} {b : β} (h : c.Tagged cases)
    (name : String) (hname : cases.find? (·.name = name) = some (.holding name content make))
    (hcontent : content.Keeps depth b) : c.Keeps (depth + 1) (make b) := by
  have hform : c.form (make b) = .object [(name, content.form b)] :=
    h.writes _ (List.mem_of_find?_eq_some hname) b
  have hread := h.reads hname (content.form b)
  refine ⟨hform ▸ .object (List.forall_mem_singleton.2 hcontent.plain), ?_⟩
  rw [hform, hread, hcontent.read, Option.map_some]

theorem keeps_record {fields : Fields γ} {make : γ → α} {b : γ} (h : c.Tagged cases)
    (name : String) (hname : cases.find? (·.name = name) = some (.record name fields make))
    (hfields : fields.Keeps depth b) : c.Keeps (depth + 2) (make b) := by
  have hform : c.form (make b) = .object [(name, .object (fields.forms b))] :=
    h.writes _ (List.mem_of_find?_eq_some hname) b
  have hread := h.reads hname (fields.forms b) (fields.names_forms b)
  refine ⟨hform ▸ .object (List.forall_mem_singleton.2 (.object hfields.plain)), ?_⟩
  rw [hform, hread, hfields.read, Option.map_some]

end Tagged

end Codec

namespace Serde.Documented

variable {S : Serde} (hS : S.Documented) {depth : Nat}

include hS

theorem keeps_list {α : Type} {item : Codec α} {as : List α}
    (h : ∀ a ∈ as, item.Keeps depth a) : (S.list item).Keeps (depth + 1) as where
  plain := hS.list_form item as ▸ .array (List.forall_mem_map.2 fun a ha => (h a ha).plain)
  read := by
    rw [hS.list_form, hS.list_read]
    induction as with
    | nil => rfl
    | cons a as ih =>
      obtain ⟨ha, has⟩ := List.forall_mem_cons.1 h
      rw [List.map_cons, List.mapM_cons, ha.read, ih has]
      rfl

theorem keeps_bool (depth : Nat) (b : Bool) : S.bool.Keeps depth b where
  plain := hS.bool_form b ▸ .bool b
  read := by rw [hS.bool_form, hS.bool_read]

theorem keeps_string (depth : Nat) (s : String) : S.string.Keeps depth s where
  plain := hS.string_form s ▸ .str s
  read := by rw [hS.string_form, hS.string_read]

theorem keeps_word16 (depth : Nat) (i : UInt16) : S.word16.Keeps depth i := by
  have hlt := i.toNat_lt
  exact hS.word16.keeps depth (by omega) (by omega) UInt16.ofNat_toNat (by decide) (by decide)

theorem keeps_word32 (depth : Nat) (i : UInt32) : S.word32.Keeps depth i := by
  have hlt := i.toNat_lt
  exact hS.word32.keeps depth (by omega) (by omega) UInt32.ofNat_toNat (by decide) (by decide)

theorem keeps_int32 (depth : Nat) (i : Int32) : S.int32.Keeps depth i :=
  hS.int32.keeps depth i.le_toInt i.toInt_lt (Int32.ofInt_toInt i) (by decide) (by decide)

theorem keeps_int64 (depth : Nat) (i : Int64) : S.int64.Keeps depth i :=
  hS.int64.keeps depth i.le_toInt i.toInt_lt (Int64.ofInt_toInt i) (by decide) (by decide)

theorem keeps_type (depth : Nat) (t : TypeToken) : S.type.Keeps depth t :=
  hS.type.keeps (hS.keeps_word32 depth t.index) rfl

theorem keeps_method (depth : Nat) (t : MethodToken) : S.method.Keeps depth t :=
  hS.method.keeps (hS.keeps_word32 depth t.index) rfl

theorem keeps_slot (depth : Nat) (s : LocalSlot) : S.slot.Keeps depth s :=
  hS.slot.keeps (hS.keeps_word32 depth s.index) rfl

theorem keeps_label (depth : Nat) (l : Label) : S.label.Keeps depth l :=
  hS.label.keeps (hS.keeps_word32 depth l.id) rfl

/-! ### Signatures -/

theorem keeps_metadataToken (depth : Nat) (t : MetadataToken) :
    S.metadataToken.Keeps (depth + 1) t := by
  cases t with
  | type t => exact hS.metadataToken.keeps_holding "Type" rfl (hS.keeps_type depth t)
  | method t => exact hS.metadataToken.keeps_holding "Method" rfl (hS.keeps_method depth t)

theorem keeps_dataType (depth : Nat) (t : DataType) : S.dataType.Keeps (depth + 1) t := by
  cases t with
  | bool => exact hS.dataType.keeps_bare "Bool" rfl
  | int32 => exact hS.dataType.keeps_bare "I32" rfl
  | int64 => exact hS.dataType.keeps_bare "I64" rfl
  | float64 => exact hS.dataType.keeps_bare "F64" rfl
  | string => exact hS.dataType.keeps_bare "String" rfl
  | object => exact hS.dataType.keeps_bare "Object" rfl
  | objectArray => exact hS.dataType.keeps_bare "ObjectArray" rfl
  | classType t => exact hS.dataType.keeps_holding "Class" rfl (hS.keeps_type depth t)

theorem keeps_returnType (depth : Nat) (t : ReturnType) : S.returnType.Keeps (depth + 2) t := by
  cases t with
  | void => exact hS.returnType.keeps_bare "Void" rfl
  | value t => exact hS.returnType.keeps_holding "Type" rfl (hS.keeps_dataType depth t)

theorem keeps_signature (depth : Nat) (s : Signature) : S.signature.Keeps (depth + 3) s := by
  have hparams : (S.list S.dataType).Keeps (depth + 2) s.params :=
    hS.keeps_list fun t _ => hS.keeps_dataType depth t
  exact hS.signature.keeps
    ⟨hparams, hS.keeps_returnType depth s.returns, hS.keeps_bool _ s.isStatic, trivial⟩ rfl

/-! ### Instructions -/

theorem keeps_callTarget (depth : Nat) (t : CallTarget) : S.callTarget.Keeps (depth + 2) t := by
  cases t with
  | direct t => exact hS.callTarget.keeps_holding "Direct" rfl (hS.keeps_method _ t)
  | indirect arity =>
    have harity : (Fields.cons "arity" S.word16 .nil).Keeps depth (arity, ()) :=
      ⟨hS.keeps_word16 depth arity, trivial⟩
    have hkeeps := hS.callTarget.keeps_record "Indirect" rfl harity
    exact hkeeps

theorem keeps_op (depth : Nat) {o : Op} (ho : (Instr.op o).hasFloat = false) :
    S.op.Keeps (depth + 2) o := by
  cases o with
  | nop => exact hS.op.keeps_bare "Nop" rfl
  | ldarg i => exact hS.op.keeps_holding "LdArg" rfl (hS.keeps_word16 _ i)
  | starg i => exact hS.op.keeps_holding "StArg" rfl (hS.keeps_word16 _ i)
  | ldloc s => exact hS.op.keeps_holding "LdLoc" rfl (hS.keeps_slot _ s)
  | stloc s => exact hS.op.keeps_holding "StLoc" rfl (hS.keeps_slot _ s)
  | ldnull => exact hS.op.keeps_bare "LdNull" rfl
  | ldcI4 v => exact hS.op.keeps_holding "LdcI4" rfl (hS.keeps_int32 _ v)
  | ldcI8 v => exact hS.op.keeps_holding "LdcI8" rfl (hS.keeps_int64 _ v)
  | ldcR8 x => cases ho
  | ldstr s => exact hS.op.keeps_holding "LdStr" rfl (hS.keeps_string _ s)
  | dup => exact hS.op.keeps_bare "Dup" rfl
  | pop => exact hS.op.keeps_bare "Pop" rfl
  | add => exact hS.op.keeps_bare "Add" rfl
  | sub => exact hS.op.keeps_bare "Sub" rfl
  | mul => exact hS.op.keeps_bare "Mul" rfl
  | ceq => exact hS.op.keeps_bare "Ceq" rfl
  | clt => exact hS.op.keeps_bare "Clt" rfl
  | label l => exact hS.op.keeps_holding "Label" rfl (hS.keeps_label _ l)
  | br l => exact hS.op.keeps_holding "Br" rfl (hS.keeps_label _ l)
  | brtrue l => exact hS.op.keeps_holding "BrTrue" rfl (hS.keeps_label _ l)
  | brfalse l => exact hS.op.keeps_holding "BrFalse" rfl (hS.keeps_label _ l)
  | ret => exact hS.op.keeps_bare "Ret" rfl
  | box t => exact hS.op.keeps_holding "Box" rfl (hS.keeps_dataType depth t)
  | unboxAny t => exact hS.op.keeps_holding "UnboxAny" rfl (hS.keeps_dataType depth t)
  | newobj t => exact hS.op.keeps_holding "NewObj" rfl (hS.keeps_type _ t)
  | newarr t => exact hS.op.keeps_holding "NewArr" rfl (hS.keeps_dataType depth t)
  | stelemRef => exact hS.op.keeps_bare "StElemRef" rfl
  | ldelemRef => exact hS.op.keeps_bare "LdElemRef" rfl
  | ldlen => exact hS.op.keeps_bare "LdLen" rfl
  | ldtoken t => exact hS.op.keeps_holding "LdToken" rfl (hS.keeps_metadataToken depth t)
  | ldftn t => exact hS.op.keeps_holding "LdFtn" rfl (hS.keeps_method _ t)
  | resolveMethod => exact hS.op.keeps_bare "ResolveMethod" rfl
  | getInterceptor => exact hS.op.keeps_bare "GetInterceptor" rfl
  | intercept => exact hS.op.keeps_bare "Intercept" rfl

theorem keeps_instr (depth : Nat) {i : Instr} (hi : i.hasFloat = false) :
    S.instr.Keeps (depth + 3) i := by
  cases i with
  | call t => exact hS.instr.keeps_holding "Call" rfl (hS.keeps_callTarget depth t)
  | op o => exact hS.instr.keeps_holding "Other" rfl (hS.keeps_op depth hi)

/-! ### Tables -/

theorem keeps_localDecl (depth : Nat) (t : DataType) : S.localDecl.Keeps (depth + 2) t :=
  hS.localDecl.keeps ⟨hS.keeps_dataType depth t, trivial⟩ rfl

theorem keeps_body (depth : Nat) {b : Body} (hb : b.WithoutFloats) :
    S.body.Keeps (depth + 5) b := by
  have hlocals : (S.list S.localDecl).Keeps (depth + 4) b.locals :=
    hS.keeps_list fun t _ => hS.keeps_localDecl (depth + 1) t
  have hcode : (S.list S.instr).Keeps (depth + 4) b.code :=
    hS.keeps_list fun i hi => hS.keeps_instr depth (hb i hi)
  exact hS.body.keeps ⟨hlocals, hcode, trivial⟩ rfl

theorem keeps_bodyOption (depth : Nat) {body : Option Body}
    (hbody : ∀ b ∈ body, b.WithoutFloats) : (S.option S.body).Keeps (depth + 5) body := by
  cases body with
  | none => exact ⟨hS.option_form_none S.body ▸ .null, by
      rw [hS.option_form_none, hS.option_read_null]⟩
  | some b =>
    have hb := hS.keeps_body depth (hbody b rfl)
    -- no body is written as null, since it is an object
    have hne : S.body.form b ≠ .null := by
      rw [hS.body.form]
      exact Json.noConfusion
    refine ⟨hS.option_form_some S.body b ▸ hb.plain, ?_⟩
    rw [hS.option_form_some, hS.option_read S.body hne, hb.read, Option.map_some]

theorem keeps_typeDef (depth : Nat) (t : TypeDef) : S.typeDef.Keeps (depth + 2) t := by
  have hmethods : (S.list S.method).Keeps (depth + 1) t.methods :=
    hS.keeps_list fun u _ => hS.keeps_method depth u
  exact hS.typeDef.keeps ⟨hS.keeps_string _ t.name, hmethods, trivial⟩ rfl

theorem keeps_methodDef (depth : Nat) {d : MethodDef} (hd : ∀ b ∈ d.body, b.WithoutFloats) :
    S.methodDef.Keeps (depth + 6) d :=
  hS.methodDef.keeps ⟨hS.keeps_type _ d.declaringType, hS.keeps_string _ d.name,
    hS.keeps_signature (depth + 2) d.signature, hS.keeps_bodyOption depth hd, trivial⟩ rfl

theorem keeps_module (depth : Nat) {m : Module} (hm : m.WithoutFloats) :
    S.module.Keeps (depth + 8) m := by
  have htypes : (S.list S.typeDef).Keeps (depth + 7) m.types :=
    hS.keeps_list fun t _ => hS.keeps_typeDef (depth + 4) t
  have hmethods : (S.list S.methodDef).Keeps (depth + 7) m.methods :=
    hS.keeps_list fun d hd => hS.keeps_methodDef depth (hm d hd)
  exact hS.module.keeps ⟨hS.keeps_string _ m.name, htypes, hmethods, trivial⟩ rfl

theorem parse_print {v : Json} (hv : v.Plain nestingLimit) : S.parse (S.print v) = some v :=
  hS.parse (hS.compact.denotes hv)

end Serde.Documented

end Json

theorem Module.ofJsonText?_toJsonText {S : Json.Serde} (hS : S.Documented) {m : Module}
    (hm : m.WithoutFloats) : ofJsonText? S (m.toJsonText S) = some m := by
  have hkeeps : S.module.Keeps Json.nestingLimit m := hS.keeps_module 119 hm
  rw [ofJsonText?, toJsonText, hS.parse_print hkeeps.plain, Option.bind_some, hkeeps.read]

end Interpose
