import Mathlib.Data.List.TakeWhile
import Interpose.Instruction.Listing
import Interpose.Proofs.Text.Quoted

/-!
# Listed instructions are read back

The text that `Display` of `Instruction` writes is one word, or a word and an operand with a blank
between them. The word tells which instruction it is and so how its operand is written; no operand
has two readings there. So an instruction is read back from its text, unless it has a floating-point
constant, and its text is that of no other instruction.
-/

namespace Interpose.Listing

/-! ### Words -/

/-- The first word of a line, and what stands behind the blank that ends it. -/
def splitWord (line : String) : String × Option String :=
  let word := String.ofList (line.toList.takeWhile (· ≠ ' '))
  match line.toList.dropWhile (· ≠ ' ') with
  | [] => (word, none)
  | _ :: rest => (word, some (String.ofList rest))

/-- What stands behind a beginning of a text, if the text begins so. -/
def behind? (start s : String) : Option String :=
  if start.toList.isPrefixOf s.toList then
    some (String.ofList (s.toList.drop start.toList.length))
  else none

theorem splitWord_of_notMem {line : String} (h : ' ' ∉ line.toList) :
    splitWord line = (line, none) := by
  have hword : ∀ c ∈ line.toList, decide (c ≠ ' ') = true :=
    fun c hc => decide_eq_true fun heq => h (heq ▸ hc)
  have htake := List.takeWhile_eq_self_iff.2 hword
  have hdrop := List.dropWhile_eq_nil_iff.2 hword
  simp only [splitWord, htake, hdrop, String.ofList_toList]

theorem splitWord_append (word operand : String) (h : ' ' ∉ word.toList) :
    splitWord (word ++ " " ++ operand) = (word, some operand) := by
  have hword : ∀ c ∈ word.toList, decide (c ≠ ' ') = true :=
    fun c hc => decide_eq_true fun heq => h (heq ▸ hc)
  have hline : (word ++ " " ++ operand).toList = word.toList ++ ' ' :: operand.toList := by
    rw [String.toList_append, String.toList_append, List.append_assoc]
    rfl
  have htake : (word.toList ++ ' ' :: operand.toList).takeWhile (· ≠ ' ') = word.toList := by
    rw [List.takeWhile_append_of_pos hword]
    simp
  have hdrop : (word.toList ++ ' ' :: operand.toList).dropWhile (· ≠ ' ') =
      ' ' :: operand.toList := by
    rw [List.dropWhile_append_of_pos hword]
    simp
  simp only [splitWord, hline, htake, hdrop, String.ofList_toList]

theorem behind?_append (start rest : String) : behind? start (start ++ rest) = some rest := by
  have hfront : start.toList.isPrefixOf (start ++ rest).toList = true := by
    rw [List.isPrefixOf_iff_prefix, String.toList_append]
    exact List.prefix_append _ _
  rw [behind?, if_pos hfront, String.toList_append, List.drop_left, String.ofList_toList]

/-! ### Operands -/

/-- A reader gets a value from a text. -/
def Reads {α : Type} (read : String → Option α) (text : String) (a : α) : Prop := read text = some a

def nat? (s : String) : Option Nat :=
  if s.toList.all Char.isDigit then some (Json.digitsValue s.toList) else none

def int? (s : String) : Option Int :=
  match behind? "-" s with
  | some digits => (nat? digits).map fun n : Nat => -(n : Int)
  | none => (nat? s).map fun n : Nat => (n : Int)

def word16? (s : String) : Option UInt16 := (nat? s).map UInt16.ofNat

def word32? (s : String) : Option UInt32 := (nat? s).map UInt32.ofNat

def slot? (s : String) : Option LocalSlot := (word32? s).map LocalSlot.mk

def label? (s : String) : Option Label := ((behind? "L" s).bind word32?).map Label.mk

def type? (s : String) : Option TypeToken := ((behind? "type#" s).bind word32?).map TypeToken.mk

def method? (s : String) : Option MethodToken :=
  ((behind? "method#" s).bind word32?).map MethodToken.mk

def metadataToken? (s : String) : Option MetadataToken :=
  match type? s with
  | some t => some (.type t)
  | none => (method? s).map .method

/-- A type is one word, but for classes, which have their token behind a first word. -/
def dataType? (s : String) : Option DataType :=
  match splitWord s with
  | (_, some token) => (type? token).map .classType
  | (word, none) =>
    match word with
    | "bool" => some .bool
    | "int32" => some .int32
    | "int64" => some .int64
    | "float64" => some .float64
    | "string" => some .string
    | "object" => some .object
    | "object[]" => some .objectArray
    | _ => none

theorem isDigit_of_mem_repr {n : Nat} {c : Char} (h : c ∈ (Nat.repr n).toList) :
    c.isDigit = true := by
  rw [Nat.repr_eq_ofList_toDigits, String.toList_ofList] at h
  exact Nat.isDigit_of_mem_toDigits (by decide) (by decide) h

theorem reads_nat (n : Nat) : Reads nat? (Nat.repr n) n := by
  have hdigits : (Nat.repr n).toList.all Char.isDigit = true :=
    List.all_eq_true.2 fun c hc => isDigit_of_mem_repr hc
  rw [Reads, nat?, if_pos hdigits, Nat.repr_eq_ofList_toDigits, String.toList_ofList,
    Json.digitsValue_toDigits]

/-- A number without a sign does not begin with one. -/
theorem behind?_minus_repr (n : Nat) : behind? "-" (Nat.repr n) = none := by
  rw [behind?, if_neg]
  intro h
  obtain ⟨rest, hrest⟩ := List.isPrefixOf_iff_prefix.1 h
  have hmem : '-' ∈ (Nat.repr n).toList := hrest ▸ List.mem_cons_self
  exact absurd (isDigit_of_mem_repr hmem) (by decide)

theorem reads_int (n : Int) : Reads int? (intText n) n := by
  have hnat : nat? (Nat.repr n.natAbs) = some n.natAbs := reads_nat n.natAbs
  unfold Reads intText int?
  by_cases hn : n < 0
  · have hneg : -(n.natAbs : Int) = n := by omega
    rw [if_pos hn, behind?_append]
    show (nat? (Nat.repr n.natAbs)).map (fun k : Nat => -(k : Int)) = some n
    rw [hnat, Option.map_some, hneg]
  · have hpos : (n.natAbs : Int) = n := by omega
    rw [if_neg hn, behind?_minus_repr]
    show (nat? (Nat.repr n.natAbs)).map (fun k : Nat => (k : Int)) = some n
    rw [hnat, Option.map_some, hpos]

theorem Reads.map {α β : Type} {read : String → Option α} {text : String} {a : α}
    (h : Reads read text a) (f : α → β) : Reads (fun s => (read s).map f) text (f a) := by
  show (read text).map f = some (f a)
  rw [show read text = some a from h, Option.map_some]

theorem Reads.behind {α : Type} {read : String → Option α} {text : String} {a : α}
    (h : Reads read text a) (start : String) :
    Reads (fun s => (behind? start s).bind read) (start ++ text) a := by
  show (behind? start (start ++ text)).bind read = some a
  rw [behind?_append, Option.bind_some]
  exact h

theorem reads_word16 (n : UInt16) : Reads word16? (Nat.repr n.toNat) n := by
  have h := (reads_nat n.toNat).map UInt16.ofNat
  rwa [UInt16.ofNat_toNat] at h

theorem reads_word32 (n : UInt32) : Reads word32? (Nat.repr n.toNat) n := by
  have h := (reads_nat n.toNat).map UInt32.ofNat
  rwa [UInt32.ofNat_toNat] at h

theorem reads_int32 (n : Int32) :
    Reads (fun s => (int? s).map Int32.ofInt) (intText n.toInt) n := by
  have h := (reads_int n.toInt).map Int32.ofInt
  rwa [Int32.ofInt_toInt] at h

theorem reads_int64 (n : Int64) :
    Reads (fun s => (int? s).map Int64.ofInt) (intText n.toInt) n := by
  have h := (reads_int n.toInt).map Int64.ofInt
  rwa [Int64.ofInt_toInt] at h

theorem reads_slot (s : LocalSlot) : Reads slot? (Nat.repr s.position) s :=
  (reads_word32 s.index).map LocalSlot.mk

theorem reads_label (l : Label) : Reads label? l.text l :=
  ((reads_word32 l.id).behind "L").map Label.mk

theorem reads_type (t : TypeToken) : Reads type? t.text t :=
  ((reads_word32 t.index).behind "type#").map TypeToken.mk

theorem reads_method (m : MethodToken) : Reads method? m.text m :=
  ((reads_word32 m.index).behind "method#").map MethodToken.mk

theorem type?_method_text (m : MethodToken) : type? m.text = none := by
  have hbehind : behind? "type#" m.text = none := by
    rw [behind?, MethodToken.text, String.toList_append]
    rfl
  rw [type?, hbehind]
  rfl

theorem reads_metadataToken (t : MetadataToken) : Reads metadataToken? t.text t := by
  cases t with
  | type t =>
    have htype : type? (MetadataToken.type t).text = some t := reads_type t
    rw [Reads, metadataToken?, htype]
  | method m =>
    have htype : type? (MetadataToken.method m).text = none := type?_method_text m
    have hmethod : method? (MetadataToken.method m).text = some m := reads_method m
    rw [Reads, metadataToken?, htype, hmethod]
    rfl

theorem reads_dataType (t : DataType) : Reads dataType? t.text t := by
  cases t with
  | classType t =>
    have hsplit : splitWord (DataType.classType t).text = ("class", some t.text) :=
      splitWord_append "class" t.text (by decide)
    have htype : type? t.text = some t := reads_type t
    rw [Reads, dataType?, hsplit]
    simp only [htype, Option.map_some]
  | _ => rfl

theorem reads_quoted (s : String) : Reads Text.unquote? (Text.quoted s) s := Text.unquote?_quoted s

/-! ### Instructions -/

/-- An operation whose mnemonic is its whole text. -/
def mnemonic? (word : String) : Option Op :=
  match word with
  | "nop" => some .nop
  | "ldnull" => some .ldnull
  | "dup" => some .dup
  | "pop" => some .pop
  | "add" => some .add
  | "sub" => some .sub
  | "mul" => some .mul
  | "ceq" => some .ceq
  | "clt" => some .clt
  | "ret" => some .ret
  | "stelem.ref" => some .stelemRef
  | "ldelem.ref" => some .ldelemRef
  | "ldlen" => some .ldlen
  | "resolve.method" => some .resolveMethod
  | "get.interceptor" => some .getInterceptor
  | "intercept" => some .intercept
  | _ => none

/-- The label that a word defines: the word ends in a colon behind the label's name. -/
def definition? (word : String) : Option Op :=
  (label? (String.ofList word.toList.dropLast)).map .label

def bareOp? (word : String) : Option Op := (definition? word).or (mnemonic? word)

/-- An instruction by its first word and its operand. Floating-point constants are not read. -/
def withOperand? (word operand : String) : Option Instr :=
  match word with
  | "ldarg" => (word16? operand).map fun i => .op (.ldarg i)
  | "starg" => (word16? operand).map fun i => .op (.starg i)
  | "ldloc" => (slot? operand).map fun s => .op (.ldloc s)
  | "stloc" => (slot? operand).map fun s => .op (.stloc s)
  | "ldc.i4" => ((int? operand).map Int32.ofInt).map fun v => .op (.ldcI4 v)
  | "ldc.i8" => ((int? operand).map Int64.ofInt).map fun v => .op (.ldcI8 v)
  | "ldstr" => (Text.unquote? operand).map fun s => .op (.ldstr s)
  | "br" => (label? operand).map fun l => .op (.br l)
  | "brtrue" => (label? operand).map fun l => .op (.brtrue l)
  | "brfalse" => (label? operand).map fun l => .op (.brfalse l)
  | "box" => (dataType? operand).map fun t => .op (.box t)
  | "unbox.any" => (dataType? operand).map fun t => .op (.unboxAny t)
  | "newobj" => (type? operand).map fun t => .op (.newobj t)
  | "newarr" => (dataType? operand).map fun t => .op (.newarr t)
  | "ldtoken" => (metadataToken? operand).map fun t => .op (.ldtoken t)
  | "ldftn" => (method? operand).map fun m => .op (.ldftn m)
  | "call" => (method? operand).map fun m => .call (.direct m)
  | "calli" => (word16? operand).map fun n => .call (.indirect n)
  | _ => none

def instr? (line : String) : Option Instr :=
  match splitWord line with
  | (word, none) => (bareOp? word).map .op
  | (word, some operand) => withOperand? word operand

theorem instr?_of_notMem {word : String} (h : ' ' ∉ word.toList) :
    instr? word = (bareOp? word).map .op := by
  rw [instr?, splitWord_of_notMem h]

theorem instr?_append {front : String} (word : String) (hfront : front = word ++ " ")
    (h : ' ' ∉ word.toList) (operand : String) :
    instr? (front ++ operand) = withOperand? word operand := by
  rw [instr?, hfront, splitWord_append word operand h]

/-- An instruction with an operand is read back if its operand is. -/
theorem Reads.instr {α : Type} {read : String → Option α} {f : α → Instr} {a : α}
    {front operand : String} (ha : Reads read operand a) (word : String)
    (hfront : front = word ++ " ") (h : ' ' ∉ word.toList)
    (hread : ∀ s, withOperand? word s = (read s).map f) :
    Reads instr? (front ++ operand) (f a) := by
  unfold Reads at ha ⊢
  rw [instr?_append word hfront h, hread, ha, Option.map_some]

theorem blank_notMem_definition (l : Label) : ' ' ∉ (l.text ++ ":").toList := by
  rw [Label.text, String.toList_append, String.toList_append]
  simp only [List.mem_append, not_or]
  refine ⟨⟨by decide, fun h => ?_⟩, by decide⟩
  exact absurd (isDigit_of_mem_repr h) (by decide)

theorem reads_definition (l : Label) : Reads instr? (l.text ++ ":") (.op (.label l)) := by
  have hname : String.ofList (l.text ++ ":").toList.dropLast = l.text := by
    have hcolon : ":".toList = [':'] := rfl
    rw [String.toList_append, hcolon, List.dropLast_concat, String.ofList_toList]
  have hlabel : label? l.text = some l := reads_label l
  have hdefinition : definition? (l.text ++ ":") = some (.label l) := by
    rw [definition?, hname, hlabel, Option.map_some]
  rw [Reads, instr?_of_notMem (blank_notMem_definition l), bareOp?, hdefinition, Option.some_or,
    Option.map_some]

/-- Each form of an instruction has a row of its own among the readers, but for the one form that is
not read. -/
theorem reads_instr {i : Instr} (hi : ∀ x, i ≠ .op (.ldcR8 x)) : Reads instr? i.text i := by
  cases i with
  | call target =>
    cases target with
    | direct m => exact (reads_method m).instr "call" rfl (by decide) fun _ => rfl
    | indirect n => exact (reads_word16 n).instr "calli" rfl (by decide) fun _ => rfl
  | op o =>
    cases o with
    | ldarg i => exact (reads_word16 i).instr "ldarg" rfl (by decide) fun _ => rfl
    | starg i => exact (reads_word16 i).instr "starg" rfl (by decide) fun _ => rfl
    | ldloc s => exact (reads_slot s).instr "ldloc" rfl (by decide) fun _ => rfl
    | stloc s => exact (reads_slot s).instr "stloc" rfl (by decide) fun _ => rfl
    | ldcI4 v => exact (reads_int32 v).instr "ldc.i4" rfl (by decide) fun _ => rfl
    | ldcI8 v => exact (reads_int64 v).instr "ldc.i8" rfl (by decide) fun _ => rfl
    | ldcR8 x => exact absurd rfl (hi x)
    | ldstr s => exact (reads_quoted s).instr "ldstr" rfl (by decide) fun _ => rfl
    | label l => exact reads_definition l
    | br l => exact (reads_label l).instr "br" rfl (by decide) fun _ => rfl
    | brtrue l => exact (reads_label l).instr "brtrue" rfl (by decide) fun _ => rfl
    | brfalse l => exact (reads_label l).instr "brfalse" rfl (by decide) fun _ => rfl
    | box t => exact (reads_dataType t).instr "box" rfl (by decide) fun _ => rfl
    | unboxAny t => exact (reads_dataType t).instr "unbox.any" rfl (by decide) fun _ => rfl
    | newobj t => exact (reads_type t).instr "newobj" rfl (by decide) fun _ => rfl
    | newarr t => exact (reads_dataType t).instr "newarr" rfl (by decide) fun _ => rfl
    | ldtoken t => exact (reads_metadataToken t).instr "ldtoken" rfl (by decide) fun _ => rfl
    | ldftn m => exact (reads_method m).instr "ldftn" rfl (by decide) fun _ => rfl
    | _ => exact instr?_of_notMem (by decide)

theorem instr?_text_ldcR8 (x : Binary64) : instr? (Instr.op (.ldcR8 x)).text = none :=
  instr?_append "ldc.r8" rfl (by decide) _

/-- The text of an instruction without a floating-point constant is the text of no other
instruction, not even of one with such a constant. -/
theorem text_inj {i j : Instr} (hi : ∀ x, i ≠ .op (.ldcR8 x)) : i.text = j.text ↔ i = j := by
  refine ⟨fun h => ?_, fun h => h ▸ rfl⟩
  have hleft : instr? i.text = some i := reads_instr hi
  by_cases hj : ∃ x, j = .op (.ldcR8 x)
  · obtain ⟨x, rfl⟩ := hj
    rw [h, instr?_text_ldcR8] at hleft
    cases hleft
  · have hright : instr? j.text = some j := reads_instr fun x hx => hj ⟨x, hx⟩
    rw [h, hright] at hleft
    exact (Option.some.inj hleft).symm

/-- A backslash before a zero is not the escape of the character zero. -/
theorem text_inj_zero :
    (∀ x, Instr.op (.ldstr "\\0") ≠ .op (.ldcR8 x)) ∧
      (Instr.op (.ldstr "\\0")).text ≠ (Instr.op (.ldstr "\x00")).text := by
  have hi : ∀ x, Instr.op (.ldstr "\\0") ≠ .op (.ldcR8 x) := nofun
  exact ⟨hi, mt (text_inj hi).1 (by decide)⟩

/-- Floating-point constants that are no numbers share a text. -/
example : (Instr.op (.ldcR8 ⟨0x7ff8000000000000⟩)).text =
    (Instr.op (.ldcR8 ⟨0xfff8000000000001⟩)).text := by decide

end Interpose.Listing
