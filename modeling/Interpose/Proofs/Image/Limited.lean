import Interpose.Proofs.Image.Truncation

/-!
# One input under two sets of limits

A limit is compared with a number that was read (`Cursor::read_count`, `Cursor::read_string`), and
nothing else depends on it. So of two readers that differ in their limits alone, the second is at
the same place with the same value wherever the first goes on, until a number is beyond one of its
limits.
-/

namespace Interpose.Image

/-! ### What limits bound -/

/-- Each limit is at most the same limit of the other. -/
structure Limits.AtMost (limits limits' : Limits) : Prop where
  bufferSize : limits.bufferSize ≤ limits'.bufferSize
  types : limits.types ≤ limits'.types
  methods : limits.methods ≤ limits'.methods
  instructions : limits.instructions ≤ limits'.instructions
  stringLength : limits.stringLength ≤ limits'.stringLength

/-- The input is not too long, and no text, table or list of its module is. -/
structure Limits.Allow (limits : Limits) (bytes : List UInt8) (m : Module) : Prop where
  size : bytes.length ≤ limits.bufferSize
  name : (utf8 m.name).length ≤ limits.stringLength
  typeNames : ∀ t ∈ m.types, (utf8 t.name).length ≤ limits.stringLength
  methodNames : ∀ d ∈ m.methods, (utf8 d.name).length ≤ limits.stringLength
  constants : ∀ d ∈ m.methods, ∀ b, d.body = some b → ∀ s, .op (.ldstr s) ∈ b.code →
    (utf8 s).length ≤ limits.stringLength
  types : m.types.length ≤ limits.types
  methods : m.methods.length ≤ limits.methods
  methodLists : ∀ t ∈ m.types, t.methods.length ≤ limits.methods
  instructions : ∀ d ∈ m.methods, ∀ b, d.body = some b → b.code.length ≤ limits.instructions

/-- The limit on a counted part. Locals and parameters are bounded by the format itself. -/
def Limits.of? (limits : Limits) : Counted → Option Nat
  | .types => some limits.types
  | .typeMethods | .methods => some limits.methods
  | .instructions => some limits.instructions
  | .locals | .params => none

/-- The flaw is that something is beyond one of the limits. -/
def Flaw.Exceeds (limits : Limits) : Flaw → Prop
  | .tooLarge | .longString => True
  | .tooMany what count limit => limits.of? what = some limit ∧ limit < count
  | _ => False

section Allow

variable {limits limits' : Limits} {bytes : List UInt8} {m : Module}

theorem Limits.Allow.mono (h : limits.Allow bytes m) (le : limits.AtMost limits') :
    limits'.Allow bytes m where
  size := Nat.le_trans h.size le.bufferSize
  name := Nat.le_trans h.name le.stringLength
  typeNames t ht := Nat.le_trans (h.typeNames t ht) le.stringLength
  methodNames d hd := Nat.le_trans (h.methodNames d hd) le.stringLength
  constants d hd b hb s hs := Nat.le_trans (h.constants d hd b hb s hs) le.stringLength
  types := Nat.le_trans h.types le.types
  methods := Nat.le_trans h.methods le.methods
  methodLists t ht := Nat.le_trans (h.methodLists t ht) le.methods
  instructions d hd b hb := Nat.le_trans (h.instructions d hd b hb) le.instructions

theorem ModuleFits.allow (fits : ModuleFits limits m) (size : bytes.length ≤ limits.bufferSize) :
    limits.Allow bytes m where
  size := size
  name := fits.name.2
  typeNames t ht := (fits.typeDefs t ht).name.2
  methodNames d hd := (fits.methodDefs d hd).name.2
  constants d hd b hb _ hs := (((fits.methodDefs d hd).body b hb).instrs _ hs).2
  types := fits.types.2
  methods := fits.methods.2
  methodLists t ht := (fits.typeDefs t ht).methods.2
  instructions d hd b hb := ((fits.methodDefs d hd).body b hb).code.2

/-- A module that fits any limits fits those that allow it: all that it was bounded by otherwise are
the widths of the format. -/
theorem Limits.Allow.fits (h : limits'.Allow bytes m) (fits : ModuleFits limits m) :
    ModuleFits limits' m := by
  refine ⟨⟨fits.name.1, h.name⟩, ⟨fits.types.1, h.types⟩, ?_, ⟨fits.methods.1, h.methods⟩, ?_⟩
  · intro t ht
    have known := fits.typeDefs t ht
    exact ⟨⟨known.name.1, h.typeNames t ht⟩, known.methods.1, h.methodLists t ht⟩
  · intro d hd
    have known := fits.methodDefs d hd
    refine ⟨⟨known.name.1, h.methodNames d hd⟩, known.signature, ?_⟩
    intro b hb
    have inner := known.body b hb
    refine ⟨inner.locals, ⟨inner.code.1, h.instructions d hd b hb⟩, ?_⟩
    intro i hi
    unfold InstrFits
    split
    · rename_i s
      exact ⟨(inner.instrs _ hi).1, h.constants d hd b hb s hi⟩
    · trivial

/-- An accepted input is accepted by exactly the limits that allow it, as the same module. -/
theorem decodeWithin_eq_ok_iff_allow (h : decodeWithin limits bytes = .ok m) :
    decodeWithin limits' bytes = .ok m ↔ limits'.Allow bytes m := by
  obtain ⟨-, fits, closed, spelled⟩ := decodeWithin_eq_ok_iff.1 h
  constructor
  · intro h'
    obtain ⟨size, fits', -⟩ := decodeWithin_eq_ok_iff.1 h'
    exact fits'.allow size
  · intro allow
    exact decodeWithin_eq_ok_iff.2 ⟨allow.size, allow.fits fits, closed, spelled⟩

end Allow

namespace Reader

/-! ### Readers in step -/

section Narrows

variable {α β : Type} (limits : Limits)

/-- Wherever the first reader gives a value, the second gives it too and is at the same place, or it
ends on one of its limits. -/
def Narrows (r s : Reader α) : Prop :=
  ∀ c a d, r c = .ok (a, d) →
    s c = .ok (a, d) ∨ ∃ flaw, s c = .error (.invalidEncoding flaw) ∧ flaw.Exceeds limits

variable {limits} {r s : Reader α}

theorem Narrows.refl (r : Reader α) : Narrows limits r r := fun _ _ _ read => .inl read

theorem Narrows.bind {next next' : α → Reader β} (h : Narrows limits r s)
    (hnext : ∀ a, Narrows limits (next a) (next' a)) :
    Narrows limits (r >>= next) (s >>= next') := by
  intro c b d read
  obtain ⟨a, e, first, later⟩ := bind_apply_eq_ok.1 read
  rcases h c a e first with same | ⟨flaw, refused, exceeds⟩
  · rw [bind_apply_of_ok same]
    exact hnext a e b d later
  · exact .inr ⟨flaw, bind_apply_of_error refused, exceeds⟩

theorem Narrows.map (h : Narrows limits r s) (f : α → β) :
    Narrows limits (do return f (← r)) (do return f (← s)) :=
  h.bind fun a => .refl (Pure.pure (f a))

theorem Narrows.times (h : Narrows limits r s) (n : Nat) :
    Narrows limits (times r n) (times s n) := by
  suffices onto : ∀ acc, Narrows limits (timesOnto r n acc) (timesOnto s n acc) from onto []
  induction n with
  | zero => exact fun acc => .refl _
  | succ n ih =>
    intro acc
    rw [timesOnto_succ, timesOnto_succ]
    exact h.bind fun a => ih (a :: acc)

theorem narrows_count (what : Counted) (bound : Nat) {bound' : Nat}
    (known : limits.of? what = some bound') :
    Narrows limits (count what bound) (count what bound') := by
  refine (Narrows.refl (nat 4)).bind fun n => ?_
  intro c a d read
  split at read
  · cases read
  · by_cases beyond : bound' < n
    · rw [if_pos beyond]
      exact .inr ⟨_, rfl, known, beyond⟩
    · rw [if_neg beyond]
      exact .inl read

theorem Narrows.list (h : Narrows limits r s) (what : Counted) (bound : Nat) {bound' : Nat}
    (known : limits.of? what = some bound') :
    Narrows limits (list what bound r) (list what bound' s) :=
  (narrows_count what bound known).bind fun n => h.times n

theorem narrows_string (bound bound' : Nat) : Narrows limits (string bound) (string bound') := by
  refine (Narrows.refl (nat 4)).bind fun n => ?_
  intro c a d read
  split at read
  · cases read
  · by_cases beyond : bound' < n
    · rw [if_pos beyond]
      exact .inr ⟨_, rfl, trivial⟩
    · rw [if_neg beyond]
      exact .inl read

end Narrows

/-! ### The readers of the format -/

variable (limits limits' : Limits)

/-- Of all operands only the text of a constant is limited. -/
theorem operand_congr {opcode : UInt8} (h : opcode.toNat ≠ 0x09) :
    operand limits opcode = operand limits' opcode := by
  unfold operand
  split <;> first | rfl | contradiction

theorem narrows_operand (opcode : UInt8) :
    Narrows limits' (operand limits opcode) (operand limits' opcode) := by
  by_cases h : opcode.toNat = 0x09
  · simp only [operand, h]
    exact (narrows_string limits.stringLength limits'.stringLength).map _
  · rw [operand_congr limits limits' h]
    exact .refl _

theorem narrows_instr : Narrows limits' (instr limits) (instr limits') :=
  (Narrows.refl u8).bind fun opcode => narrows_operand limits limits' opcode

theorem narrows_body : Narrows limits' (body limits) (body limits') := by
  refine (Narrows.refl u8).bind fun tag => ?_
  split
  · exact .refl _
  · exact (Narrows.refl _).bind fun locals =>
      ((narrows_instr limits limits').list .instructions limits.instructions rfl).map _
  · exact .refl _

theorem narrows_typeDef : Narrows limits' (typeDef limits) (typeDef limits') :=
  (narrows_string limits.stringLength limits'.stringLength).bind fun _ =>
    ((Narrows.refl method).list .typeMethods limits.methods rfl).map _

theorem narrows_methodDef : Narrows limits' (methodDef limits) (methodDef limits') :=
  (Narrows.refl type).bind fun _ =>
    (narrows_string limits.stringLength limits'.stringLength).bind fun _ =>
      (Narrows.refl signature).bind fun _ => (narrows_body limits limits').map _

theorem narrows_module : Narrows limits' (module limits) (module limits') :=
  (Narrows.refl header).bind fun _ =>
    (narrows_string limits.stringLength limits'.stringLength).bind fun _ =>
      ((narrows_typeDef limits limits').list .types limits.types rfl).bind fun _ =>
        ((narrows_methodDef limits limits').list .methods limits.methods rfl).map _

end Reader

/-! ### Whole images -/

section Whole

variable {limits limits' : Limits} {bytes : List UInt8} {m : Module}

/-- What other limits make of an accepted input: the same module, or a refusal for one of them. -/
theorem decodeWithin_narrows (h : decodeWithin limits bytes = .ok m) (limits' : Limits) :
    decodeWithin limits' bytes = .ok m ∨
      ∃ flaw, decodeWithin limits' bytes = .error (.invalidEncoding flaw) ∧ flaw.Exceeds limits' := by
  obtain ⟨-, fits, closed, flags, rfl⟩ := decodeWithin_eq_ok_iff.1 h
  by_cases large : limits'.bufferSize < (spelling flags m).length
  · exact .inr ⟨.tooLarge, by rw [decodeWithin, if_pos large], trivial⟩
  have passed : (Cursor.start (spelling flags m)).Passes (spelling flags m)
      ⟨[], (spelling flags m).length, (spelling flags m).length⟩ :=
    ⟨(List.append_nil _).symm, (Nat.zero_add _).symm, rfl⟩
  have read := Reader.module_eq_ok_iff.2 ⟨fits, flags, passed⟩
  rcases Reader.narrows_module limits limits' _ _ _ read with same | ⟨flaw, refused, exceeds⟩
  · obtain ⟨fits', -⟩ := Reader.module_eq_ok_iff.1 same
    exact .inl (decodeWithin_eq_ok_iff.2 ⟨Nat.le_of_not_lt large, fits', closed, flags, rfl⟩)
  · refine .inr ⟨flaw, ?_, exceeds⟩
    rw [decodeWithin, if_neg large, refused]

/-- Limits only refuse: under other limits an accepted input is the same module exactly if they allow
it, and refused for one of them otherwise. Raised limits go on allowing it. -/
theorem limits_only_refuse (h : decodeWithin limits bytes = .ok m) (limits' : Limits) :
    (decodeWithin limits' bytes = .ok m ∨
      ∃ flaw, decodeWithin limits' bytes = .error (.invalidEncoding flaw) ∧
        flaw.Exceeds limits') ∧
    (decodeWithin limits' bytes = .ok m ↔ limits'.Allow bytes m) ∧
    (limits.AtMost limits' → decodeWithin limits' bytes = .ok m) := by
  refine ⟨decodeWithin_narrows h limits', decodeWithin_eq_ok_iff_allow h, ?_⟩
  intro le
  have allow := (decodeWithin_eq_ok_iff_allow h).1 h
  exact (decodeWithin_eq_ok_iff_allow h).2 (allow.mono le)

/-- The name of the module has five bytes. -/
theorem limits_only_refuse_probe :
    decodeWithin .standard (encode probe) = .ok probe ∧
      (∃ flaw, flaw.Exceeds { Limits.standard with stringLength := 4 } ∧
        decodeWithin { Limits.standard with stringLength := 4 } (encode probe)
          = .error (.invalidEncoding flaw)) ∧
      decodeWithin { Limits.standard with types := 2 ^ 32 } (encode probe) = .ok probe := by
  have read := decodeWithin_standard_probe
  refine ⟨read, ?_, ?_⟩
  · obtain ⟨either, same, -⟩ := limits_only_refuse read { Limits.standard with stringLength := 4 }
    rcases either with accepted | ⟨flaw, refused, exceeds⟩
    · exact absurd (same.1 accepted).name (by decide)
    · exact ⟨flaw, exceeds, refused⟩
  · obtain ⟨-, -, raised⟩ := limits_only_refuse read { Limits.standard with types := 2 ^ 32 }
    exact raised ⟨by decide, by decide, by decide, by decide, by decide⟩

end Whole

end Interpose.Image
