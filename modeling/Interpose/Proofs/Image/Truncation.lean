import Interpose.Proofs.Image.RoundTrip

/-!
# Images cut short and images with more behind them

What a reader gives is settled by the bytes that it is read past. With other bytes behind them it
gives the same, and where the last of them are missing it asks for bytes behind the end of the
input, never for more than it is read past otherwise. So an input that `decode_with_limits` accepts
is neither the beginning nor the continuation of another one.
-/

namespace Interpose.Image

namespace Reader

variable {α β : Type} {r : Reader α}

/-- From a position on, the reader takes these bytes for a value: all of them, and none behind. -/
structure Takes (r : Reader α) (position : Nat) (bytes : List UInt8) (a : α) : Prop where
  whole (rest : List UInt8) (size : Nat) :
    r ⟨bytes ++ rest, position, size⟩ = .ok (a, ⟨rest, position + bytes.length, size⟩)
  cut (k size : Nat) (short : k < bytes.length) :
    ∃ need, r ⟨bytes.take k, position, size⟩ = .error (.bufferTooSmall need size) ∧
      position + k < need ∧ need ≤ position + bytes.length

/-- Wherever the reader gives a value, it takes the bytes that it is read past for the value. -/
def Measured (r : Reader α) : Prop :=
  ∀ c a d, r c = .ok (a, d) → ∃ bytes, c.Passes bytes d ∧ r.Takes c.position bytes a

/-! ### Composed readers -/

@[simp] theorem measured_pure (a : α) : Measured (Pure.pure a) := by
  intro c b d h
  cases h
  exact ⟨[], Cursor.passes_nil_iff.2 rfl, fun _ _ => rfl, fun k _ short => nomatch short⟩

@[simp] theorem measured_fail (e : DecodeError) : Measured (fail e : Reader α) :=
  fun _ _ _ h => nomatch h

theorem bind_apply_of_ok {next : α → Reader β} {a : α} {c d : Cursor} (h : r c = .ok (a, d)) :
    (r >>= next) c = next a d := by
  show Reader.bind r next c = _
  simp only [Reader.bind, h]

theorem bind_apply_of_error {next : α → Reader β} {e : DecodeError} {c : Cursor}
    (h : r c = .error e) : (r >>= next) c = .error e := by
  show Reader.bind r next c = _
  simp only [Reader.bind, h]

theorem Takes.bind {next : α → Reader β} {position : Nat} {front back : List UInt8} {a : α} {b : β}
    (first : r.Takes position front a) (later : (next a).Takes (position + front.length) back b) :
    (r >>= next).Takes position (front ++ back) b where
  whole rest size := by
    rw [List.append_assoc, bind_apply_of_ok (first.whole _ _), later.whole, List.length_append,
      Nat.add_assoc]
  cut k size short := by
    rw [List.length_append] at short ⊢
    -- the cut is in the front, or the front is whole and the cut is in what follows
    by_cases hk : k < front.length
    · obtain ⟨need, hneed, hlow, hhigh⟩ := first.cut k size hk
      rw [List.take_append_of_le_length (Nat.le_of_lt hk)]
      exact ⟨need, bind_apply_of_error hneed, hlow, by omega⟩
    · obtain ⟨need, hneed, hlow, hhigh⟩ := later.cut (k - front.length) size (by omega)
      rw [List.take_append, List.take_of_length_le (Nat.le_of_not_lt hk),
        bind_apply_of_ok (first.whole _ _)]
      exact ⟨need, hneed, by omega, by omega⟩

theorem Measured.bind {next : α → Reader β} (h : Measured r) (hnext : ∀ a, Measured (next a)) :
    Measured (r >>= next) := by
  intro c b d read
  obtain ⟨a, e, first, later⟩ := bind_apply_eq_ok.1 read
  obtain ⟨front, passed, takes⟩ := h c a e first
  obtain ⟨back, passed', takes'⟩ := hnext a e b d later
  rw [passed.position] at takes'
  exact ⟨front ++ back, Cursor.passes_append_iff.2 ⟨e, passed, passed'⟩, takes.bind takes'⟩

@[simp] theorem Measured.map (h : Measured r) (f : α → β) : Measured (do return f (← r)) :=
  h.bind fun a => measured_pure (f a)

theorem measured_bytes (n : Nat) : Measured (bytes n) := by
  intro c bs d read
  obtain ⟨length, passed⟩ := bytes_eq_ok_iff.1 read
  refine ⟨bs, passed, ?_, ?_⟩
  · intro rest size
    exact bytes_eq_ok_iff.2 ⟨length, rfl, rfl, rfl⟩
  · intro k size short
    have few : ((bs.take k).take n).length < n := by
      rw [List.length_take, List.length_take]
      omega
    refine ⟨c.position + n, ?_, by omega, by omega⟩
    simp only [bytes, if_pos few]

theorem timesOnto_succ (item : Reader α) (n : Nat) (acc : List α) :
    timesOnto item (n + 1) acc = item >>= fun a => timesOnto item n (a :: acc) := rfl

theorem Measured.times {item : Reader α} (h : Measured item) (n : Nat) : Measured (times item n) := by
  suffices onto : ∀ acc, Measured (timesOnto item n acc) from onto []
  induction n with
  | zero => exact fun acc => measured_pure acc.reverse
  | succ n ih =>
    intro acc
    rw [timesOnto_succ]
    exact h.bind fun a => ih (a :: acc)

/-! ### The readers of the format -/

theorem measured_nat (width : Nat) : Measured (nat width) := (measured_bytes width).map natOfBytes

theorem measured_u8 : Measured u8 := (measured_nat 1).map UInt8.ofNat

@[simp] theorem measured_u16 : Measured u16 := (measured_nat 2).map UInt16.ofNat

@[simp] theorem measured_u32 : Measured u32 := (measured_nat 4).map UInt32.ofNat

@[simp] theorem measured_u64 : Measured u64 := (measured_nat 8).map UInt64.ofNat

theorem measured_count (what : Counted) (limit : Nat) : Measured (count what limit) := by
  refine (measured_nat 4).bind fun n => ?_
  split
  · exact measured_fail _
  · exact measured_pure n

@[simp] theorem measured_string (limit : Nat) : Measured (string limit) := by
  refine (measured_nat 4).bind fun n => ?_
  split
  · exact measured_fail _
  · refine (measured_bytes n).bind fun bs => ?_
    split
    · exact measured_pure _
    · exact measured_fail _

theorem Measured.list {item : Reader α} (h : Measured item) (what : Counted) (limit : Nat) :
    Measured (list what limit item) :=
  (measured_count what limit).bind fun n => h.times n

@[simp] theorem measured_type : Measured type := measured_u32.map TypeToken.mk

@[simp] theorem measured_method : Measured method := measured_u32.map MethodToken.mk

@[simp] theorem measured_slot : Measured slot := measured_u32.map LocalSlot.mk

@[simp] theorem measured_label : Measured label := measured_u32.map Label.mk

@[simp] theorem measured_dataType : Measured dataType := by
  refine measured_u8.bind fun tag => ?_
  split <;> simp

theorem measured_returnType : Measured returnType := by
  refine measured_u8.bind fun tag => ?_
  split <;> simp

theorem measured_staticFlag : Measured staticFlag := by
  refine measured_u8.bind fun tag => ?_
  split <;> simp

theorem measured_signature : Measured signature :=
  (measured_dataType.list .params maxParams).bind fun _ =>
    measured_returnType.bind fun _ => measured_staticFlag.map _

/-- Behind its opcode, an instruction has one operand or none. -/
theorem measured_operand (limits : Limits) (opcode : UInt8) : Measured (operand limits opcode) := by
  unfold operand
  split <;> simp

theorem measured_instr (limits : Limits) : Measured (instr limits) :=
  measured_u8.bind fun opcode => measured_operand limits opcode

theorem measured_body (limits : Limits) : Measured (body limits) := by
  refine measured_u8.bind fun tag => ?_
  split
  · exact measured_pure none
  · exact (measured_dataType.list .locals maxLocals).bind fun _ =>
      ((measured_instr limits).list .instructions limits.instructions).map _
  · exact measured_fail _

theorem measured_typeDef (limits : Limits) : Measured (typeDef limits) :=
  (measured_string limits.stringLength).bind fun _ =>
    (measured_method.list .typeMethods limits.methods).map _

theorem measured_methodDef (limits : Limits) : Measured (methodDef limits) :=
  measured_type.bind fun _ => (measured_string limits.stringLength).bind fun _ =>
    measured_signature.bind fun _ => (measured_body limits).map _

theorem measured_header : Measured header := by
  refine (measured_bytes 4).bind fun m => ?_
  split
  · exact measured_fail _
  · refine measured_u16.bind fun v => ?_
    split
    · exact measured_fail _
    · exact measured_u16.map _

theorem measured_module (limits : Limits) : Measured (module limits) :=
  measured_header.bind fun _ => (measured_string limits.stringLength).bind fun _ =>
    ((measured_typeDef limits).list .types limits.types).bind fun _ =>
      ((measured_methodDef limits).list .methods limits.methods).map _

end Reader

/-! ### Whole images -/

section Whole

variable {limits : Limits} {bytes : List UInt8} {m : Module}

/-- The reader of modules takes all of an accepted input. -/
theorem takes_of_decodeWithin (h : decodeWithin limits bytes = .ok m) :
    (Reader.module limits).Takes 0 bytes m := by
  obtain ⟨-, fits, -, flags, rfl⟩ := decodeWithin_eq_ok_iff.1 h
  have passed : (Cursor.start (spelling flags m)).Passes (spelling flags m)
      ⟨[], (spelling flags m).length, (spelling flags m).length⟩ :=
    ⟨(List.append_nil _).symm, (Nat.zero_add _).symm, rfl⟩
  have read := Reader.module_eq_ok_iff.2 ⟨fits, flags, passed⟩
  obtain ⟨bytes, passed', takes⟩ := Reader.measured_module limits _ _ _ read
  have same : bytes.length = (spelling flags m).length := by
    have position := passed'.position
    simp only [Cursor.start, Nat.zero_add] at position
    exact position.symm
  exact (passed'.unique passed same).1 ▸ takes

theorem decodeWithin_take (h : decodeWithin limits bytes = .ok m) {k : Nat} (short : k < bytes.length) :
    ∃ need, decodeWithin limits (bytes.take k) = .error (.bufferTooSmall need k) ∧
      k < need ∧ need ≤ bytes.length := by
  obtain ⟨size, -⟩ := decodeWithin_eq_ok_iff.1 h
  obtain ⟨need, hneed, hlow, hhigh⟩ := (takes_of_decodeWithin h).cut k k short
  have length : (bytes.take k).length = k := List.length_take_of_le (Nat.le_of_lt short)
  have room : ¬ limits.bufferSize < k := by omega
  refine ⟨need, ?_, by omega, by omega⟩
  simp only [decodeWithin, Cursor.start, length, if_neg room, hneed]

/-- What stands behind an accepted input is refused as such, if it is not too much to be read. -/
theorem decodeWithin_append (h : decodeWithin limits bytes = .ok m) {more : List UInt8}
    (some : more ≠ []) :
    decodeWithin limits (bytes ++ more) = .error (.invalidEncoding
      (if limits.bufferSize < (bytes ++ more).length then .tooLarge else .trailingBytes)) := by
  have read := (takes_of_decodeWithin h).whole more (bytes ++ more).length
  have left : (!more.isEmpty) = true := by simpa using some
  by_cases large : limits.bufferSize < (bytes ++ more).length
  · rw [decodeWithin, if_pos large, if_pos large]
  · rw [decodeWithin, if_neg large, if_neg large, Cursor.start, read]
    simp only [left, if_true]

/-- Every beginning of an accepted input lacks bytes, every continuation has bytes too many, and so
no accepted input begins with another one. -/
theorem decodeWithin_only_whole (h : decodeWithin limits bytes = .ok m) :
    (∀ p, p <+: bytes → p ≠ bytes → ∃ need,
      decodeWithin limits p = .error (.bufferTooSmall need p.length) ∧
        p.length < need ∧ need ≤ bytes.length) ∧
    (∀ x, bytes <+: x → x ≠ bytes → decodeWithin limits x = .error (.invalidEncoding
      (if limits.bufferSize < x.length then .tooLarge else .trailingBytes))) ∧
    ∀ x m', decodeWithin limits x = .ok m' → bytes <+: x → x = bytes := by
  have longer (x : List UInt8) (hx : bytes <+: x) (hne : x ≠ bytes) :
      decodeWithin limits x = .error (.invalidEncoding
        (if limits.bufferSize < x.length then .tooLarge else .trailingBytes)) := by
    obtain ⟨more, rfl⟩ := hx
    exact decodeWithin_append h fun none => hne (by rw [none, List.append_nil])
  refine ⟨?_, longer, ?_⟩
  · intro p hp hne
    obtain ⟨rest, rfl⟩ := hp
    have short : p.length < (p ++ rest).length := by
      have missing : rest ≠ [] := fun none => hne (by rw [none, List.append_nil])
      have positive := List.length_pos_iff.2 missing
      rw [List.length_append]
      omega
    have cut := decodeWithin_take h short
    rwa [List.take_left] at cut
  · intro x m' h' hx
    refine Decidable.byContradiction fun hne => ?_
    rw [longer x hx hne] at h'
    cases h'

theorem decodeWithin_only_whole_probe :
    decodeWithin .standard (encode probe) = .ok probe ∧
      (∃ need, decodeWithin .standard ((encode probe).take 20) = .error (.bufferTooSmall need 20) ∧
        20 < need ∧ need ≤ (encode probe).length) ∧
      decodeWithin .standard (encode probe ++ [0]) = .error (.invalidEncoding .trailingBytes) := by
  have read := decodeWithin_standard_probe
  obtain ⟨shorter, longer, -⟩ := decodeWithin_only_whole read
  exact ⟨read, shorter _ (List.take_prefix 20 _) (by decide),
    longer _ (List.prefix_append _ _) (by decide)⟩

end Whole

end Interpose.Image
