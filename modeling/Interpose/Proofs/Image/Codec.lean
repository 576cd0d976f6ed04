import Mathlib.Algebra.Group.Nat.Defs
import Interpose.Image.Reader
import Interpose.Image.Writer

/-!
# Readers and writers that belong together

A reader and a writer, a function of `Cursor` and one of `Writer`, belong together when the reader
gives a value exactly where the bytes that the writer makes of the value stand in front of it, and
the value keeps to the bounds of the reader. Such a pair reads back what was written, and refuses
every other spelling.
-/

namespace Interpose.Image

/-- From `c` to `d` the input is read past exactly these bytes. -/
structure Cursor.Passes (c : Cursor) (bytes : List UInt8) (d : Cursor) : Prop where
  rest : c.rest = bytes ++ d.rest
  position : d.position = c.position + bytes.length
  size : d.size = c.size

namespace Cursor

theorem passes_nil_iff {c d : Cursor} : c.Passes [] d ↔ d = c := by
  constructor
  · rintro ⟨rest, position, size⟩
    cases c
    cases d
    simp only [List.nil_append, List.length_nil, Nat.add_zero] at rest position size
    rw [rest, position, size]
  · rintro rfl
    exact ⟨rfl, rfl, rfl⟩

theorem passes_append_iff {c d : Cursor} {front back : List UInt8} :
    c.Passes (front ++ back) d ↔ ∃ e, c.Passes front e ∧ e.Passes back d := by
  constructor
  · rintro ⟨rest, position, size⟩
    refine ⟨⟨back ++ d.rest, c.position + front.length, c.size⟩, ⟨?_, rfl, rfl⟩, rfl, ?_, size⟩
    · rw [rest, List.append_assoc]
    · rw [position, List.length_append, Nat.add_assoc]
  · rintro ⟨e, ⟨rest, position, size⟩, rest', position', size'⟩
    refine ⟨?_, ?_, size'.trans size⟩
    · rw [rest, rest', List.append_assoc]
    · rw [position', position, List.length_append, Nat.add_assoc]

theorem passes_cons_iff {c d : Cursor} {b : UInt8} {back : List UInt8} :
    c.Passes (b :: back) d ↔ ∃ e, c.Passes [b] e ∧ e.Passes back d :=
  @passes_append_iff c d [b] back

theorem Passes.unique {c d e : Cursor} {xs ys : List UInt8} (h : c.Passes xs d)
    (h' : c.Passes ys e) (same : xs.length = ys.length) : xs = ys ∧ d = e := by
  obtain ⟨bytes, rest⟩ := List.append_inj (h.rest.symm.trans h'.rest) same
  refine ⟨bytes, ?_⟩
  have position : d.position = e.position := by rw [h.position, h'.position, same]
  have size : d.size = e.size := h.size.trans h'.size.symm
  cases d
  cases e
  simp only at rest position size
  rw [rest, position, size]

end Cursor

/-- The reader gives a value exactly where its written form stands, if the value fits. -/
def Codec {α : Type} (r : Reader α) (write : α → List UInt8) (fits : α → Prop) : Prop :=
  ∀ c a d, r c = .ok (a, d) ↔ fits a ∧ c.Passes (write a) d

namespace Codec

variable {α β : Type} {r : Reader α} {write : α → List UInt8} {fits : α → Prop}

theorem bind_iff (h : Codec r write fits) {next : α → Reader β} {c d : Cursor} {b : β} :
    (r >>= next) c = .ok (b, d) ↔
      ∃ a e, (fits a ∧ c.Passes (write a) e) ∧ next a e = .ok (b, d) := by
  rw [Reader.bind_apply_eq_ok]
  constructor
  · rintro ⟨a, e, read, rest⟩
    exact ⟨a, e, (h c a e).1 read, rest⟩
  · rintro ⟨a, e, passed, rest⟩
    exact ⟨a, e, (h c a e).2 passed, rest⟩

theorem map (h : Codec r write fits) (f : α → β) (g : β → α) (fits' : β → Prop)
    (left : ∀ b, f (g b) = b) (right : ∀ a, fits a → g (f a) = a)
    (bounds : ∀ b, fits (g b) ↔ fits' b) :
    Codec (do return f (← r)) (fun b => write (g b)) fits' := by
  intro c b d
  rw [h.bind_iff]
  constructor
  · rintro ⟨a, e, ⟨fit, passed⟩, done⟩
    cases done
    show fits' (f a) ∧ c.Passes (write (g (f a))) _
    rw [← bounds, right a fit]
    exact ⟨fit, passed⟩
  · rintro ⟨fit, passed⟩
    refine ⟨g b, d, ⟨(bounds b).2 fit, passed⟩, ?_⟩
    rw [left]
    rfl

end Codec

/-! ### Bytes of numbers -/

theorem natOfBytes_bytesOfNat (width n : Nat) :
    natOfBytes (bytesOfNat width n) = n % 256 ^ width := by
  induction width generalizing n with
  | zero => simp [bytesOfNat, natOfBytes, Nat.mod_one]
  | succ width ih =>
    have key : n % 256 ^ (width + 1) = n % 256 + 256 * (n / 256 % 256 ^ width) := by
      rw [Nat.pow_succ']
      exact Nat.mod_mul
    simp only [bytesOfNat, natOfBytes, ih, UInt8.toNat_ofNat', key]

theorem natOfBytes_lt (bytes : List UInt8) : natOfBytes bytes < 256 ^ bytes.length := by
  induction bytes with
  | nil => simp [natOfBytes]
  | cons b rest ih =>
    have hb : b.toNat < 256 := b.toNat_lt
    simp only [natOfBytes, List.length_cons, Nat.pow_succ']
    have step : 256 * (natOfBytes rest + 1) ≤ 256 * 256 ^ rest.length :=
      Nat.mul_le_mul_left 256 ih
    omega

namespace Reader

/-! ### Numbers -/

theorem bytes_eq_ok_iff {n : Nat} {bs : List UInt8} {c d : Cursor} :
    bytes n c = .ok (bs, d) ↔ bs.length = n ∧ c.Passes bs d := by
  constructor
  · intro h
    obtain ⟨length, rest, position, size⟩ := bytes_eq_ok h
    exact ⟨length, rest, by rw [position, length], size⟩
  · rintro ⟨length, rest, position, size⟩
    have taken : c.rest.take n = bs := by rw [rest, ← length, List.take_left]
    have left : c.rest.drop n = d.rest := by rw [rest, ← length, List.drop_left]
    have enough : ¬ bs.length < n := by omega
    simp only [bytes, taken, left, if_neg enough]
    cases d
    simp only at position size
    rw [position, size, length]

theorem nat_codec (width : Nat) : Codec (nat width) (bytesOfNat width) (· < 256 ^ width) := by
  intro c n d
  simp only [nat, bind_apply_eq_ok, bytes_eq_ok_iff, pure_apply]
  constructor
  · rintro ⟨bs, e, ⟨length, passed⟩, done⟩
    cases done
    refine ⟨?_, ?_⟩
    · rw [← length]
      exact natOfBytes_lt bs
    · rw [← length, bytesOfNat_natOfBytes]
      exact passed
  · rintro ⟨bound, passed⟩
    refine ⟨bytesOfNat width n, d, ⟨length_bytesOfNat width n, passed⟩, ?_⟩
    rw [natOfBytes_bytesOfNat, Nat.mod_eq_of_lt bound]

theorem u8_codec : Codec u8 (fun b => [b]) fun _ => True := by
  have h := (nat_codec 1).map UInt8.ofNat UInt8.toNat (fun _ => True) (by simp)
    (by simp only [UInt8.toNat_ofNat']; omega) (fun b => by simpa using b.toNat_lt)
  simpa only [u8, bytesOfNat, UInt8.ofNat_toNat] using h

/-- A reader that looks at one byte and goes on with the form that the byte stands for. -/
theorem u8_bind_iff {α : Type} {form : UInt8 → Reader α} {a : α} {c d : Cursor} :
    (u8 >>= form) c = .ok (a, d) ↔
      ∃ tag e r, c.Passes [tag] e ∧ form tag = r ∧ r e = .ok (a, d) := by
  rw [u8_codec.bind_iff]
  constructor
  · rintro ⟨tag, e, ⟨-, passed⟩, done⟩
    exact ⟨tag, e, form tag, passed, rfl, done⟩
  · rintro ⟨tag, e, r, passed, rfl, done⟩
    exact ⟨tag, e, ⟨trivial, passed⟩, done⟩

theorem u16_codec : Codec u16 writeU16 fun _ => True :=
  (nat_codec 2).map UInt16.ofNat UInt16.toNat (fun _ => True) (by simp)
    (by simp only [UInt16.toNat_ofNat']; omega) (fun b => by simpa using b.toNat_lt)

theorem u32_codec : Codec u32 writeU32 fun _ => True :=
  (nat_codec 4).map UInt32.ofNat UInt32.toNat (fun _ => True) (by simp)
    (by simp only [UInt32.toNat_ofNat']; omega) (fun b => by simpa using b.toNat_lt)

theorem u64_codec : Codec u64 writeU64 fun _ => True :=
  (nat_codec 8).map UInt64.ofNat UInt64.toNat (fun _ => True) (by simp)
    (by simp only [UInt64.toNat_ofNat']; omega) (fun b => by simpa using b.toNat_lt)

theorem count_codec (what : Counted) (limit : Nat) :
    Codec (count what limit) writeCount fun n => n < 2 ^ 32 ∧ n ≤ limit := by
  intro c n d
  simp only [count, (nat_codec 4).bind_iff]
  constructor
  · rintro ⟨k, e, ⟨bound, passed⟩, done⟩
    split at done
    · cases done
    · cases done
      exact ⟨⟨by omega, by omega⟩, passed⟩
  · rintro ⟨⟨bound, within⟩, passed⟩
    refine ⟨n, d, ⟨by omega, passed⟩, ?_⟩
    rw [if_neg (by omega)]
    rfl

/-! ### Texts -/

theorem fromUTF8?_eq_some_iff {bs : List UInt8} {s : String} :
    String.fromUTF8? bs.toByteArray = some s ↔ bs = utf8 s := by
  unfold String.fromUTF8? utf8
  constructor
  · intro h
    split at h
    · cases h
      simp [String.fromUTF8]
    · cases h
  · rintro rfl
    have same : s.toByteArray.data.toList.toByteArray = s.toByteArray := by
      apply ByteArray.ext
      simp
    rw [same, dif_pos s.isValidUTF8]
    rfl

theorem string_codec (limit : Nat) :
    Codec (string limit) writeString fun s =>
      (utf8 s).length < 2 ^ 32 ∧ (utf8 s).length ≤ limit := by
  intro c s d
  simp only [string, (nat_codec 4).bind_iff, writeString, writeCount, Cursor.passes_append_iff]
  constructor
  · rintro ⟨n, e, ⟨bound, counted⟩, done⟩
    split at done
    · cases done
    · rw [bind_apply_eq_ok] at done
      obtain ⟨bs, e', read, done⟩ := done
      obtain ⟨length, passed⟩ := bytes_eq_ok_iff.1 read
      cases text : String.fromUTF8? bs.toByteArray with
      | none =>
        rw [text] at done
        cases done
      | some s' =>
        rw [text] at done
        cases done
        rw [fromUTF8?_eq_some_iff] at text
        subst text length
        exact ⟨⟨by omega, by omega⟩, e, counted, passed⟩
  · rintro ⟨⟨bound, within⟩, e, counted, passed⟩
    refine ⟨(utf8 s).length, e, ⟨by omega, counted⟩, ?_⟩
    rw [if_neg (by omega), bind_apply_eq_ok]
    refine ⟨utf8 s, d, bytes_eq_ok_iff.2 ⟨rfl, passed⟩, ?_⟩
    rw [fromUTF8?_eq_some_iff.2 rfl]
    rfl

/-! ### Lists -/

theorem timesOnto_eq_ok_iff {α : Type} {item : Reader α} {write : α → List UInt8} {fits : α → Prop}
    (h : Codec item write fits) {n : Nat} {acc all : List α} {c d : Cursor} :
    timesOnto item n acc c = .ok (all, d) ↔
      ∃ items, all = acc.reverse ++ items ∧ items.length = n ∧ (∀ a ∈ items, fits a) ∧
        c.Passes (items.flatMap write) d := by
  induction n generalizing acc c with
  | zero =>
    constructor
    · intro done
      cases done
      exact ⟨[], by simp, rfl, by simp, Cursor.passes_nil_iff.2 rfl⟩
    · rintro ⟨items, rfl, length, -, passed⟩
      obtain rfl := List.eq_nil_of_length_eq_zero length
      rw [List.flatMap_nil, Cursor.passes_nil_iff] at passed
      simp [timesOnto, passed]
  | succ n ih =>
    have peel : timesOnto item (n + 1) acc c = .ok (all, d) ↔
        ∃ a e, item c = .ok (a, e) ∧ timesOnto item n (a :: acc) e = .ok (all, d) := by
      cases read : item c with
      | error e => simp [timesOnto, read]
      | ok p =>
        have step : timesOnto item (n + 1) acc c = timesOnto item n (p.1 :: acc) p.2 := by
          simp only [timesOnto, read]
        rw [step]
        constructor
        · intro done
          exact ⟨p.1, p.2, rfl, done⟩
        · rintro ⟨a, e, same, done⟩
          cases same
          exact done
    rw [peel]
    constructor
    · rintro ⟨a, e, read, rest⟩
      obtain ⟨fit, passed⟩ := (h c a e).1 read
      obtain ⟨items, rfl, length, fit', passed'⟩ := ih.1 rest
      refine ⟨a :: items, by simp, by simp [length], ?_, ?_⟩
      · intro b hb
        rcases List.mem_cons.1 hb with rfl | hb
        · exact fit
        · exact fit' b hb
      · rw [List.flatMap_cons, Cursor.passes_append_iff]
        exact ⟨e, passed, passed'⟩
    · rintro ⟨items, rfl, length, fit, passed⟩
      cases items with
      | nil => cases length
      | cons a items =>
        rw [List.flatMap_cons, Cursor.passes_append_iff] at passed
        obtain ⟨e, front, back⟩ := passed
        refine ⟨a, e, (h c a e).2 ⟨fit a (List.mem_cons_self ..), front⟩, ih.2 ?_⟩
        refine ⟨items, by simp, Nat.succ.inj length, ?_, back⟩
        intro b hb
        exact fit b (List.mem_cons_of_mem _ hb)

theorem list_codec {α : Type} {item : Reader α} {write : α → List UInt8} {fits : α → Prop}
    (h : Codec item write fits) (what : Counted) (limit : Nat) :
    Codec (list what limit item) (writeList write) fun items =>
      (items.length < 2 ^ 32 ∧ items.length ≤ limit) ∧ ∀ a ∈ items, fits a := by
  intro c items d
  simp only [list, (count_codec what limit).bind_iff, times, timesOnto_eq_ok_iff h, writeList,
    Cursor.passes_append_iff]
  constructor
  · rintro ⟨n, e, ⟨bound, counted⟩, items', rfl, rfl, fit, passed⟩
    exact ⟨⟨bound, fit⟩, e, counted, passed⟩
  · rintro ⟨⟨bound, fit⟩, e, counted, passed⟩
    exact ⟨items.length, e, ⟨bound, counted⟩, items, rfl, rfl, fit, passed⟩

end Reader

end Interpose.Image
