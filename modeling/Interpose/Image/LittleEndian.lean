/-!
# Little-endian numbers

A number in a fixed number of bytes, the least significant byte first: `u8`, `u16`, `u32` and `u64`
of `Writer` and what `Cursor` reads for them.
-/

namespace Interpose.Image

/-- The lowest `width` bytes of a number, the least significant first. -/
def bytesOfNat : Nat → Nat → List UInt8
  | 0, _ => []
  | width + 1, n => UInt8.ofNat n :: bytesOfNat width (n / 256)

def natOfBytes : List UInt8 → Nat
  | [] => 0
  | b :: rest => b.toNat + 256 * natOfBytes rest

theorem length_bytesOfNat (width n : Nat) : (bytesOfNat width n).length = width := by
  induction width generalizing n with
  | zero => rfl
  | succ width ih => simp [bytesOfNat, ih]

theorem bytesOfNat_natOfBytes (bytes : List UInt8) :
    bytesOfNat bytes.length (natOfBytes bytes) = bytes := by
  induction bytes with
  | nil => rfl
  | cons b rest ih =>
    have hb : b.toNat < 256 := b.toNat_lt
    have low : UInt8.ofNat (b.toNat + 256 * natOfBytes rest) = b := by
      apply UInt8.toNat_inj.mp
      simp only [UInt8.toNat_ofNat']
      omega
    have high : (b.toNat + 256 * natOfBytes rest) / 256 = natOfBytes rest := by omega
    simp only [List.length_cons, natOfBytes, bytesOfNat, low, high, ih]

end Interpose.Image
