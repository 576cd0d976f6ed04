/-!
# Binary64 numbers

A floating-point constant is its 64 bits: one sign bit, eleven exponent bits, fifty-two fraction
bits. Comparison is decided on the bits; sums, differences and products are the machine's, as
`arithmetic` takes them.
-/

namespace Interpose

structure Binary64 where
  bits : UInt64
  deriving DecidableEq, Repr

namespace Binary64

def ofFloat (x : Float) : Binary64 := ⟨x.toBits⟩

def toFloat (x : Binary64) : Float := Float.ofBits x.bits

def zero : Binary64 := ⟨0⟩

def isNegative (x : Binary64) : Bool := 0x8000000000000000 ≤ x.bits.toNat

def magnitude (x : Binary64) : Nat := x.bits.toNat % 0x8000000000000000

def exponentField (x : Binary64) : Nat := x.magnitude / 0x10000000000000

def fractionField (x : Binary64) : Nat := x.magnitude % 0x10000000000000

def isNaN (x : Binary64) : Bool := 0x7ff0000000000000 < x.magnitude

def isInfinite (x : Binary64) : Bool := x.magnitude = 0x7ff0000000000000

def isFinite (x : Binary64) : Bool := x.magnitude < 0x7ff0000000000000

def isZero (x : Binary64) : Bool := x.magnitude = 0

/-- Numeric equality: no NaN equals anything, and the two zeros are equal. -/
def equals (x y : Binary64) : Bool :=
  !x.isNaN && !y.isNaN && (x.bits == y.bits || (x.isZero && y.isZero))

/-- The place of a number that is not a NaN in numeric order, both zeros at 0. -/
def rank (x : Binary64) : Int :=
  if x.isNegative then -(x.magnitude : Int) else x.magnitude

/-- Numeric order; a NaN is not less than anything, nor anything less than it. -/
def lessThan (x y : Binary64) : Bool :=
  !x.isNaN && !y.isNaN && decide (x.rank < y.rank)

def add (x y : Binary64) : Binary64 := ofFloat (x.toFloat + y.toFloat)

def sub (x y : Binary64) : Binary64 := ofFloat (x.toFloat - y.toFloat)

def mul (x y : Binary64) : Binary64 := ofFloat (x.toFloat * y.toFloat)

def div (x y : Binary64) : Binary64 := ofFloat (x.toFloat / y.toFloat)

def neg (x : Binary64) : Binary64 := ⟨x.bits ^^^ 0x8000000000000000⟩

def ofWord (n : UInt64) : Binary64 := ofFloat n.toFloat

def powerOfTen (k : Nat) : Binary64 := ofFloat (Float.ofScientific 1 false k)

/-! ### The number behind the bits -/

/-- The whole number m of a finite number ± m · 2^q. -/
def significand (x : Binary64) : Nat :=
  if x.exponentField = 0 then x.fractionField else 0x10000000000000 + x.fractionField

/-- The exponent q of a finite number ± m · 2^q. -/
def scale (x : Binary64) : Int :=
  if x.exponentField = 0 then -1074 else (x.exponentField : Int) - 1075

/-- Whether the next smaller magnitude is only half as far away as the next larger one. -/
def atPowerOfTwo (x : Binary64) : Bool := 1 < x.exponentField && x.fractionField == 0

end Binary64

end Interpose
