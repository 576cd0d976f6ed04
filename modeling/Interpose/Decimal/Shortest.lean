import Interpose.Decimal.Binary64

/-!
# Shortest decimals

A binary number m · 2^q stands for all reals that round to it. Among the decimals in that interval
the shortest one is wanted, and of the shortest the nearest to the number itself. On each grid
10^e, from coarse to fine, only the two neighbours of the number need a look: when any point of a
grid lies in the interval, one of these two does.
-/

namespace Interpose

/-- The decimal `coefficient · 10^exponent`. -/
structure Decimal where
  coefficient : Nat
  exponent : Int
  deriving DecidableEq, Repr

namespace Decimal

inductive Tie where
  | up
  | even
  deriving DecidableEq, Repr

/-- A positive number with the interval of reals that round to it, all over one denominator. The
ends belong to the interval when `closed` holds. -/
structure Rounding where
  value : Nat
  low : Nat
  high : Nat
  denominator : Nat
  closed : Bool

/-- The rounding interval of m · 2^q: half a unit to either side, but only a quarter below a power
of two, where numbers lie twice as dense. -/
def Rounding.ofBinary (m : Nat) (q : Int) (atPowerOfTwo : Bool) : Rounding :=
  let factor := 1 <<< (q - 2).toNat
  { value := 4 * m * factor
    low := (4 * m - if atPowerOfTwo then 1 else 2) * factor
    high := (4 * m + 2) * factor
    denominator := 1 <<< (2 - q).toNat
    closed := m % 2 = 0 }

/-- The same interval, counted in units of 10^e. -/
def Rounding.onGrid (r : Rounding) (e : Int) : Rounding :=
  let up := Nat.pow 10 (-e).toNat
  { value := r.value * up
    low := r.low * up
    high := r.high * up
    denominator := r.denominator * Nat.pow 10 e.toNat
    closed := r.closed }

def Rounding.holds (r : Rounding) (c : Nat) : Bool :=
  if r.closed then r.low ≤ c * r.denominator && c * r.denominator ≤ r.high
  else r.low < c * r.denominator && c * r.denominator < r.high

/-- The neighbour of the value among the whole numbers `c` and `c + 1` that is nearer. -/
def Rounding.nearer (r : Rounding) (tie : Tie) (c : Nat) : Nat :=
  let twice := 2 * r.value
  let middle := (2 * c + 1) * r.denominator
  if twice < middle then c
  else if middle < twice then c + 1
  else match tie with
    | .up => c + 1
    | .even => if c % 2 = 0 then c else c + 1

/-- The whole number in the interval that is next to the value, if there is one. -/
def Rounding.whole? (r : Rounding) (tie : Tie) : Option Nat :=
  let c := r.value / r.denominator
  match r.holds c, r.holds (c + 1) with
  | true, true => some (r.nearer tie c)
  | true, false => some c
  | false, true => some (c + 1)
  | false, false => none

/-- The number of zeros between the point and the first digit of `num / den`, at most `fuel`. -/
def leadingZeros : Nat → Nat → Nat → Nat
  | 0, _, _ => 0
  | fuel + 1, num, den => if den ≤ num * 10 then 0 else leadingZeros fuel (num * 10) den + 1

/-- The k with 10^(k-1) ≤ value < 10^k. -/
def Rounding.magnitude (r : Rounding) : Int :=
  let whole := r.value / r.denominator
  if whole = 0 then -(leadingZeros 400 r.value r.denominator : Int)
  else (Nat.toDigits 10 whole).length

/-- Looks for a decimal on the grids 10^e, 10^(e-1), …; the value itself, rounded down on the last
grid, if none has one. -/
def Rounding.search (r : Rounding) (tie : Tie) : Nat → Int → Decimal
  | 0, e => ⟨(r.onGrid e).value / (r.onGrid e).denominator, e⟩
  | fuel + 1, e =>
    match (r.onGrid e).whole? tie with
    | some c => ⟨c, e⟩
    | none => r.search tie fuel (e - 1)

/-- Drops zeros at the end of the coefficient, at most `fuel` of them. -/
def trim : Nat → Decimal → Decimal
  | 0, d => d
  | fuel + 1, d =>
    if d.coefficient % 10 = 0 && d.coefficient != 0 then
      trim fuel ⟨d.coefficient / 10, d.exponent + 1⟩
    else d

/-- The shortest decimal that rounds to the magnitude of a finite number other than zero, and of
the shortest the nearest. Seventeen digits always suffice. -/
def shortest (tie : Tie) (x : Binary64) : Decimal :=
  let r := Rounding.ofBinary x.significand x.scale x.atPowerOfTwo
  (r.search tie 17 (r.magnitude - 1)).trim 20

end Decimal

end Interpose
