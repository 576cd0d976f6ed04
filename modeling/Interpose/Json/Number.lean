import Interpose.Json.Value
import Interpose.Decimal.Binary64

/-!
# Numbers in JSON

What a numeral stands for. A numeral is a whole number only if it has neither point nor exponent,
and a negative zero is not one. As a floating-point number it is the digits that fit a 64-bit word,
scaled by a power of ten in floating point; it has no value if that is too large.
-/

namespace Interpose.Json

def digitValue (c : Char) : Nat := c.toNat - '0'.toNat

def digitsValue (digits : List Char) : Nat :=
  digits.foldl (fun n c => 10 * n + digitValue c) 0

def Numeral.int? (n : Numeral) : Option Int :=
  match n.fraction, n.exponent with
  | [], none =>
    let value := digitsValue n.whole
    if n.negative then (if value = 0 then none else some (-(value : Int))) else some value
  | _, _ => none

/-- The number that has room in a word, and the digits that have none. -/
def fillWord : Nat → List Char → Nat × List Char
  | word, [] => (word, [])
  | word, c :: rest =>
    if word * 10 + digitValue c < UInt64.size then fillWord (word * 10 + digitValue c) rest
    else (word, c :: rest)

def largestPower : Nat := 308

/-- Scales a number by a power of ten. Dividing may take several steps, until zero is reached or the
rest of the power fits in one; there is no value if the result would be infinite. -/
def scaleBy : Nat → Binary64 → Int → Option Binary64
  | 0, x, _ => some x
  | fuel + 1, x, e =>
    if e.natAbs ≤ largestPower then
      if 0 ≤ e then
        let y := x.mul (.powerOfTen e.natAbs)
        if y.isInfinite then none else some y
      else some (x.div (.powerOfTen e.natAbs))
    else if x.isZero then some x
    else if 0 ≤ e then none
    else scaleBy fuel (x.div (.powerOfTen largestPower)) (e + largestPower)

/-- The largest exponent whose size is taken at its word. -/
def largestExponent : Nat := 0x7fffffff

def Numeral.binary64? (n : Numeral) : Option Binary64 :=
  let (word, left) := fillWord 0 n.whole
  let (word, leftFraction) := fillWord word n.fraction
  let scale : Int := left.length - (n.fraction.length - leftFraction.length : Nat)
  let magnitude := match n.exponent with
    | none => scaleBy 8 (.ofWord (UInt64.ofNat word)) scale
    | some (negative, digits) =>
      let e := digitsValue digits
      if largestExponent < e then
        if negative || word = 0 then some .zero else none
      else scaleBy 8 (.ofWord (UInt64.ofNat word)) (if negative then scale - e else scale + e)
  magnitude.map fun x => if n.negative then x.neg else x

end Interpose.Json
