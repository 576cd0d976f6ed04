import Interpose.Decimal.Shortest

/-!
# Laying out decimals

A shortest decimal is written either with its digits around a point or with an exponent. A
`Layout` holds the choices that two formats make differently; `Layout.text` follows them.
-/

namespace Interpose.Decimal

structure Layout where
  /-- Which of two equally near shortest decimals is written. -/
  tie : Tie
  /-- The numbers from 10^(fst-1) up to and without 10^snd are written with a point, all others
  with an exponent; no bounds mean that an exponent is never written. -/
  pointed : Option (Int × Int)
  /-- What follows a whole number that is written without an exponent. -/
  wholeEnd : String

/-- The digits with a point after the first `point` of them, where `point` may also lie before or
behind all of them. -/
def pointedText (wholeEnd : String) (digits : List Char) (point : Int) : String :=
  if point ≤ 0 then
    String.ofList ('0' :: '.' :: (List.replicate (-point).toNat '0' ++ digits))
  else if digits.length ≤ point.toNat then
    String.ofList (digits ++ List.replicate (point.toNat - digits.length) '0') ++ wholeEnd
  else
    String.ofList (digits.take point.toNat ++ '.' :: digits.drop point.toNat)

def exponentText (digits : List Char) (exponent : Int) : String :=
  let mantissa := match digits with
    | first :: second :: rest => first :: '.' :: second :: rest
    | _ => digits
  String.ofList mantissa ++ "e" ++ (if exponent < 0 then "-" else "+")
    ++ Nat.repr exponent.natAbs

def Layout.decimalText (l : Layout) (d : Decimal) : String :=
  let digits := Nat.toDigits 10 d.coefficient
  let point := d.exponent + digits.length
  match l.pointed with
  | none => pointedText l.wholeEnd digits point
  | some (least, most) =>
    if least ≤ point && point ≤ most then pointedText l.wholeEnd digits point
    else exponentText digits (point - 1)

/-- The text of a finite number: a sign for negative numbers and for the negative zero, then the
shortest decimal. -/
def Layout.finiteText (l : Layout) (x : Binary64) : String :=
  (if x.isNegative then "-" else "")
    ++ (if x.isZero then "0" ++ l.wholeEnd else l.decimalText (shortest l.tie x))

/-- The text of any number, with names for the ones that have no decimal. -/
def Layout.text (l : Layout) (x : Binary64) : String :=
  if x.isNaN then "NaN"
  else if x.isInfinite then (if x.isNegative then "-inf" else "inf")
  else l.finiteText x

/-- Listings and printed values never show an exponent, and whole numbers have no point. Of two
equally near decimals the larger is written. -/
def plain : Layout := ⟨.up, none, ""⟩

/-- Data files show an exponent below 10^-5 and from 10^16 on, and mark whole numbers with a point
and a zero. Of two equally near decimals the even one is written. -/
def data : Layout := ⟨.even, some (-4, 16), ".0"⟩

end Interpose.Decimal
