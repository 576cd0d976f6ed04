/-!
# JSON values

A JSON text stands for a tree of values. Numbers keep the digits they are written with, since how
large or exact a number may be is for the reader of the tree to decide.
-/

namespace Interpose

namespace Json

/-- A number as it is written: a whole part without needless zeros, then perhaps digits behind a
point, then perhaps an exponent. -/
structure Numeral where
  negative : Bool
  whole : List Char
  fraction : List Char
  /-- Whether the exponent is negative, and its digits. -/
  exponent : Option (Bool × List Char)
  deriving DecidableEq, Repr

end Json

/-- A JSON value. The entries of an object keep their order and may repeat a key. -/
inductive Json where
  | null
  | bool (value : Bool)
  | number (value : Json.Numeral)
  | str (value : String)
  | array (items : List Json)
  | object (entries : List (String × Json))
  /-- A string with an escape that names no character, or an object with such a key. It has the
  form of a value but no content. -/
  | unreadable

namespace Json

def Numeral.ofNat (n : Nat) : Numeral := ⟨false, Nat.toDigits 10 n, [], none⟩

def Numeral.ofInt (n : Int) : Numeral := ⟨n < 0, Nat.toDigits 10 n.natAbs, [], none⟩

def nat (n : Nat) : Json := .number (.ofNat n)

def int (n : Int) : Json := .number (.ofInt n)

end Json

end Interpose
