import Interpose.Token

/-!
# Why an image is refused

`CodecError`: the causes for which an image is refused, and what they count, tag and point into.
-/

namespace Interpose.Image

inductive Counted where
  | types
  | typeMethods
  | methods
  | locals
  | instructions
  | params
  deriving DecidableEq, Repr

/-- The places of the format where one byte chooses among several forms. -/
inductive Tagged where
  | body
  | dataType
  | returnType
  | staticFlag
  | opcode
  deriving DecidableEq, Repr

inductive Table where
  | types
  | methods
  | locals
  deriving DecidableEq, Repr

inductive Flaw where
  | tooLarge
  | badMagic
  | badVersion
  | longString
  | badUtf8
  | trailingBytes
  | tooMany (what : Counted) (count limit : Nat)
  deriving DecidableEq, Repr

inductive DecodeError where
  | invalidEncoding (flaw : Flaw)
  | bufferTooSmall (need available : Nat)
  | invalidTag (what : Tagged) (tag : UInt8)
  | outOfRange (table : Table) (index : UInt32) (context : String)
  deriving DecidableEq, Repr

def Counted.text : Counted → String
  | .types => "type"
  | .typeMethods => "type method"
  | .methods => "method"
  | .locals => "local"
  | .instructions => "instruction"
  | .params => "parameter"

def Tagged.text : Tagged → String
  | .body => "body"
  | .dataType => "type signature"
  | .returnType => "return"
  | .staticFlag => "static flag"
  | .opcode => "opcode"

def Table.text : Table → String
  | .types => "type token"
  | .methods => "method token"
  | .locals => "local"

def Flaw.message : Flaw → String
  | .tooLarge => "Buffer too large"
  | .badMagic => "Invalid magic"
  | .badVersion => "Unsupported version"
  | .longString => "String too long"
  | .badUtf8 => "Invalid UTF-8 string"
  | .trailingBytes => "Trailing bytes"
  | .tooMany what count limit =>
    what.text ++ " count " ++ Nat.repr count ++ " exceeds limit " ++ Nat.repr limit

def byteHex (b : UInt8) : String :=
  String.ofList [Nat.digitChar (b.toNat / 16), Nat.digitChar (b.toNat % 16)]

def DecodeError.message : DecodeError → String
  | .invalidEncoding flaw => "Invalid encoding: " ++ flaw.message
  | .bufferTooSmall need available =>
    "Buffer too small: need " ++ Nat.repr need ++ " bytes, have " ++ Nat.repr available
  | .invalidTag what tag => "Invalid " ++ what.text ++ " tag: 0x" ++ byteHex tag
  | .outOfRange table index context =>
    table.text ++ " " ++ Nat.repr index.toNat ++ " out of range in " ++ context

end Interpose.Image
