import Interpose.Json.Value

/-!
# Parsing JSON

The grammar of JSON texts. Strings must not hold bare control characters, numbers have no needless
zeros in front, and nothing but blanks may follow the value. An escape that names half of a
surrogate pair alone makes its string unreadable, not malformed.
-/

namespace Interpose.Json

def isBlank (c : Char) : Bool := c = ' ' || c = '\n' || c = '\t' || c = '\r'

def skipBlanks : List Char → List Char
  | c :: rest => if isBlank c then skipBlanks rest else c :: rest
  | [] => []

/-! ### Numbers -/

def takeDigits : List Char → List Char → List Char × List Char
  | acc, c :: rest => if c.isDigit then takeDigits (c :: acc) rest else (acc.reverse, c :: rest)
  | acc, [] => (acc.reverse, [])

/-- The whole part: a zero, or digits that do not start with one. -/
def parseWhole (s : List Char) : Option (List Char × List Char) :=
  match takeDigits [] s with
  | ([], _) => none
  | (['0'], rest) => some (['0'], rest)
  | ('0' :: _, _) => none
  | (digits, rest) => some (digits, rest)

def parseFraction : List Char → Option (List Char × List Char)
  | '.' :: rest =>
    match takeDigits [] rest with
    | ([], _) => none
    | (digits, rest) => some (digits, rest)
  | s => some ([], s)

def parseExponentDigits (negative : Bool) (s : List Char) :
    Option (Option (Bool × List Char) × List Char) :=
  match takeDigits [] s with
  | ([], _) => none
  | (digits, rest) => some (some (negative, digits), rest)

def parseExponent : List Char → Option (Option (Bool × List Char) × List Char)
  | 'e' :: '-' :: rest | 'E' :: '-' :: rest => parseExponentDigits true rest
  | 'e' :: '+' :: rest | 'E' :: '+' :: rest => parseExponentDigits false rest
  | 'e' :: rest | 'E' :: rest => parseExponentDigits false rest
  | s => some (none, s)

def parseUnsigned (negative : Bool) (s : List Char) : Option (Numeral × List Char) := do
  let (whole, s) ← parseWhole s
  let (fraction, s) ← parseFraction s
  let (exponent, s) ← parseExponent s
  return (⟨negative, whole, fraction, exponent⟩, s)

def parseNumeral : List Char → Option (Numeral × List Char)
  | '-' :: rest => parseUnsigned true rest
  | s => parseUnsigned false s

/-! ### Strings -/

def hexValue? (c : Char) : Option Nat :=
  if '0' ≤ c && c ≤ '9' then some (c.toNat - '0'.toNat)
  else if 'a' ≤ c && c ≤ 'f' then some (c.toNat - 'a'.toNat + 10)
  else if 'A' ≤ c && c ≤ 'F' then some (c.toNat - 'A'.toNat + 10)
  else none

def hexNumber? (a b c d : Char) : Option Nat := do
  let a ← hexValue? a
  let b ← hexValue? b
  let c ← hexValue? c
  let d ← hexValue? d
  return ((a * 16 + b) * 16 + c) * 16 + d

def shortEscape? (c : Char) : Option Char :=
  if c = '"' then some '"'
  else if c = '\\' then some '\\'
  else if c = '/' then some '/'
  else if c = 'b' then some '\x08'
  else if c = 'f' then some '\x0c'
  else if c = 'n' then some '\n'
  else if c = 'r' then some '\r'
  else if c = 't' then some '\t'
  else none

/-- What a string holds piece by piece: characters, and code units written by number. -/
inductive Piece where
  | char (c : Char)
  | unit (n : Nat)
  deriving DecidableEq, Repr

def takePieces : List Piece → List Char → Option (List Piece × List Char)
  | acc, '"' :: rest => some (acc.reverse, rest)
  | acc, '\\' :: 'u' :: a :: b :: c :: d :: rest =>
    match hexNumber? a b c d with
    | some n => takePieces (.unit n :: acc) rest
    | none => none
  | acc, '\\' :: c :: rest =>
    match shortEscape? c with
    | some e => takePieces (.char e :: acc) rest
    | none => none
  | acc, c :: rest => if c.toNat < 0x20 then none else takePieces (.char c :: acc) rest
  | _, [] => none

/-- The text of the pieces of a string, in front of what is already known, in reverse. A high
surrogate must be followed by a low one, and a low one must follow a high one. -/
def joinPieces : List Char → List Piece → Option (List Char)
  | acc, [] => some acc.reverse
  | acc, .char c :: rest => joinPieces (c :: acc) rest
  | acc, .unit high :: .unit low :: rest =>
    if 0xd800 ≤ high && high < 0xdc00 then
      if 0xdc00 ≤ low && low < 0xe000 then
        joinPieces (Char.ofNat (0x10000 + (high - 0xd800) * 0x400 + (low - 0xdc00)) :: acc) rest
      else none
    else if 0xdc00 ≤ high && high < 0xe000 then none
    else joinPieces (Char.ofNat high :: acc) (.unit low :: rest)
  | acc, .unit n :: rest =>
    if 0xd800 ≤ n && n < 0xe000 then none else joinPieces (Char.ofNat n :: acc) rest

/-- A string behind its opening quote: its text if it has one, and what follows. -/
def parseString (s : List Char) : Option (Option String × List Char) := do
  let (pieces, rest) ← takePieces [] s
  return ((joinPieces [] pieces).map String.ofList, rest)

/-! ### Values -/

/-- An object with these entries in reverse, unreadable if a key is. -/
def ofEntries (entries : List (Option String × Json)) : Json :=
  let keyed := entries.filterMap fun (k, v) => k.map fun k => (k, v)
  if keyed.length = entries.length then .object keyed.reverse else .unreadable

mutual

/-- A value after blanks. The fuel bounds the number of values and punctuation marks; the length of
the text is always enough. -/
def parseValue : Nat → List Char → Option (Json × List Char)
  | 0, _ => none
  | fuel + 1, s =>
    match skipBlanks s with
    | 'n' :: 'u' :: 'l' :: 'l' :: rest => some (.null, rest)
    | 't' :: 'r' :: 'u' :: 'e' :: rest => some (.bool true, rest)
    | 'f' :: 'a' :: 'l' :: 's' :: 'e' :: rest => some (.bool false, rest)
    | '"' :: rest =>
      match parseString rest with
      | some (some text, rest) => some (.str text, rest)
      | some (none, rest) => some (.unreadable, rest)
      | none => none
    | '[' :: rest =>
      match skipBlanks rest with
      | ']' :: rest => some (.array [], rest)
      | rest => parseItems fuel [] rest
    | '\x7b' :: rest =>
      match skipBlanks rest with
      | '\x7d' :: rest => some (.object [], rest)
      | rest => parseEntries fuel [] rest
    | rest =>
      match parseNumeral rest with
      | some (n, rest) => some (.number n, rest)
      | none => none

/-- The elements of an array up to the closing bracket, after those already known in reverse. -/
def parseItems : Nat → List Json → List Char → Option (Json × List Char)
  | 0, _, _ => none
  | fuel + 1, acc, s =>
    match parseValue fuel s with
    | none => none
    | some (v, rest) =>
      match skipBlanks rest with
      | ',' :: rest => parseItems fuel (v :: acc) rest
      | ']' :: rest => some (.array (v :: acc).reverse, rest)
      | _ => none

/-- The entries of an object up to the closing brace, after those already known in reverse. -/
def parseEntries : Nat → List (Option String × Json) → List Char → Option (Json × List Char)
  | 0, _, _ => none
  | fuel + 1, acc, s =>
    match skipBlanks s with
    | '"' :: rest =>
      match parseString rest with
      | none => none
      | some (key, rest) =>
        match skipBlanks rest with
        | ':' :: rest =>
          match parseValue fuel rest with
          | none => none
          | some (v, rest) =>
            match skipBlanks rest with
            | ',' :: rest => parseEntries fuel ((key, v) :: acc) rest
            | '\x7d' :: rest => some (ofEntries ((key, v) :: acc), rest)
            | _ => none
        | _ => none
    | _ => none

end

def parse (text : String) : Option Json :=
  let s := text.toList
  match parseValue (s.length + 1) s with
  | some (v, rest) => if (skipBlanks rest).isEmpty then some v else none
  | none => none

end Interpose.Json
