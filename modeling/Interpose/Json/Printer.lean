import Interpose.Json.Value

/-!
# Printing JSON

The compact form has no blanks. The indented form gives each element of an array and each entry of
an object a line of its own. Both are written by appending to the text that stands before.
-/

namespace Interpose.Json

def hexDigits4 (n : Nat) : List Char :=
  (List.range 4).map fun i => Nat.digitChar ((n >>> (4 * (3 - i))) % 16)

def escapedChar (c : Char) : List Char :=
  if c = '"' then ['\\', '"']
  else if c = '\\' then ['\\', '\\']
  else if c = '\n' then ['\\', 'n']
  else if c = '\r' then ['\\', 'r']
  else if c = '\t' then ['\\', 't']
  else if c = '\x08' then ['\\', 'b']
  else if c = '\x0c' then ['\\', 'f']
  else if c.toNat < 0x20 then '\\' :: 'u' :: hexDigits4 c.toNat
  else [c]

def stringText (s : String) : String :=
  String.ofList ('"' :: (s.toList.flatMap escapedChar ++ ['"']))

def Numeral.text (n : Numeral) : String :=
  String.ofList ((if n.negative then ['-'] else []) ++ (n.whole
    ++ ((if n.fraction = [] then [] else '.' :: n.fraction)
    ++ match n.exponent with
      | none => []
      | some (negative, digits) => 'e' :: (if negative then '-' else '+') :: digits)))

/-! ### Compact form -/

mutual

def write (out : String) : Json → String
  | .null | .unreadable => out ++ "null"
  | .bool true => out ++ "true"
  | .bool false => out ++ "false"
  | .number n => out ++ n.text
  | .str s => out ++ stringText s
  | .array items => writeItems (out ++ "[") items ++ "]"
  | .object entries => writeEntries (out ++ "\x7b") entries ++ "\x7d"

def writeItems (out : String) : List Json → String
  | [] => out
  | v :: rest => writeMoreItems (write out v) rest

def writeMoreItems (out : String) : List Json → String
  | [] => out
  | v :: rest => writeMoreItems (write (out ++ ",") v) rest

def writeEntries (out : String) : List (String × Json) → String
  | [] => out
  | (k, v) :: rest => writeMoreEntries (write (out ++ stringText k ++ ":") v) rest

def writeMoreEntries (out : String) : List (String × Json) → String
  | [] => out
  | (k, v) :: rest => writeMoreEntries (write (out ++ "," ++ stringText k ++ ":") v) rest

end

def compact (v : Json) : String := write "" v

/-! ### Indented form -/

/-- Inserts an entry among sorted ones, before the first with a larger key. -/
def insertByKey (entry : String × Json) : List (String × Json) → List (String × Json)
  | [] => [entry]
  | e :: rest => if entry.1 < e.1 then entry :: e :: rest else e :: insertByKey entry rest

def sortByKey (entries : List (String × Json)) : List (String × Json) :=
  entries.foldl (fun sorted e => insertByKey e sorted) []

mutual

/-- The same value with the entries of every object in the order of their keys. -/
def sorted : Json → Json
  | .array items => .array (sortedItems [] items)
  | .object entries => .object (sortByKey (sortedEntries [] entries))
  | v => v

def sortedItems (done : List Json) : List Json → List Json
  | [] => done.reverse
  | v :: rest => sortedItems (sorted v :: done) rest

def sortedEntries (done : List (String × Json)) : List (String × Json) → List (String × Json)
  | [] => done.reverse
  | (k, v) :: rest => sortedEntries ((k, sorted v) :: done) rest

end

def newLine (depth : Nat) : String := String.ofList ('\n' :: List.replicate (2 * depth) ' ')

mutual

/-- Appends a value whose inner lines are indented by more than `depth` levels. -/
def writeIndented (depth : Nat) (out : String) : Json → String
  | .array [] => out ++ "[]"
  | .object [] => out ++ "\x7b\x7d"
  | .array items =>
    writeIndentedItems (newLine (depth + 1)) (depth + 1) (out ++ "[") items ++ newLine depth ++ "]"
  | .object entries =>
    writeIndentedEntries (newLine (depth + 1)) (depth + 1) (out ++ "\x7b") entries
      ++ newLine depth ++ "\x7d"
  | .null | .unreadable => out ++ "null"
  | .bool true => out ++ "true"
  | .bool false => out ++ "false"
  | .number n => out ++ n.text
  | .str s => out ++ stringText s

/-- Appends the elements of an array, each after `lead`; a comma follows all but the last. -/
def writeIndentedItems (lead : String) (depth : Nat) (out : String) : List Json → String
  | [] => out
  | v :: rest =>
    let out := writeIndented depth (out ++ lead) v
    writeIndentedItems lead depth (if rest.isEmpty then out else out ++ ",") rest

/-- Appends the entries of an object, each after `lead`; a comma follows all but the last. -/
def writeIndentedEntries (lead : String) (depth : Nat) (out : String) :
    List (String × Json) → String
  | [] => out
  | (k, v) :: rest =>
    let out := writeIndented depth (out ++ lead ++ stringText k ++ ": ") v
    writeIndentedEntries lead depth (if rest.isEmpty then out else out ++ ",") rest

end

/-- The text of a value with one line per element, entries in the order of their keys. -/
def indented (v : Json) : String := writeIndented 0 "" v.sorted

end Interpose.Json
