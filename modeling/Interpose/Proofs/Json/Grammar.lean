import Mathlib.Algebra.Group.Int.Defs
import Interpose.Json.Printer

/-!
# JSON texts without blanks

The part of the JSON grammar that compact printing stays in, apart from numbers with a fraction or
an exponent: which text stands for which value, and how deep the value is nested. A printer is
compact if it prints each kind of value from what it prints for the parts, with the escapes of
`stringText`. What such a printer prints is in the grammar.
-/

namespace Interpose.Json

/-! ### The grammar -/

/-- A text and what it stands for. -/
structure Spelled (α : Type) where
  text : List Char
  meaning : α

/-- The letters that stand for a character behind a backslash. -/
def shortEscapes : List (Char × Char) :=
  [('"', '"'), ('\\', '\\'), ('/', '/'), ('b', '\x08'), ('f', '\x0c'), ('n', '\n'), ('r', '\r'),
    ('t', '\t')]

/-- What stands for a character in a string. -/
inductive Spells : List Char → Char → Prop
  | plain {c : Char} (control : 0x20 ≤ c.toNat) (quote : c ≠ '"') (backslash : c ≠ '\\') :
      Spells [c] c
  | short {letter c : Char} (escape : (letter, c) ∈ shortEscapes) : Spells ['\\', letter] c
  | code {c : Char} {w x y z : Nat} (hw : w < 16) (hx : x < 16) (hy : y < 16) (hz : z < 16)
      (value : ((w * 16 + x) * 16 + y) * 16 + z = c.toNat) :
      Spells ['\\', 'u', w.digitChar, x.digitChar, y.digitChar, z.digitChar] c

inductive Quotes : List Char → String → Prop
  | mk {parts : List (Spelled Char)} (each : ∀ p ∈ parts, Spells p.text p.meaning) :
      Quotes ('"' :: (parts.flatMap Spelled.text ++ ['"']))
        (String.ofList (parts.map Spelled.meaning))

def commas (texts : List (List Char)) : List Char := [','].intercalate texts

def entryText (e : Spelled String × Spelled Json) : List Char := e.1.text ++ ':' :: e.2.text

def entryMeaning (e : Spelled String × Spelled Json) : String × Json := (e.1.meaning, e.2.meaning)

/-- What stands for a value that is nested at most so deep. Numbers are whole and fit a 64-bit
word. -/
inductive Denotes : Nat → List Char → Json → Prop
  | null {depth : Nat} : Denotes depth "null".toList .null
  | bool {depth : Nat} (b : Bool) : Denotes depth (toString b).toList (.bool b)
  | int {depth : Nat} {n : Int} (low : -2 ^ 63 ≤ n) (high : n < 2 ^ 64) :
      Denotes depth (toString n).toList (.int n)
  | str {depth : Nat} {text : List Char} {s : String} (quotes : Quotes text s) :
      Denotes depth text (.str s)
  | array {depth : Nat} {items : List (Spelled Json)}
      (each : ∀ i ∈ items, Denotes depth i.text i.meaning) :
      Denotes (depth + 1) ('[' :: (commas (items.map Spelled.text) ++ [']']))
        (.array (items.map Spelled.meaning))
  | object {depth : Nat} {entries : List (Spelled String × Spelled Json)}
      (keys : ∀ e ∈ entries, Quotes e.1.text e.1.meaning)
      (values : ∀ e ∈ entries, Denotes depth e.2.text e.2.meaning) :
      Denotes (depth + 1) ('\x7b' :: (commas (entries.map entryText) ++ ['\x7d']))
        (.object (entries.map entryMeaning))

/-! ### Compact printing -/

/-- What a printer makes of a value if it writes no blanks. -/
structure Compact (print : Json → String) : Prop where
  null : print .null = "null"
  bool (b : Bool) : print (.bool b) = toString b
  int (n : Int) : print (.int n) = toString n
  str (s : String) : print (.str s) = stringText s
  array (items : List Json) :
    print (.array items) = "[" ++ ",".intercalate (items.map print) ++ "]"
  object (entries : List (String × Json)) :
    print (.object entries) =
      "\x7b" ++ ",".intercalate (entries.map fun e => stringText e.1 ++ ":" ++ print e.2) ++ "\x7d"

/-- Values of which the grammar has a text. -/
inductive Plain : Nat → Json → Prop
  | null {depth : Nat} : Plain depth .null
  | bool {depth : Nat} (b : Bool) : Plain depth (.bool b)
  | int {depth : Nat} {n : Int} (low : -2 ^ 63 ≤ n) (high : n < 2 ^ 64) : Plain depth (.int n)
  | str {depth : Nat} (s : String) : Plain depth (.str s)
  | array {depth : Nat} {items : List Json} (each : ∀ v ∈ items, Plain depth v) :
      Plain (depth + 1) (.array items)
  | object {depth : Nat} {entries : List (String × Json)} (each : ∀ e ∈ entries, Plain depth e.2) :
      Plain (depth + 1) (.object entries)

theorem toList_stringText (s : String) :
    (stringText s).toList = '"' :: (s.toList.flatMap escapedChar ++ ['"']) :=
  String.toList_ofList

theorem spells_code {c : Char} (hc : c.toNat < 0x20) :
    Spells ('\\' :: 'u' :: hexDigits4 c.toNat) c := by
  have hdigits : hexDigits4 c.toNat = [Nat.digitChar 0, Nat.digitChar 0,
      Nat.digitChar (c.toNat / 16 % 16), Nat.digitChar (c.toNat % 16)] := by
    have hhigh : c.toNat / 4096 % 16 = 0 := by omega
    have hnext : c.toNat / 256 % 16 = 0 := by omega
    simp [hexDigits4, List.range_succ, Nat.shiftRight_eq_div_pow, hhigh, hnext]
  rw [hdigits]
  exact .code (by omega) (by omega) (by omega) (by omega) (by omega)

theorem escapedChar_of_short :
    ∀ e ∈ shortEscapes, e.1 ≠ '/' → escapedChar e.2 = ['\\', e.1] := by decide

theorem spells_escapedChar (c : Char) : Spells (escapedChar c) c := by
  -- seven characters are printed with a short escape, and the rest follows one rule
  by_cases hshort : ∃ e ∈ shortEscapes, e.1 ≠ '/' ∧ e.2 = c
  · obtain ⟨e, he, hslash, rfl⟩ := hshort
    rw [escapedChar_of_short e he hslash]
    exact .short he
  · have hne : c ≠ '"' ∧ c ≠ '\\' ∧ c ≠ '\x08' ∧ c ≠ '\x0c' ∧ c ≠ '\n' ∧ c ≠ '\r' ∧ c ≠ '\t' := by
      simpa [shortEscapes, eq_comm] using hshort
    obtain ⟨hquote, hbackslash, hb, hf, hn, hr, ht⟩ := hne
    simp only [escapedChar, hquote, hbackslash, hn, hr, ht, hb, hf, if_false]
    split
    · rename_i hcontrol
      exact spells_code hcontrol
    · rename_i hcontrol
      exact .plain (Nat.le_of_not_lt hcontrol) hquote hbackslash

theorem quotes_stringText (s : String) : Quotes (stringText s).toList s := by
  have heach : ∀ p ∈ s.toList.map fun c => Spelled.mk (escapedChar c) c, Spells p.text p.meaning :=
    List.forall_mem_map.2 fun c _ => spells_escapedChar c
  have hquotes := Quotes.mk heach
  have hid : Spelled.meaning ∘ (fun c => Spelled.mk (escapedChar c) c) = id := rfl
  rw [List.flatMap_map, List.map_map, hid, List.map_id, String.ofList_toList,
    ← toList_stringText] at hquotes
  exact hquotes

namespace Compact

variable {print : Json → String} {depth : Nat}

def item (print : Json → String) (v : Json) : Spelled Json := ⟨(print v).toList, v⟩

def entry (print : Json → String) (e : String × Json) : Spelled String × Spelled Json :=
  (⟨(stringText e.1).toList, e.1⟩, item print e.2)

theorem denotes_array (h : Compact print) {items : List Json}
    (each : ∀ v ∈ items, Denotes depth (print v).toList v) :
    Denotes (depth + 1) (print (.array items)).toList (.array items) := by
  have heach : ∀ i ∈ items.map (item print), Denotes depth i.text i.meaning :=
    List.forall_mem_map.2 each
  have hitems := Denotes.array heach
  have hid : Spelled.meaning ∘ item print = id := rfl
  rw [List.map_map, List.map_map, hid, List.map_id] at hitems
  rw [h.array, String.toList_append, String.toList_append, String.toList_intercalate, List.map_map]
  exact hitems

theorem denotes_object (h : Compact print) {entries : List (String × Json)}
    (each : ∀ e ∈ entries, Denotes depth (print e.2).toList e.2) :
    Denotes (depth + 1) (print (.object entries)).toList (.object entries) := by
  have hkeys : ∀ e ∈ entries.map (entry print), Quotes e.1.text e.1.meaning := by
    refine List.forall_mem_map.2 fun e _ => ?_
    simp only [entry]
    exact quotes_stringText e.1
  have hvalues : ∀ e ∈ entries.map (entry print), Denotes depth e.2.text e.2.meaning :=
    List.forall_mem_map.2 each
  have hentries := Denotes.object hkeys hvalues
  have hid : entryMeaning ∘ entry print = id := rfl
  have htext : entryText ∘ entry print =
      String.toList ∘ fun e => stringText e.1 ++ ":" ++ print e.2 := by
    funext e
    simp [entryText, entry, item]
  rw [List.map_map, List.map_map, hid, List.map_id, htext] at hentries
  rw [h.object, String.toList_append, String.toList_append, String.toList_intercalate,
    List.map_map]
  exact hentries

theorem denotes (h : Compact print) {v : Json} (hv : v.Plain depth) :
    Denotes depth (print v).toList v := by
  induction hv with
  | null => rw [h.null]; exact .null
  | bool b => rw [h.bool]; exact .bool b
  | int low high => rw [h.int]; exact .int low high
  | str s => rw [h.str]; exact .str (quotes_stringText s)
  | array _ ih => exact h.denotes_array ih
  | object _ ih => exact h.denotes_object ih

end Compact

end Interpose.Json
