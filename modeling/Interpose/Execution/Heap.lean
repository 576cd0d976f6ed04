import Interpose.Execution.Value
import Interpose.Instruction.Listing

/-!
# The heap

The heap counts the objects that were made and holds the arrays, as `ObjectRef` and `ArrayRef` do
behind their locks. An array keeps its element type and its length; a reference that leads nowhere
acts as an empty array. Text and form are what `Display` and `Debug` write of a `Value`.
-/

namespace Interpose

structure ArrayCell where
  elem : DataType
  items : Array Value
  deriving DecidableEq, Repr

structure Heap where
  objects : Nat
  arrays : Array ArrayCell
  deriving DecidableEq, Repr

namespace Heap

def empty : Heap := ⟨0, #[]⟩

def newObject (h : Heap) (classType : TypeToken) : ObjectRef × Heap :=
  (⟨h.objects, classType⟩, { h with objects := h.objects + 1 })

def newArray (h : Heap) (elem : DataType) (items : Array Value) : ArrayRef × Heap :=
  (⟨h.arrays.size⟩, { h with arrays := h.arrays.push ⟨elem, items⟩ })

def cell (h : Heap) (r : ArrayRef) : ArrayCell := h.arrays.getD r.id ⟨.object, #[]⟩

def elem (h : Heap) (r : ArrayRef) : DataType := (h.cell r).elem

def items (h : Heap) (r : ArrayRef) : Array Value := (h.cell r).items

def length (h : Heap) (r : ArrayRef) : Nat := (h.items r).size

def get? (h : Heap) (r : ArrayRef) (index : Nat) : Option Value := (h.items r)[index]?

/-- Stores an element. An index behind the end changes nothing. -/
def set (h : Heap) (r : ArrayRef) (index : Nat) (v : Value) : Heap :=
  { h with
    arrays := h.arrays.modify r.id fun c => { c with items := c.items.setIfInBounds index v } }

/-! ### What stores and new arrays change -/

theorem cell_set (h : Heap) (r s : ArrayRef) (index : Nat) (v : Value) :
    (h.set r index v).cell s =
      if r.id = s.id ∧ s.id < h.arrays.size then
        { h.cell s with items := (h.cell s).items.setIfInBounds index v }
      else h.cell s := by
  simp only [cell, set, Array.getD_eq_getD_getElem?, Array.getElem?_modify]
  by_cases hs : s.id < h.arrays.size
  · by_cases hr : r.id = s.id <;> simp [hs, hr]
  · simp [hs]

theorem cell_newArray (h : Heap) (elem : DataType) (items : Array Value) :
    (h.newArray elem items).2.cell (h.newArray elem items).1 = ⟨elem, items⟩ := by
  simp [newArray, cell, Array.getD_eq_getD_getElem?]

theorem cell_newArray_of_lt (h : Heap) (elem : DataType) (items : Array Value) {r : ArrayRef}
    (hr : r.id < h.arrays.size) : (h.newArray elem items).2.cell r = h.cell r := by
  simp [newArray, cell, Array.getD_eq_getD_getElem?, Array.getElem?_push_lt hr, hr]

end Heap

/-! ### Text of values -/

namespace Value

/-- The plain text of a value, given the text of arrays. -/
def textWith (arrayText : ArrayRef → Option String) : Value → Option String
  | .null => some "null"
  | .bool true => some "true"
  | .bool false => some "false"
  | .int32 v => some (intText v.toInt)
  | .int64 v => some (intText v.toInt)
  | .float64 v => some (Decimal.plain.text v)
  | .str s => some s
  | .object r => some ("object of " ++ r.classType.text)
  | .array r => arrayText r
  | .boxed v => v.textWith arrayText
  | .token t => some t.text
  | .function m => some ("&" ++ m.text)
  | .method m => some m.text
  | .interceptor _ => some "interceptor"

/-- The text of a value that also shows what kind of value it is, given the text of arrays. -/
def formWith (arrayForm : ArrayRef → Option String) : Value → Option String
  | .null => some "Null"
  | .bool true => some "Bool(true)"
  | .bool false => some "Bool(false)"
  | .int32 v => some ("I32(" ++ intText v.toInt ++ ")")
  | .int64 v => some ("I64(" ++ intText v.toInt ++ ")")
  | .float64 v => some ("F64(" ++ Decimal.plain.text v ++ ")")
  | .str s => some ("Str(" ++ Text.quoted s ++ ")")
  | .object r => some ("Object(" ++ r.classType.text ++ ")")
  | .array r => arrayForm r
  | .boxed v => (v.formWith arrayForm).map fun inner => "Boxed(" ++ inner ++ ")"
  | .token (.type t) => some ("Token(Type(TypeToken(" ++ Nat.repr t.position ++ ")))")
  | .token (.method m) => some ("Token(Method(MethodToken(" ++ Nat.repr m.position ++ ")))")
  | .function m => some ("Function(" ++ m.text ++ ")")
  | .method m => some ("Method(" ++ m.text ++ ")")
  | .interceptor _ => some "Interceptor(..)"

end Value

/-- The two ways to write a value: as it reads, and with its kind. -/
inductive Wording where
  | text
  | form
  deriving DecidableEq, Repr

namespace Wording

def value (arrayText : ArrayRef → Option String) : Wording → Value → Option String
  | .text => Value.textWith arrayText
  | .form => Value.formWith arrayText

def array : Wording → List String → String
  | .text, items => "[" ++ String.intercalate ", " items ++ "]"
  | .form, items => "Array([" ++ String.intercalate ", " items ++ "])"

end Wording

namespace Heap

/-- Writes a value in which at most `depth` arrays lie inside each other. -/
def writeTo (h : Heap) (wording : Wording) : Nat → Value → Option String
  | 0, v => wording.value (fun _ => none) v
  | depth + 1, v => wording.value (fun r =>
      ((h.items r).toList.mapM (h.writeTo wording depth)).map wording.array) v

/-- The text of a value. Elements are written inside the array that holds them, so writing an array
that lies in itself never ends, and no text comes of it. If none does, no more arrays lie inside
each other than there are, and one reference that leads nowhere. -/
def write? (h : Heap) (wording : Wording) (v : Value) : Option String :=
  h.writeTo wording (h.arrays.size + 1) v

end Heap

end Interpose
