import Mathlib.Data.List.Forall2
import Interpose.Proofs.Execution.Continues

/-!
# Values that differ in the names of arrays

Arrays are named by their place in the heap, so two runs that make other arrays in between give
other names to the same array. A naming relates the names of two heaps. Values that differ in
related names only look the same to all code, and worlds with such values in related arrays are the
same but for names; arrays without a related name may hold anything.
-/

namespace Interpose

/-- Which array of one heap is which array of another. -/
abbrev Naming := Nat → Nat → Prop

namespace Naming

def OneToOne (ρ : Naming) : Prop := ∀ a a' b b', ρ a a' → ρ b b' → (a = b ↔ a' = b')

def Extends (ρ' ρ : Naming) : Prop := ∀ a a', ρ a a' → ρ' a a'

theorem Extends.refl (ρ : Naming) : ρ.Extends ρ := fun _ _ h => h

theorem Extends.trans {ρ ρ' ρ'' : Naming} (h : ρ'.Extends ρ) (h' : ρ''.Extends ρ') :
    ρ''.Extends ρ := fun a a' ha => h' a a' (h a a' ha)

end Naming

def Value.isPlain : Value → Bool
  | .array _ | .boxed _ => false
  | _ => true

/-- A value with each array given its other name. -/
inductive Value.Renamed (ρ : Naming) : Value → Value → Prop
  | plain {v : Value} (h : v.isPlain = true) : Renamed ρ v v
  | array {a a' : Nat} (h : ρ a a') : Renamed ρ (.array ⟨a⟩) (.array ⟨a'⟩)
  | boxed {v v' : Value} (h : Renamed ρ v v') : Renamed ρ (.boxed v) (.boxed v')

namespace Value.Renamed

variable {ρ ρ' : Naming} {v v' u u' : Value}

theorem mono (h : v.Renamed ρ v') (hρ : ρ'.Extends ρ) : v.Renamed ρ' v' := by
  induction h with
  | plain h => exact .plain h
  | array h => exact .array (hρ _ _ h)
  | boxed _ ih => exact .boxed ih

theorem eq_of_isPlain (h : v.Renamed ρ v') (hv : v.isPlain = true) : v' = v := by
  cases h with
  | plain _ => rfl
  | array _ => cases hv
  | boxed _ => cases hv

theorem of_isClosed (hv : v.isClosed = true) : v.Renamed ρ v := by
  induction v with
  | array r => cases hv
  | boxed v ih => exact .boxed (ih hv)
  | _ => exact .plain rfl

theorem eq_of_array? (h : v.Renamed ρ v') (harray : v.array? = none) : v' = v := by
  induction h with
  | plain _ => rfl
  | array _ => cases harray
  | boxed _ ih => exact congrArg Value.boxed (ih harray)

theorem fits_eq (h : v.Renamed ρ v') (t : DataType) : v'.fits t = v.fits t := by
  cases h with
  | plain _ => rfl
  | array _ => cases t <;> rfl
  | boxed _ => cases t <;> rfl

theorem isReference_eq (h : v.Renamed ρ v') : v'.isReference = v.isReference := by
  cases h <;> rfl

theorem equals_eq (hρ : ρ.OneToOne) (hv : v.Renamed ρ v') (hu : u.Renamed ρ u') :
    v'.equals u' = v.equals u := by
  induction hv generalizing u u' with
  | @plain v hv =>
    cases hu with
    | plain _ => rfl
    | array _ => cases v <;> first | rfl | cases hv
    | boxed _ => cases v <;> first | rfl | cases hv
  | @array a a' h =>
    cases hu with
    | @plain u hu => cases u <;> first | rfl | cases hu
    | @array b b' h' =>
      have hsame : (a' = b') = (a = b) := propext (hρ a a' b b' h h').symm
      simp only [Value.equals, hsame]
    | boxed _ => rfl
  | @boxed v v' h ih =>
    cases hu with
    | @plain u hu => cases u <;> first | rfl | cases hu
    | array _ => rfl
    | boxed h' => exact ih h'

theorem default (t : DataType) : (Value.default t).Renamed ρ (Value.default t) := by
  cases t <;> exact .plain rfl

end Value.Renamed

/-! ### Lists of values -/

section Lists

variable {α β : Type} {R : α → β → Prop} {l : List α} {l' : List β}

theorem forall₂_getElem? (h : List.Forall₂ R l l') {i : Nat} {a : α} (ha : l[i]? = some a) :
    ∃ b, l'[i]? = some b ∧ R a b := by
  induction h generalizing i with
  | nil => cases ha
  | cons hab _ ih =>
    cases i with
    | zero =>
      cases ha
      exact ⟨_, rfl, hab⟩
    | succ i => exact ih ha

theorem forall₂_set (h : List.Forall₂ R l l') (i : Nat) {a : α} {b : β} (hab : R a b) :
    List.Forall₂ R (l.set i a) (l'.set i b) := by
  induction h generalizing i with
  | nil => exact .nil
  | cons hcd hrest ih =>
    cases i with
    | zero => exact .cons hab hrest
    | succ i => exact .cons hcd (ih i)

end Lists

/-! ### Worlds -/

structure ArrayCell.Renamed (ρ : Naming) (c c' : ArrayCell) : Prop where
  elem : c'.elem = c.elem
  items : List.Forall₂ (Value.Renamed ρ) c.items.toList c'.items.toList

/-- The arrays of a heap under the names they have. -/
def Naming.live (h : Heap) : Naming := fun a a' => a' = a ∧ a < h.arrays.size

/-- A heap with each named array given its other name. -/
structure Heap.Renamed (ρ : Naming) (h h' : Heap) : Prop where
  oneToOne : ρ.OneToOne
  objects : h'.objects = h.objects
  live : ∀ a a', ρ a a' → a < h.arrays.size ∧ a' < h'.arrays.size
  cells : ∀ a a', ρ a a' → (h.cell ⟨a⟩).Renamed ρ (h'.cell ⟨a'⟩)

namespace Heap.Renamed

variable {ρ : Naming} {h h' : Heap}

theorem elem_eq (hh : h.Renamed ρ h') {r r' : ArrayRef} (hr : ρ r.id r'.id) :
    h'.elem r' = h.elem r := (hh.cells _ _ hr).elem

theorem length_eq (hh : h.Renamed ρ h') {r r' : ArrayRef} (hr : ρ r.id r'.id) :
    h'.length r' = h.length r := by
  have hlength := (hh.cells _ _ hr).items.length_eq
  rw [Array.length_toList, Array.length_toList] at hlength
  exact hlength.symm

theorem get? (hh : h.Renamed ρ h') {r r' : ArrayRef} (hr : ρ r.id r'.id) {i : Nat} {v : Value}
    (hv : h.get? r i = some v) : ∃ v', h'.get? r' i = some v' ∧ v.Renamed ρ v' := by
  have hget : (h.cell r).items.toList[i]? = some v := by
    rw [Array.getElem?_toList]
    exact hv
  obtain ⟨v', hv', hrenamed⟩ := forall₂_getElem? (hh.cells _ _ hr).items hget
  refine ⟨v', ?_, hrenamed⟩
  rw [Array.getElem?_toList] at hv'
  exact hv'

/-- Code cannot tell values by the names of arrays. -/
theorem alike (hh : h.Renamed ρ h') : h.Alike (Value.Renamed ρ) (Value.Renamed ρ) h' where
  handed hv := hv
  closed hv := .of_isClosed hv
  eq_of_array? hv harray := hv.eq_of_array? harray
  array hv := by
    cases hv with
    | plain hplain => cases hplain
    | @array a a' ha =>
      exact ⟨⟨a'⟩, rfl, hh.elem_eq ha, hh.length_eq ha, fun i u hu => hh.get? ha hu⟩
  boxed hv := by
    cases hv with
    | plain hplain => cases hplain
    | boxed hinner => exact ⟨_, rfl, hinner.fits_eq⟩
  equals hv hu := Value.Renamed.equals_eq hh.oneToOne hv hu

theorem newObject (hh : h.Renamed ρ h') (classType : TypeToken) :
    (h'.newObject classType).1 = (h.newObject classType).1 ∧
      (h.newObject classType).2.Renamed ρ (h'.newObject classType).2 := by
  refine ⟨by simp only [Heap.newObject, hh.objects], hh.oneToOne, ?_, hh.live, hh.cells⟩
  simp only [Heap.newObject, hh.objects]

theorem set (hh : h.Renamed ρ h') {r r' : ArrayRef} (hr : ρ r.id r'.id) (i : Nat) {v v' : Value}
    (hv : v.Renamed ρ v') : (h.set r i v).Renamed ρ (h'.set r' i v') := by
  refine ⟨hh.oneToOne, hh.objects, ?_, ?_⟩
  · intro a a' ha
    simp only [Heap.set, Array.size_modify]
    exact hh.live a a' ha
  · intro a a' ha
    have hsame : r.id = a ↔ r'.id = a' := hh.oneToOne _ _ _ _ hr ha
    obtain ⟨hlive, hlive'⟩ := hh.live a a' ha
    have hcell := hh.cells a a' ha
    rw [Heap.cell_set, Heap.cell_set]
    by_cases hra : r.id = a
    · rw [if_pos ⟨hra, hlive⟩, if_pos ⟨hsame.1 hra, hlive'⟩]
      refine ⟨hcell.elem, ?_⟩
      rw [Array.toList_setIfInBounds, Array.toList_setIfInBounds]
      exact forall₂_set hcell.items i hv
    · rw [if_neg fun hc => hra hc.1, if_neg fun hc => hra (hsame.2 hc.1)]
      exact hcell

theorem size_newArray (h : Heap) (elem : DataType) (items : Array Value) :
    (h.newArray elem items).2.arrays.size = h.arrays.size + 1 := Array.size_push _

theorem newArray (hh : h.Renamed ρ h') (elem : DataType) {items items' : Array Value}
    (hitems : List.Forall₂ (Value.Renamed ρ) items.toList items'.toList) :
    ∃ ρ' : Naming, ρ'.Extends ρ ∧ ρ' h.arrays.size h'.arrays.size ∧
      (h.newArray elem items).2.Renamed ρ' (h'.newArray elem items').2 := by
  let ρ' : Naming := fun a a' => ρ a a' ∨ a = h.arrays.size ∧ a' = h'.arrays.size
  have hextends : ρ'.Extends ρ := fun a a' ha => .inl ha
  refine ⟨ρ', hextends, .inr ⟨rfl, rfl⟩, ?_, hh.objects, ?_, ?_⟩
  · intro a a' b b' ha hb
    obtain ha | ⟨ha, ha'⟩ := ha
    · have halive := hh.live a a' ha
      obtain hb | ⟨hb, hb'⟩ := hb
      · exact hh.oneToOne a a' b b' ha hb
      · omega
    · obtain hb | ⟨hb, hb'⟩ := hb
      · have hblive := hh.live b b' hb
        omega
      · omega
  · intro a a' ha
    rw [size_newArray, size_newArray]
    obtain ha | ⟨ha, ha'⟩ := ha
    · have halive := hh.live a a' ha
      omega
    · omega
  · intro a a' ha
    obtain ha | ⟨ha, ha'⟩ := ha
    · obtain ⟨hlive, hlive'⟩ := hh.live a a' ha
      have hold := Heap.cell_newArray_of_lt h elem items (r := ⟨a⟩) hlive
      have hold' := Heap.cell_newArray_of_lt h' elem items' (r := ⟨a'⟩) hlive'
      have hcell := hh.cells a a' ha
      rw [hold, hold']
      exact ⟨hcell.elem, hcell.items.imp fun _ _ hv => hv.mono hextends⟩
    · rw [ha, ha']
      have hnew := Heap.cell_newArray h elem items
      have hnew' := Heap.cell_newArray h' elem items'
      simp only [Heap.newArray] at hnew hnew' ⊢
      rw [hnew, hnew']
      exact ⟨rfl, hitems.imp fun _ _ hv => hv.mono hextends⟩

theorem newArray_right (hh : h.Renamed ρ h') (elem : DataType) (items : Array Value) :
    h.Renamed ρ (h'.newArray elem items).2 := by
  refine ⟨hh.oneToOne, hh.objects, ?_, ?_⟩
  · intro a a' ha
    have halive := hh.live a a' ha
    rw [size_newArray]
    omega
  · intro a a' ha
    rw [Heap.cell_newArray_of_lt h' elem items (r := ⟨a'⟩) (hh.live a a' ha).2]
    exact hh.cells a a' ha

end Heap.Renamed

theorem Naming.oneToOne_live (h : Heap) : (Naming.live h).OneToOne := by
  intro a a' b b' ha hb
  rw [ha.1, hb.1]

/-- A heap that names no arrays it does not have is the same as itself. -/
theorem Heap.renamed_live {h : Heap}
    (hclosed : ∀ a, a < h.arrays.size → ∀ v ∈ (h.cell ⟨a⟩).items.toList, v.Renamed (.live h) v) :
    h.Renamed (.live h) h := by
  refine ⟨Naming.oneToOne_live h, rfl, ?_, ?_⟩
  · intro a a' ha
    rw [ha.1]
    exact ⟨ha.2, ha.2⟩
  · intro a a' ha
    rw [ha.1]
    exact ⟨rfl, List.forall₂_same.2 (hclosed a ha.2)⟩

end Interpose
