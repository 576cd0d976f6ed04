import Interpose.Interception.Callee

/-!
# Slots for call sites

An intercepted call keeps its receiver, its arguments and its argument array in local slots of its
own (`allocate_slots`). The slots follow the ones that the body already declares, in the order they
are asked for, and `LocalAllocator::allocate` gives none out twice.
-/

namespace Interpose

/-- Hands out local slots below a limit. -/
structure SlotAllocator where
  next : Nat
  limit : Nat
  staged : Array DataType

namespace SlotAllocator

/-- An allocator behind `existing` slots. Slots are 32-bit words, so their number is cut to one. -/
def start (existing limit : Nat) : SlotAllocator := ⟨existing % UInt32.size, limit, #[]⟩

@[inline] def allocate (a : SlotAllocator) (type : DataType) : Option (LocalSlot × SlotAllocator) :=
  if a.limit ≤ a.next then none
  else some (.ofPosition a.next, { a with next := a.next + 1, staged := a.staged.push type })

theorem allocate_eq_some {a b : SlotAllocator} {type : DataType} {slot : LocalSlot}
    (h : a.allocate type = some (slot, b)) :
    a.next < a.limit ∧ slot = .ofPosition a.next ∧ b.next = a.next + 1 ∧ b.limit = a.limit ∧
      b.staged = a.staged.push type := by
  unfold allocate at h
  split at h
  · cases h
  · rename_i room
    cases h
    exact ⟨Nat.lt_of_not_le room, rfl, rfl, rfl, rfl⟩

theorem allocate_eq_none_iff (a : SlotAllocator) (type : DataType) :
    a.allocate type = none ↔ a.limit ≤ a.next := by
  unfold allocate
  split <;> simp_all

def allocated (a : SlotAllocator) : Nat := a.staged.size

/-- `n` slots of one type, behind those already known, in reverse. -/
def allocateOnto (type : DataType) :
    Nat → List LocalSlot → SlotAllocator → Option (List LocalSlot × SlotAllocator)
  | 0, acc, a => some (acc.reverse, a)
  | n + 1, acc, a =>
    match a.allocate type with
    | none => none
    | some (slot, a) => allocateOnto type n (slot :: acc) a

def allocateMany (a : SlotAllocator) (type : DataType) (n : Nat) :
    Option (List LocalSlot × SlotAllocator) :=
  allocateOnto type n [] a

end SlotAllocator

structure CallSiteSlots where
  receiver : LocalSlot
  /-- One per parameter, in the order of declaration. -/
  params : List LocalSlot
  arguments : LocalSlot
  deriving DecidableEq, Repr

def CallSiteSlots.all (s : CallSiteSlots) : List LocalSlot :=
  s.receiver :: (s.params ++ [s.arguments])

/-- The slots for a call of a callee: one for the receiver, one for each parameter and one for the
argument array. -/
def Callee.allocate (c : Callee) (a : SlotAllocator) : Option (CallSiteSlots × SlotAllocator) := do
  let (receiver, a) ← a.allocate .object
  let (params, a) ← a.allocateMany .object c.signature.params.length
  let (arguments, a) ← a.allocate .objectArray
  return (⟨receiver, params, arguments⟩, a)

end Interpose
