/-!
# Tokens

The parts of a module name each other by position: a type by its place in the type table
(`TypeToken`), a method by its place in the method table (`MethodToken`), a local slot by its place
among the locals of a body (`LocalIndex`). Labels are names chosen by the code itself (`LabelId`).
All of them are 32-bit words.
-/

namespace Interpose

/-- The place of a type in the type table of a module. -/
structure TypeToken where
  index : UInt32
  deriving DecidableEq, Repr

/-- The place of a method in the method table of a module. -/
structure MethodToken where
  index : UInt32
  deriving DecidableEq, Repr

/-- The place of a local slot in a method body. -/
structure LocalSlot where
  index : UInt32
  deriving DecidableEq, Repr

structure Label where
  id : UInt32
  deriving DecidableEq, Repr

inductive MetadataToken where
  | type (token : TypeToken)
  | method (token : MethodToken)
  deriving DecidableEq, Repr

def TypeToken.position (t : TypeToken) : Nat := t.index.toNat

def MethodToken.position (m : MethodToken) : Nat := m.index.toNat

def LocalSlot.position (s : LocalSlot) : Nat := s.index.toNat

/-- The token of the type at a position. Positions from 2^32 on have no token of their own. -/
def TypeToken.ofPosition (n : Nat) : TypeToken := ⟨UInt32.ofNat n⟩

/-- The token of the method at a position. Positions from 2^32 on have no token of their own. -/
def MethodToken.ofPosition (n : Nat) : MethodToken := ⟨UInt32.ofNat n⟩

/-- The slot at a position. Positions from 2^32 on have no slot of their own. -/
def LocalSlot.ofPosition (n : Nat) : LocalSlot := ⟨UInt32.ofNat n⟩

def TypeToken.text (t : TypeToken) : String := "type#" ++ Nat.repr t.position

def MethodToken.text (m : MethodToken) : String := "method#" ++ Nat.repr m.position

def MetadataToken.text : MetadataToken → String
  | .type t => t.text
  | .method m => m.text

/-! ### Positions and tokens -/

theorem MethodToken.position_ofPosition {n : Nat} (h : n < UInt32.size) :
    (MethodToken.ofPosition n).position = n := by
  simp only [MethodToken.ofPosition, MethodToken.position, UInt32.toNat_ofNat']
  exact Nat.mod_eq_of_lt h

theorem TypeToken.position_ofPosition {n : Nat} (h : n < UInt32.size) :
    (TypeToken.ofPosition n).position = n := by
  simp only [TypeToken.ofPosition, TypeToken.position, UInt32.toNat_ofNat']
  exact Nat.mod_eq_of_lt h

theorem LocalSlot.position_ofPosition {n : Nat} (h : n < UInt32.size) :
    (LocalSlot.ofPosition n).position = n := by
  simp only [LocalSlot.ofPosition, LocalSlot.position, UInt32.toNat_ofNat']
  exact Nat.mod_eq_of_lt h

theorem MethodToken.ofPosition_position (m : MethodToken) :
    MethodToken.ofPosition m.position = m := by
  simp [MethodToken.ofPosition, MethodToken.position]

theorem TypeToken.ofPosition_position (t : TypeToken) : TypeToken.ofPosition t.position = t := by
  simp [TypeToken.ofPosition, TypeToken.position]

theorem MethodToken.eq_of_position_eq {t u : MethodToken} (h : t.position = u.position) : t = u := by
  rw [← t.ofPosition_position, ← u.ofPosition_position, h]

theorem TypeToken.eq_of_position_eq {t u : TypeToken} (h : t.position = u.position) : t = u := by
  rw [← t.ofPosition_position, ← u.ofPosition_position, h]

end Interpose
