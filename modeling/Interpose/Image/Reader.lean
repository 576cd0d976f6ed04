import Interpose.Image.Error
import Interpose.Image.LittleEndian

/-!
# Reading bytes

A reader takes some bytes from the front of the unread input, as `Cursor::read_bytes` does, or says
why it cannot. Composed readers are compared by what they take: `Reader.bind` takes first what the
one and then what the other takes.
-/

namespace Interpose.Image

/-- A place in an input: what is unread, how much was read, and how long the whole input is. -/
structure Cursor where
  rest : List UInt8
  position : Nat
  size : Nat
  deriving DecidableEq, Repr

def Cursor.start (bytes : List UInt8) : Cursor := ⟨bytes, 0, bytes.length⟩

def Reader (α : Type) : Type := Cursor → Except DecodeError (α × Cursor)

namespace Reader

def pure {α : Type} (a : α) : Reader α := fun c => .ok (a, c)

def fail {α : Type} (e : DecodeError) : Reader α := fun _ => .error e

def bind {α β : Type} (r : Reader α) (next : α → Reader β) : Reader β := fun c =>
  match r c with
  | .ok (a, c') => next a c'
  | .error e => .error e

instance : Monad Reader where
  pure := Reader.pure
  bind := Reader.bind

/-- The next `n` bytes. The error counts from the start of the whole input. -/
def bytes (n : Nat) : Reader (List UInt8) := fun c =>
  let taken := c.rest.take n
  if taken.length < n then .error (.bufferTooSmall (c.position + n) c.size)
  else .ok (taken, { c with rest := c.rest.drop n, position := c.position + n })

@[simp] theorem pure_apply {α : Type} (a : α) (c : Cursor) :
    (Pure.pure a : Reader α) c = .ok (a, c) := rfl

theorem bind_apply_eq_ok {α β : Type} {r : Reader α} {next : α → Reader β} {b : β} {c d : Cursor} :
    (r >>= next) c = .ok (b, d) ↔ ∃ a c', r c = .ok (a, c') ∧ next a c' = .ok (b, d) := by
  change Reader.bind r next c = _ ↔ _
  unfold Reader.bind
  cases r c with
  | error e => simp
  | ok p =>
    constructor
    · intro h
      exact ⟨p.1, p.2, rfl, h⟩
    · rintro ⟨a, c', hp, h⟩
      cases hp
      exact h

theorem bytes_eq_ok {n : Nat} {bs : List UInt8} {c d : Cursor} (h : bytes n c = .ok (bs, d)) :
    bs.length = n ∧ c.rest = bs ++ d.rest ∧ d.position = c.position + n ∧ d.size = c.size := by
  simp only [bytes] at h
  split at h
  · cases h
  · rename_i enough
    cases h
    refine ⟨?_, (List.take_append_drop n c.rest).symm, rfl, rfl⟩
    have := List.length_take_le n c.rest
    omega

def nat (width : Nat) : Reader Nat := do
  let bs ← bytes width
  return natOfBytes bs

def u8 : Reader UInt8 := do return UInt8.ofNat (← nat 1)

def u16 : Reader UInt16 := do return UInt16.ofNat (← nat 2)

def u32 : Reader UInt32 := do return UInt32.ofNat (← nat 4)

def u64 : Reader UInt64 := do return UInt64.ofNat (← nat 8)

/-- A count of 32 bits that must not exceed a limit. -/
def count (what : Counted) (limit : Nat) : Reader Nat := do
  let n ← nat 4
  if limit < n then fail (.invalidEncoding (.tooMany what n limit))
  else return n

/-- A text behind its length, which must not exceed a limit. -/
def string (limit : Nat) : Reader String := do
  let n ← nat 4
  if limit < n then fail (.invalidEncoding .longString)
  else
    let bs ← bytes n
    match String.fromUTF8? bs.toByteArray with
    | some s => return s
    | none => fail (.invalidEncoding .badUtf8)

/-- Applies a reader `n` times, in front of the elements already taken, in reverse. -/
def timesOnto {α : Type} (item : Reader α) : Nat → List α → Reader (List α)
  | 0, acc => fun c => .ok (acc.reverse, c)
  | n + 1, acc => fun c =>
    match item c with
    | .ok (a, c') => timesOnto item n (a :: acc) c'
    | .error e => .error e

def times {α : Type} (item : Reader α) (n : Nat) : Reader (List α) := timesOnto item n []

/-- A list behind the number of its elements, which must not exceed a limit. -/
def list {α : Type} (what : Counted) (limit : Nat) (item : Reader α) : Reader (List α) := do
  let n ← count what limit
  times item n

end Reader

end Interpose.Image
