import OperatingSys.Lib.Overwrite
import Mathlib.Logic.Function.Basic

/-!
# Independent arrays

What thread-local storage is for: each thread has an array of its own, or none. Threads and
items are arbitrary types.
-/

namespace OperatingSys.Tls

/-- The arrays of the threads, and how many have been given out so far. -/
structure Arrays (Thread Item : Type) where
  array : Thread → Option (List Item)
  granted : Nat

namespace Arrays

variable {Thread Item : Type} [DecidableEq Thread]

def empty : Arrays Thread Item where
  array := fun _ => none
  granted := 0

variable (a : Arrays Thread Item) (self : Thread)

def set (new : Option (List Item)) : Arrays Thread Item :=
  { a with array := Function.update a.array self new }

/-- A thread without an array is given `items`. -/
def grant (items : List Item) : Arrays Thread Item :=
  { a.set self (some items) with granted := a.granted + 1 }

/-- An array of `size` items, all `zero`. -/
def create (zero : Item) (size : Nat) : Int × Arrays Thread Item :=
  if size = 0 ∨ (a.array self).isSome then (-1, a)
  else (0, a.grant self (List.replicate size zero))

/-- A snapshot of the array of `target`. -/
def clone (target : Thread) : Int × Arrays Thread Item :=
  match a.array self, a.array target with
  | none, some items => (0, a.grant self items)
  | _, _ => (-1, a)

def read (offset length : Nat) : Int × List Item :=
  match a.array self with
  | none => (-1, [])
  | some items =>
    if items.length < offset + length then (-1, [])
    else (0, (items.drop offset).take length)

def write (offset : Nat) (data : List Item) : Int × Arrays Thread Item :=
  match a.array self with
  | none => (-1, a)
  | some items =>
    if items.length < offset + data.length then (-1, a)
    else (0, a.set self (some (items.overwrite offset data)))

def destroy : Int × Arrays Thread Item :=
  match a.array self with
  | none => (-1, a)
  | some _ => (0, a.set self none)

/-- A write is seen by its own thread only. -/
theorem array_write_of_ne {reader : Thread} (other : reader ≠ self) (offset : Nat)
    (data : List Item) : (a.write self offset data).2.array reader = a.array reader := by
  unfold write
  split
  · rfl
  · split
    · rfl
    · exact Function.update_of_ne other _ _

end Arrays

end OperatingSys.Tls
