import OperatingSys.Lib.Overwrite
import Mathlib.Data.Finset.Card
import Mathlib.Data.Fin.Tuple.Basic

/-!
# A store of named byte strings

What a file system is for: a finite set of names, a byte string for each, and a table of
descriptors, each of which stands at a position of one of the strings. Names and items are
arbitrary types; the bounds on names and descriptors are parameters.
-/

namespace OperatingSys.FileSystem

structure Store (Name Item : Type) [DecidableEq Name] (maxNames maxOpen : Nat) where
  names : Finset Name
  bounded : names.card ≤ maxNames
  bytes : Name → List Item
  descriptors : Fin maxOpen → Option (Name × Nat)

namespace Store

variable {Name Item : Type} [DecidableEq Name] {maxNames maxOpen : Nat}

def empty : Store Name Item maxNames maxOpen where
  names := ∅
  bounded := Nat.zero_le _
  bytes := fun _ => []
  descriptors := fun _ => none

variable (a : Store Name Item maxNames maxOpen)

def setDescriptor (j : Fin maxOpen) (d : Option (Name × Nat)) : Store Name Item maxNames maxOpen :=
  { a with descriptors := Function.update a.descriptors j d }

def setBytes (name : Name) (data : List Item) : Store Name Item maxNames maxOpen :=
  { a with bytes := Function.update a.bytes name data }

/-- The descriptor that a number names, if it is open. -/
def lookup (fildes : Int) : Option (Fin maxOpen × Name × Nat) :=
  if inRange : 0 ≤ fildes ∧ fildes < maxOpen then
    (a.descriptors ⟨fildes.toNat, by omega⟩).map fun d => (⟨fildes.toNat, by omega⟩, d)
  else none

/-- The lowest free descriptor. -/
def lowestFree : Option (Fin maxOpen) := Fin.find? fun j => (a.descriptors j).isNone

/-- A new file is empty. A name is created once, and at most `maxNames` of them. -/
def create (name : Name) : Int × Store Name Item maxNames maxOpen :=
  if name ∈ a.names then (-1, a)
  else if room : a.names.card < maxNames then
    (0, { a with
      names := insert name a.names
      bounded := Nat.le_trans (Finset.card_insert_le _ _) room
      bytes := Function.update a.bytes name [] })
  else (-1, a)

def openFile (name : Name) : Int × Store Name Item maxNames maxOpen :=
  if name ∈ a.names then
    match a.lowestFree with
    | none => (-1, a)
    | some j => (j, a.setDescriptor j (some (name, 0)))
  else (-1, a)

def close (fildes : Int) : Int × Store Name Item maxNames maxOpen :=
  match a.lookup fildes with
  | none => (-1, a)
  | some (j, _) => (0, a.setDescriptor j none)

/-- The bytes from the offset on, at most `n`; the offset moves behind them. -/
def read (fildes : Int) (n : Nat) : Int × List Item × Store Name Item maxNames maxOpen :=
  match a.lookup fildes with
  | none => (-1, [], a)
  | some (j, name, off) =>
    let data := ((a.bytes name).drop off).take n
    (data.length, data, a.setDescriptor j (some (name, off + data.length)))

/-- The data overwrites the string at the offset and extends it where it reaches further. -/
def write (fildes : Int) (data : List Item) : Int × Store Name Item maxNames maxOpen :=
  match a.lookup fildes with
  | none => (-1, a)
  | some (j, name, off) =>
    (data.length, (a.setBytes name ((a.bytes name).overwrite off data)).setDescriptor j
      (some (name, off + data.length)))

def seek (fildes offset : Int) : Int × Store Name Item maxNames maxOpen :=
  match a.lookup fildes with
  | none => (-1, a)
  | some (j, name, _) =>
    if 0 ≤ offset ∧ offset ≤ (a.bytes name).length
    then (0, a.setDescriptor j (some (name, offset.toNat)))
    else (-1, a)

/-- The string is cut to `length` and the descriptor moves to its new end. -/
def truncate (fildes length : Int) : Int × Store Name Item maxNames maxOpen :=
  match a.lookup fildes with
  | none => (-1, a)
  | some (j, name, _) =>
    if 0 ≤ length ∧ length ≤ (a.bytes name).length
    then (0, (a.setBytes name ((a.bytes name).take length.toNat)).setDescriptor j
      (some (name, length.toNat)))
    else (-1, a)

def size (fildes : Int) : Int :=
  match a.lookup fildes with
  | none => -1
  | some (_, name, _) => (a.bytes name).length

end Store

end OperatingSys.FileSystem
