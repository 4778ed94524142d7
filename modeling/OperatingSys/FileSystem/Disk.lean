import Mathlib.Logic.Function.Basic

/-!
# The virtual disk (disk.c)

A virtual disk is a host file of `DISK_BLOCKS` blocks of `BLOCK_SIZE` bytes. At most
one disk is open (`active`) at a time. Reads and writes of in-range blocks are those
of an array; the host's own failures (`lseek`, `read`, `write`) do not occur.
-/

namespace OperatingSys.FileSystem

abbrev Byte := BitVec 8

/-- `unsigned long int`. -/
abbrev Word := BitVec 64

def diskBlocks : Nat := 8192

def blockSize : Nat := 4096

/-- The bytes of one block; only the first `blockSize` of them are on the disk. -/
abbrev Block := Nat → Byte

abbrev Image := Nat → Block

structure Disk where
  /-- The host's files, by name. -/
  files : String → Option Image
  /-- The open virtual disk: `active` and `handle` of the source. -/
  active : Option String

namespace Disk

/-- `make_disk`: an existing file of that name is truncated and refilled with zeros. -/
def makeDisk (d : Disk) : Option String → Int × Disk
  | none => (-1, d)
  | some name => (0, { d with files := Function.update d.files name (some fun _ _ => 0) })

def openDisk (d : Disk) : Option String → Int × Disk
  | none => (-1, d)
  | some name =>
    if d.active.isSome then (-1, d)
    else if (d.files name).isNone then (-1, d)
    else (0, { d with active := some name })

def closeDisk (d : Disk) : Int × Disk :=
  if d.active.isNone then (-1, d) else (0, { d with active := none })

/-- The image behind the open handle. -/
def image (d : Disk) : Option Image := d.active.bind d.files

/-- `block_read`: `none` is the return value `-1`, `some` the bytes put in the buffer. -/
def blockRead (d : Disk) (block : Int) : Option Block :=
  match d.image with
  | none => none
  | some img => if block < 0 ∨ block ≥ diskBlocks then none else some (img block.toNat)

/-- `block_write`: `none` is the return value `-1`. -/
def blockWrite (d : Disk) (block : Int) (buf : Block) : Option Disk :=
  match d.active with
  | none => none
  | some name =>
    match d.files name with
    | none => none
    | some img =>
      if block < 0 ∨ block ≥ diskBlocks then none
      else some { d with
        files := Function.update d.files name (some (Function.update img block.toNat buf)) }

/-! ### Reading what was written -/

theorem blockRead_of_image {d : Disk} {img : Image} (open_ : d.image = some img) {block : Nat}
    (inRange : block < diskBlocks) : d.blockRead block = some (img block) := by
  simp [blockRead, open_, inRange]

theorem active_of_image {d : Disk} {img : Image} (open_ : d.image = some img) :
    ∃ name, d.active = some name ∧ d.files name = some img := by
  unfold image at open_
  cases active : d.active with
  | none => simp [active] at open_
  | some name => exact ⟨name, rfl, by simpa [active] using open_⟩

/-- A block write replaces one block and leaves the handle alone. -/
theorem blockWrite_of_image {d : Disk} {img : Image} (open_ : d.image = some img) {block : Nat}
    (inRange : block < diskBlocks) (buf : Block) :
    ∃ d', d.blockWrite block buf = some d' ∧ d'.active = d.active ∧
      d'.image = some (Function.update img block buf) := by
  obtain ⟨name, active, file⟩ := active_of_image open_
  refine ⟨{ d with files :=
    Function.update d.files name (some (Function.update img block buf)) }, ?_, rfl, ?_⟩
  · simp [blockWrite, active, file, inRange]
  · simp [image, active]

/-- After a block write the disk is open, as it was before. -/
theorem active_of_blockWrite {d d' : Disk} {block : Int} {buf : Block}
    (wrote : d.blockWrite block buf = some d') :
    ∃ name, d'.active = some name ∧ (d'.files name).isSome = true := by
  unfold blockWrite at wrote
  split at wrote
  · simp at wrote
  next name active =>
    split at wrote
    · simp at wrote
    · split at wrote
      · simp at wrote
      · simp only [Option.some.injEq] at wrote
        subst wrote
        exact ⟨name, active, by simp⟩

/-- The disk `name` open with the blocks of `img`, over the other host files. -/
def holding (files : String → Option Image) (name : String) (img : Image) : Disk where
  files := Function.update files name (some img)
  active := some name

theorem eq_holding {d : Disk} {name : String} {img : Image} (active : d.active = some name)
    (file : d.files name = some img) : d = holding d.files name img := by
  cases d
  simp only [holding] at *
  subst active
  rw [← file, Function.update_eq_self]

theorem holding_blockWrite (files : String → Option Image) (name : String) (img : Image)
    (block : Nat) (inRange : block < diskBlocks) (buf : Block) :
    (holding files name img).blockWrite block buf =
      some (holding files name (Function.update img block buf)) := by
  simp [blockWrite, holding, inRange]

end Disk

end OperatingSys.FileSystem
