import OperatingSys.FileSystem.Disk
import Mathlib.Algebra.Group.Int.Defs
import Mathlib.Algebra.Group.Nat.Defs

/-!
# Global state of the file system (fs.c)

The globals of fs.c, the layout of its records in memory, and the helpers on the
block bitmap and on C strings.
-/

namespace OperatingSys.FileSystem

def maxFileName : Nat := 15

def maxNumOfFiles : Nat := 64

def totalBlocks : Nat := 8192

def maxFilesize : Nat := 1 <<< 20

def maxFileDescriptors : Nat := 32

/-- `TOTAL_BLOCKS / CHAR_BIT`, the size of `used_block_bitmap` in bytes. -/
def bitmapBytes : Nat := totalBlocks / 8

/-! ### Conversions between C integer types -/

/-- Conversion to `int`. -/
def toInt32 (x : Int) : Int := x.bmod (2 ^ 32)

/-- Conversion to `unsigned long int` or `size_t`. -/
def toULong (x : Int) : Nat := (x % 2 ^ 64).toNat

theorem toInt32_of_small {x : Int} (lower : 0 ≤ x) (upper : x < 2 ^ 31) : toInt32 x = x := by
  rw [toInt32, Int.bmod_def]
  omega

theorem toULong_of_small {x : Int} (lower : 0 ≤ x) (upper : x < 2 ^ 64) : toULong x = x.toNat := by
  rw [toULong, Int.emod_eq_of_lt lower upper]

/-! ### C strings -/

/-- A NUL-terminated string: the characters before its terminator. -/
def CString := { chars : List Byte // 0#8 ∉ chars }

instance : DecidableEq CString := inferInstanceAs (DecidableEq { chars : List Byte // 0#8 ∉ chars })

def strlen (name : CString) : Nat := name.1.length

/-- `strncmp` on two buffers; a buffer that ends is followed by NUL. -/
def strncmp : List Byte → List Byte → Nat → Int
  | _, _, 0 => 0
  | a, b, n + 1 =>
    let x := a.headD 0#8
    let y := b.headD 0#8
    if x ≠ y then (x.toNat : Int) - y.toNat
    else if x = 0#8 then 0
    else strncmp a.tail b.tail n

/-- `strncpy` into a field of `MAX_FILE_NAME` bytes: what is left of it is zeroed. -/
def strncpy (name : CString) : Fin maxFileName → Byte := fun k => name.1.getD k 0#8

/-! ### Helper functions for the bitmap -/

def setBit (bitmap : Nat → Byte) (index : Nat) : Nat → Byte :=
  Function.update bitmap (index / 8) (bitmap (index / 8) ||| 1#8 <<< (index % 8))

def clearBit (bitmap : Nat → Byte) (index : Nat) : Nat → Byte :=
  Function.update bitmap (index / 8) (bitmap (index / 8) &&& ~~~(1#8 <<< (index % 8)))

def getBit (bitmap : Nat → Byte) (index : Nat) : Bool :=
  (bitmap (index / 8) &&& 1#8 <<< (index % 8)) != 0#8

/-! ### Records -/

structure SuperBlock where
  usedBlockBitmapCount : BitVec 16
  usedBlockBitmapOffset : BitVec 16
  inodeMetadataBlocks : BitVec 16
  inodeMetadataOffset : BitVec 16
  deriving DecidableEq

@[ext]
structure DirEntry where
  isUsed : Bool
  inodeNumber : BitVec 32
  name : Fin maxFileName → Byte

/-- The `int` fields are kept as the integers they hold. -/
structure FileDescriptor where
  isUsed : Bool
  inodeNumber : Int
  offset : Int
  deriving DecidableEq

/-! ### Layout of `struct inode`

A `struct inode` is 260 consecutive `unsigned long int`s: `file_type`, the 256 entries
of `direct_offset`, `single_indirect_offset`, `double_indirect_offset`, `file_size`.
The table is kept as the flat memory it is, so that an index past the end of
`direct_offset` names the word it names in the running program. -/

/-- `sizeof(struct inode)` in words. -/
def inodeWords : Nat := 260

def inodeTableWords : Nat := inodeWords * maxNumOfFiles

def fileTypeAddr (i : Nat) : Nat := inodeWords * i

def directOffsetAddr (i k : Nat) : Nat := inodeWords * i + 1 + k

def fileSizeAddr (i : Nat) : Nat := inodeWords * i + 259

/-- The globals of fs.c and the disk behind disk.c. Arrays are functions of the index;
only the indices below the array's length belong to it. -/
structure State where
  openDiskFd : Int
  usedBlockBitmap : Nat → Byte
  inodeTable : Nat → Word
  openFileDescriptors : Nat → FileDescriptor
  superblock : SuperBlock
  directory : Nat → DirEntry
  inodeBitmap : Nat → Byte
  disk : Disk

/-- The globals of a new process over the host files of `d`. -/
def State.fresh (d : Disk) : State where
  openDiskFd := -1
  usedBlockBitmap := fun _ => 0
  inodeTable := fun _ => 0
  openFileDescriptors := fun _ => ⟨false, 0, 0⟩
  superblock := ⟨0, 0, 0, 0⟩
  directory := fun _ => ⟨false, 0, fun _ => 0⟩
  inodeBitmap := fun _ => 0
  disk := { d with active := none }

namespace State

variable (s : State)

def fileType (i : Nat) : Word := s.inodeTable (fileTypeAddr i)

def directOffset (i k : Nat) : Word := s.inodeTable (directOffsetAddr i k)

def fileSize (i : Nat) : Nat := (s.inodeTable (fileSizeAddr i)).toNat

def storeWord (addr : Nat) (v : Word) : State :=
  { s with inodeTable := Function.update s.inodeTable addr v }

def storeDescriptor (j : Nat) (fd : FileDescriptor) : State :=
  { s with openFileDescriptors := Function.update s.openFileDescriptors j fd }

def storeEntry (e : Nat) (entry : DirEntry) : State :=
  { s with directory := Function.update s.directory e entry }

end State

/-! ### Bits -/

theorem getBit_eq_getLsbD (bitmap : Nat → Byte) (index : Nat) :
    getBit bitmap index = (bitmap (index / 8)).getLsbD (index % 8) := by
  have power : 1#8 <<< (index % 8) = BitVec.twoPow 8 (index % 8) := rfl
  have nonzero : BitVec.twoPow 8 (index % 8) ≠ 0#8 := by
    intro zero
    have bit := congrArg (fun b => b.getLsbD (index % 8)) zero
    have below : index % 8 < 8 := Nat.mod_lt _ (by decide)
    simp [below] at bit
  rw [getBit, power, BitVec.and_twoPow]
  cases (bitmap (index / 8)).getLsbD (index % 8) with
  | false => simp
  | true => simpa using nonzero

/-- Two indices name the same bit exactly when they agree in byte and in bit. -/
private theorem index_eq_iff (i j : Nat) : i = j ↔ i / 8 = j / 8 ∧ i % 8 = j % 8 := by
  omega

theorem getBit_setBit (bitmap : Nat → Byte) (i j : Nat) :
    getBit (setBit bitmap i) j = (decide (i = j) || getBit bitmap j) := by
  have below : i % 8 < 8 := Nat.mod_lt _ (by decide)
  simp only [getBit_eq_getLsbD, setBit]
  by_cases byte : j / 8 = i / 8
  · have power : 1#8 <<< (i % 8) = BitVec.twoPow 8 (i % 8) := rfl
    rw [byte, Function.update_self, power, BitVec.getLsbD_or, BitVec.getLsbD_twoPow, Bool.or_comm]
    congr 1
    simp [index_eq_iff i j, byte, below]
  · rw [Function.update_of_ne byte]
    have ne : i ≠ j := fun eq => byte (by rw [eq])
    simp [ne]

theorem getBit_clearBit (bitmap : Nat → Byte) (i j : Nat) :
    getBit (clearBit bitmap i) j = (!decide (i = j) && getBit bitmap j) := by
  have below : i % 8 < 8 := Nat.mod_lt _ (by decide)
  have below' : j % 8 < 8 := Nat.mod_lt _ (by decide)
  simp only [getBit_eq_getLsbD, clearBit]
  by_cases byte : j / 8 = i / 8
  · have power : 1#8 <<< (i % 8) = BitVec.twoPow 8 (i % 8) := rfl
    rw [byte, Function.update_self, power, BitVec.getLsbD_and, BitVec.getLsbD_not,
      BitVec.getLsbD_twoPow, Bool.and_comm]
    congr 1
    simp [index_eq_iff i j, byte, below, below']
  · rw [Function.update_of_ne byte]
    have ne : i ≠ j := fun eq => byte (by rw [eq])
    simp [ne]

end OperatingSys.FileSystem
