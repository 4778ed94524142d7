import OperatingSys.FileSystem.Operations
import OperatingSys.Lib.LittleEndian

/-!
# Making, mounting and unmounting a disk (fs.c)

How the globals lie in memory as bytes, and the three functions that move them to and
from the disk. `mount_fs` copies `used_block_bitmap_count` bytes into the bitmap, and
`inode_metadata_blocks` blocks into the inode table; when a copy overruns its array the call
has no defined outcome.
-/

namespace OperatingSys.FileSystem

open LittleEndian

/-! ### Records as bytes -/

/-- `sizeof(struct super_block)`: four `uint16_t`. -/
def superblockBytes : Nat := 8

def superblockByte (sb : SuperBlock) (j : Nat) : Byte :=
  if j < 2 then byte sb.usedBlockBitmapCount.toNat j
  else if j < 4 then byte sb.usedBlockBitmapOffset.toNat (j - 2)
  else if j < 6 then byte sb.inodeMetadataBlocks.toNat (j - 4)
  else byte sb.inodeMetadataOffset.toNat (j - 6)

def loadSuperblock (b : Block) : SuperBlock where
  usedBlockBitmapCount := BitVec.ofNat 16 (value b 2)
  usedBlockBitmapOffset := BitVec.ofNat 16 (value (fun k => b (2 + k)) 2)
  inodeMetadataBlocks := BitVec.ofNat 16 (value (fun k => b (4 + k)) 2)
  inodeMetadataOffset := BitVec.ofNat 16 (value (fun k => b (6 + k)) 2)

/-- `sizeof(struct dir_entry)`: a `bool`, three bytes of padding, an `int`, the name, and
one byte of padding. -/
def dirEntryBytes : Nat := 24

def dirEntryByte (entry : DirEntry) (j : Nat) : Byte :=
  if j = 0 then (if entry.isUsed then 1 else 0)
  else if j < 4 then 0
  else if j < 8 then byte entry.inodeNumber.toNat (j - 4)
  else if h : j - 8 < maxFileName then entry.name ⟨j - 8, h⟩
  else 0

def loadDirEntry (b : Block) (base : Nat) : DirEntry where
  isUsed := b base != 0
  inodeNumber := BitVec.ofNat 32 (value (fun k => b (base + 4 + k)) 4)
  name := fun k => b (base + 8 + k)

/-- `sizeof(struct inode)`. -/
def inodeBytes : Nat := 8 * inodeWords

def inodeTableByte (table : Nat → Word) (j : Nat) : Byte := byte (table (j / 8)).toNat (j % 8)

/-- First word of `inode_table + i * (BLOCK_SIZE / sizeof(struct inode))`, the window of
the inode table that block `i` of the metadata holds. -/
def windowAddr (i : Nat) : Nat := inodeWords * (i * (blockSize / inodeBytes))

def saveWindow (table : Nat → Word) (i : Nat) : Block :=
  fun j => inodeTableByte table (8 * windowAddr i + j)

def loadWindow (table : Nat → Word) (i : Nat) (b : Block) : Nat → Word :=
  fun w => if windowAddr i ≤ w ∧ w < windowAddr i + blockSize / 8
    then BitVec.ofNat 64 (value (fun k => b (8 * (w - windowAddr i) + k)) 8) else table w

/-! ### `make_fs` -/

/-- The bytes `block_write` picks up behind a global that is shorter than a block. -/
structure Past where
  superblock : Nat → Byte
  bitmap : Nat → Byte

def freshSuperblock : SuperBlock where
  usedBlockBitmapCount := BitVec.ofNat 16 ((totalBlocks / 8 + blockSize - 1) / blockSize)
  usedBlockBitmapOffset := 1
  inodeMetadataBlocks := BitVec.ofNat 16 ((inodeBytes * maxNumOfFiles + blockSize - 1) / blockSize)
  inodeMetadataOffset := 1 + BitVec.ofNat 16 ((totalBlocks / 8 + blockSize - 1) / blockSize)

/-- The initialising loop over the bitmap; the `memset` after it clears every byte. -/
def initBitmap (sb : SuperBlock) (bitmap : Nat → Byte) : Nat → Byte :=
  let looped := fun i =>
    if i < sb.inodeMetadataOffset.toNat then
      if i < sb.usedBlockBitmapOffset.toNat then 1 else 0
    else bitmap i
  fun i => if i < bitmapBytes then 0 else looped i

def makeFs (s : State) (diskName : Option String) (past : Past) : Int × State :=
  let (made, d) := s.disk.makeDisk diskName
  if made ≠ 0 then (-1, { s with disk := d })
  else
    let (opened, d) := d.openDisk diskName
    if opened ≠ 0 then (-1, { s with disk := d })
    else
      let sb := freshSuperblock
      let bitmap := initBitmap sb s.usedBlockBitmap
      let s := { s with
        superblock := sb
        usedBlockBitmap := bitmap
        inodeBitmap := fun i => if i < maxNumOfFiles then 0 else s.inodeBitmap i
        disk := d }
      -- the buffers hold what was in memory before, past what is copied into them
      match d.blockWrite 0 fun j =>
        if j < superblockBytes then superblockByte sb j else past.superblock j with
      | none => (-1, s)
      | some d =>
        match d.blockWrite sb.usedBlockBitmapOffset.toNat fun j =>
          if j < bitmapBytes then bitmap j else past.bitmap j with
        | none => (-1, { s with disk := d })
        | some d =>
          let (closed, d) := d.closeDisk
          if closed ≠ 0 then (-1, { s with disk := d }) else (0, { s with disk := d })

/-! ### `mount_fs` -/

/-- `free(block_holder); close_disk(); return -1;` -/
def abandon (s : State) : Int × State := (-1, { s with disk := s.disk.closeDisk.2 })

/-- Reading the inode table, windows `i` to `i + rounds - 1`. -/
def loadInodeTable (s : State) (i : Nat) : (rounds : Nat) → Option (Bool × State)
  | 0 => some (true, s)
  | rounds + 1 =>
    match s.disk.blockRead (s.superblock.inodeMetadataOffset.toNat + i : Nat) with
    | none => some (false, s)
    | some b =>
      -- `memcpy` of a block, past the end of the inode table
      if windowAddr i + blockSize / 8 > inodeTableWords then none
      else loadInodeTable { s with inodeTable := loadWindow s.inodeTable i b } (i + 1) rounds

def directoryBlock (sb : SuperBlock) : Nat :=
  sb.inodeMetadataOffset.toNat + sb.inodeMetadataBlocks.toNat

def mountFs (s : State) (diskName : Option String) : Option (Int × State) :=
  if diskName.isNone then some (-1, s)
  else
    let (opened, d) := s.disk.openDisk diskName
    if opened = -1 then some (-1, { s with disk := d })
    else
      let s := { s with disk := d }
      match d.blockRead 0 with
      | none => some (abandon s)
      | some b =>
        let s := { s with superblock := loadSuperblock b }
        match d.blockRead (directoryBlock s.superblock) with
        | none => some (abandon s)
        | some b =>
          let s := { s with directory := fun e =>
            if e < maxNumOfFiles then loadDirEntry b (dirEntryBytes * e) else s.directory e }
          match loadInodeTable s 0 s.superblock.inodeMetadataBlocks.toNat with
          | none => none
          | some (false, s) => some (abandon s)
          | some (true, s) =>
            match d.blockRead s.superblock.usedBlockBitmapOffset.toNat with
            | none => some (abandon s)
            | some b =>
              let count := s.superblock.usedBlockBitmapCount.toNat
              -- `memcpy` of one byte for each used block, past the end of the bitmap
              if count > bitmapBytes then none
              else some (0, { s with
                usedBlockBitmap := fun i => if i < count then b i else s.usedBlockBitmap i
                openFileDescriptors := fun j =>
                  if j < maxFileDescriptors then ⟨false, -1, 0⟩ else s.openFileDescriptors j
                openDiskFd := 0 })

/-! ### `umount_fs` -/

/-- Writing the inode table, windows `i` to `i + rounds - 1`. -/
def saveInodeTable (table : Nat → Word) (sb : SuperBlock) (d : Disk) (i : Nat) :
    (rounds : Nat) → Bool × Disk
  | 0 => (true, d)
  | rounds + 1 =>
    match d.blockWrite (sb.inodeMetadataOffset.toNat + i : Nat) (saveWindow table i) with
    | none => (false, d)
    | some d => saveInodeTable table sb d (i + 1) rounds

/-- `block_holder` with the superblock copied into it: fresh from `calloc`. -/
def superblockHolder (sb : SuperBlock) : Block :=
  fun j => if j < superblockBytes then superblockByte sb j else 0

/-- `block_holder` with the directory copied over what it held. -/
def directoryHolder (directory : Nat → DirEntry) (holder : Block) : Block :=
  fun j => if j < dirEntryBytes * maxNumOfFiles
    then dirEntryByte (directory (j / dirEntryBytes)) (j % dirEntryBytes) else holder j

/-- Every descriptor in use is closed. -/
def State.closeAll (s : State) : State :=
  { s with openFileDescriptors := fun j =>
      if j < maxFileDescriptors ∧ (s.openFileDescriptors j).isUsed then ⟨false, -1, 0⟩
      else s.openFileDescriptors j }

def umountFs (s : State) (diskName : Option String) : Int × State :=
  if diskName.isNone then (-1, s)
  else
    match s.disk.blockWrite 0 (superblockHolder s.superblock) with
    | none => abandon s
    | some d =>
      match d.blockWrite (directoryBlock s.superblock)
        (directoryHolder s.directory (superblockHolder s.superblock)) with
      | none => abandon { s with disk := d }
      | some d =>
        match saveInodeTable s.inodeTable s.superblock d 0
          s.superblock.inodeMetadataBlocks.toNat with
        | (false, d) => abandon { s with disk := d }
        | (true, d) =>
          let (closed, d) := d.closeDisk
          if closed = -1 then (-1, { s.closeAll with disk := d })
          else (0, { s.closeAll with disk := d, openDiskFd := -1 })

end OperatingSys.FileSystem
