import OperatingSys.FileSystem.State
import OperatingSys.Lib.Search

/-!
# The file operations (fs.c)

Each function of fs.c that works on a mounted disk, as a function of the globals. The
result `none` stands for a run that leaves the memory of `inode_table` altogether: an
index into `direct_offset` may run past its 256 entries into the words that follow it,
and past the table there is nothing the source says.
-/

namespace OperatingSys.FileSystem

open Search

/-- The test on `fildes` that every descriptor operation starts with. -/
def State.isOpen (s : State) (fildes : Int) : Bool :=
  0 ≤ fildes && fildes < maxFileDescriptors && (s.openFileDescriptors fildes.toNat).isUsed

/-- The test on `file_index` in `fs_read`, `fs_write`, `fs_lseek` and `fs_truncate`. -/
def State.isFile (s : State) (fileIndex : Int) : Bool :=
  0 ≤ fileIndex && fileIndex < maxNumOfFiles && (s.directory fileIndex.toNat).isUsed

/-! ### Opening, closing, creating, deleting -/

def fsOpen (s : State) (name : CString) : Int × State :=
  if s.openDiskFd = -1 then (-1, s)
  else
    let matching := fun i => (s.directory i).isUsed &&
      strncmp name.1 (List.ofFn (s.directory i).name) maxFileName = 0
    match firstIndex maxNumOfFiles matching with
    | none => (-1, s)
    | some i =>
      match firstIndex maxFileDescriptors (fun j => !(s.openFileDescriptors j).isUsed) with
      | none => (-1, s)
      | some fildes =>
        (fildes, s.storeDescriptor fildes
          { isUsed := true, inodeNumber := (s.directory i).inodeNumber.toInt, offset := 0 })

def fsClose (s : State) (fildes : Int) : Int × State :=
  if fildes < 0 ∨ fildes ≥ maxFileDescriptors then (-1, s)
  else if !(s.openFileDescriptors fildes.toNat).isUsed then (-1, s)
  else (0, s.storeDescriptor fildes.toNat { isUsed := false, inodeNumber := 0, offset := 0 })

/-- The inode that `fs_create` initialises: `memset` clears the whole `direct_offset`. -/
def State.initInode (s : State) (i : Nat) : State :=
  { s with
    inodeTable := fun w =>
      if w = fileTypeAddr i then 1
      else if fileTypeAddr i < w ∧ w < fileTypeAddr i + inodeWords then 0
      else s.inodeTable w
    inodeBitmap := setBit s.inodeBitmap i }

def fsCreate (s : State) (name : CString) : Int × State :=
  if strlen name > maxFileName ∨ strlen name = 0 then (-1, s)
  else if s.openDiskFd = -1 then (-1, s)
  else if (firstIndex maxNumOfFiles fun i => (s.directory i).isUsed &&
      strncmp (List.ofFn (s.directory i).name) name.1 maxFileName = 0).isSome then (-1, s)
  else
    match firstIndex maxNumOfFiles (fun i => s.fileType i = 0) with
    | none => (-1, s)
    | some inode =>
      let s' := s.initInode inode
      match firstIndex maxNumOfFiles (fun e => !(s'.directory e).isUsed) with
      | none => (-1, s')
      | some e => (0, s'.storeEntry e
          { isUsed := true, inodeNumber := BitVec.ofNat 32 inode, name := strncpy name })

/-- `used_block_bitmap[i]`. The array has `bitmapBytes` entries; an index past them reads
whatever memory holds, here `beyond i`. -/
def bitmapByte (bitmap beyond : Nat → Byte) (i : Nat) : Byte :=
  if i < bitmapBytes then bitmap i else beyond i

/-- One round of the loop of `fs_delete` that gives blocks back. -/
def releaseStep (inodeNumber : Int) (beyond : Nat → Byte)
    (acc : (Nat → Byte) × BitVec 16) (i : Nat) : (Nat → Byte) × BitVec 16 :=
  if (bitmapByte acc.1 beyond i).toNat = inodeNumber then (clearBit acc.1 i, acc.2 - 1) else acc

def releaseBlocks (inodeNumber : Int) (beyond : Nat → Byte) (bitmap : Nat → Byte)
    (count : BitVec 16) : (Nat → Byte) × BitVec 16 :=
  (List.range totalBlocks).foldl (releaseStep inodeNumber beyond) (bitmap, count)

def fsDelete (s : State) (beyond : Nat → Byte) (name : CString) : Int × State :=
  if s.openDiskFd = -1 then (-1, s)
  else
    match firstIndex maxNumOfFiles (fun i => (s.directory i).isUsed &&
      strncmp (List.ofFn (s.directory i).name) name.1 maxFileName = 0) with
    | none => (-1, s)
    | some fileIndex =>
      let inodeNumber := (s.directory fileIndex).inodeNumber
      if (firstIndex maxFileDescriptors fun j => (s.openFileDescriptors j).isUsed &&
          (s.openFileDescriptors j).inodeNumber = inodeNumber.toInt).isSome then (-1, s)
      else
        -- whole bytes of the bitmap are compared with the number of the inode, and the bit of
        -- the same index is cleared
        let released := releaseBlocks inodeNumber.toInt beyond s.usedBlockBitmap
          s.superblock.usedBlockBitmapCount
        (0, { s with
          usedBlockBitmap := released.1
          superblock := { s.superblock with usedBlockBitmapCount := released.2 }
          directory := Function.update s.directory fileIndex
            { isUsed := false, inodeNumber := 0, name := fun _ => 0 } })

/-! ### Reading -/

/-- The loop of `fs_read`: whether it ended without a read error, and the bytes copied to
the caller's buffer. Each round takes at least one byte, so `fuel := bytesLeft` is enough. -/
def fsReadLoop (s : State) (fileIndex : Nat) :
    (fuel blockIndex blockOffset bytesLeft : Nat) → Option (Bool × List Byte)
  | 0, _, _, _ => some (true, [])
  | fuel + 1, blockIndex, blockOffset, bytesLeft =>
    if bytesLeft = 0 then some (true, [])
    else if directOffsetAddr fileIndex blockIndex ≥ inodeTableWords then none
    else
      match s.disk.blockRead (toInt32 (s.directOffset fileIndex blockIndex).toNat) with
      | none => some (false, [])
      | some block =>
        let currentBlockBytes := min bytesLeft (blockSize - blockOffset)
        match fsReadLoop s fileIndex fuel (blockIndex + 1) 0 (bytesLeft - currentBlockBytes) with
        | none => none
        | some (ended, rest) =>
          some (ended, (List.range currentBlockBytes).map (fun j => block (blockOffset + j)) ++ rest)

/-- Return value, bytes delivered, globals afterwards. -/
def fsRead (s : State) (fildes : Int) (nbyte : Nat) : Option (Int × List Byte × State) :=
  if !s.isOpen fildes then some (-1, [], s)
  else
    let fd := s.openFileDescriptors fildes.toNat
    if !s.isFile fd.inodeNumber then some (-1, [], s)
    else
      let fileIndex := fd.inodeNumber.toNat
      let remainingBytes := toInt32 (s.fileSize fileIndex - fd.offset)
      let bytesToRead := if nbyte < toULong remainingBytes then toInt32 nbyte else remainingBytes
      if bytesToRead ≤ 0 then some (0, [], s)
      -- a negative index into `direct_offset`
      else if fd.offset < 0 then none
      else
        match fsReadLoop s fileIndex bytesToRead.toNat (fd.offset.toNat / blockSize)
          (fd.offset.toNat % blockSize) bytesToRead.toNat with
        | none => none
        | some (false, bytes) => some (-1, bytes, s)
        | some (true, bytes) =>
          some (bytes.length, bytes, s.storeDescriptor fildes.toNat
            { fd with offset := toInt32 (fd.offset + bytes.length) })

/-! ### Writing -/

/-- Block `i` becomes the one named by the word `slot` of the inode table. -/
def State.takeBlock (s : State) (slot i : Nat) : State :=
  { s with
    usedBlockBitmap := setBit s.usedBlockBitmap i
    inodeTable := Function.update s.inodeTable slot (BitVec.ofNat 64 i)
    superblock := { s.superblock with
      usedBlockBitmapCount := s.superblock.usedBlockBitmapCount + 1 } }

/-- The block allocation loop of `fs_write`, from block `i` on; `none` is the exit "Disk is
full". -/
def allocateFrom (s : State) (slot : Nat) (i : Nat) : (rounds : Nat) → Option State
  | 0 => some s
  | rounds + 1 =>
    if !getBit s.usedBlockBitmap i then some (s.takeBlock slot i)
    else if i = totalBlocks - 1 then none
    else allocateFrom s slot (i + 1) rounds

def allocateBlock (s : State) (slot : Nat) : Option State :=
  let start := s.superblock.usedBlockBitmapOffset.toNat
  allocateFrom s slot start (totalBlocks - start)

/-- `memcpy(block_buffer + block_offset, data, bytes_to_write)`. -/
def overlay (block : Block) (blockOffset bytesToWrite : Nat) (data : List Byte) : Block :=
  fun j => if blockOffset ≤ j ∧ j < blockOffset + bytesToWrite then data.getD (j - blockOffset) 0
    else block j

/-- The end of one round of `fs_write`: the offset advances, the file grows if need be. -/
def State.advance (s : State) (fildes fileIndex bytesToWrite : Nat) : State :=
  let fd := s.openFileDescriptors fildes
  let offset := toInt32 (fd.offset + bytesToWrite)
  let s' := s.storeDescriptor fildes { fd with offset := offset }
  if toULong offset > s.fileSize fileIndex
  then s'.storeWord (fileSizeAddr fileIndex) (BitVec.ofInt 64 offset)
  else s'

/-- `bytes_to_write` of a round. -/
def chunkSize (blockOffset : Nat) (data : List Byte) : Nat :=
  min data.length (blockSize - blockOffset)

/-- One round of the loop of `fs_write` on the data still to be written: `false` is an exit
with `-1`. -/
def fsWriteRound (s : State) (fildes fileIndex blockIndex blockOffset : Nat) (data : List Byte) :
    Option (Bool × State) :=
  if directOffsetAddr fileIndex blockIndex ≥ inodeTableWords then none
  else
    match if s.directOffset fileIndex blockIndex = 0
      then allocateBlock s (directOffsetAddr fileIndex blockIndex) else some s with
    | none => some (false, s)
    | some s =>
      let block : Int := toInt32 (s.directOffset fileIndex blockIndex).toNat
      match s.disk.blockRead block with
      | none => some (false, s)
      | some blockBuffer =>
        let bytesToWrite := chunkSize blockOffset data
        match s.disk.blockWrite block (overlay blockBuffer blockOffset bytesToWrite data) with
        | none => some (false, s)
        | some disk =>
          some (true, State.advance { s with disk := disk } fildes fileIndex bytesToWrite)

/-- Each round takes at least one byte, so `fuel := data.length` is enough. -/
def fsWriteLoop (fildes fileIndex : Nat) :
    (fuel : Nat) → State → (blockIndex blockOffset : Nat) → List Byte → Option (Bool × State)
  | 0, s, _, _, _ => some (true, s)
  | fuel + 1, s, blockIndex, blockOffset, data =>
    if data.isEmpty then some (true, s)
    else
      match fsWriteRound s fildes fileIndex blockIndex blockOffset data with
      | none => none
      | some (false, s') => some (false, s')
      | some (true, s') => fsWriteLoop fildes fileIndex fuel s' (blockIndex + 1) 0
          (data.drop (chunkSize blockOffset data))

def fsWrite (s : State) (fildes : Int) (data : List Byte) : Option (Int × State) :=
  if !s.isOpen fildes then some (-1, s)
  else
    let fd := s.openFileDescriptors fildes.toNat
    if !s.isFile fd.inodeNumber then some (-1, s)
    else if fd.offset < 0 ∧ !data.isEmpty then none
    else
      match fsWriteLoop fildes.toNat fd.inodeNumber.toNat data.length s
        (fd.offset.toNat / blockSize) (fd.offset.toNat % blockSize) data with
      | none => none
      | some (false, s') => some (-1, s')
      | some (true, s') => some (toInt32 data.length, s')

/-! ### Size, position, truncation -/

def fsGetFilesize (s : State) (fildes : Int) : Int :=
  if !s.isOpen fildes then -1
  else
    match firstIndex maxNumOfFiles (fun i => (s.directory i).isUsed &&
      (s.directory i).inodeNumber.toInt = (s.openFileDescriptors fildes.toNat).inodeNumber) with
    | none => -1
    | some i => toInt32 (s.fileSize (s.directory i).inodeNumber.toInt.toNat)

def fsLseek (s : State) (fildes : Int) (offset : Int) : Int × State :=
  if !s.isOpen fildes then (-1, s)
  else if offset < 0 then (-1, s)
  else
    let fd := s.openFileDescriptors fildes.toNat
    if !s.isFile fd.inodeNumber then (-1, s)
    else if toULong offset > s.fileSize fd.inodeNumber.toNat then (-1, s)
    else (0, s.storeDescriptor fildes.toNat { fd with offset := toInt32 offset })

def fsTruncate (s : State) (fildes : Int) (length : Int) : Int × State :=
  if !s.isOpen fildes then (-1, s)
  else
    let fd := s.openFileDescriptors fildes.toNat
    if !s.isFile fd.inodeNumber then (-1, s)
    else if toULong length > s.fileSize fd.inodeNumber.toNat then (-1, s)
    else (0, (s.storeWord (fileSizeAddr fd.inodeNumber.toNat) (BitVec.ofInt 64 length)).storeDescriptor
      fildes.toNat { fd with offset := toInt32 length })

/-! ### Calls -/

/-- A call of the interface on a mounted disk. `delete` carries the bytes its loop reads
past the end of the bitmap; an `off_t` is a signed word of 64 bits. -/
inductive Call where
  | create (name : CString)
  | open (name : CString)
  | close (fildes : Int)
  | delete (name : CString) (beyond : Nat → Byte)
  | read (fildes : Int) (nbyte : Nat)
  | write (fildes : Int) (data : List Byte)
  | lseek (fildes : Int) (offset : BitVec 64)
  | truncate (fildes : Int) (length : BitVec 64)
  | getFilesize (fildes : Int)

/-- The return value of a call and the bytes it delivers. -/
abbrev Reply := Int × List Byte

/-- Replies of calls that deliver no bytes. -/
def plain (result : Int × State) : Option (Reply × State) := some ((result.1, []), result.2)

def call (s : State) : Call → Option (Reply × State)
  | .create name => plain (fsCreate s name)
  | .open name => plain (fsOpen s name)
  | .close fildes => plain (fsClose s fildes)
  | .delete name beyond => plain (fsDelete s beyond name)
  | .read fildes nbyte => (fsRead s fildes nbyte).map fun r => ((r.1, r.2.1), r.2.2)
  | .write fildes data => (fsWrite s fildes data).map fun r => ((r.1, []), r.2)
  | .lseek fildes offset => plain (fsLseek s fildes offset.toInt)
  | .truncate fildes length => plain (fsTruncate s fildes length.toInt)
  | .getFilesize fildes => plain (fsGetFilesize s fildes, s)

end OperatingSys.FileSystem
