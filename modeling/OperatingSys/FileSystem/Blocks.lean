import OperatingSys.FileSystem.Lookup

/-!
# Blocks

The words of the inode table, the first-fit allocation of a block, and what one round of
the loop of `fs_write` can do to the globals. Every invariant that `fs_write` keeps is
derived from `fsWriteRound_cases` through `fsWrite_preserves`.
-/

namespace OperatingSys.FileSystem

/-- `MAX_FILESIZE / BLOCK_SIZE`, the length of `direct_offset`. -/
def directCount : Nat := 256

/-! ### The tests of the descriptor operations -/

theorem isOpen_toNat_lt {s : State} {fildes : Int} (isOpen : s.isOpen fildes = true) :
    fildes.toNat < maxFileDescriptors := by
  simp only [State.isOpen, Bool.and_eq_true, decide_eq_true_eq] at isOpen
  omega

theorem isOpen_toNat {s : State} {fildes : Int} (isOpen : s.isOpen fildes = true) :
    ((fildes.toNat : Nat) : Int) = fildes := by
  simp only [State.isOpen, Bool.and_eq_true, decide_eq_true_eq] at isOpen
  exact Int.toNat_of_nonneg isOpen.1.1

theorem isOpen_of_used {s : State} {j : Nat} (inRange : j < maxFileDescriptors)
    (isUsed : (s.openFileDescriptors j).isUsed = true) : s.isOpen j = true := by
  simp only [State.isOpen, Bool.and_eq_true, decide_eq_true_eq, Int.toNat_natCast]
  exact ⟨by omega, isUsed⟩

theorem isFile_toNat_lt {s : State} {fileIndex : Int} (isFile : s.isFile fileIndex = true) :
    fileIndex.toNat < maxNumOfFiles := by
  simp only [State.isFile, Bool.and_eq_true, decide_eq_true_eq] at isFile
  omega

/-! ### Words of the inode table -/

section Addresses

variable {i i' k k' : Nat}

theorem directOffsetAddr_inj (below : k < directCount) (below' : k' < directCount) :
    directOffsetAddr i k = directOffsetAddr i' k' ↔ i = i' ∧ k = k' := by
  simp only [directOffsetAddr, inodeWords, directCount] at *
  omega

theorem directOffsetAddr_ne_fileSizeAddr (below : k < directCount) :
    directOffsetAddr i k ≠ fileSizeAddr i' := by
  simp only [directOffsetAddr, fileSizeAddr, inodeWords, directCount] at *
  omega

theorem directOffsetAddr_ne_fileTypeAddr (below : k < directCount) :
    directOffsetAddr i k ≠ fileTypeAddr i' := by
  simp only [directOffsetAddr, fileTypeAddr, inodeWords, directCount] at *
  omega

theorem fileSizeAddr_ne_fileTypeAddr : fileSizeAddr i ≠ fileTypeAddr i' := by
  simp only [fileSizeAddr, fileTypeAddr, inodeWords]
  omega

theorem fileSizeAddr_inj : fileSizeAddr i = fileSizeAddr i' ↔ i = i' := by
  simp only [fileSizeAddr, inodeWords]
  omega

theorem directOffsetAddr_in_table (file : i < maxNumOfFiles) (below : k < directCount) :
    directOffsetAddr i k < inodeTableWords := by
  simp only [directOffsetAddr, inodeTableWords, inodeWords, maxNumOfFiles, directCount] at *
  omega

end Addresses

namespace State

variable (s : State)

/-! ### Taking a block -/

@[simp] theorem takeBlock_directory (slot b : Nat) : (s.takeBlock slot b).directory = s.directory := rfl

@[simp] theorem takeBlock_disk (slot b : Nat) : (s.takeBlock slot b).disk = s.disk := rfl

@[simp] theorem takeBlock_openFileDescriptors (slot b : Nat) :
    (s.takeBlock slot b).openFileDescriptors = s.openFileDescriptors := rfl

@[simp] theorem takeBlock_openDiskFd (slot b : Nat) :
    (s.takeBlock slot b).openDiskFd = s.openDiskFd := rfl

@[simp] theorem takeBlock_usedBlockBitmapOffset (slot b : Nat) :
    (s.takeBlock slot b).superblock.usedBlockBitmapOffset =
      s.superblock.usedBlockBitmapOffset := rfl

theorem takeBlock_getBit (slot b j : Nat) :
    getBit (s.takeBlock slot b).usedBlockBitmap j =
      (decide (b = j) || getBit s.usedBlockBitmap j) :=
  getBit_setBit _ _ _

theorem takeBlock_directOffset {i k i' k' : Nat} (b : Nat) (below : k < directCount)
    (below' : k' < directCount) :
    (s.takeBlock (directOffsetAddr i k) b).directOffset i' k' =
      if i' = i ∧ k' = k then BitVec.ofNat 64 b else s.directOffset i' k' := by
  simp only [directOffset, takeBlock, Function.update_apply,
    directOffsetAddr_inj below' below]

theorem takeBlock_fileSize {i k : Nat} (b i' : Nat) (below : k < directCount) :
    (s.takeBlock (directOffsetAddr i k) b).fileSize i' = s.fileSize i' := by
  simp [fileSize, takeBlock, (directOffsetAddr_ne_fileSizeAddr below).symm]

theorem takeBlock_fileType {i k : Nat} (b i' : Nat) (below : k < directCount) :
    (s.takeBlock (directOffsetAddr i k) b).fileType i' = s.fileType i' := by
  simp [fileType, takeBlock, (directOffsetAddr_ne_fileTypeAddr below).symm]

/-! ### A new inode -/

@[simp] theorem initInode_directory (i : Nat) : (s.initInode i).directory = s.directory := rfl

@[simp] theorem initInode_disk (i : Nat) : (s.initInode i).disk = s.disk := rfl

@[simp] theorem initInode_openFileDescriptors (i : Nat) :
    (s.initInode i).openFileDescriptors = s.openFileDescriptors := rfl

@[simp] theorem initInode_usedBlockBitmap (i : Nat) :
    (s.initInode i).usedBlockBitmap = s.usedBlockBitmap := rfl

@[simp] theorem initInode_superblock (i : Nat) : (s.initInode i).superblock = s.superblock := rfl

@[simp] theorem initInode_openDiskFd (i : Nat) : (s.initInode i).openDiskFd = s.openDiskFd := rfl

/-- The words of an inode lie inside it. -/
theorem initInode_word (i i' : Nat) {w : Nat} (inside : w < inodeWords) (field : w ≠ 0) :
    (s.initInode i).inodeTable (fileTypeAddr i' + w) =
      if i' = i then 0 else s.inodeTable (fileTypeAddr i' + w) := by
  have notFirst : fileTypeAddr i' + w ≠ fileTypeAddr i := by
    simp only [fileTypeAddr, inodeWords] at *
    omega
  have within : (fileTypeAddr i < fileTypeAddr i' + w ∧
      fileTypeAddr i' + w < fileTypeAddr i + inodeWords) ↔ i' = i := by
    simp only [fileTypeAddr, inodeWords] at *
    omega
  simp only [initInode, notFirst, within, if_false]

theorem initInode_fileType (i i' : Nat) :
    (s.initInode i).fileType i' = if i' = i then 1 else s.fileType i' := by
  have first : fileTypeAddr i' = fileTypeAddr i ↔ i' = i := by
    simp only [fileTypeAddr, inodeWords]
    omega
  have notWithin : ¬ (fileTypeAddr i < fileTypeAddr i' ∧
      fileTypeAddr i' < fileTypeAddr i + inodeWords) := by
    simp only [fileTypeAddr, inodeWords]
    omega
  simp only [fileType, initInode, first, notWithin, if_false]

theorem initInode_directOffset (i i' : Nat) {k : Nat} (below : k < directCount) :
    (s.initInode i).directOffset i' k = if i' = i then 0 else s.directOffset i' k := by
  simp only [directCount] at below
  have word := s.initInode_word i i' (w := 1 + k) (by simp only [inodeWords]; omega) (by omega)
  simpa only [directOffset, directOffsetAddr, fileTypeAddr, Nat.add_assoc] using word

theorem initInode_fileSize (i i' : Nat) :
    (s.initInode i).fileSize i' = if i' = i then 0 else s.fileSize i' := by
  have word := s.initInode_word i i' (w := 259) (by decide) (by decide)
  simp only [fileSize, fileSizeAddr, fileTypeAddr] at word ⊢
  rw [word]
  split <;> rfl

/-! ### Advancing a descriptor -/

@[simp] theorem advance_directory (f i m : Nat) : (s.advance f i m).directory = s.directory := by
  unfold advance
  dsimp only
  split <;> rfl

@[simp] theorem advance_disk (f i m : Nat) : (s.advance f i m).disk = s.disk := by
  unfold advance
  dsimp only
  split <;> rfl

@[simp] theorem advance_usedBlockBitmap (f i m : Nat) :
    (s.advance f i m).usedBlockBitmap = s.usedBlockBitmap := by
  unfold advance
  dsimp only
  split <;> rfl

@[simp] theorem advance_superblock (f i m : Nat) : (s.advance f i m).superblock = s.superblock := by
  unfold advance
  dsimp only
  split <;> rfl

@[simp] theorem advance_openDiskFd (f i m : Nat) : (s.advance f i m).openDiskFd = s.openDiskFd := by
  unfold advance
  dsimp only
  split <;> rfl

theorem advance_openFileDescriptors (f i m : Nat) :
    (s.advance f i m).openFileDescriptors =
      Function.update s.openFileDescriptors f { s.openFileDescriptors f with
        offset := toInt32 ((s.openFileDescriptors f).offset + m) } := by
  unfold advance
  dsimp only
  split <;> rfl

theorem advance_directOffset (f i m : Nat) {i' k' : Nat} (below : k' < directCount) :
    (s.advance f i m).directOffset i' k' = s.directOffset i' k' := by
  unfold advance
  dsimp only
  split
  · simp [directOffset, storeWord, storeDescriptor,
      directOffsetAddr_ne_fileSizeAddr below]
  · rfl

theorem advance_fileType (f i m i' : Nat) :
    (s.advance f i m).fileType i' = s.fileType i' := by
  unfold advance
  dsimp only
  split
  · simp [fileType, storeWord, storeDescriptor, (fileSizeAddr_ne_fileTypeAddr).symm]
  · rfl

/-- A descriptor that stays within `int` moves by the bytes written, and the file is as
long as the furthest byte written. -/
theorem advance_fileSize (f i m i' off : Nat)
    (offset : (s.openFileDescriptors f).offset = off) (small : off + m < 2 ^ 31) :
    (s.advance f i m).fileSize i' =
      if i' = i then max (s.fileSize i) (off + m) else s.fileSize i' := by
  -- below 2^31 the conversions between `int` and `unsigned long` change nothing
  have moved : toInt32 ((s.openFileDescriptors f).offset + m) = (off + m : Nat) := by
    rw [offset, show (off : Int) + m = (off + m : Nat) by omega]
    exact toInt32_of_small (by omega) (by omega)
  have unsigned : toULong ((off + m : Nat) : Int) = off + m := by
    rw [toULong_of_small (by omega) (by omega), Int.toNat_natCast]
  have stored : (BitVec.ofInt 64 ((off + m : Nat) : Int)).toNat = off + m := by
    rw [BitVec.toNat_ofInt]
    omega
  unfold advance
  simp only [moved, unsigned]
  split
  -- `if (offset > file_size)`
  next grows =>
    by_cases same : i' = i
    · subst same
      rw [if_pos rfl, fileSize, storeWord]
      simp only [Function.update_self]
      rw [stored]
      simp only [fileSize] at grows
      simp only [fileSize]
      omega
    · have apart : fileSizeAddr i' ≠ fileSizeAddr i := mt fileSizeAddr_inj.mp same
      simp [fileSize, storeWord, storeDescriptor, Function.update_of_ne apart, same]
  next keeps =>
    by_cases same : i' = i
    · subst same
      rw [if_pos rfl, Nat.max_eq_left (by omega)]
      rfl
    · rw [if_neg same]
      rfl

end State

/-! ### First fit -/

/-- Block `b` is the one the allocation loop of `fs_write` takes. -/
structure FirstFree (s : State) (b : Nat) : Prop where
  lower : s.superblock.usedBlockBitmapOffset.toNat ≤ b
  upper : b < totalBlocks
  clear : getBit s.usedBlockBitmap b = false
  least : ∀ j, s.superblock.usedBlockBitmapOffset.toNat ≤ j → j < b →
    getBit s.usedBlockBitmap j = true

/-- The loop from block `i`, with `rounds` blocks to the end of the disk. -/
private theorem allocateFrom_cases (s : State) (slot i rounds : Nat)
    (inside : i + rounds = totalBlocks) (more : 0 < rounds) :
    (allocateFrom s slot i rounds = none ∧
      ∀ j, i ≤ j → j < totalBlocks → getBit s.usedBlockBitmap j = true) ∨
    ∃ b, i ≤ b ∧ b < totalBlocks ∧ getBit s.usedBlockBitmap b = false ∧
      (∀ j, i ≤ j → j < b → getBit s.usedBlockBitmap j = true) ∧
      allocateFrom s slot i rounds = some (s.takeBlock slot b) := by
  -- induction on the blocks that are left to be tried
  induction rounds generalizing i with
  | zero => omega
  | succ rounds ih =>
    simp only [allocateFrom]
    cases bit : getBit s.usedBlockBitmap i with
    | false =>
      right
      exact ⟨i, Nat.le_refl i, by omega, bit, fun j _ _ => by omega, by simp⟩
    | true =>
      simp only [Bool.not_true, Bool.false_eq_true, if_false]
      -- the source gives up at the last block, whose bit it has tested by then
      by_cases last : i = totalBlocks - 1
      · left
        refine ⟨if_pos last, fun j lower upper => ?_⟩
        have : j = i := by omega
        exact this ▸ bit
      · rw [if_neg last]
        rcases ih (i + 1) (by omega) (by omega) with ⟨full, taken⟩ | ⟨b, lower, upper, clear, least, took⟩
        · left
          refine ⟨full, fun j lower upper => ?_⟩
          rcases Nat.eq_or_lt_of_le lower with rfl | above
          · exact bit
          · exact taken j above upper
        · right
          refine ⟨b, by omega, upper, clear, fun j lower' upper' => ?_, took⟩
          rcases Nat.eq_or_lt_of_le lower' with rfl | above
          · exact bit
          · exact least j above upper'

/-- Allocation takes the first free block, and fails only when there is none. -/
theorem allocateBlock_cases (s : State) (slot : Nat)
    (start : s.superblock.usedBlockBitmapOffset.toNat < totalBlocks) :
    (allocateBlock s slot = none ∧
      ∀ j, s.superblock.usedBlockBitmapOffset.toNat ≤ j → j < totalBlocks →
        getBit s.usedBlockBitmap j = true) ∨
    ∃ b, FirstFree s b ∧ allocateBlock s slot = some (s.takeBlock slot b) := by
  rcases allocateFrom_cases s slot s.superblock.usedBlockBitmapOffset.toNat _
    (Nat.add_sub_cancel' (Nat.le_of_lt start)) (by omega) with
    full | ⟨b, lower, upper, clear, least, took⟩
  · exact Or.inl full
  · exact Or.inr ⟨b, ⟨lower, upper, clear, least⟩, took⟩

/-- The loop finds no block exactly when none is free. -/
theorem allocateBlock_eq_none {s : State} {slot : Nat}
    (start : s.superblock.usedBlockBitmapOffset.toNat < totalBlocks) :
    allocateBlock s slot = none ↔ ∀ j, s.superblock.usedBlockBitmapOffset.toNat ≤ j →
      j < totalBlocks → getBit s.usedBlockBitmap j = true := by
  rcases allocateBlock_cases s slot start with ⟨full, taken⟩ | ⟨b, free, took⟩
  · exact iff_of_true full taken
  · refine iff_of_false (by simp [took]) fun taken => ?_
    have used := taken b free.lower free.upper
    simp [free.clear] at used

/-- The loop takes block `b` exactly when it is the first free one. -/
theorem FirstFree.allocateBlock {s : State} {b : Nat} (free : FirstFree s b) (slot : Nat) :
    allocateBlock s slot = some (s.takeBlock slot b) := by
  have start := Nat.lt_of_le_of_lt free.lower free.upper
  rcases allocateBlock_cases s slot start with ⟨-, taken⟩ | ⟨b', free', took⟩
  · have used := taken b free.lower free.upper
    simp [free.clear] at used
  · rcases Nat.lt_trichotomy b' b with before | rfl | behind
    · have used := free.least b' free'.lower before
      simp [free'.clear] at used
    · exact took
    · have used := free'.least b free.lower behind
      simp [free.clear] at used

theorem exists_firstFree_iff {s : State}
    (start : s.superblock.usedBlockBitmapOffset.toNat < totalBlocks) :
    (∃ b, FirstFree s b) ↔ ∃ j, s.superblock.usedBlockBitmapOffset.toNat ≤ j ∧ j < totalBlocks ∧
      getBit s.usedBlockBitmap j = false := by
  constructor
  · rintro ⟨b, free⟩
    exact ⟨b, free.lower, free.upper, free.clear⟩
  · rintro ⟨j, lower, upper, clear⟩
    rcases allocateBlock_cases s 0 start with ⟨-, taken⟩ | ⟨b, free, -⟩
    · simp [taken j lower upper] at clear
    · exact ⟨b, free⟩

/-- **First fit.** The allocation loop of `fs_write` takes the first free block at or after
`used_block_bitmap_offset`, sets its bit and no other, and gives up, with nothing changed, exactly
when there is none. -/
theorem allocateBlock_firstFit (s : State) {fileIndex blockIndex : Nat}
    (file : fileIndex < maxNumOfFiles) (below : blockIndex < directCount)
    (start : s.superblock.usedBlockBitmapOffset.toNat < totalBlocks)
    (empty : s.directOffset fileIndex blockIndex = 0) :
    (∀ b, FirstFree s b → ∃ t,
      allocateBlock s (directOffsetAddr fileIndex blockIndex) = some t ∧
      (∀ i k, k < directCount → (t.directOffset i k).toNat =
        if i = fileIndex ∧ k = blockIndex then b else (s.directOffset i k).toNat) ∧
      (∀ j, getBit t.usedBlockBitmap j = (decide (j = b) || getBit s.usedBlockBitmap j)) ∧
      t.superblock.usedBlockBitmapCount = s.superblock.usedBlockBitmapCount + 1) ∧
    ((∃ b, FirstFree s b) ↔ ∃ j, s.superblock.usedBlockBitmapOffset.toNat ≤ j ∧
      j < totalBlocks ∧ getBit s.usedBlockBitmap j = false) ∧
    (allocateBlock s (directOffsetAddr fileIndex blockIndex) = none ↔
      ∀ j, s.superblock.usedBlockBitmapOffset.toNat ≤ j → j < totalBlocks →
        getBit s.usedBlockBitmap j = true) ∧
    (allocateBlock s (directOffsetAddr fileIndex blockIndex) = none →
      ∀ fildes blockOffset data,
        fsWriteRound s fildes fileIndex blockIndex blockOffset data = some (false, s)) ∧
    (getBit s.usedBlockBitmap (totalBlocks - 1) = false →
      (∀ j, s.superblock.usedBlockBitmapOffset.toNat ≤ j → j < totalBlocks - 1 →
        getBit s.usedBlockBitmap j = true) →
      FirstFree s (totalBlocks - 1)) := by
  refine ⟨?_, exists_firstFree_iff start, allocateBlock_eq_none start, ?_, ?_⟩
  · intro b free
    refine ⟨_, free.allocateBlock _, ?_, ?_, rfl⟩
    · intro i k inside
      rw [State.takeBlock_directOffset s b below inside]
      split
      · rw [BitVec.toNat_ofNat, Nat.mod_eq_of_lt]
        exact Nat.lt_trans free.upper (by decide)
      · rfl
    · intro j
      rw [State.takeBlock_getBit, decide_eq_decide.mpr eq_comm]
  · -- without a block the round stops before it changes anything
    intro full fildes blockOffset data
    have inTable := directOffsetAddr_in_table file below
    rw [fsWriteRound, if_neg (Nat.not_le_of_lt inTable), if_pos empty, full]
  · intro clear taken
    exact ⟨by omega, by decide, clear, taken⟩

/-- A disk of which only the last block is free, searched from the block before it. -/
def State.lastBlockFree : State :=
  { State.fresh ⟨fun _ => none, none⟩ with
    usedBlockBitmap := fun i => if i = 1023 then 0x7f else 0xff
    superblock := ⟨8191, 8190, 0, 0⟩ }

theorem allocateBlock_firstFit_last :
    ∃ t, allocateBlock State.lastBlockFree (directOffsetAddr 3 255) = some t ∧
      (t.directOffset 3 255).toNat = totalBlocks - 1 := by
  have fits := @allocateBlock_firstFit State.lastBlockFree 3 255 (by decide) (by decide) (by decide) rfl
  have free : FirstFree State.lastBlockFree (totalBlocks - 1) := by
    refine fits.2.2.2.2 (by decide) fun j lower upper => ?_
    have last : j = 8190 := by
      have offset : State.lastBlockFree.superblock.usedBlockBitmapOffset.toNat = 8190 := rfl
      rw [offset] at lower
      simp only [totalBlocks] at upper
      omega
    rw [last]
    decide
  obtain ⟨t, took, offsets, -⟩ := fits.1 _ free
  exact ⟨t, took, (offsets 3 255 (by decide)).trans (if_pos ⟨rfl, rfl⟩)⟩

/-! ### One round of the loop of `fs_write` -/

/-- `t` is `s` with the block of the round in place: it was there already, or the first
free block has been taken for it. -/
def Prepared (s : State) (i k : Nat) (t : State) : Prop :=
  (s.directOffset i k ≠ 0 ∧ t = s) ∨
    (s.directOffset i k = 0 ∧ ∃ b, FirstFree s b ∧ t = s.takeBlock (directOffsetAddr i k) b)

/-- The part of a round after its block is in place. -/
theorem fsWriteRound_finish {s s' t : State} {f i k off : Nat} {data : List Byte} {ended : Bool}
    (prepared : Prepared s i k t)
    (finished : (match t.disk.blockRead (toInt32 (t.directOffset i k).toNat) with
      | none => some (false, t)
      | some blockBuffer =>
        match t.disk.blockWrite (toInt32 (t.directOffset i k).toNat)
          (overlay blockBuffer off (chunkSize off data) data) with
        | none => some (false, t)
        | some disk =>
          some (true, State.advance { t with disk := disk } f i (chunkSize off data))) =
      some (ended, s')) :
    (ended = false ∧ (s' = s ∨ Prepared s i k s')) ∨
    (ended = true ∧ ∃ t buf disk, Prepared s i k t ∧
      t.disk.blockWrite (toInt32 (t.directOffset i k).toNat) buf = some disk ∧
      s' = State.advance { t with disk := disk } f i (chunkSize off data)) := by
  -- a failing `block_read` or `block_write` ends the call with the block allocated
  split at finished
  · cases finished
    exact Or.inl ⟨rfl, Or.inr prepared⟩
  · split at finished
    · cases finished
      exact Or.inl ⟨rfl, Or.inr prepared⟩
    next wrote =>
      cases finished
      exact Or.inr ⟨rfl, t, _, _, prepared, wrote, rfl⟩

/-- Everything one round can do: fail with the globals as they were or with its block in
place, or write that block and advance the descriptor. -/
theorem fsWriteRound_cases {s s' : State} {f i k off : Nat} {data : List Byte} {ended : Bool}
    (start : s.superblock.usedBlockBitmapOffset.toNat < totalBlocks)
    (round : fsWriteRound s f i k off data = some (ended, s')) :
    (ended = false ∧ (s' = s ∨ Prepared s i k s')) ∨
    (ended = true ∧ ∃ t buf disk, Prepared s i k t ∧
      t.disk.blockWrite (toInt32 (t.directOffset i k).toNat) buf = some disk ∧
      s' = State.advance { t with disk := disk } f i (chunkSize off data)) := by
  unfold fsWriteRound at round
  split at round
  · simp at round
  · by_cases absent : s.directOffset i k = 0
    -- the block has to be allocated, for which the disk may be too full
    · simp only [absent, if_true] at round
      rcases allocateBlock_cases s (directOffsetAddr i k) start with
        ⟨full, -⟩ | ⟨b, free, took⟩
      · simp only [full] at round
        cases round
        exact Or.inl ⟨rfl, Or.inl rfl⟩
      · simp only [took] at round
        exact fsWriteRound_finish (Or.inr ⟨absent, b, free, rfl⟩) round
    · simp only [absent, if_false] at round
      exact fsWriteRound_finish (Or.inl ⟨absent, rfl⟩) round

/-! ### Rules for the whole loop -/

theorem allocateFrom_openFileDescriptors {s t : State} {slot i rounds : Nat}
    (allocated : allocateFrom s slot i rounds = some t) :
    t.openFileDescriptors = s.openFileDescriptors := by
  induction rounds generalizing i with
  | zero =>
    simp only [allocateFrom, Option.some.injEq] at allocated
    rw [allocated]
  | succ rounds ih =>
    simp only [allocateFrom] at allocated
    split at allocated
    · simp only [Option.some.injEq] at allocated
      rw [← allocated]
      rfl
    · split at allocated
      · simp at allocated
      · exact ih allocated

/-- A round that does not fail moves its descriptor by the bytes it has written. -/
theorem fsWriteRound_moves {s s' : State} {f i k off : Nat} {data : List Byte}
    (round : fsWriteRound s f i k off data = some (true, s')) :
    (s'.openFileDescriptors f).offset =
      toInt32 ((s.openFileDescriptors f).offset + chunkSize off data) := by
  unfold fsWriteRound at round
  split at round
  · simp at round
  · split at round
    · simp at round
    next t prepared =>
      -- allocating does not touch the descriptors
      have same : t.openFileDescriptors = s.openFileDescriptors := by
        split at prepared
        · exact allocateFrom_openFileDescriptors prepared
        · rw [Option.some.inj prepared]
      dsimp only at round
      split at round
      · simp at round
      · split at round
        · simp at round
        · simp only [Option.some.injEq, Prod.mk.injEq, true_and] at round
          rw [← round, State.advance_openFileDescriptors, Function.update_self, same]

/-- A round of a write: it starts where the descriptor points. -/
structure RoundAt (s : State) (f k off : Nat) (data : List Byte) : Prop where
  points : (s.openFileDescriptors f).offset = ((k * blockSize + off : Nat) : Int)
  inBlock : off < blockSize
  more : data ≠ []

/-- A block index that does not leave the inode table is small. -/
theorem fsWriteRound_index {s s' : State} {f i k off : Nat} {data : List Byte} {ended : Bool}
    (round : fsWriteRound s f i k off data = some (ended, s')) : k < inodeTableWords := by
  unfold fsWriteRound at round
  split at round
  · simp at round
  next inTable =>
    simp only [directOffsetAddr] at inTable
    omega

/-- A round that leaves data behind has filled its block, and the next one starts where it
ended. -/
theorem RoundAt.next {s s' : State} {f i k off : Nat} {data : List Byte}
    (start : RoundAt s f k off data) (left : data.drop (chunkSize off data) ≠ [])
    (round : fsWriteRound s f i k off data = some (true, s')) :
    RoundAt s' f (k + 1) 0 (data.drop (chunkSize off data)) := by
  have inBlock := start.inBlock
  have index : k * blockSize ≤ inodeTableWords * blockSize :=
    Nat.mul_le_mul_right _ (Nat.le_of_lt (fsWriteRound_index round))
  have small : inodeTableWords * blockSize + blockSize < 2 ^ 31 := by decide
  have longer : chunkSize off data < data.length := by
    rwa [ne_eq, List.drop_eq_nil_iff, Nat.not_le] at left
  -- data is left only if the chunk was cut off by the end of the block
  have filled : chunkSize off data = blockSize - off := by
    simp only [chunkSize] at longer ⊢
    omega
  refine ⟨?_, by decide, left⟩
  rw [fsWriteRound_moves round, start.points, filled, Nat.succ_mul, ← Int.natCast_add,
    toInt32_of_small (by omega) (by omega)]
  omega

/-- The rule for the loop of `fs_write`: what holds at the start of every round of what is
still to be written gives what holds when the loop ends, by itself or in a round that fails. -/
theorem fsWriteLoop_rule {f i : Nat} {R : State → Nat → Nat → List Byte → Prop} {Q : State → Prop}
    (done : ∀ s k off data, R s k off data → Q s)
    (fails : ∀ s s' k off data, R s k off data → data ≠ [] →
      fsWriteRound s f i k off data = some (false, s') → Q s')
    (goes : ∀ s s' k off data, R s k off data → data ≠ [] →
      fsWriteRound s f i k off data = some (true, s') →
        R s' (k + 1) 0 (data.drop (chunkSize off data)))
    {fuel : Nat} {s s' : State} {k off : Nat} {data : List Byte} {ended : Bool}
    (initial : R s k off data) (loop : fsWriteLoop f i fuel s k off data = some (ended, s')) :
    Q s' := by
  -- by induction on the rounds
  induction fuel generalizing s k off data with
  | zero =>
    simp only [fsWriteLoop, Option.some.injEq, Prod.mk.injEq] at loop
    exact loop.2 ▸ done s k off data initial
  | succ fuel ih =>
    simp only [fsWriteLoop] at loop
    split at loop
    · simp only [Option.some.injEq, Prod.mk.injEq] at loop
      exact loop.2 ▸ done s k off data initial
    next more =>
      have nonempty : data ≠ [] := fun empty => more (by simp [empty])
      split at loop
      · simp at loop
      next round =>
        cases loop
        exact fails s s' k off data initial nonempty round
      next s₁ round => exact ih (goes s s₁ k off data initial nonempty round) loop

/-- What a call of `fs_write` comes to: a refusal, or a run of the loop. -/
theorem fsWrite_cases {s s' : State} {fildes : Int} {data : List Byte} {r : Int}
    (wrote : fsWrite s fildes data = some (r, s')) :
    s' = s ∨ s.isOpen fildes = true ∧
      s.isFile (s.openFileDescriptors fildes.toNat).inodeNumber = true ∧
      (data ≠ [] → 0 ≤ (s.openFileDescriptors fildes.toNat).offset) ∧
      ∃ ended, fsWriteLoop fildes.toNat (s.openFileDescriptors fildes.toNat).inodeNumber.toNat
        data.length s ((s.openFileDescriptors fildes.toNat).offset.toNat / blockSize)
        ((s.openFileDescriptors fildes.toNat).offset.toNat % blockSize) data =
          some (ended, s') := by
  unfold fsWrite at wrote
  cases isOpen : s.isOpen fildes with
  | false =>
    simp only [isOpen, Bool.not_false, if_true, Option.some.injEq, Prod.mk.injEq] at wrote
    exact Or.inl wrote.2.symm
  | true =>
    simp only [isOpen, Bool.not_true, Bool.false_eq_true, if_false] at wrote
    cases isFile : s.isFile (s.openFileDescriptors fildes.toNat).inodeNumber with
    | false =>
      simp only [isFile, Bool.not_false, if_true, Option.some.injEq, Prod.mk.injEq] at wrote
      exact Or.inl wrote.2.symm
    | true =>
      simp only [isFile, Bool.not_true, Bool.false_eq_true, if_false] at wrote
      split at wrote
      · simp at wrote
      next nonneg =>
        -- a negative offset with data to write is not defined
        have lower : data ≠ [] → 0 ≤ (s.openFileDescriptors fildes.toNat).offset := by
          intro more
          by_contra negative
          exact nonneg ⟨by omega, by simpa using more⟩
        refine Or.inr ⟨rfl, rfl, lower, ?_⟩
        split at wrote
        · simp at wrote
        next loop =>
          simp only [Option.some.injEq, Prod.mk.injEq] at wrote
          exact ⟨false, wrote.2 ▸ loop⟩
        next loop =>
          simp only [Option.some.injEq, Prod.mk.injEq] at wrote
          exact ⟨true, wrote.2 ▸ loop⟩

/-- The rule by which `fs_write` keeps an invariant, wherever it ends. -/
theorem fsWrite_keeps {P : State → Prop}
    (kept : ∀ f i s s' k off data ended, f < maxFileDescriptors → i < maxNumOfFiles → P s →
      RoundAt s f k off data → fsWriteRound s f i k off data = some (ended, s') → P s')
    {s s' : State} {fildes : Int} {data : List Byte} {r : Int}
    (wrote : fsWrite s fildes data = some (r, s')) (initial : P s) : P s' := by
  rcases fsWrite_cases wrote with rfl | ⟨isOpen, isFile, lower, ended, loop⟩
  · exact initial
  · have round := fun t t' k off data ended =>
      kept fildes.toNat _ t t' k off data ended (isOpen_toNat_lt isOpen) (isFile_toNat_lt isFile)
    have start : data ≠ [] → RoundAt s fildes.toNat
        ((s.openFileDescriptors fildes.toNat).offset.toNat / blockSize)
        ((s.openFileDescriptors fildes.toNat).offset.toNat % blockSize) data := by
      intro more
      refine ⟨?_, Nat.mod_lt _ (by decide), more⟩
      rw [Nat.div_add_mod', Int.toNat_of_nonneg (lower more)]
    exact fsWriteLoop_rule
      (R := fun s k off data => P s ∧ (data ≠ [] → RoundAt s fildes.toNat k off data))
      (fun s k off data holds => holds.1)
      (fun s s' k off data holds more stepped =>
        round s s' k off data false holds.1 (holds.2 more) stepped)
      (fun s s' k off data holds more stepped =>
        ⟨round s s' k off data true holds.1 (holds.2 more) stepped,
          fun left => (holds.2 more).next left stepped⟩)
      ⟨initial, start⟩ loop

/-! ### Writes that end at or below `MAX_FILESIZE` -/

/-- A round of a write that ends at or below `MAX_FILESIZE`: it starts where the descriptor
points, in block `k` of `direct_offset`. -/
structure RoundStart (s : State) (f k off : Nat) (data : List Byte) : Prop where
  points : (s.openFileDescriptors f).offset = ((k * blockSize + off : Nat) : Int)
  within : k * blockSize + off + data.length ≤ maxFilesize
  inBlock : off < blockSize
  more : data ≠ []

theorem RoundStart.below {s : State} {f k off : Nat} {data : List Byte}
    (start : RoundStart s f k off data) : k < directCount := by
  have within := start.within
  have length := List.length_pos_iff.mpr start.more
  simp only [blockSize, maxFilesize, directCount] at *
  omega

theorem RoundStart.next {s s' : State} {f i k off : Nat} {data : List Byte}
    (start : RoundStart s f k off data) (left : data.drop (chunkSize off data) ≠ [])
    (round : fsWriteRound s f i k off data = some (true, s')) :
    RoundStart s' f (k + 1) 0 (data.drop (chunkSize off data)) := by
  have within := start.within
  have here : RoundAt s f k off data := ⟨start.points, start.inBlock, start.more⟩
  have there := here.next left round
  refine ⟨there.points, ?_, there.inBlock, left⟩
  have longer : chunkSize off data < data.length := by
    rwa [ne_eq, List.drop_eq_nil_iff, Nat.not_le] at left
  have inBlock := start.inBlock
  have filled : chunkSize off data = blockSize - off := by
    simp only [chunkSize] at longer ⊢
    omega
  rw [List.length_drop, filled, Nat.succ_mul]
  omega

/-- The rule by which `fs_write` keeps an invariant, with what is known of each round. -/
theorem fsWrite_preserves_rounds {P : State → Prop}
    (kept : ∀ f i s s' k off data ended, f < maxFileDescriptors → i < maxNumOfFiles → P s →
      RoundStart s f k off data → fsWriteRound s f i k off data = some (ended, s') → P s')
    {s s' : State} {fildes : Int} {data : List Byte} {r : Int}
    (ends : s.isOpen fildes = true →
      (s.openFileDescriptors fildes.toNat).offset + data.length ≤ maxFilesize)
    (wrote : fsWrite s fildes data = some (r, s')) (initial : P s) : P s' := by
  rcases fsWrite_cases wrote with rfl | ⟨isOpen, isFile, lower, ended, loop⟩
  · exact initial
  · have round := fun t t' k off data ended =>
      kept fildes.toNat _ t t' k off data ended (isOpen_toNat_lt isOpen) (isFile_toNat_lt isFile)
    have bound := ends isOpen
    have start : data ≠ [] → RoundStart s fildes.toNat
        ((s.openFileDescriptors fildes.toNat).offset.toNat / blockSize)
        ((s.openFileDescriptors fildes.toNat).offset.toNat % blockSize) data := by
      intro more
      have nonneg := lower more
      refine ⟨?_, ?_, Nat.mod_lt _ (by decide), more⟩
      · rw [Nat.div_add_mod', Int.toNat_of_nonneg nonneg]
      · rw [Nat.div_add_mod']
        omega
    exact fsWriteLoop_rule
      (R := fun s k off data => P s ∧ (data ≠ [] → RoundStart s fildes.toNat k off data))
      (fun s k off data holds => holds.1)
      (fun s s' k off data holds more stepped =>
        round s s' k off data false holds.1 (holds.2 more) stepped)
      (fun s s' k off data holds more stepped =>
        ⟨round s s' k off data true holds.1 (holds.2 more) stepped,
          fun left => (holds.2 more).next left stepped⟩)
      ⟨initial, start⟩ loop

/-- The rule by which `fs_write` keeps an invariant. -/
theorem fsWrite_preserves {P : State → Prop}
    (kept : ∀ f i s s' k off data ended, i < maxNumOfFiles → P s → k < directCount →
      fsWriteRound s f i k off data = some (ended, s') → P s')
    {s s' : State} {fildes : Int} {data : List Byte} {r : Int}
    (ends : s.isOpen fildes = true →
      (s.openFileDescriptors fildes.toNat).offset + data.length ≤ maxFilesize)
    (wrote : fsWrite s fildes data = some (r, s')) (initial : P s) : P s' :=
  fsWrite_preserves_rounds (fun f i s s' k off data ended _ file before start =>
    kept f i s s' k off data ended file before start.below) ends wrote initial

end OperatingSys.FileSystem
