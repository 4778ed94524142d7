import OperatingSys.FileSystem.Mounting
import OperatingSys.FileSystem.Blocks

/-!
# Metadata on the disk

The records survive their way through bytes; `umount_fs` and `mount_fs` are described as
maps between the globals and the image of the disk. The inode table goes to the disk in
windows of one block that start one inode apart, so the part of it that is saved ends
in the middle of inode 33.
-/

namespace OperatingSys.FileSystem

open LittleEndian

/-! ### Round trips of records -/

theorem loadSuperblock_of_bytes {b : Block} {sb : SuperBlock}
    (stored : ∀ j < superblockBytes, b j = superblockByte sb j) : loadSuperblock b = sb := by
  -- four fields of two bytes each, one after the other
  have field : ∀ (base : Nat) (v : BitVec 16), (∀ k < 2, b (base + k) = byte v.toNat k) →
      BitVec.ofNat 16 (value (fun k => b (base + k)) 2) = v :=
    fun base v bytes => word_of_bytes rfl v bytes
  obtain ⟨count, offset, blocks, metadata⟩ := sb
  simp only [loadSuperblock, SuperBlock.mk.injEq]
  simp only [superblockBytes, superblockByte] at stored
  refine ⟨?_, field 2 _ ?_, field 4 _ ?_, field 6 _ ?_⟩
  · refine word_of_bytes rfl count fun k below => ?_
    rw [stored k (by omega), if_pos below]
  · intro k below
    rw [stored (2 + k) (by omega), if_neg (by omega), if_pos (by omega), Nat.add_sub_cancel_left]
  · intro k below
    rw [stored (4 + k) (by omega), if_neg (by omega), if_neg (by omega), if_pos (by omega),
      Nat.add_sub_cancel_left]
  · intro k below
    rw [stored (6 + k) (by omega), if_neg (by omega), if_neg (by omega), if_neg (by omega),
      Nat.add_sub_cancel_left]

theorem loadDirEntry_of_bytes {b : Block} {base : Nat} {entry : DirEntry}
    (stored : ∀ j < dirEntryBytes, b (base + j) = dirEntryByte entry j) :
    loadDirEntry b base = entry := by
  simp only [dirEntryBytes, dirEntryByte] at stored
  apply DirEntry.ext
  · have flag := stored 0 (by omega)
    simp only [Nat.add_zero, if_true] at flag
    simp only [loadDirEntry, flag]
    cases entry.isUsed <;> decide
  · refine word_of_bytes rfl entry.inodeNumber fun k below => ?_
    rw [Nat.add_assoc, stored (4 + k) (by omega), if_neg (by omega), if_neg (by omega),
      if_pos (by omega), Nat.add_sub_cancel_left]
  · funext k
    have inField : k.val < 15 := k.isLt
    simp only [loadDirEntry]
    rw [Nat.add_assoc, stored (8 + k) (by omega), if_neg (by omega), if_neg (by omega),
      if_neg (by omega), dif_pos (by simp only [maxFileName]; omega)]
    congr 1
    exact Fin.ext (by simp)

/-- A word of a window is read back from the block the window was saved in. -/
theorem value_saveWindow (table : Nat → Word) {i w : Nat} (inside : windowAddr i ≤ w) :
    BitVec.ofNat 64 (value (fun k => saveWindow table i (8 * (w - windowAddr i) + k)) 8) =
      table w := by
  refine word_of_bytes rfl (table w) fun k below => ?_
  have addr : 8 * windowAddr i + (8 * (w - windowAddr i) + k) = 8 * w + k := by omega
  have quotient : (8 * w + k) / 8 = w := by omega
  have remainder : (8 * w + k) % 8 = k := by omega
  simp only [saveWindow, inodeTableByte, addr, quotient, remainder]

/-! ### The inode table in windows -/

/-- The number of words of the inode table that reach the disk: inodes 0 to 32 and the
first 252 words of inode 33. -/
def savedWords : Nat := 8832

/-- Word `w` lies in one of the windows `i` to `i + rounds - 1`. -/
def Covered (i rounds w : Nat) : Prop :=
  ∃ j, i ≤ j ∧ j < i + rounds ∧ windowAddr j ≤ w ∧ w < windowAddr j + blockSize / 8

theorem windowAddr_eq (i : Nat) : windowAddr i = 260 * i := by
  simp [windowAddr, inodeWords, blockSize, inodeBytes]

/-- The 33 windows overlap, so together they are an initial segment of the table. -/
theorem covered_iff (w : Nat) : Covered 0 33 w ↔ w < savedWords := by
  simp only [Covered, windowAddr_eq, blockSize, savedWords]
  constructor
  · rintro ⟨j, -, last, lower, upper⟩
    omega
  · intro below
    by_cases first : w < 512
    · exact ⟨0, by omega, by omega, by omega, by omega⟩
    · exact ⟨(w - 512) / 260 + 1, by omega, by omega, by omega, by omega⟩

/-- The first 63 windows lie within the inode table. -/
theorem window_inTable {i : Nat} (below : i < 63) :
    ¬ windowAddr i + blockSize / 8 > inodeTableWords := by
  simp only [windowAddr_eq, blockSize, inodeTableWords, inodeWords, maxNumOfFiles]
  omega

/-- Loading the windows one after the other: the words they cover take their values from
the image when the windows agree on them, and the other words are left alone. -/
theorem loadInodeTable_eq (s : State) (v : Nat → Word) (i rounds : Nat) {img : Image}
    (opened : s.disk.image = some img)
    (inRange : s.superblock.inodeMetadataOffset.toNat + i + rounds ≤ diskBlocks)
    (inTable : i + rounds ≤ 63)
    (agree : ∀ j w, i ≤ j → j < i + rounds → windowAddr j ≤ w → w < windowAddr j + blockSize / 8 →
      BitVec.ofNat 64 (value (fun k =>
        img (s.superblock.inodeMetadataOffset.toNat + j) (8 * (w - windowAddr j) + k)) 8) = v w) :
    ∃ table, loadInodeTable s i rounds = some (true, { s with inodeTable := table }) ∧
      (∀ w, Covered i rounds w → table w = v w) ∧
      (∀ w, ¬ Covered i rounds w → table w = s.inodeTable w) := by
  induction rounds generalizing s i with
  | zero =>
    refine ⟨s.inodeTable, rfl, fun w covered => ?_, fun w _ => rfl⟩
    obtain ⟨j, lower, upper, -⟩ := covered
    omega
  | succ rounds ih =>
    have read : s.disk.blockRead (s.superblock.inodeMetadataOffset.toNat + i : Nat) =
        some (img (s.superblock.inodeMetadataOffset.toNat + i)) :=
      Disk.blockRead_of_image opened (by omega)
    -- the rest of the loop, from the table with window `i` in place
    let s₁ : State := { s with
      inodeTable := loadWindow s.inodeTable i (img (s.superblock.inodeMetadataOffset.toNat + i)) }
    obtain ⟨table, loaded, inside, outside⟩ := ih (s := s₁) (i := i + 1) opened
      (show s.superblock.inodeMetadataOffset.toNat + (i + 1) + rounds ≤ diskBlocks by omega)
      (by omega) (fun j w lower upper => agree j w (by omega) (by omega))
    refine ⟨table, ?_, fun w covered => ?_, fun w out => ?_⟩
    · simp only [loadInodeTable, read]
      rw [if_neg (window_inTable (by omega))]
      exact loaded
    · by_cases later : Covered (i + 1) rounds w
      · exact inside w later
      · obtain ⟨j, lower, upper, start, stop⟩ := covered
        have here : j = i := by
          by_contra ne
          exact later ⟨j, by omega, by omega, start, stop⟩
        subst here
        rw [outside w later]
        simp only [s₁, loadWindow, start, stop, and_self, if_true]
        exact agree j w (Nat.le_refl j) (by omega) start stop
    · have later : ¬ Covered (i + 1) rounds w := by
        rintro ⟨j, lower, upper, bounds⟩
        exact out ⟨j, by omega, by omega, bounds⟩
      have here : ¬ (windowAddr i ≤ w ∧ w < windowAddr i + blockSize / 8) :=
        fun bounds => out ⟨i, Nat.le_refl i, by omega, bounds⟩
      rw [outside w later]
      simp only [s₁, loadWindow, here, if_false]

/-- Saving the windows writes one block for each of them. -/
theorem saveInodeTable_eq (table : Nat → Word) (sb : SuperBlock)
    (files : String → Option Image) (name : String) {rounds i : Nat} (img : Image)
    (inRange : sb.inodeMetadataOffset.toNat + i + rounds ≤ diskBlocks) :
    saveInodeTable table sb (Disk.holding files name img) i rounds =
      (true, Disk.holding files name fun b =>
        if sb.inodeMetadataOffset.toNat + i ≤ b ∧ b < sb.inodeMetadataOffset.toNat + i + rounds
        then saveWindow table (b - sb.inodeMetadataOffset.toNat) else img b) := by
  -- by induction on the blocks still to write
  induction rounds generalizing i img with
  | zero =>
    simp only [saveInodeTable, Nat.add_zero]
    congr 2
    funext b
    rw [if_neg (by omega)]
  | succ rounds ih =>
    rw [saveInodeTable, Disk.holding_blockWrite _ _ _ _ (by omega)]
    simp only
    rw [ih _ (by omega)]
    congr 2
    funext b
    -- the block is written by a later round, by this one, or by none
    by_cases later : sb.inodeMetadataOffset.toNat + (i + 1) ≤ b ∧
        b < sb.inodeMetadataOffset.toNat + (i + 1) + rounds
    · rw [if_pos later, if_pos (by omega)]
    · rw [if_neg later]
      by_cases here : b = sb.inodeMetadataOffset.toNat + i
      · subst here
        rw [Function.update_self, if_pos (by omega), Nat.add_sub_cancel_left]
      · rw [Function.update_of_ne here, if_neg (by omega)]

/-! ### Unmounting -/

/-- The layout that `make_fs` sets: bitmap at block 1, inode table at blocks 2 to 34,
directory at block 35. -/
structure Layout (sb : SuperBlock) : Prop where
  bitmapOffset : sb.usedBlockBitmapOffset = 1
  metadataBlocks : sb.inodeMetadataBlocks = 33
  metadataOffset : sb.inodeMetadataOffset = 2

theorem Layout.start {sb : SuperBlock} (layout : Layout sb) :
    sb.usedBlockBitmapOffset.toNat = 1 := by
  rw [layout.bitmapOffset]
  rfl

theorem Layout.directoryBlock {sb : SuperBlock} (layout : Layout sb) : directoryBlock sb = 35 := by
  simp [FileSystem.directoryBlock, layout.metadataBlocks, layout.metadataOffset]

/-- The disk after `umount_fs`: blocks 0 and 2 to 35 are rewritten. -/
def savedImage (s : State) (img : Image) : Image := fun b =>
  if b = 0 then superblockHolder s.superblock
  else if b = 35 then directoryHolder s.directory (superblockHolder s.superblock)
  else if 2 ≤ b ∧ b < 35 then saveWindow s.inodeTable (b - 2)
  else img b

theorem umountFs_eq {s : State} {d name : String} {img : Image} (layout : Layout s.superblock)
    (active : s.disk.active = some d) (file : s.disk.files d = some img) :
    umountFs s (some name) = (0, { s.closeAll with
      disk := ⟨Function.update s.disk.files d (some (savedImage s img)), none⟩
      openDiskFd := -1 }) := by
  have offset : s.superblock.inodeMetadataOffset.toNat = 2 := by
    rw [layout.metadataOffset]
    rfl
  have blocks : s.superblock.inodeMetadataBlocks.toNat = 33 := by
    rw [layout.metadataBlocks]
    rfl
  have first : s.disk.blockWrite 0 (superblockHolder s.superblock) =
      some (Disk.holding s.disk.files d
        (Function.update img 0 (superblockHolder s.superblock))) := by
    have write := Disk.holding_blockWrite s.disk.files d img 0 (by decide)
      (superblockHolder s.superblock)
    rwa [← Disk.eq_holding active file] at write
  -- the blocks written do not overlap: 0, 2 to 34, and 35 for the directory
  have saved : (fun b => if s.superblock.inodeMetadataOffset.toNat + 0 ≤ b ∧
        b < s.superblock.inodeMetadataOffset.toNat + 0 + 33
      then saveWindow s.inodeTable (b - s.superblock.inodeMetadataOffset.toNat)
      else Function.update (Function.update img 0 (superblockHolder s.superblock)) 35
        (directoryHolder s.directory (superblockHolder s.superblock)) b) = savedImage s img := by
    funext b
    simp only [savedImage, offset, Function.update_apply]
    by_cases zero : b = 0
    · simp [zero]
    · by_cases dir : b = 35
      · simp [dir]
      · simp [zero, dir]
  rw [umountFs, if_neg (by simp)]
  simp only [first, layout.directoryBlock, blocks]
  rw [Disk.holding_blockWrite _ _ _ _ (by decide)]
  simp only
  rw [saveInodeTable_eq _ _ _ _ _ (by rw [offset]; decide), saved]
  simp [Disk.closeDisk, Disk.holding]

/-! ### Mounting -/

/-- The globals after `mount_fs` of the disk `d` with blocks `img`, whose metadata windows
hold the words `v`, in a process with globals `s`. -/
structure Mounted (s : State) (d : String) (img : Image) (v : Nat → Word) (t : State) : Prop where
  openDiskFd : t.openDiskFd = 0
  superblock : t.superblock = loadSuperblock (img 0)
  entry : ∀ e < maxNumOfFiles, t.directory e = loadDirEntry (img 35) (dirEntryBytes * e)
  savedWord : ∀ w < savedWords, t.inodeTable w = v w
  otherWord : ∀ w, savedWords ≤ w → t.inodeTable w = s.inodeTable w
  bitmap : ∀ i, t.usedBlockBitmap i =
    if i < (loadSuperblock (img 0)).usedBlockBitmapCount.toNat then img 1 i else s.usedBlockBitmap i
  descriptor : ∀ j < maxFileDescriptors, t.openFileDescriptors j = ⟨false, -1, 0⟩
  disk : t.disk = ⟨s.disk.files, some d⟩

/-- What `mount_fs` does with a disk that has the layout of `make_fs`. -/
theorem mountFs_spec {s : State} {d : String} {img : Image} {v : Nat → Word}
    (closed : s.disk.active = none) (file : s.disk.files d = some img)
    (layout : Layout (loadSuperblock (img 0)))
    (words : ∀ j w, j < 33 → windowAddr j ≤ w → w < windowAddr j + blockSize / 8 →
      BitVec.ofNat 64 (value (fun k => img (2 + j) (8 * (w - windowAddr j) + k)) 8) = v w) :
    ((loadSuperblock (img 0)).usedBlockBitmapCount.toNat > bitmapBytes ∧
      mountFs s (some d) = none) ∨
    ((loadSuperblock (img 0)).usedBlockBitmapCount.toNat ≤ bitmapBytes ∧
      ∃ t, mountFs s (some d) = some (0, t) ∧ Mounted s d img v t) := by
  have offset : (loadSuperblock (img 0)).inodeMetadataOffset.toNat = 2 := by
    rw [layout.metadataOffset]
    rfl
  have blocks : (loadSuperblock (img 0)).inodeMetadataBlocks.toNat = 33 := by
    rw [layout.metadataBlocks]
    rfl
  have bitmapAt : (loadSuperblock (img 0)).usedBlockBitmapOffset.toNat = 1 := by
    rw [layout.bitmapOffset]
    rfl
  have opened : s.disk.openDisk (some d) = (0, ⟨s.disk.files, some d⟩) := by
    simp [Disk.openDisk, closed, file]
  have image : Disk.image ⟨s.disk.files, some d⟩ = some img := by simp [Disk.image, file]
  have read : ∀ block : Nat, block < diskBlocks →
      Disk.blockRead ⟨s.disk.files, some d⟩ block = some (img block) :=
    fun block => Disk.blockRead_of_image image
  -- the globals when the inode table is about to be read
  let s₁ : State := { s with
    disk := ⟨s.disk.files, some d⟩
    superblock := loadSuperblock (img 0)
    directory := fun e => if e < maxNumOfFiles then loadDirEntry (img 35) (dirEntryBytes * e)
      else s.directory e }
  obtain ⟨table, loaded, inside, outside⟩ := loadInodeTable_eq s₁ v 0 33
    image (show (loadSuperblock (img 0)).inodeMetadataOffset.toNat + 0 + 33 ≤ diskBlocks by
      rw [offset]; decide)
    (by decide)
    (fun j w _ below lower upper => by
      have := words j w (by omega) lower upper
      rwa [← offset] at this)
  have unfolded : mountFs s (some d) =
      if (loadSuperblock (img 0)).usedBlockBitmapCount.toNat > bitmapBytes then none
      else some (0, { s₁ with
        inodeTable := table
        usedBlockBitmap := fun i =>
          if i < (loadSuperblock (img 0)).usedBlockBitmapCount.toNat then img 1 i
          else s.usedBlockBitmap i
        openFileDescriptors := fun j =>
          if j < maxFileDescriptors then ⟨false, -1, 0⟩ else s.openFileDescriptors j
        openDiskFd := 0 }) := by
    rw [mountFs, if_neg (by simp)]
    simp only [opened]
    rw [if_neg (by decide)]
    rw [show Disk.blockRead ⟨s.disk.files, some d⟩ 0 = some (img 0) from read 0 (by decide)]
    simp only [layout.directoryBlock]
    rw [read 35 (by decide)]
    simp only [blocks]
    rw [show loadInodeTable _ 0 33 = _ from loaded]
    simp only [s₁, bitmapAt]
    rw [show Disk.blockRead ⟨s.disk.files, some d⟩ ((1 : Nat) : Int) = some (img 1) from
      read 1 (by decide)]
  by_cases exceeds : (loadSuperblock (img 0)).usedBlockBitmapCount.toNat > bitmapBytes
  · left
    exact ⟨exceeds, by rw [unfolded, if_pos exceeds]⟩
  · right
    refine ⟨by omega, _, by rw [unfolded, if_neg exceeds], ?_⟩
    exact {
      openDiskFd := rfl
      superblock := rfl
      entry := fun e below => if_pos below
      savedWord := fun w below => inside w ((covered_iff w).mpr below)
      otherWord := fun w above => outside w (mt (covered_iff w).mp (by omega))
      bitmap := fun i => rfl
      descriptor := fun j below => if_pos below
      disk := rfl }

end OperatingSys.FileSystem
