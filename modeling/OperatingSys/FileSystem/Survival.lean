import OperatingSys.FileSystem.Calls

/-!
# What survives unmounting

`umount_fs` writes the superblock, the inode table and the directory, but not the bitmap,
and the allocator hands out the blocks it writes them to. So the bitmap only comes back when
block 1 happens to hold it, and the contents of files only when no file has more than
block 1.
-/

namespace OperatingSys.FileSystem

open Search

/-! ### The bitmap -/

/-- The bitmap of `s` comes back in a new process, from a copy that stays within the bitmap
and within the block it is read from. -/
def BitmapSurvives (s : State) (d : String) : Prop :=
  ∃ t, remount s d = some (0, t) ∧
    (∀ i < bitmapBytes, t.usedBlockBitmap i = s.usedBlockBitmap i) ∧
    t.superblock.usedBlockBitmapCount.toNat ≤ bitmapBytes ∧
    t.superblock.usedBlockBitmapCount.toNat ≤ blockSize

/-- Block 1 of the disk starts with the bytes of the bitmap that `mount_fs` will copy. -/
def HoldsBitmap (s : State) : Prop :=
  ∃ block, s.disk.blockRead 1 = some block ∧
    ∀ i < s.superblock.usedBlockBitmapCount.toNat, block i = s.usedBlockBitmap i

instance (s : State) : Decidable (HoldsBitmap s) :=
  match read : s.disk.blockRead 1 with
  | some block =>
    decidable_of_iff (∀ i < s.superblock.usedBlockBitmapCount.toNat, block i = s.usedBlockBitmap i)
      ⟨fun holds => ⟨block, read, holds⟩,
      fun ⟨_, read', holds⟩ => Option.some.inj (read.symm.trans read') ▸ holds⟩
  | none => isFalse fun ⟨_, read', _⟩ => Option.some_ne_none _ (read'.symm.trans read)

section Bitmap

variable {d : String} {nm : Nat → CString} {m : Nat} {s : State}

/-- No bit is set behind the bytes that `mount_fs` copies. -/
theorem Allotted.byte_zero (allotted : Allotted d m s) {i : Nat}
    (behind : s.superblock.usedBlockBitmapCount.toNat ≤ i) : s.usedBlockBitmap i = 0 := by
  apply BitVec.eq_of_getLsbD_eq
  intro r inByte
  have index : (8 * i + r) / 8 = i ∧ (8 * i + r) % 8 = r := by omega
  have bit := allotted.counted (8 * i + r)
  rw [getBit_eq_getLsbD, index.1, index.2] at bit
  have clear : (s.usedBlockBitmap i).getLsbD r = false := by
    rw [← Bool.not_eq_true, bit]
    omega
  rw [clear]
  simp

theorem Allotted.bitmap_survives (allotted : Allotted d m s) :
    BitmapSurvives s d ↔
      s.superblock.usedBlockBitmapCount.toNat ≤ bitmapBytes ∧ HoldsBitmap s := by
  obtain ⟨active, isSome⟩ := allotted.onDisk
  obtain ⟨img, file⟩ := Option.isSome_iff_exists.mp isSome
  have opened : s.disk.image = some img := by simp [Disk.image, active, file]
  have block : s.disk.blockRead 1 = some (img 1) :=
    Disk.blockRead_of_image opened (by decide)
  rcases remount_spec allotted.layout active file with
    ⟨exceeds, none_⟩ | ⟨fits, p, t, -, zero, -, some_, mounted⟩
  · constructor
    · rintro ⟨t, some_, -⟩
      rw [none_] at some_
      exact absurd some_ (by simp)
    · rintro ⟨fits, -⟩
      omega
  -- `mount_fs` copies as many bytes as blocks are in use, and `umount_fs` has not written
  -- the block they come from
  · have bytes : ∀ i, t.usedBlockBitmap i =
        if i < s.superblock.usedBlockBitmapCount.toNat then img 1 i else 0 := by
      intro i
      rw [mounted.bitmap, savedImage_superblock, savedImage_bitmap, zero]
    constructor
    · rintro ⟨t', some', same, -, -⟩
      have eq : t' = t := by
        rw [some_] at some'
        simpa using some'.symm
      subst eq
      refine ⟨fits, img 1, block, fun i below => ?_⟩
      rw [← same i (by omega), bytes, if_pos below]
    · rintro ⟨-, block', read, holds⟩
      obtain rfl : img 1 = block' := Option.some.inj (block.symm.trans read)
      have super : t.superblock = s.superblock := by
        rw [mounted.superblock, savedImage_superblock]
      refine ⟨t, some_, fun i _ => ?_, by rw [super]; exact fits, ?_⟩
      · rw [bytes]
        split
        next below => exact holds i below
        next behind => exact (allotted.byte_zero (by omega)).symm
      · rw [super]
        exact Nat.le_trans fits (by decide)

end Bitmap

/-- **Allocator state.** In a state that growing calls reach on a new disk, the bitmap
survives unmounting exactly when its count does not overrun it and block 1 already holds it:
`umount_fs` does not write it. -/
theorem bitmapSurvives_iff {d : String} {s t : State} (started : Started d s)
    (reached : Machine.Reaches call Growing s t) :
    BitmapSurvives t d ↔
      t.superblock.usedBlockBitmapCount.toNat ≤ bitmapBytes ∧ HoldsBitmap t := by
  obtain ⟨nm, m, consistent⟩ := started.consistent reached
  exact consistent.allotted.bitmap_survives

/-- One file, with the two bytes in it that the bitmap has once block 1 is in use. -/
def bitmapInFileRun : List Call :=
  [.create nameA, .open nameA, .write 0 [2, 0]]

/-- The bitmap comes back because the file holds the same bytes. -/
theorem bitmapSurvives_iff_inFile :
    (Machine.run call newDisk bitmapInFileRun).map Prod.fst = some [(0, []), (0, []), (2, [])] ∧
      (afterCalls bitmapInFileRun).usedBlockBitmap 0 = 2 ∧
      (afterCalls bitmapInFileRun).superblock.usedBlockBitmapCount = 2 ∧
      BitmapSurvives (afterCalls bitmapInFileRun) "disk" := by
  have runs : (Machine.run call newDisk bitmapInFileRun).isSome = true := by decide +kernel
  obtain ⟨replies, ran⟩ := run_afterCalls runs
  refine ⟨by decide +kernel, by decide +kernel, by decide +kernel, ?_⟩
  exact (bitmapSurvives_iff newDisk_started ⟨bitmapInFileRun, replies, by decide +kernel, ran⟩).mpr
    (by decide +kernel)

/-- One file with one byte in it. -/
def oneByteRun : List Call :=
  [.create nameA, .open nameA, .write 0 [7#8]]

set_option maxRecDepth 100000 in
/-- The data took the place of the bitmap on the disk. -/
theorem bitmap_lost_one_byte :
    Started "disk" newDisk ∧ Machine.Reaches call Growing newDisk (afterCalls oneByteRun) ∧
      ¬ BitmapSurvives (afterCalls oneByteRun) "disk" := by
  have runs : (Machine.run call newDisk oneByteRun).isSome = true := by decide
  obtain ⟨replies, ran⟩ := run_afterCalls runs
  have reached : Machine.Reaches call Growing newDisk (afterCalls oneByteRun) :=
    ⟨oneByteRun, replies, by decide, ran⟩
  refine ⟨newDisk_started, reached, fun survives => ?_⟩
  obtain ⟨nm, m, consistent⟩ := newDisk_started.consistent reached
  obtain ⟨-, block, read, holds⟩ := consistent.allotted.bitmap_survives.mp survives
  have byte : ((afterCalls oneByteRun).disk.blockRead 1).map (fun b => b 0) = some 7 := by
    decide +kernel
  have bits : (afterCalls oneByteRun).usedBlockBitmap 0 = 2 := by decide
  have first := holds 0 (by decide)
  rw [read, Option.map_some, first, bits] at byte
  exact absurd byte (by decide)

/-! ### The contents of files -/

/-- `fs_open(name)`, then `fs_read` of `nbyte` bytes. -/
def openAndRead (s : State) (name : CString) (nbyte : Nat) : Option Reply :=
  let (fildes, s') := fsOpen s name
  (fsRead s' fildes nbyte).map fun r => (r.1, r.2.1)

/-- For every file of `s`, opening and reading its whole size delivers in `t` what it would
have delivered in `s` once the descriptors were closed. -/
def ReadsBack (s t : State) : Prop :=
  ∀ e name, s.Present e → strlen name ≤ maxFileName → (s.directory e).name = strncpy name →
    ∃ bytes, openAndRead s.closeAll name (s.fileSize (s.inodeOf e)) =
        some ((s.fileSize (s.inodeOf e) : Int), bytes) ∧
      openAndRead t name (s.fileSize (s.inodeOf e)) =
        some ((s.fileSize (s.inodeOf e) : Int), bytes)

/-- A file of the directory has block `b`. -/
def State.Owns (s : State) (b : Nat) : Prop :=
  ∃ e k, s.Present e ∧ k < directCount ∧ s.directOffset (s.inodeOf e) k ≠ 0 ∧
    (s.directOffset (s.inodeOf e) k).toNat = b

/-- The blocks that `umount_fs` writes: superblock, inode table, directory. -/
def WrittenByUmount (sb : SuperBlock) (b : Nat) : Prop :=
  b = 0 ∨ (sb.inodeMetadataOffset.toNat ≤ b ∧
    b < sb.inodeMetadataOffset.toNat + sb.inodeMetadataBlocks.toNat) ∨ b = directoryBlock sb

/-- The files of `s` survive `umount_fs` and `mount_fs`, in the same process and in a new one,
and nothing that `umount_fs` writes was theirs. -/
structure ContentsSurvive (s : State) (d : String) : Prop where
  inPlace : ∃ t, remountInPlace s d = some (0, t) ∧ ReadsBack s t
  newProcess : ∃ t, remount s d = some (0, t) ∧ ReadsBack s t
  apart : ∀ b, WrittenByUmount s.superblock b → ¬ s.Owns b

section Contents

variable {d : String} {nm : Nat → CString} {m : Nat} {s : State}

theorem Catalogue.fileCount (catalogue : Catalogue nm m s) : s.fileCount = m := by
  have files : (Finset.range maxNumOfFiles).filter (fun e => (s.directory e).isUsed = true) =
      Finset.range m := by
    ext e
    rw [Finset.mem_filter, Finset.mem_range, Finset.mem_range]
    exact catalogue.present_iff e
  rw [State.fileCount, files, Finset.card_range]

/-- Storing a descriptor that points into its file keeps everything readable. -/
theorem Readable.storeDescriptor (readable : Readable d nm m s) (j off : Nat) {i : Nat} (file : i < m)
    (inFile : off ≤ s.fileSize i) : Readable d nm m (s.storeDescriptor j ⟨true, i, off⟩) where
  catalogue := { readable.catalogue with }
  onDisk := readable.onDisk
  extent := {
    size := readable.extent.size
    covered := readable.extent.covered
    descriptor := fun j' below isUsed => by
      simp only [State.storeDescriptor, Function.update_apply] at isUsed ⊢
      split at isUsed
      next here =>
        rw [if_pos here]
        exact ⟨i, off, file, rfl, inFile⟩
      next elsewhere =>
        rw [if_neg elsewhere]
        exact readable.extent.descriptor j' below isUsed }
  inDisk := readable.inDisk

/-- With every descriptor free, opening a file and reading its size delivers its contents. -/
theorem Readable.openAndRead_eq (readable : Readable d nm m s)
    (closed : ∀ j < maxFileDescriptors, (s.openFileDescriptors j).isUsed = false)
    {name : CString} (fits : strlen name ≤ maxFileName) {e : Nat} (file : e < m)
    (named : nm e = name) :
    openAndRead s name (s.fileSize e) =
      some ((s.fileSize e : Int), s.contents e) := by
  -- with all descriptors closed, descriptor 0 is the lowest free one
  have free : firstIndex maxFileDescriptors (fun j => !(s.openFileDescriptors j).isUsed) = some 0 :=
    firstIndex_eq_some.mpr ⟨by decide, by simp [closed 0 (by decide)],
      fun j before => absurd before (Nat.not_lt_zero j)⟩
  have opened := fsOpen_found readable.catalogue fits file named
  simp only [free] at opened
  have isOpen : (s.storeDescriptor 0 ⟨true, e, (0 : Nat)⟩).isOpen (0 : Nat) = true := by
    simp [State.isOpen, State.storeDescriptor, maxFileDescriptors]
  have read := fsRead_spec (readable.storeDescriptor 0 0 file (Nat.zero_le _))
    isOpen file (by simp [At, State.storeDescriptor]) (Nat.zero_le _) (s.fileSize e)
  have whole : ((s.contents e).drop 0).take (s.fileSize e) = s.contents e := by
    rw [List.drop_zero, List.take_of_length_le (by rw [State.length_contents])]
  have same : (s.storeDescriptor 0 ⟨true, e, (0 : Nat)⟩).contents e = s.contents e := rfl
  rw [same, whole, State.length_contents] at read
  simp only [openAndRead, opened]
  exact congrArg (Option.map fun r => (r.1, r.2.1)) read

theorem Consistent.closeAll_readable (consistent : Consistent d nm m s) :
    Readable d nm m s.closeAll where
  catalogue := { consistent.catalogue with }
  onDisk := consistent.allotted.onDisk
  extent := {
    size := consistent.extent.size
    covered := consistent.extent.covered
    descriptor := fun j below isUsed => by
      simp only [State.closeAll, below, true_and] at isUsed
      split at isUsed
      next => exact absurd isUsed (by decide)
      next unused => exact absurd isUsed unused }
  inDisk := consistent.readable.inDisk

section Restored

variable {p t : State} {img : Image} (consistent : Consistent d nm m s)
  (mounted : Mounted p d (savedImage s img) s.inodeTable t)
  (file : s.disk.files d = some img) (saved : p.disk.files d = some (savedImage s img))
  (few : m ≤ 33)
include mounted few

/-- The words of the first 33 inodes are saved. -/
private theorem restored_word {i w : Nat} (inFiles : i < m) (inside : w < inodeWords) :
    t.inodeTable (inodeWords * i + w) = s.inodeTable (inodeWords * i + w) := by
  apply mounted.savedWord
  simp only [savedWords, inodeWords] at *
  omega

private theorem restored_directOffset {i k : Nat} (inFiles : i < m) (below : k < directCount) :
    t.directOffset i k = s.directOffset i k := by
  have word := restored_word mounted few inFiles (w := 1 + k) (by
    simp only [directCount, inodeWords] at *
    omega)
  simpa only [State.directOffset, directOffsetAddr, Nat.add_assoc] using word

private theorem restored_fileSize {i : Nat} (inFiles : i < m) : t.fileSize i = s.fileSize i := by
  have word := restored_word mounted few inFiles (w := 259) (by decide)
  rw [fileSize_eq_iff]
  exact word

include consistent

/-- The catalogue comes back, also where the words of an unused inode are not saved. -/
private theorem restored_catalogue
    (unsaved : ∀ w, savedWords ≤ w → p.inodeTable w = s.inodeTable w ∨ p.inodeTable w = 0) :
    Catalogue nm m t := by
  have old := consistent.catalogue
  have entry : ∀ e < maxNumOfFiles, t.directory e = s.directory e := fun e below => by
    rw [mounted.entry e below, savedImage_entry s img below]
  refine ⟨?_, old.bound, fun e below => ?_, fun e inFiles => ?_, fun i below => ?_,
    fun e inFiles => ?_, old.short, old.different⟩
  · rw [mounted.openDiskFd]
    decide
  · rw [entry e below]
    exact old.isUsed e below
  · rw [entry e (old.below inFiles)]
    exact old.number e inFiles
  · by_cases inSaved : fileTypeAddr i < savedWords
    · rw [State.fileType, mounted.savedWord _ inSaved]
      exact old.untyped i below
    · have above : savedWords ≤ fileTypeAddr i := by omega
      have late : m ≤ i := by
        simp only [savedWords, fileTypeAddr, inodeWords] at above
        omega
      have unused := (old.untyped i below).mpr late
      rw [State.fileType, mounted.otherWord _ above]
      refine iff_of_true ?_ late
      rcases unsaved _ above with same | zero
      · rw [same]
        exact unused
      · exact zero
  · rw [entry e (old.below inFiles)]
    exact old.named e inFiles

include saved

private theorem restored_readable (catalogue : Catalogue nm m t) : Readable d nm m t where
  catalogue := catalogue
  onDisk := by
    rw [State.MountedOn, mounted.disk]
    exact ⟨rfl, by simp [saved]⟩
  extent := {
    size := fun i inFiles => by
      rw [restored_fileSize mounted few inFiles]
      exact consistent.extent.size i inFiles
    covered := fun i inFiles k inFile => by
      rw [restored_fileSize mounted few inFiles] at inFile
      rw [restored_directOffset mounted few inFiles
        (index_lt_directCount inFile (consistent.extent.size i inFiles))]
      exact consistent.extent.covered i inFiles k inFile
    descriptor := fun j below isUsed => by
      rw [mounted.descriptor j below] at isUsed
      exact absurd isUsed (by decide) }
  inDisk := fun i inFiles k below used => by
    rw [restored_directOffset mounted few inFiles below] at used ⊢
    exact consistent.readable.inDisk i inFiles k below used

include file

/-- With at most block 1 in use, no block of a file has been rewritten. -/
private theorem restored_contents (small : s.superblock.usedBlockBitmapCount.toNat ≤ 2) {i : Nat}
    (inFiles : i < m) : t.contents i = s.contents i := by
  refine State.contents_congr (restored_fileSize mounted few inFiles) fun q inside => ?_
  have inFile : q / blockSize * blockSize < s.fileSize i := blockStart_lt inside
  have below := index_lt_directCount inFile (consistent.extent.size i inFiles)
  have used := consistent.extent.covered i inFiles _ inFile
  have bit := (consistent.allotted.counted _).mp (consistent.marked inFiles below used)
  have one : (s.directOffset i (q / blockSize)).toNat = 1 := by omega
  have after : t.disk.image = some (savedImage s img) := by
    rw [mounted.disk, Disk.image, Option.bind_some, saved]
  have before : s.disk.image = some img := by
    rw [Disk.image, consistent.allotted.onDisk.1, Option.bind_some, file]
  simp only [State.byteAt, after, before,
    restored_directOffset mounted few inFiles below, one, savedImage_bitmap]

private theorem restored_readsBack
    (unsaved : ∀ w, savedWords ≤ w → p.inodeTable w = s.inodeTable w ∨ p.inodeTable w = 0)
    (small : s.superblock.usedBlockBitmapCount.toNat ≤ 2) : ReadsBack s t := by
  have catalogue := consistent.catalogue
  have readable := restored_readable consistent mounted saved few
    (restored_catalogue consistent mounted few unsaved)
  intro e name present fits stored
  have inFiles := (catalogue.present_iff e).mp present
  have named : nm e = name := by
    rw [catalogue.named e inFiles] at stored
    refine (stored_matches_short (catalogue.short e inFiles) fits).mp ?_
    rw [stored]
    exact (stored_matches_short fits fits).mpr rfl
  rw [catalogue.inodeOf inFiles]
  refine ⟨s.contents e, ?_, ?_⟩
  · exact consistent.closeAll_readable.openAndRead_eq (fun j below => by
      simp only [State.closeAll, below, true_and]
      split
      · rfl
      next unused => simpa using unused) fits inFiles named
  · have size := restored_fileSize mounted few inFiles
    have read := readable.openAndRead_eq (fun j below => by rw [mounted.descriptor j below]) fits
      inFiles named
    rwa [restored_contents consistent mounted file saved few small inFiles, size] at read

end Restored

theorem Consistent.contents_survive (consistent : Consistent d nm m s) (few : m ≤ 33) :
    ContentsSurvive s d ↔ s.superblock.usedBlockBitmapCount.toNat ≤ 2 := by
  have layout := consistent.allotted.layout
  have offset : s.superblock.inodeMetadataOffset.toNat = 2 := by
    rw [layout.metadataOffset]
    rfl
  have blocks : s.superblock.inodeMetadataBlocks.toNat = 33 := by
    rw [layout.metadataBlocks]
    rfl
  obtain ⟨active, isSome⟩ := consistent.allotted.onDisk
  obtain ⟨img, file⟩ := Option.isSome_iff_exists.mp isSome
  constructor
  · intro survives
    -- else block 2 has been handed out, and it is the first block of the inode table
    by_contra large
    obtain ⟨i, inFiles, k, below, block⟩ :=
      consistent.allotted.taken 2 ((consistent.allotted.counted 2).mpr ⟨by decide, by omega⟩)
    have inode := consistent.catalogue.inodeOf inFiles
    refine survives.apart 2 (Or.inr (Or.inl ⟨by omega, by omega⟩))
      ⟨i, k, (consistent.catalogue.present_iff i).mpr inFiles, below, ?_, by rw [inode, block]⟩
    intro zero
    rw [inode] at zero
    rw [zero] at block
    exact absurd block (by decide)
  · intro small
    have fits : s.superblock.usedBlockBitmapCount.toNat ≤ bitmapBytes :=
      Nat.le_trans small (by decide)
    refine ⟨?_, ?_, fun b written => ?_⟩
    · obtain ⟨p, t, table, saved, some_, mounted⟩ := remountInPlace_spec layout active file fits
      exact ⟨t, some_, restored_readsBack consistent mounted file saved few
        (fun w _ => Or.inl (by rw [table])) small⟩
    · rcases remount_spec layout active file with
        ⟨exceeds, -⟩ | ⟨-, p, t, zero, -, saved, some_, mounted⟩
      · omega
      · exact ⟨t, some_, restored_readsBack consistent mounted file saved few
          (fun w _ => Or.inr (by rw [zero])) small⟩
    · rintro ⟨e, k, present, below, used, rfl⟩
      have inFiles := (consistent.catalogue.present_iff e).mp present
      rw [consistent.catalogue.inodeOf inFiles] at used written
      have bit := (consistent.allotted.counted _).mp (consistent.marked inFiles below used)
      rw [WrittenByUmount, offset, blocks, layout.directoryBlock] at written
      omega

end Contents

/-- **File contents.** In a state that growing calls reach on a new disk with at most 33
files, the contents of the files survive unmounting, and `umount_fs` writes no block of
theirs, exactly when at most one block is in use. -/
theorem contentsSurvive_iff {d : String} {s t : State} (started : Started d s)
    (reached : Machine.Reaches call Growing s t) (few : t.fileCount ≤ 33) :
    ContentsSurvive t d ↔ t.superblock.usedBlockBitmapCount.toNat ≤ 2 := by
  obtain ⟨nm, m, consistent⟩ := started.consistent reached
  exact consistent.contents_survive (consistent.catalogue.fileCount ▸ few)

set_option maxRecDepth 100000 in
/-- One file in block 1. -/
theorem contentsSurvive_iff_one_byte : ContentsSurvive (afterCalls oneByteRun) "disk" := by
  have runs : (Machine.run call newDisk oneByteRun).isSome = true := by decide
  obtain ⟨replies, ran⟩ := run_afterCalls runs
  exact (contentsSurvive_iff newDisk_started ⟨oneByteRun, replies, by decide, ran⟩
    (by decide)).mpr (by decide)

/-- Two files with one byte each: the second one gets block 2. -/
def twoBlockRun : List Call :=
  [.create nameA, .create nameB, .open nameA,
    .open nameB, .write 0 [7#8], .write 1 [7#8]]

set_option maxRecDepth 100000 in
/-- Every call succeeds, and the inode table is written over the second file. -/
theorem contents_lost_two_blocks :
    Started "disk" newDisk ∧
      (Machine.run call newDisk twoBlockRun).map Prod.fst =
        some [(0, []), (0, []), (0, []), (1, []), (1, []), (1, [])] ∧
      Machine.Reaches call Growing newDisk (afterCalls twoBlockRun) ∧
      (afterCalls twoBlockRun).fileCount ≤ 33 ∧
      ¬ ContentsSurvive (afterCalls twoBlockRun) "disk" := by
  have runs : (Machine.run call newDisk twoBlockRun).isSome = true := by decide +kernel
  obtain ⟨replies, ran⟩ := run_afterCalls runs
  have reached : Machine.Reaches call Growing newDisk (afterCalls twoBlockRun) :=
    ⟨twoBlockRun, replies, by decide +kernel, ran⟩
  have few : (afterCalls twoBlockRun).fileCount ≤ 33 := by decide +kernel
  obtain ⟨nm, m, consistent⟩ := newDisk_started.consistent reached
  refine ⟨newDisk_started, by decide +kernel, reached, few, fun survives => ?_⟩
  have small := (consistent.contents_survive (consistent.catalogue.fileCount ▸ few)).mp survives
  exact absurd small (by decide +kernel)

end OperatingSys.FileSystem
