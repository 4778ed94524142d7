import OperatingSys.FileSystem.Metadata

/-!
# Unmounting and mounting again

What a new process finds after `umount_fs` and `mount_fs`. The directory always comes
back. The inode table comes back as far as its windows reach, and the words behind them
come back as the zeros of a new process.
-/

namespace OperatingSys.FileSystem

open LittleEndian

/-- The disk `d` is open and there is an image behind it. -/
def State.MountedOn (s : State) (d : String) : Prop :=
  s.disk.active = some d ∧ (s.disk.files d).isSome

/-- `umount_fs(d)`, then `mount_fs(d)` in a new process. -/
def remount (s : State) (d : String) : Option (Int × State) :=
  let (unmounted, s') := umountFs s (some d)
  if unmounted = 0 then mountFs (State.fresh s'.disk) (some d) else none

/-- Directory entries and inodes of `t` are those of `s`. -/
structure SameMetadata (s t : State) : Prop where
  entry : ∀ e < maxNumOfFiles, t.directory e = s.directory e
  fileType : ∀ i < maxNumOfFiles, t.fileType i = s.fileType i
  directOffset : ∀ i < maxNumOfFiles, ∀ k < directCount, t.directOffset i k = s.directOffset i k
  fileSize : ∀ i < maxNumOfFiles, t.fileSize i = s.fileSize i

/-- The metadata survives `umount_fs` and `mount_fs` in a new process. -/
def MetadataSurvives (s : State) (d : String) : Prop :=
  ∃ t, remount s d = some (0, t) ∧ SameMetadata s t

/-- The fields of inodes 33 to 63 that lie behind the last window are zero. -/
structure UnsavedZero (s : State) : Prop where
  direct33 : ∀ k, 251 ≤ k → k < directCount → s.directOffset 33 k = 0
  size33 : s.fileSize 33 = 0
  fileType : ∀ i, 34 ≤ i → i < maxNumOfFiles → s.fileType i = 0
  directOffset : ∀ i, 34 ≤ i → i < maxNumOfFiles → ∀ k < directCount, s.directOffset i k = 0
  fileSize : ∀ i, 34 ≤ i → i < maxNumOfFiles → s.fileSize i = 0

/-! ### The image that `umount_fs` leaves -/

section Saved

variable {s : State} {img : Image}

theorem savedImage_superblock (s : State) (img : Image) :
    loadSuperblock (savedImage s img 0) = s.superblock := by
  apply loadSuperblock_of_bytes
  intro j below
  simp [savedImage, superblockHolder, below]

theorem savedImage_entry (s : State) (img : Image) {e : Nat} (below : e < maxNumOfFiles) :
    loadDirEntry (savedImage s img 35) (dirEntryBytes * e) = s.directory e := by
  apply loadDirEntry_of_bytes
  intro j inEntry
  have inside : dirEntryBytes * e + j < dirEntryBytes * maxNumOfFiles := by
    simp only [dirEntryBytes, maxNumOfFiles] at *
    omega
  have entry : (dirEntryBytes * e + j) / dirEntryBytes = e := by
    simp only [dirEntryBytes] at *
    omega
  have field : (dirEntryBytes * e + j) % dirEntryBytes = j := by
    simp only [dirEntryBytes] at *
    omega
  simp [savedImage, directoryHolder, inside, entry, field]

theorem savedImage_words (s : State) (img : Image) {j w : Nat} (below : j < 33)
    (lower : windowAddr j ≤ w) :
    BitVec.ofNat 64 (value (fun k => savedImage s img (2 + j) (8 * (w - windowAddr j) + k)) 8) =
      s.inodeTable w := by
  have window : savedImage s img (2 + j) = saveWindow s.inodeTable j := by
    have zero : 2 + j ≠ 0 := by omega
    have dir : 2 + j ≠ 35 := by omega
    have inside : 2 ≤ 2 + j ∧ 2 + j < 35 := by omega
    simp only [savedImage, zero, dir, inside, and_self, if_true, if_false, Nat.add_sub_cancel_left]
  rw [window]
  exact value_saveWindow s.inodeTable lower

theorem savedImage_bitmap (s : State) (img : Image) : savedImage s img 1 = img 1 := by
  simp [savedImage]

end Saved

/-- `mount_fs` after `umount_fs`, in whatever process: the disk comes back unless its bitmap
count overruns the bitmap, and then the globals are described by `Mounted`. -/
theorem mountFs_saved {s p : State} {d : String} {img : Image} (layout : Layout s.superblock)
    (closed : p.disk.active = none) (file : p.disk.files d = some (savedImage s img)) :
    (s.superblock.usedBlockBitmapCount.toNat > bitmapBytes ∧ mountFs p (some d) = none) ∨
    (s.superblock.usedBlockBitmapCount.toNat ≤ bitmapBytes ∧
      ∃ t, mountFs p (some d) = some (0, t) ∧
        Mounted p d (savedImage s img) s.inodeTable t) := by
  have spec := mountFs_spec (s := p) (v := s.inodeTable) closed file
    (by rw [savedImage_superblock]; exact layout)
    (fun j w below lower _ => savedImage_words s img below lower)
  rwa [savedImage_superblock] at spec

theorem remount_spec {s : State} {d : String} {img : Image} (layout : Layout s.superblock)
    (active : s.disk.active = some d) (file : s.disk.files d = some img) :
    (s.superblock.usedBlockBitmapCount.toNat > bitmapBytes ∧ remount s d = none) ∨
    (s.superblock.usedBlockBitmapCount.toNat ≤ bitmapBytes ∧
      ∃ p t, p.inodeTable = (fun _ => 0) ∧ p.usedBlockBitmap = (fun _ => 0) ∧
        p.disk.files d = some (savedImage s img) ∧
        remount s d = some (0, t) ∧ Mounted p d (savedImage s img) s.inodeTable t) := by
  let p := State.fresh
    ⟨Function.update s.disk.files d (some (savedImage s img)), none⟩
  have unfolded : remount s d = mountFs p (some d) := by
    simp only [remount, umountFs_eq layout active file, if_true]
    rfl
  have fileSaved : p.disk.files d = some (savedImage s img) := by
    simp [p, State.fresh]
  rcases mountFs_saved (p := p) layout rfl fileSaved with ⟨exceeds, none_⟩ | ⟨fits, t, some_, mounted⟩
  · exact Or.inl ⟨exceeds, unfolded.trans none_⟩
  · exact Or.inr ⟨fits, p, t, rfl, rfl, fileSaved, unfolded.trans some_, mounted⟩

/-- `umount_fs(d)`, then `mount_fs(d)` in the same process. -/
def remountInPlace (s : State) (d : String) : Option (Int × State) :=
  let (unmounted, s') := umountFs s (some d)
  if unmounted = 0 then mountFs s' (some d) else none

theorem remountInPlace_spec {s : State} {d : String} {img : Image} (layout : Layout s.superblock)
    (active : s.disk.active = some d) (file : s.disk.files d = some img)
    (fits : s.superblock.usedBlockBitmapCount.toNat ≤ bitmapBytes) :
    ∃ p t, p.inodeTable = s.inodeTable ∧ p.disk.files d = some (savedImage s img) ∧
      remountInPlace s d = some (0, t) ∧ Mounted p d (savedImage s img) s.inodeTable t := by
  let p : State := { s.closeAll with
    disk := ⟨Function.update s.disk.files d (some (savedImage s img)), none⟩
    openDiskFd := -1 }
  have unfolded : remountInPlace s d = mountFs p (some d) := by
    simp only [remountInPlace, umountFs_eq layout active file, if_true]
    rfl
  have fileSaved : p.disk.files d = some (savedImage s img) := by
    simp [p]
  rcases mountFs_saved (p := p) layout rfl fileSaved with ⟨exceeds, -⟩ | ⟨-, t, some_, mounted⟩
  · omega
  · exact ⟨p, t, rfl, fileSaved, unfolded.trans some_, mounted⟩

/-- In a restored process the saved words are the old ones and the others are zero. -/
theorem word_of_mounted {s p t : State} {d : String} {img : Image}
    (zero : p.inodeTable = fun _ => 0) (mounted : Mounted p d (savedImage s img) s.inodeTable t)
    (w : Nat) : t.inodeTable w = s.inodeTable w ↔ (w < savedWords ∨ s.inodeTable w = 0) := by
  by_cases saved : w < savedWords
  · simp [saved, mounted.savedWord w saved]
  · rw [mounted.otherWord w (by omega), zero]
    simp [saved, eq_comm]

theorem fileSize_eq_iff (s t : State) (i : Nat) :
    t.fileSize i = s.fileSize i ↔ t.inodeTable (fileSizeAddr i) = s.inodeTable (fileSizeAddr i) :=
  BitVec.toNat_inj

theorem fileSize_eq_zero_iff (s : State) (i : Nat) :
    s.fileSize i = 0 ↔ s.inodeTable (fileSizeAddr i) = 0 := by
  rw [State.fileSize, ← BitVec.toNat_inj]
  rfl

/-- The metadata comes back exactly when what the windows miss is zero. -/
theorem sameMetadata_iff {s p t : State} {d : String} {img : Image}
    (zero : p.inodeTable = fun _ => 0) (mounted : Mounted p d (savedImage s img) s.inodeTable t) :
    SameMetadata s t ↔ UnsavedZero s := by
  have word := word_of_mounted zero mounted
  constructor
  · intro same
    -- a word that is not saved comes back as 0, so that it had to be 0 before
    have unsaved : ∀ w, savedWords ≤ w → t.inodeTable w = s.inodeTable w → s.inodeTable w = 0 := by
      intro w above eq
      rcases (word w).mp eq with below | zeroWord
      · omega
      · exact zeroWord
    refine ⟨fun k lower below => ?_, ?_, fun i lower below => ?_, fun i lower below k inTable => ?_,
      fun i lower below => ?_⟩
    · apply unsaved _ _ (same.directOffset 33 (by decide) k below)
      simp only [savedWords, directOffsetAddr, inodeWords]
      omega
    · rw [fileSize_eq_zero_iff]
      apply unsaved _ _ ((fileSize_eq_iff s t 33).mp (same.fileSize 33 (by decide)))
      decide
    · apply unsaved _ _ (same.fileType i below)
      simp only [savedWords, fileTypeAddr, inodeWords]
      omega
    · apply unsaved _ _ (same.directOffset i below k inTable)
      simp only [savedWords, directOffsetAddr, inodeWords]
      omega
    · rw [fileSize_eq_zero_iff]
      apply unsaved _ _ ((fileSize_eq_iff s t i).mp (same.fileSize i below))
      simp only [savedWords, fileSizeAddr, inodeWords]
      omega
  · intro missed
    refine ⟨fun e below => ?_, fun i below => (word _).mpr ?_, fun i below k inTable => (word _).mpr ?_,
      fun i below => (fileSize_eq_iff s t i).mpr ((word _).mpr ?_)⟩
    · rw [mounted.entry e below, savedImage_entry s img below]
    · by_cases late : 34 ≤ i
      · exact Or.inr (missed.fileType i late below)
      · left
        simp only [savedWords, fileTypeAddr, inodeWords]
        omega
    -- 33 blocks of 4096 bytes end in the middle of inode 33, after 251 entries of `direct_offset`
    · by_cases late : 34 ≤ i
      · exact Or.inr (missed.directOffset i late below k inTable)
      · by_cases edge : i = 33 ∧ 251 ≤ k
        · obtain ⟨rfl, lower⟩ := edge
          exact Or.inr (missed.direct33 k lower inTable)
        · left
          simp only [savedWords, directOffsetAddr, inodeWords, directCount] at *
          omega
    · by_cases late : 34 ≤ i
      · exact Or.inr ((fileSize_eq_zero_iff s i).mp (missed.fileSize i late below))
      · by_cases edge : i = 33
        · subst edge
          exact Or.inr ((fileSize_eq_zero_iff s 33).mp missed.size33)
        · left
          simp only [savedWords, fileSizeAddr, inodeWords]
          omega

/-- **Metadata round trip.** On a disk with the layout of `make_fs`, the 64 directory
entries and the 64 inodes come back in a new process exactly when the bitmap count does
not overrun the bitmap and the part of the inode table behind the last window is zero. -/
theorem metadataSurvives_iff (s : State) (d : String) (layout : Layout s.superblock)
    (mounted : s.MountedOn d) :
    MetadataSurvives s d ↔
      s.superblock.usedBlockBitmapCount.toNat ≤ bitmapBytes ∧ UnsavedZero s := by
  obtain ⟨active, isSome⟩ := mounted
  obtain ⟨img, file⟩ := Option.isSome_iff_exists.mp isSome
  rcases remount_spec layout active file with ⟨exceeds, none_⟩ | ⟨fits, p, t, zero, -, -, some_, mounted⟩
  · constructor
    · rintro ⟨t, some_, -⟩
      simp [none_] at some_
    · intro ⟨fits, _⟩
      omega
  · constructor
    · rintro ⟨t', some', same⟩
      have eq : t' = t := by
        rw [some_] at some'
        simpa using some'.symm
      subst eq
      exact ⟨fits, (sameMetadata_iff zero mounted).mp same⟩
    · rintro ⟨-, missed⟩
      exact ⟨t, some_, (sameMetadata_iff zero mounted).mpr missed⟩

/-- A mounted disk on which inode `i` alone is in use. -/
def oneInode (i : Nat) : State :=
  { State.fresh ⟨fun _ => none, none⟩ with
    openDiskFd := 0
    superblock := freshSuperblock
    inodeTable := Function.update (fun _ => 0) (fileTypeAddr i) 1
    disk := ⟨fun _ => some fun _ _ => 0, some "disk"⟩ }

theorem oneInode_layout (i : Nat) : Layout (oneInode i).superblock := ⟨rfl, rfl, rfl⟩

theorem oneInode_mounted (i : Nat) : (oneInode i).MountedOn "disk" := ⟨rfl, rfl⟩

theorem oneInode_word (i w : Nat) (ne : w ≠ fileTypeAddr i) : (oneInode i).inodeTable w = 0 := by
  simp [oneInode, ne]

/-- Inode 5 lies within the windows. -/
theorem metadataSurvives_iff_inode5 : MetadataSurvives (oneInode 5) "disk" := by
  refine (metadataSurvives_iff (oneInode 5) "disk" (oneInode_layout 5) (oneInode_mounted 5)).mpr
    ⟨by decide, ?_⟩
  have word := oneInode_word 5
  refine ⟨fun k lower below => word _ ?_, (fileSize_eq_zero_iff _ _).mpr (word _ (by decide)),
    fun i lower below => word _ ?_, fun i lower below k inTable => word _ ?_,
    fun i lower below => (fileSize_eq_zero_iff _ _).mpr (word _ ?_)⟩
  all_goals
    simp only [directOffsetAddr, fileTypeAddr, fileSizeAddr, inodeWords]
    omega

/-- Inode 34, the inode of the 35th file, does not come back. -/
theorem metadata_lost_inode34 :
    Layout (oneInode 34).superblock ∧ (oneInode 34).MountedOn "disk" ∧
      ¬ MetadataSurvives (oneInode 34) "disk" := by
  refine ⟨oneInode_layout 34, oneInode_mounted 34, ?_⟩
  rintro ⟨t, some_, same⟩
  rcases remount_spec (oneInode_layout 34) rfl rfl with
    ⟨-, none_⟩ | ⟨-, p, t', zero, -, -, some', mounted⟩
  · simp [none_] at some_
  · have eq : t = t' := by
      rw [some_] at some'
      simpa using some'
    subst eq
    rcases (word_of_mounted zero mounted _).mp (same.fileType 34 (by decide)) with saved | zeroWord
    · exact absurd saved (by decide)
    · simp [oneInode] at zeroWord

/-! ### Mounting and unmounting again -/

/-- The two images agree on the disk. -/
def SameImage (img img' : Image) : Prop := ∀ b < diskBlocks, ∀ j < blockSize, img' b j = img b j

/-- What the last of the windows ends with is saved. -/
theorem window_saved {i j : Nat} (below : i < 33) (inBlock : j < blockSize) :
    (8 * windowAddr i + j) / 8 < savedWords := by
  simp only [windowAddr_eq, savedWords, blockSize] at *
  omega

/-- A process that has mounted what was saved saves it once more as it is. -/
theorem savedImage_saved {s p t : State} {d : String} {img : Image}
    (mounted : Mounted p d (savedImage s img) s.inodeTable t) :
    SameImage (savedImage s img) (savedImage t (savedImage s img)) := by
  have superblock : t.superblock = s.superblock :=
    mounted.superblock.trans (savedImage_superblock s img)
  intro b _ j inBlock
  by_cases zero : b = 0
  · simp only [savedImage, zero, if_true, superblock]
  by_cases dir : b = 35
  · subst dir
    have block : ∀ (u : State) (old : Image), savedImage u old 35 =
        directoryHolder u.directory (superblockHolder u.superblock) := fun _ _ => rfl
    rw [block, block, superblock, directoryHolder, directoryHolder]
    split
    next inside =>
      have entry : j / dirEntryBytes < maxNumOfFiles := by
        simp only [dirEntryBytes, maxNumOfFiles] at *
        omega
      rw [mounted.entry _ entry, savedImage_entry s img entry]
    next => rfl
  by_cases table : 2 ≤ b ∧ b < 35
  · have word := mounted.savedWord _ (window_saved (i := b - 2) (by omega) inBlock)
    simp only [savedImage, zero, dir, table, and_self, if_true, if_false, saveWindow, inodeTableByte,
      word]
  · simp only [savedImage, zero, dir, table, if_false]

/-- **Remounting is harmless.** `mount_fs` and `umount_fs` of an unmounted disk, in whatever
process, leave the disk as it is. -/
theorem remount_harmless {s : State} {d : String} (layout : Layout s.superblock)
    (mounted : s.MountedOn d) (fits : s.superblock.usedBlockBitmapCount.toNat ≤ bitmapBytes) :
    ∃ s' img, umountFs s (some d) = (0, s') ∧ s'.disk.files d = some img ∧
      ∀ p : State, p.disk.active = none → p.disk.files d = some img →
        ∃ t t' img', mountFs p (some d) = some (0, t) ∧ umountFs t (some d) = (0, t') ∧
          t'.disk.files d = some img' ∧ SameImage img img' := by
  obtain ⟨active, isSome⟩ := mounted
  obtain ⟨img, file⟩ := Option.isSome_iff_exists.mp isSome
  refine ⟨_, savedImage s img, umountFs_eq layout active file, Function.update_self _ _ _,
    fun p closed saved => ?_⟩
  rcases mountFs_saved layout closed saved with ⟨exceeds, -⟩ | ⟨-, t, opened, restored⟩
  · omega
  · have layout' : Layout t.superblock := by
      rw [restored.superblock, savedImage_superblock]
      exact layout
    have active' : t.disk.active = some d := by rw [restored.disk]
    have file' : t.disk.files d = some (savedImage s img) := by rw [restored.disk, saved]
    exact ⟨t, _, savedImage t (savedImage s img), opened, umountFs_eq layout' active' file',
      Function.update_self _ _ _, savedImage_saved restored⟩

/-- Also in a process whose tables are full of ones. -/
theorem remount_harmless_inode34 :
    ∃ s' img, umountFs (oneInode 34) (some "disk") = (0, s') ∧ s'.disk.files "disk" = some img ∧
      ∃ t t' img', mountFs { oneInode 34 with
          inodeTable := fun _ => 1, disk := ⟨fun _ => some img, none⟩ } (some "disk") = some (0, t) ∧
        umountFs t (some "disk") = (0, t') ∧ t'.disk.files "disk" = some img' ∧
        SameImage img img' := by
  obtain ⟨s', img, unmounted, file, harmless⟩ :=
    remount_harmless (oneInode_layout 34) (oneInode_mounted 34) (by decide)
  exact ⟨s', img, unmounted, file, harmless _ rfl rfl⟩

end OperatingSys.FileSystem
