import OperatingSys.FileSystem.Ownership
import OperatingSys.FileSystem.Remount
import OperatingSys.Lib.Overwrite

/-!
# Consistent file systems

The invariant of a mounted file system on which nothing is deleted. `m` files have been
created, the `e`-th of them has entry `e` and inode `e`, blocks are handed out in order
from block 1 on, every byte of a file lies in a block of the file, and every descriptor
points into its file.
-/

namespace OperatingSys.FileSystem

open Search

/-- The directory and the inode table name the files `nm 0, …, nm (m - 1)`. -/
structure Catalogue (nm : Nat → CString) (m : Nat) (s : State) : Prop where
  mounted : s.openDiskFd ≠ -1
  bound : m ≤ maxNumOfFiles
  isUsed : ∀ e < maxNumOfFiles, (s.directory e).isUsed = decide (e < m)
  number : ∀ e < m, (s.directory e).inodeNumber = BitVec.ofNat 32 e
  untyped : ∀ i < maxNumOfFiles, s.fileType i = 0 ↔ m ≤ i
  named : ∀ e < m, (s.directory e).name = strncpy (nm e)
  short : ∀ e < m, strlen (nm e) ≤ maxFileName
  different : ∀ e < m, ∀ e' < m, nm e = nm e' → e = e'

/-- The blocks in use are `1, …, used_block_bitmap_count - 1`, each of them belongs to a
file, and the disk is open. -/
structure Allotted (d : String) (m : Nat) (s : State) : Prop where
  layout : Layout s.superblock
  onDisk : s.MountedOn d
  least : 1 ≤ s.superblock.usedBlockBitmapCount.toNat
  most : s.superblock.usedBlockBitmapCount.toNat ≤ totalBlocks
  counted : ∀ b, getBit s.usedBlockBitmap b = true ↔
    1 ≤ b ∧ b < s.superblock.usedBlockBitmapCount.toNat
  taken : ∀ b, getBit s.usedBlockBitmap b = true →
    ∃ i < m, ∃ k < directCount, (s.directOffset i k).toNat = b

/-- Files lie in their blocks and descriptors point into their files. -/
structure Extent (m : Nat) (s : State) : Prop where
  size : ∀ i < m, s.fileSize i ≤ maxFilesize
  covered : ∀ i < m, ∀ k, k * blockSize < s.fileSize i → s.directOffset i k ≠ 0
  descriptor : ∀ j < maxFileDescriptors, (s.openFileDescriptors j).isUsed = true →
    ∃ i off : Nat, i < m ∧ s.openFileDescriptors j = ⟨true, i, off⟩ ∧ off ≤ s.fileSize i

structure Consistent (d : String) (nm : Nat → CString) (m : Nat) (s : State) : Prop where
  catalogue : Catalogue nm m s
  allotted : Allotted d m s
  owned : BlocksOwned s
  extent : Extent m s

theorem Fresh.consistent {d : String} {s : State} (fresh : Fresh d s) (nm : Nat → CString) :
    Consistent d nm 0 s where
  -- there are no files, so that most clauses speak of nothing
  catalogue := {
    mounted := by
      rw [fresh.openDiskFd]
      decide
    bound := Nat.zero_le _
    isUsed := fun e below => by simp [fresh.entry e below]
    number := fun e below => absurd below (Nat.not_lt_zero e)
    untyped := fun i _ => by simp [State.fileType, fresh.word]
    named := fun e below => absurd below (Nat.not_lt_zero e)
    short := fun e below => absurd below (Nat.not_lt_zero e)
    different := fun e below => absurd below (Nat.not_lt_zero e) }
  allotted := by
    -- the bitmap is clear although the count of used blocks is already 1
    have count : s.superblock.usedBlockBitmapCount.toNat = 1 := by
      rw [fresh.superblock]
      rfl
    have clear : ∀ b, getBit s.usedBlockBitmap b = false := fun b => by
      simp [getBit, fresh.bitmap]
    obtain ⟨img, file, -⟩ := fresh.image
    exact {
      layout := by
        rw [fresh.superblock]
        exact freshLayout
      onDisk := ⟨fresh.active, by simp [file]⟩
      least := by omega
      most := by
        rw [count]
        decide
      counted := fun b => by
        rw [clear b, count]
        simp only [Bool.false_eq_true, false_iff]
        omega
      taken := fun b bit => by simp [clear b] at bit }
  owned := fresh.blocksOwned
  extent := {
    size := fun i below => absurd below (Nat.not_lt_zero i)
    covered := fun i below => absurd below (Nat.not_lt_zero i)
    descriptor := fun j below isUsed => by simp [fresh.descriptor j below] at isUsed }

/-! ### Lookups -/

section Lookups

variable {nm : Nat → CString} {m : Nat} {s : State} (catalogue : Catalogue nm m s)
include catalogue

theorem Catalogue.below {e : Nat} (file : e < m) : e < maxNumOfFiles :=
  Nat.lt_of_lt_of_le file catalogue.bound

theorem Catalogue.number_toInt {e : Nat} (file : e < m) :
    (s.directory e).inodeNumber.toInt = e := by
  have small : e < 2 ^ 31 := Nat.lt_trans (catalogue.below file) (by decide)
  rw [catalogue.number e file, BitVec.toInt_ofNat', Int.bmod_def]
  omega

theorem Catalogue.inodeOf {e : Nat} (file : e < m) : s.inodeOf e = e := by
  rw [State.inodeOf, catalogue.number_toInt file, Int.toNat_natCast]

theorem Catalogue.present_iff (e : Nat) : s.Present e ↔ e < m := by
  constructor
  · rintro ⟨inRange, isUsed⟩
    rw [catalogue.isUsed e inRange] at isUsed
    exact of_decide_eq_true isUsed
  · intro file
    refine ⟨catalogue.below file, ?_⟩
    rw [catalogue.isUsed e (catalogue.below file)]
    exact decide_eq_true file

theorem Catalogue.directorySound (layout : Layout s.superblock) : DirectorySound s where
  start := layout.bitmapOffset
  inTable := fun e present => by
    have file := (catalogue.present_iff e).mp present
    rw [catalogue.inodeOf file]
    exact catalogue.below file
  typed := fun e present => by
    have file := (catalogue.present_iff e).mp present
    rw [catalogue.inodeOf file, ne_eq, catalogue.untyped e (catalogue.below file)]
    omega
  single := fun e e' present present' eq => by
    rwa [catalogue.inodeOf ((catalogue.present_iff e).mp present),
      catalogue.inodeOf ((catalogue.present_iff e').mp present')] at eq

theorem Catalogue.isFile_iff (i : Nat) : s.isFile i = true ↔ i < m := by
  have bound := catalogue.bound
  simp only [State.isFile, Bool.and_eq_true, decide_eq_true_eq, Int.toNat_natCast]
  constructor
  · rintro ⟨⟨-, upper⟩, isUsed⟩
    rw [catalogue.isUsed i (by omega)] at isUsed
    exact of_decide_eq_true isUsed
  · intro file
    refine ⟨⟨by omega, by omega⟩, ?_⟩
    rw [catalogue.isUsed i (by omega)]
    exact decide_eq_true file

/-- Searching the directory for a name that fits its field finds the file of that name. -/
theorem Catalogue.matches_iff {name : CString} (fits : strlen name ≤ maxFileName) {e : Nat}
    (inRange : e < maxNumOfFiles) :
    ((s.directory e).isUsed &&
      decide (strncmp (List.ofFn (s.directory e).name) name.1 maxFileName = 0)) = true ↔
      e < m ∧ nm e = name := by
  rw [Bool.and_eq_true, catalogue.isUsed e inRange, decide_eq_true_eq, decide_eq_true_eq]
  constructor
  · rintro ⟨file, hit⟩
    rw [catalogue.named e file] at hit
    exact ⟨file, (stored_matches_short (catalogue.short e file) fits).mp hit⟩
  · rintro ⟨file, rfl⟩
    refine ⟨file, ?_⟩
    rw [catalogue.named e file]
    exact (stored_matches_short (catalogue.short e file) fits).mpr rfl

theorem Catalogue.search_eq {name : CString} {p : Nat → Bool}
    (matching : ∀ e < maxNumOfFiles, p e = true ↔ e < m ∧ nm e = name) {e : Nat} (file : e < m)
    (named : nm e = name) : firstIndex maxNumOfFiles p = some e := by
  have inRange := catalogue.below file
  refine firstIndex_eq_some.mpr ⟨inRange, (matching e inRange).mpr ⟨file, named⟩, fun j lower => ?_⟩
  have before : j < maxNumOfFiles := Nat.lt_trans lower inRange
  rw [← Bool.not_eq_true, matching j before]
  rintro ⟨file', named'⟩
  exact absurd (catalogue.different j file' e file (named'.trans named.symm)) (Nat.ne_of_lt lower)

end Lookups

/-- What reading needs of a file system: a catalogue, files that lie in their blocks and
blocks that lie on the open disk. -/
structure Readable (d : String) (nm : Nat → CString) (m : Nat) (s : State) : Prop where
  catalogue : Catalogue nm m s
  onDisk : s.MountedOn d
  extent : Extent m s
  inDisk : ∀ i < m, ∀ k < directCount, s.directOffset i k ≠ 0 →
    (s.directOffset i k).toNat < diskBlocks

/-- `block_read` and `block_write` receive the pointer as it is. -/
theorem Readable.block_toInt32 {d : String} {nm : Nat → CString} {m : Nat} {s : State}
    (readable : Readable d nm m s) {i k : Nat} (file : i < m) (below : k < directCount)
    (used : s.directOffset i k ≠ 0) :
    toInt32 ((s.directOffset i k).toNat : Int) = ((s.directOffset i k).toNat : Nat) := by
  have inDisk := readable.inDisk i file k below used
  have blocks : diskBlocks = 8192 := rfl
  exact toInt32_of_small (by omega) (by omega)

/-! ### Ownership by inode -/

section Owned

variable {d : String} {nm : Nat → CString} {m : Nat} {s : State} (consistent : Consistent d nm m s)
include consistent

theorem Consistent.marked {i k : Nat} (file : i < m) (below : k < directCount)
    (used : s.directOffset i k ≠ 0) :
    getBit s.usedBlockBitmap (s.directOffset i k).toNat = true := by
  have inode := consistent.catalogue.inodeOf file
  have bit := consistent.owned.marked i k ((consistent.catalogue.present_iff i).mpr file) below
  rw [inode] at bit
  exact (bit used).2

theorem Consistent.distinct {i k i' k' : Nat} (file : i < m) (file' : i' < m)
    (below : k < directCount) (below' : k' < directCount) (used : s.directOffset i k ≠ 0)
    (same : s.directOffset i k = s.directOffset i' k') : i = i' ∧ k = k' := by
  have different := consistent.owned.distinct i k i' k'
    ((consistent.catalogue.present_iff i).mpr file) ((consistent.catalogue.present_iff i').mpr file')
    below below'
  rw [consistent.catalogue.inodeOf file, consistent.catalogue.inodeOf file'] at different
  exact different used same

theorem Consistent.directorySound : DirectorySound s :=
  consistent.catalogue.directorySound consistent.allotted.layout

theorem Consistent.block_bounds {i k : Nat} (file : i < m) (below : k < directCount)
    (used : s.directOffset i k ≠ 0) :
    1 ≤ (s.directOffset i k).toNat ∧ (s.directOffset i k).toNat < diskBlocks := by
  have bit := (consistent.allotted.counted _).mp (consistent.marked file below used)
  have most := consistent.allotted.most
  have blocks : totalBlocks = diskBlocks := rfl
  omega

theorem Consistent.readable : Readable d nm m s where
  catalogue := consistent.catalogue
  onDisk := consistent.allotted.onDisk
  extent := consistent.extent
  inDisk := fun _ file _ below used => (consistent.block_bounds file below used).2

end Owned

/-- The block of a byte of a file starts within the file. -/
theorem blockStart_lt {p size : Nat} (inside : p < size) : p / blockSize * blockSize < size :=
  Nat.lt_of_le_of_lt (Nat.div_mul_le_self p blockSize) inside

/-- A block that starts below `MAX_FILESIZE` has a place in `direct_offset`. -/
theorem index_lt_directCount {k p : Nat} (inFile : k * blockSize < p) (within : p ≤ maxFilesize) :
    k < directCount := by
  simp only [blockSize, maxFilesize, directCount] at *
  omega

end OperatingSys.FileSystem
