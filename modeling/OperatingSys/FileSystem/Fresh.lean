import OperatingSys.FileSystem.Metadata
import OperatingSys.Lib.Machine

/-!
# A new file system

The globals after `make_fs` and `mount_fs` in a new process: nothing is in use, whatever
bytes `make_fs` picked up behind the superblock and the bitmap.
-/

namespace OperatingSys.FileSystem

open LittleEndian

/-- `s` follows a successful `make_fs(d)` and `mount_fs(d)` on zero-initialised globals. -/
def Started (d : String) (s : State) : Prop :=
  ∃ host past s₁, makeFs (State.fresh host) (some d) past = (0, s₁) ∧
    mountFs s₁ (some d) = some (0, s)

/-- A mounted file system with nothing in it. -/
structure Fresh (d : String) (s : State) : Prop where
  openDiskFd : s.openDiskFd = 0
  superblock : s.superblock = freshSuperblock
  entry : ∀ e < maxNumOfFiles, s.directory e = ⟨false, 0, fun _ => 0⟩
  word : ∀ w, s.inodeTable w = 0
  bitmap : ∀ i, s.usedBlockBitmap i = 0
  descriptor : ∀ j < maxFileDescriptors, s.openFileDescriptors j = ⟨false, -1, 0⟩
  active : s.disk.active = some d
  image : ∃ img, s.disk.files d = some img ∧ ∀ j < bitmapBytes, img 1 j = 0

/-- The disk that `make_fs` leaves. -/
def freshImage (past : Past) : Image := fun b =>
  if b = 0 then fun j =>
    if j < superblockBytes then superblockByte freshSuperblock j else past.superblock j
  else if b = 1 then fun j => if j < bitmapBytes then 0 else past.bitmap j
  else fun _ => 0

theorem freshLayout : Layout freshSuperblock := ⟨rfl, rfl, rfl⟩

/-- `make_fs` succeeds on every named disk while none is open. -/
theorem makeFs_eq {s : State} (d : String) (past : Past) (closed : s.disk.active = none) :
    makeFs s (some d) past = (0, { s with
      superblock := freshSuperblock
      usedBlockBitmap := initBitmap freshSuperblock s.usedBlockBitmap
      inodeBitmap := fun i => if i < maxNumOfFiles then 0 else s.inodeBitmap i
      disk := ⟨Function.update s.disk.files d (some (freshImage past)), none⟩ }) := by
  -- the new disk is all zeros
  have opened : Disk.openDisk
      { s.disk with files := Function.update s.disk.files d (some fun _ _ => 0) } (some d) =
      (0, Disk.holding s.disk.files d fun _ _ => 0) := by
    simp [Disk.openDisk, Disk.holding, closed]
  -- block 0 holds the superblock and block 1 the bitmap; what `make_fs` leaves of its buffers
  -- unset is what was in memory
  have images : Function.update (Function.update (fun _ _ => (0 : Byte)) 0 (fun j =>
        if j < superblockBytes then superblockByte freshSuperblock j else past.superblock j))
      1 (fun j => if j < bitmapBytes then initBitmap freshSuperblock s.usedBlockBitmap j
        else past.bitmap j) = freshImage past := by
    funext b
    by_cases one : b = 1
    · subst one
      funext j
      by_cases inside : j < bitmapBytes
      · simp [freshImage, initBitmap, inside]
      · simp [freshImage, inside]
    · by_cases zero : b = 0
      · simp [freshImage, zero]
      · simp [freshImage, one, zero]
  have second : freshSuperblock.usedBlockBitmapOffset.toNat = 1 := rfl
  simp only [makeFs, Disk.makeDisk, opened, ne_eq, not_true_eq_false, if_false]
  rw [show (0 : Int) = ((0 : Nat) : Int) from rfl, Disk.holding_blockWrite _ _ _ _ (by decide)]
  simp only [second]
  rw [Disk.holding_blockWrite _ _ _ _ (by decide), images]
  simp [Disk.closeDisk, Disk.holding]

/-- The metadata windows of a new disk are zero. -/
private theorem freshImage_words (past : Past) (j w : Nat) :
    BitVec.ofNat 64 (value (fun k => freshImage past (2 + j) (8 * (w - windowAddr j) + k)) 8) =
      0 := by
  have zero : ∀ k < 8, freshImage past (2 + j) (8 * (w - windowAddr j) + k) = 0#8 := by
    intro k _
    have second : 2 + j ≠ 1 := by omega
    simp [freshImage, second]
  rw [value_zero zero]
  rfl

private theorem freshImage_superblock (past : Past) :
    loadSuperblock (freshImage past 0) = freshSuperblock := by
  apply loadSuperblock_of_bytes
  intro j below
  simp [freshImage, below]

private theorem freshImage_entry (past : Past) (base : Nat) :
    loadDirEntry (freshImage past 35) base = ⟨false, 0, fun _ => 0⟩ := by
  have zero : value (fun k => freshImage past 35 (base + 4 + k)) 4 = 0 :=
    value_zero (fun k _ => by simp [freshImage])
  simp only [loadDirEntry, zero]
  simp [freshImage]

private theorem initBitmap_eq (bitmap : Nat → Byte) (i : Nat) :
    initBitmap freshSuperblock bitmap i = if i < bitmapBytes then 0 else bitmap i := by
  have offset : freshSuperblock.inodeMetadataOffset.toNat = 2 := rfl
  simp only [initBitmap, offset]
  by_cases inside : i < bitmapBytes
  · rw [if_pos inside, if_pos inside]
  · have metadata : ¬ i < 2 := by
      simp only [bitmapBytes, totalBlocks] at inside
      omega
    rw [if_neg inside, if_neg inside, if_neg metadata]

/-- The globals after `make_fs(d)` and `mount_fs(d)` in a process with globals `s`: all of them
are new but for the words of the inode table behind the windows. -/
structure Restarted (d : String) (s t : State) : Prop where
  openDiskFd : t.openDiskFd = 0
  superblock : t.superblock = freshSuperblock
  entry : ∀ e < maxNumOfFiles, t.directory e = ⟨false, 0, fun _ => 0⟩
  savedWord : ∀ w < savedWords, t.inodeTable w = 0
  otherWord : ∀ w, savedWords ≤ w → t.inodeTable w = s.inodeTable w
  bitmap : ∀ i, t.usedBlockBitmap i = if i < bitmapBytes then 0 else s.usedBlockBitmap i
  descriptor : ∀ j < maxFileDescriptors, t.openFileDescriptors j = ⟨false, -1, 0⟩
  active : t.disk.active = some d
  image : ∃ img, t.disk.files d = some img ∧ ∀ j < bitmapBytes, img 1 j = 0

/-- Making and mounting a disk succeeds in every process that has no disk open. -/
theorem restarted_exists {s : State} (d : String) (past : Past) (closed : s.disk.active = none) :
    ∃ s₁ t, makeFs s (some d) past = (0, s₁) ∧ mountFs s₁ (some d) = some (0, t) ∧
      Restarted d s t := by
  simp only [makeFs_eq d past closed, Prod.mk.injEq, true_and, exists_and_left, exists_eq_left']
  rcases mountFs_spec (v := fun _ => 0) (s := { s with
      superblock := freshSuperblock
      usedBlockBitmap := initBitmap freshSuperblock s.usedBlockBitmap
      inodeBitmap := fun i => if i < maxNumOfFiles then 0 else s.inodeBitmap i
      disk := ⟨Function.update s.disk.files d (some (freshImage past)), none⟩ })
    (d := d) rfl (by simp) (by rw [freshImage_superblock]; exact freshLayout)
    (fun j w _ _ _ => freshImage_words past j w) with ⟨exceeds, -⟩ | ⟨-, t, mount, mounted⟩
  · rw [freshImage_superblock] at exceeds
    exact absurd exceeds (by decide)
  -- the blocks of zeros that `mount_fs` reads are an empty table and an empty directory
  · refine ⟨t, mount, ?_⟩
    have one : ∀ j < bitmapBytes, freshImage past 1 j = 0 := by
      intro j inside
      simp [freshImage, inside]
    exact {
      openDiskFd := mounted.openDiskFd
      superblock := mounted.superblock.trans (freshImage_superblock past)
      entry := fun e below => (mounted.entry e below).trans (freshImage_entry past _)
      savedWord := mounted.savedWord
      otherWord := mounted.otherWord
      bitmap := by
        intro i
        rw [mounted.bitmap i, freshImage_superblock]
        split
        next inside =>
          have below : i < bitmapBytes := Nat.lt_trans inside (by decide)
          rw [one i below, if_pos below]
        next => exact initBitmap_eq s.usedBlockBitmap i
      descriptor := mounted.descriptor
      active := by rw [mounted.disk]
      image := ⟨freshImage past, by rw [mounted.disk]; simp, one⟩ }

/-- Making and mounting a disk in a new process succeeds. -/
theorem started_exists (d : String) (host : Disk) (past : Past) :
    ∃ s₁ s, makeFs (State.fresh host) (some d) past = (0, s₁) ∧
      mountFs s₁ (some d) = some (0, s) ∧ Fresh d s := by
  obtain ⟨s₁, s, made, mount, restarted⟩ :=
    restarted_exists (s := State.fresh host) d past rfl
  refine ⟨s₁, s, made, mount, ?_⟩
  exact {
    openDiskFd := restarted.openDiskFd
    superblock := restarted.superblock
    entry := restarted.entry
    word := fun w => by
      by_cases saved : w < savedWords
      · exact restarted.savedWord w saved
      · exact restarted.otherWord w (by omega)
    bitmap := fun i => by
      rw [restarted.bitmap i]
      split
      · rfl
      · rfl
    descriptor := restarted.descriptor
    active := restarted.active
    image := restarted.image }

theorem Started.fresh {d : String} {s : State} (started : Started d s) : Fresh d s := by
  obtain ⟨host, past, s₁, made, mount⟩ := started
  obtain ⟨s₁', s', made', mount', fresh⟩ := started_exists d host past
  have first : s₁ = s₁' := by
    rw [made] at made'
    exact (Prod.mk.inj made').2
  subst first
  have second : s = s' := by
    rw [mount] at mount'
    exact (Prod.mk.inj (Option.some.inj mount')).2
  exact second ▸ fresh

/-! ### A disk to run on -/

/-- A new disk in a new process, with zeros behind the superblock and the bitmap. -/
def newDisk : State :=
  match mountFs (makeFs (State.fresh ⟨fun _ => none, none⟩) (some "disk")
      ⟨fun _ => 0, fun _ => 0⟩).2 (some "disk") with
  | some (_, s) => s
  | none => State.fresh ⟨fun _ => none, none⟩

theorem newDisk_started : Started "disk" newDisk := by
  obtain ⟨s₁, s, made, mount, -⟩ :=
    started_exists "disk" ⟨fun _ => none, none⟩ ⟨fun _ => 0, fun _ => 0⟩
  refine ⟨_, _, s₁, made, ?_⟩
  simp only [newDisk, made, mount]

/-- The globals after a run of calls on `newDisk`. -/
def afterCalls (calls : List Call) : State :=
  match Machine.run call newDisk calls with
  | some (_, t) => t
  | none => newDisk

theorem run_afterCalls {calls : List Call} (ran : (Machine.run call newDisk calls).isSome = true) :
    ∃ replies, Machine.run call newDisk calls = some (replies, afterCalls calls) := by
  obtain ⟨⟨replies, t⟩, eq⟩ := Option.isSome_iff_exists.mp ran
  exact ⟨replies, by simp [afterCalls, eq]⟩

/-- A file name of one character. -/
def letter (c : Byte) (visible : c ≠ 0#8) : CString :=
  ⟨[c], fun zero => visible (List.mem_singleton.mp zero).symm⟩

def nameA : CString := letter 97 (by decide)

def nameB : CString := letter 98 (by decide)

end OperatingSys.FileSystem
