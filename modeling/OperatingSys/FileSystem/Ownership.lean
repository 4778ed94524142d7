import OperatingSys.FileSystem.Steps
import OperatingSys.FileSystem.Fresh
import Mathlib.Data.Finset.Card

/-!
# Block ownership

A block is owned by at most one file and marked in the bitmap while it is. Every call
but `fs_delete` keeps this. `fs_delete` clears the bits of the blocks whose *byte* in the
bitmap equals the inode number, so it keeps ownership exactly when no such block belongs
to another file.
-/

namespace OperatingSys.FileSystem

/-- The inode of a directory entry. -/
def State.inodeOf (s : State) (e : Nat) : Nat := (s.directory e).inodeNumber.toInt.toNat

/-- Entry `e` of the directory is a file. -/
def State.Present (s : State) (e : Nat) : Prop :=
  e < maxNumOfFiles ∧ (s.directory e).isUsed = true

/-- The number of files in the directory. -/
def State.fileCount (s : State) : Nat :=
  ((Finset.range maxNumOfFiles).filter fun e => (s.directory e).isUsed = true).card

/-- The blocks of the files in the directory are pairwise different, across files and
within one file, and marked in the bitmap. -/
structure BlocksOwned (s : State) : Prop where
  marked : ∀ e k, s.Present e → k < directCount → s.directOffset (s.inodeOf e) k ≠ 0 →
    (s.directOffset (s.inodeOf e) k).toNat < totalBlocks ∧
      getBit s.usedBlockBitmap (s.directOffset (s.inodeOf e) k).toNat = true
  distinct : ∀ e k e' k', s.Present e → s.Present e' → k < directCount → k' < directCount →
    s.directOffset (s.inodeOf e) k ≠ 0 →
    s.directOffset (s.inodeOf e) k = s.directOffset (s.inodeOf e') k' → e = e' ∧ k = k'

/-- The directory names inodes in use, each once, and the allocator starts at block 1. -/
structure DirectorySound (s : State) : Prop where
  start : s.superblock.usedBlockBitmapOffset = 1
  inTable : ∀ e, s.Present e → s.inodeOf e < maxNumOfFiles
  typed : ∀ e, s.Present e → s.fileType (s.inodeOf e) ≠ 0
  single : ∀ e e', s.Present e → s.Present e' → s.inodeOf e = s.inodeOf e' → e = e'

/-! ### Steps that touch neither -/

/-- `t` has the directory, the block pointers, the inode types and the bitmap of `s`. -/
structure SameBlocks (s t : State) : Prop where
  directory : t.directory = s.directory
  start : t.superblock.usedBlockBitmapOffset = s.superblock.usedBlockBitmapOffset
  bitmap : t.usedBlockBitmap = s.usedBlockBitmap
  fileType : ∀ i, t.fileType i = s.fileType i
  directOffset : ∀ i k, k < directCount → t.directOffset i k = s.directOffset i k

theorem SameBlocks.refl (s : State) : SameBlocks s s :=
  ⟨rfl, rfl, rfl, fun _ => rfl, fun _ _ _ => rfl⟩

theorem DescriptorStep.sameBlocks {s t : State} (step : DescriptorStep s t) : SameBlocks s t := by
  rcases step with rfl | ⟨j, fd, -, rfl⟩
  · exact SameBlocks.refl t
  · exact ⟨rfl, rfl, rfl, fun _ => rfl, fun _ _ _ => rfl⟩

theorem storeFileSize_sameBlocks (s : State) (i : Nat) (v : Word) (j : Nat) (fd : FileDescriptor) :
    SameBlocks s ((s.storeWord (fileSizeAddr i) v).storeDescriptor j fd) := by
  refine ⟨rfl, rfl, rfl, fun i' => ?_, fun i' k below => ?_⟩
  · simp [State.fileType, State.storeDescriptor, State.storeWord,
      (fileSizeAddr_ne_fileTypeAddr).symm]
  · simp [State.directOffset, State.storeDescriptor, State.storeWord,
      directOffsetAddr_ne_fileSizeAddr below]

theorem advance_sameBlocks (t : State) (disk : Disk) (f i m : Nat) :
    SameBlocks t (State.advance { t with disk := disk } f i m) :=
  ⟨by simp, by simp, by simp, fun i' => State.advance_fileType _ f i m i',
    fun i' k below => State.advance_directOffset _ f i m below⟩

section SameBlocks

variable {s t : State} (same : SameBlocks s t)
include same

theorem SameBlocks.present (e : Nat) : t.Present e ↔ s.Present e := by
  simp only [State.Present, same.directory]

theorem SameBlocks.inodeOf (e : Nat) : t.inodeOf e = s.inodeOf e := by
  simp only [State.inodeOf, same.directory]

theorem SameBlocks.directorySound (sound : DirectorySound s) : DirectorySound t where
  start := same.start.trans sound.start
  inTable := fun e present => by
    rw [same.inodeOf]
    exact sound.inTable e ((same.present e).mp present)
  typed := fun e present => by
    rw [same.inodeOf, same.fileType]
    exact sound.typed e ((same.present e).mp present)
  single := fun e e' present present' eq => by
    rw [same.inodeOf, same.inodeOf] at eq
    exact sound.single e e' ((same.present e).mp present) ((same.present e').mp present') eq

theorem SameBlocks.blocksOwned (owned : BlocksOwned s) : BlocksOwned t where
  marked := fun e k present below used => by
    rw [same.inodeOf, same.directOffset _ _ below] at used ⊢
    rw [same.bitmap]
    exact owned.marked e k ((same.present e).mp present) below used
  distinct := fun e k e' k' present present' below below' used eq => by
    rw [same.inodeOf, same.directOffset _ _ below] at used eq
    rw [same.inodeOf, same.directOffset _ _ below'] at eq
    exact owned.distinct e k e' k' ((same.present e).mp present) ((same.present e').mp present')
      below below' used eq

end SameBlocks

/-! ### Allocation -/

/-- Taking the first free block for a file keeps both. -/
theorem takeBlock_sound {s : State} (i k b : Nat) (below : k < directCount)
    (sound : DirectorySound s) : DirectorySound (s.takeBlock (directOffsetAddr i k) b) where
  start := sound.start
  inTable := sound.inTable
  typed := fun e present => by
    rw [State.takeBlock_fileType _ _ _ below]
    exact sound.typed e present
  single := sound.single

theorem takeBlock_owned {s : State} {i k b : Nat} (below : k < directCount)
    (sound : DirectorySound s) (free : FirstFree s b) (owned : BlocksOwned s) :
    BlocksOwned (s.takeBlock (directOffsetAddr i k) b) := by
  have small : b < 2 ^ 64 := Nat.lt_trans free.upper (by decide)
  have value : (BitVec.ofNat 64 b).toNat = b := by
    rw [BitVec.toNat_ofNat, Nat.mod_eq_of_lt small]
  -- no file has the block yet, since its bit is clear
  have absent : ∀ e k', s.Present e → k' < directCount → s.directOffset (s.inodeOf e) k' ≠ 0 →
      s.directOffset (s.inodeOf e) k' ≠ BitVec.ofNat 64 b := by
    intro e k' present below' used eq
    have bit := (owned.marked e k' present below' used).2
    rw [eq, value, free.clear] at bit
    exact Bool.false_ne_true bit
  refine ⟨fun e k' present below' used => ?_, fun e k' e' k'' present present' below' below'' used eq => ?_⟩
  · change (s.takeBlock _ b).directOffset (s.inodeOf e) k' ≠ 0 at used
    change ((s.takeBlock _ b).directOffset (s.inodeOf e) k').toNat < totalBlocks ∧
      getBit _ ((s.takeBlock _ b).directOffset (s.inodeOf e) k').toNat = true
    rw [State.takeBlock_directOffset _ _ below below'] at used ⊢
    rw [State.takeBlock_getBit]
    split at used
    next here => simp only [here, and_self, if_true, value, free.upper, decide_true, Bool.true_or]
    next elsewhere =>
      obtain ⟨inRange, bit⟩ := owned.marked e k' present below' used
      simp only [elsewhere, if_false, inRange, bit, Bool.or_true, and_self]
  · change (s.takeBlock _ b).directOffset (s.inodeOf e) k' ≠ 0 at used
    change (s.takeBlock _ b).directOffset (s.inodeOf e) k' =
      (s.takeBlock _ b).directOffset (s.inodeOf e') k'' at eq
    rw [State.takeBlock_directOffset _ _ below below'] at used eq
    rw [State.takeBlock_directOffset _ _ below below''] at eq
    split at eq
    next here =>
      split at eq
      next there =>
        exact ⟨sound.single e e' present present' (here.1.trans there.1.symm),
          here.2.trans there.2.symm⟩
      next elsewhere =>
        by_cases zero : s.directOffset (s.inodeOf e') k'' = 0
        · rw [if_pos here, eq] at used
          exact absurd zero used
        · exact absurd eq.symm (absent e' k'' present' below'' zero)
    next elsewhere =>
      rw [if_neg elsewhere] at used
      split at eq
      next there => exact absurd eq (absent e k' present below' used)
      next => exact owned.distinct e k' e' k'' present present' below' below'' used eq

theorem Prepared.sound {s t : State} {i k : Nat} (below : k < directCount)
    (prepared : Prepared s i k t) (sound : DirectorySound s) : DirectorySound t := by
  rcases prepared with ⟨-, rfl⟩ | ⟨-, b, free, rfl⟩
  · exact sound
  · exact takeBlock_sound i k b below sound

theorem Prepared.owned {s t : State} {i k : Nat} (below : k < directCount)
    (prepared : Prepared s i k t) (sound : DirectorySound s) (owned : BlocksOwned s) :
    BlocksOwned t := by
  rcases prepared with ⟨-, rfl⟩ | ⟨-, b, free, rfl⟩
  · exact owned
  · exact takeBlock_owned below sound free owned

theorem DirectorySound.start_lt {s : State} (sound : DirectorySound s) :
    s.superblock.usedBlockBitmapOffset.toNat < totalBlocks := by
  rw [sound.start]
  decide

theorem fsWriteRound_sound {s s' : State} {f i k off : Nat} {data : List Byte} {ended : Bool}
    (below : k < directCount) (round : fsWriteRound s f i k off data = some (ended, s'))
    (sound : DirectorySound s) : DirectorySound s' := by
  rcases fsWriteRound_cases sound.start_lt round with
    ⟨-, rfl | prepared⟩ | ⟨-, t, buf, disk, prepared, -, rfl⟩
  · exact sound
  · exact prepared.sound below sound
  · exact (advance_sameBlocks t disk f i (chunkSize off data)).directorySound
      (prepared.sound below sound)

theorem fsWriteRound_owned {s s' : State} {f i k off : Nat} {data : List Byte} {ended : Bool}
    (below : k < directCount) (round : fsWriteRound s f i k off data = some (ended, s'))
    (sound : DirectorySound s) (owned : BlocksOwned s) : BlocksOwned s' := by
  rcases fsWriteRound_cases sound.start_lt round with
    ⟨-, rfl | prepared⟩ | ⟨-, t, buf, disk, prepared, -, rfl⟩
  · exact owned
  · exact prepared.owned below sound owned
  · exact (advance_sameBlocks t disk f i (chunkSize off data)).blocksOwned
      (prepared.owned below sound owned)

/-! ### Creation -/

theorem initInode_sound {s : State} {inode : Nat} (sound : DirectorySound s) :
    DirectorySound (s.initInode inode) where
  start := sound.start
  inTable := sound.inTable
  typed := fun e present => by
    rw [State.initInode_fileType]
    split
    · decide
    · exact sound.typed e present
  single := sound.single

/-- An inode without a type belongs to no file. -/
theorem DirectorySound.inodeOf_ne {s : State} {inode e : Nat} (sound : DirectorySound s)
    (untyped : s.fileType inode = 0) (present : s.Present e) : s.inodeOf e ≠ inode := by
  intro eq
  exact sound.typed e present (eq ▸ untyped)

theorem initInode_owned {s : State} {inode : Nat} (sound : DirectorySound s)
    (untyped : s.fileType inode = 0) (owned : BlocksOwned s) :
    BlocksOwned (s.initInode inode) := by
  have kept : ∀ e k, s.Present e → k < directCount →
      (s.initInode inode).directOffset ((s.initInode inode).inodeOf e) k =
        s.directOffset (s.inodeOf e) k := by
    intro e k present below
    change (s.initInode inode).directOffset (s.inodeOf e) k = _
    rw [State.initInode_directOffset _ _ _ below, if_neg (sound.inodeOf_ne untyped present)]
  refine ⟨fun e k present below used => ?_, fun e k e' k' present present' below below' used eq => ?_⟩
  · rw [kept e k present below] at used ⊢
    exact owned.marked e k present below used
  · rw [kept e k present below] at used eq
    rw [kept e' k' present' below'] at eq
    exact owned.distinct e k e' k' present present' below below' used eq

section NewEntry

variable {s : State} {inode e : Nat} {name : Fin maxFileName → Byte}

/-- The globals once the entry of a new file is filled in. -/
private abbrev withEntry (s : State) (inode e : Nat) (name : Fin maxFileName → Byte) : State :=
  s.storeEntry e { isUsed := true, inodeNumber := BitVec.ofNat 32 inode, name := name }

private theorem withEntry_inodeOf (inRange : inode < maxNumOfFiles) (e' : Nat) :
    (withEntry s inode e name).inodeOf e' = if e' = e then inode else s.inodeOf e' := by
  simp only [State.inodeOf, State.storeEntry, Function.update_apply]
  split
  · have small : inode < 2 ^ 31 := Nat.lt_trans inRange (by decide)
    rw [BitVec.toInt_ofNat', Int.bmod_def]
    omega
  · rfl

private theorem withEntry_present {e' : Nat} (other : e' ≠ e)
    (present : (withEntry s inode e name).Present e') : s.Present e' := by
  simpa only [State.Present, State.storeEntry, Function.update_of_ne other] using present

/-- A new file has its own inode. -/
private theorem withEntry_sound (inRange : inode < maxNumOfFiles) (typed : s.fileType inode ≠ 0)
    (apart : ∀ e', s.Present e' → s.inodeOf e' ≠ inode) (sound : DirectorySound s) :
    DirectorySound (withEntry s inode e name) := by
  refine ⟨sound.start, fun e' present => ?_, fun e' present => ?_, fun e' e'' present present' eq => ?_⟩
  · rw [withEntry_inodeOf inRange]
    split
    · exact inRange
    next old => exact sound.inTable e' (withEntry_present old present)
  · rw [withEntry_inodeOf inRange]
    split
    · exact typed
    next old => exact sound.typed e' (withEntry_present old present)
  · rw [withEntry_inodeOf inRange, withEntry_inodeOf inRange] at eq
    by_cases new : e' = e
    · by_cases new' : e'' = e
      · exact new.trans new'.symm
      · rw [if_pos new, if_neg new'] at eq
        exact absurd eq.symm (apart e'' (withEntry_present new' present'))
    · rw [if_neg new] at eq
      by_cases new' : e'' = e
      · rw [if_pos new'] at eq
        exact absurd eq (apart e' (withEntry_present new present))
      · rw [if_neg new'] at eq
        exact sound.single e' e'' (withEntry_present new present)
          (withEntry_present new' present') eq

/-- A new file has no blocks. -/
private theorem withEntry_owned (inRange : inode < maxNumOfFiles)
    (empty : ∀ k < directCount, s.directOffset inode k = 0) (owned : BlocksOwned s) :
    BlocksOwned (withEntry s inode e name) := by
  -- a nonzero pointer belongs to a file that was there before
  have before : ∀ e' k, (withEntry s inode e name).Present e' → k < directCount →
      (withEntry s inode e name).directOffset ((withEntry s inode e name).inodeOf e') k ≠ 0 →
      s.Present e' ∧ (withEntry s inode e name).inodeOf e' = s.inodeOf e' := by
    intro e' k present below used
    rw [withEntry_inodeOf inRange] at used ⊢
    by_cases new : e' = e
    · rw [if_pos new] at used
      exact absurd (empty k below) used
    · exact ⟨withEntry_present new present, if_neg new⟩
  refine ⟨fun e' k present below used => ?_, fun e' k e'' k' present present' below below' used eq => ?_⟩
  · obtain ⟨old, same⟩ := before e' k present below used
    rw [same] at used ⊢
    exact owned.marked e' k old below used
  · obtain ⟨old, same⟩ := before e' k present below used
    obtain ⟨old', same'⟩ := before e'' k' present' below' (eq ▸ used)
    rw [same] at used eq
    rw [same'] at eq
    exact owned.distinct e' k e'' k' old old' below below' used eq

end NewEntry

theorem fsCreate_sound {s : State} (name : CString) (sound : DirectorySound s) :
    DirectorySound (fsCreate s name).2 := by
  rcases fsCreate_cases s name with
    same | ⟨inode, inRange, untyped, ⟨-, filled⟩ | ⟨e, -, -, filled⟩⟩
  · rw [same]
    exact sound
  · rw [filled]
    exact initInode_sound sound
  · rw [filled]
    refine withEntry_sound inRange ?_ (fun e' present => sound.inodeOf_ne untyped present)
      (initInode_sound sound)
    rw [State.initInode_fileType, if_pos rfl]
    decide

theorem fsCreate_owned {s : State} (name : CString) (sound : DirectorySound s)
    (owned : BlocksOwned s) : BlocksOwned (fsCreate s name).2 := by
  rcases fsCreate_cases s name with
    same | ⟨inode, inRange, untyped, ⟨-, filled⟩ | ⟨e, -, -, filled⟩⟩
  · rw [same]
    exact owned
  · rw [filled]
    exact initInode_owned sound untyped owned
  · rw [filled]
    refine withEntry_owned inRange (fun k below => ?_) (initInode_owned sound untyped owned)
    rw [State.initInode_directOffset _ _ _ below, if_pos rfl]

/-! ### Deletion -/

section Deletion

variable {s : State} {name : CString} {e : Nat} {beyond : Nat → Byte}

/-- No block of another file has the inode number of `e` as its byte of the bitmap. -/
def ReleasesOnlyOwn (s : State) (beyond : Nat → Byte) (e : Nat) : Prop :=
  ∀ e' k, s.Present e' → e' ≠ e → k < directCount → s.directOffset (s.inodeOf e') k ≠ 0 →
    ((bitmapByte s.usedBlockBitmap beyond (s.directOffset (s.inodeOf e') k).toNat).toNat : Int) ≠
      (s.directory e).inodeNumber.toInt

instance : Decidable (ReleasesOnlyOwn s beyond e) :=
  decidable_of_iff (∀ e' < maxNumOfFiles, (s.directory e').isUsed = true ∧ e' ≠ e →
      ∀ k < directCount, s.directOffset (s.inodeOf e') k ≠ 0 →
        ((bitmapByte s.usedBlockBitmap beyond (s.directOffset (s.inodeOf e') k).toNat).toNat : Int) ≠
          (s.directory e).inodeNumber.toInt)
    ⟨fun own e' k present other => own e' present.1 ⟨present.2, other⟩ k,
    fun own e' inTable isUsed k => own e' k ⟨inTable, isUsed.1⟩ isUsed.2⟩

theorem deleted_present (e' : Nat) :
    (s.deleted beyond e).Present e' ↔ s.Present e' ∧ e' ≠ e := by
  simp only [State.Present, State.deleted, Function.update_apply]
  split
  next same => simp [same]
  next other => simp [other]

theorem deleted_inodeOf {e' : Nat} (other : e' ≠ e) :
    (s.deleted beyond e).inodeOf e' = s.inodeOf e' := by
  simp only [State.inodeOf, State.deleted, Function.update_of_ne other]

@[simp] theorem deleted_inodeTable : (s.deleted beyond e).inodeTable = s.inodeTable := by
  simp only [State.deleted]

@[simp] theorem deleted_usedBlockBitmapOffset :
    (s.deleted beyond e).superblock.usedBlockBitmapOffset =
      s.superblock.usedBlockBitmapOffset := by
  simp only [State.deleted]

theorem deleted_sound (sound : DirectorySound s) : DirectorySound (s.deleted beyond e) where
  start := by
    rw [deleted_usedBlockBitmapOffset]
    exact sound.start
  inTable := fun e' present => by
    obtain ⟨old, other⟩ := (deleted_present e').mp present
    rw [deleted_inodeOf other]
    exact sound.inTable e' old
  typed := fun e' present => by
    obtain ⟨old, other⟩ := (deleted_present e').mp present
    rw [deleted_inodeOf other, State.fileType, deleted_inodeTable]
    exact sound.typed e' old
  single := fun e' e'' present present' eq => by
    obtain ⟨old, other⟩ := (deleted_present e').mp present
    obtain ⟨old', other'⟩ := (deleted_present e'').mp present'
    rw [deleted_inodeOf other, deleted_inodeOf other'] at eq
    exact sound.single e' e'' old old' eq

/-- Deleting keeps ownership exactly when it releases no block of another file. -/
theorem deleted_owned_iff (owned : BlocksOwned s) :
    BlocksOwned (s.deleted beyond e) ↔ ReleasesOnlyOwn s beyond e := by
  -- the inodes stay as they are; what changes is the bitmap and the directory
  have pointer : ∀ i k, (s.deleted beyond e).directOffset i k = s.directOffset i k := by
    simp [State.directOffset]
  constructor
  -- a block of another file that was released would be unmarked
  · intro after e' k present other below used hit
    obtain ⟨inRange, bit⟩ := after.marked e' k ((deleted_present e').mpr ⟨present, other⟩) below
      (by rwa [deleted_inodeOf other, pointer])
    rw [deleted_inodeOf other, pointer] at inRange bit
    simp only [State.deleted] at bit
    rw [getBit_releaseBlocks _ _ _ _ inRange] at bit
    simp [hit] at bit
  · intro own
    refine ⟨fun e' k present below used => ?_, fun e' k e'' k' present present' below below' used eq => ?_⟩
    · obtain ⟨old, other⟩ := (deleted_present e').mp present
      rw [deleted_inodeOf other, pointer] at used ⊢
      obtain ⟨inRange, bit⟩ := owned.marked e' k old below used
      refine ⟨inRange, ?_⟩
      simp only [State.deleted]
      rw [getBit_releaseBlocks _ _ _ _ inRange, bit]
      simp [own e' k old other below used]
    · obtain ⟨old, other⟩ := (deleted_present e').mp present
      obtain ⟨old', other'⟩ := (deleted_present e'').mp present'
      rw [deleted_inodeOf other, pointer] at used eq
      rw [deleted_inodeOf other', pointer] at eq
      exact owned.distinct e' k e'' k' old old' below below' used eq

end Deletion

/-! ### Runs -/

/-- Every write ends at or below `MAX_FILESIZE`. -/
def WritesWithin (s : State) : Call → Prop
  | .write fildes data => s.isOpen fildes = true →
      (s.openFileDescriptors fildes.toNat).offset + data.length ≤ maxFilesize
  | _ => True

instance (s : State) : (c : Call) → Decidable (WritesWithin s c)
  | .write fildes data => inferInstanceAs (Decidable (s.isOpen fildes = true →
      (s.openFileDescriptors fildes.toNat).offset + data.length ≤ maxFilesize))
  | .create _ | .open _ | .close _ | .delete _ _ | .read _ _ | .lseek _ _ | .truncate _ _
  | .getFilesize _ => isTrue trivial

/-- A delete that gets past its checks releases no block of another file. -/
def DeletesOnlyOwn (s : State) : Call → Prop
  | .delete name beyond => ∀ e, Deletes s name e → ReleasesOnlyOwn s beyond e
  | _ => True

instance (s : State) : (c : Call) → Decidable (DeletesOnlyOwn s c)
  | .delete name beyond =>
    decidable_of_iff (∀ e < maxNumOfFiles, Deletes s name e → ReleasesOnlyOwn s beyond e)
      ⟨fun own e deletes => own e deletes.inRange deletes, fun own e _ => own e⟩
  | .create _ | .open _ | .close _ | .read _ _ | .write _ _ | .lseek _ _ | .truncate _ _
  | .getFilesize _ => isTrue trivial

theorem Fresh.directorySound {d : String} {s : State} (fresh : Fresh d s) : DirectorySound s := by
  have absent : ∀ e, ¬ s.Present e := by
    rintro e ⟨below, isUsed⟩
    rw [fresh.entry e below] at isUsed
    exact Bool.false_ne_true isUsed
  refine ⟨by rw [fresh.superblock]; rfl, ?_, ?_, ?_⟩
  · exact fun e present => absurd present (absent e)
  · exact fun e present => absurd present (absent e)
  · exact fun e _ present => absurd present (absent e)

theorem Fresh.blocksOwned {d : String} {s : State} (fresh : Fresh d s) : BlocksOwned s := by
  have empty : ∀ i k, s.directOffset i k = 0 := fun i k => fresh.word _
  exact ⟨fun e k _ _ used => absurd (empty _ k) used,
    fun e k _ _ _ _ _ _ used => absurd (empty _ k) used⟩

/-- Every call keeps the directory sound. -/
theorem call_sound {s t : State} {c : Call} {r : Reply} (sound : DirectorySound s)
    (within : WritesWithin s c) (called : call s c = some (r, t)) : DirectorySound t := by
  have leads := leads_of_call called
  -- a call that changes neither the names nor the blocks keeps the directory; `create`, `delete`
  -- and `write` have lemmas of their own
  cases c with
  | create name =>
    obtain rfl := leads
    exact fsCreate_sound name sound
  | «open» name =>
    obtain rfl := leads
    exact (fsOpen_step s name).sameBlocks.directorySound sound
  | close fildes =>
    obtain rfl := leads
    exact (fsClose_step s fildes).sameBlocks.directorySound sound
  | delete name beyond =>
    obtain rfl := leads
    rcases fsDelete_cases s beyond name with ⟨-, same⟩ | ⟨e, -, deleted⟩
    · rw [same]
      exact sound
    · rw [deleted]
      exact deleted_sound sound
  | read fildes nbyte =>
    obtain ⟨r', bytes, read⟩ := leads
    exact (fsRead_step read).descriptorStep.sameBlocks.directorySound sound
  | write fildes data =>
    obtain ⟨r', wrote⟩ := leads
    exact fsWrite_preserves
      (fun f i s s' k off data ended _ sound below round => fsWriteRound_sound below round sound)
      within wrote sound
  | lseek fildes offset =>
    obtain rfl := leads
    exact (fsLseek_step s fildes offset.toInt).descriptorStep.sameBlocks.directorySound
      sound
  | truncate fildes length =>
    obtain rfl := leads
    rcases fsTruncate_step s fildes length.toInt with same | ⟨i, v, j, fd, -, set⟩
    · rw [same]
      exact sound
    · rw [set]
      exact (storeFileSize_sameBlocks s i v j fd).directorySound sound
  | getFilesize fildes =>
    obtain rfl := leads
    exact sound

/-- One call keeps ownership exactly when it meets `DeletesOnlyOwn`. -/
theorem call_owned_iff {s t : State} {c : Call} {r : Reply} (sound : DirectorySound s)
    (owned : BlocksOwned s) (within : WritesWithin s c) (called : call s c = some (r, t)) :
    BlocksOwned t ↔ DeletesOnlyOwn s c := by
  have leads := leads_of_call called
  cases c with
  | create name =>
    obtain rfl := leads
    exact iff_of_true (fsCreate_owned name sound owned) trivial
  | «open» name =>
    obtain rfl := leads
    exact iff_of_true ((fsOpen_step s name).sameBlocks.blocksOwned owned) trivial
  | close fildes =>
    obtain rfl := leads
    exact iff_of_true ((fsClose_step s fildes).sameBlocks.blocksOwned owned) trivial
  -- the one call that can take a block away from its owner
  | delete name beyond =>
    obtain rfl := leads
    rcases fsDelete_cases s beyond name with ⟨none, same⟩ | ⟨e, deletes, deleted⟩
    · rw [same]
      exact iff_of_true owned fun e deletes => absurd deletes (none e)
    · rw [deleted]
      refine (deleted_owned_iff owned).trans ⟨fun own e' deletes' => ?_, fun own => own e deletes⟩
      exact deletes'.unique deletes ▸ own
  | read fildes nbyte =>
    obtain ⟨r', bytes, read⟩ := leads
    exact iff_of_true ((fsRead_step read).descriptorStep.sameBlocks.blocksOwned owned) trivial
  | write fildes data =>
    obtain ⟨r', wrote⟩ := leads
    obtain ⟨-, owned'⟩ := fsWrite_preserves
      (P := fun s => DirectorySound s ∧ BlocksOwned s)
      (fun f i s s' k off data ended _ kept below round =>
        ⟨fsWriteRound_sound below round kept.1, fsWriteRound_owned below round kept.1 kept.2⟩)
      within wrote ⟨sound, owned⟩
    exact iff_of_true owned' trivial
  | lseek fildes offset =>
    obtain rfl := leads
    refine iff_of_true ?_ trivial
    exact (fsLseek_step s fildes offset.toInt).descriptorStep.sameBlocks.blocksOwned owned
  | truncate fildes length =>
    obtain rfl := leads
    refine iff_of_true ?_ trivial
    rcases fsTruncate_step s fildes length.toInt with same | ⟨i, v, j, fd, -, set⟩
    · rw [same]
      exact owned
    · rw [set]
      exact (storeFileSize_sameBlocks s i v j fd).blocksOwned owned
  | getFilesize fildes =>
    obtain rfl := leads
    exact iff_of_true owned trivial

private theorem deletesOnlyOwn_of_undefined {s : State} {c : Call} (undefined : call s c = none) :
    DeletesOnlyOwn s c := by
  cases c with
  | delete name beyond => simp [call, plain] at undefined
  | _ => trivial

/-- Ownership holds in every state of a run exactly when every delete of the run releases
only blocks of its own file. -/
theorem blocksOwned_always_iff {d : String} {s : State} (started : Started d s)
    {calls : List Call} (within : Machine.Admits call WritesWithin s calls) :
    Machine.Always call BlocksOwned s calls ↔ Machine.Admits call DeletesOnlyOwn s calls :=
  Machine.always_iff_admits DirectorySound
    (fun _ _ _ _ sound owned ok called =>
      ⟨call_owned_iff sound owned ok called, fun _ => call_sound sound ok called⟩)
    (fun _ _ undefined => deletesOnlyOwn_of_undefined undefined)
    started.fresh.directorySound started.fresh.blocksOwned within

/-- Two files, one block written to the first, and the second one deleted. -/
def otherDeletedRun : List Call :=
  [.create nameA, .create nameB, .open nameA, .write 0 [7], .delete nameB fun _ => 0]

/-- Every call succeeds. Byte 1 of the bitmap is 0, so that deleting the file with inode 1 does
not release block 1. -/
theorem blocksOwned_always_iff_otherDeleted :
    (Machine.run call newDisk otherDeletedRun).map Prod.fst =
        some [(0, []), (0, []), (0, []), (1, []), (0, [])] ∧
      Machine.Always call BlocksOwned newDisk otherDeletedRun :=
  ⟨by decide +kernel,
    (blocksOwned_always_iff newDisk_started (by decide +kernel)).mpr (by decide +kernel)⟩

/-- Two files, one block written to the second. -/
def oneBlockRun : List Call :=
  [.create nameA, .create nameB, .open nameB,
    .write 0 [7]]

set_option maxRecDepth 100000 in
private theorem oneBlockRun_runs : (Machine.run call newDisk oneBlockRun).isSome = true := by
  decide

set_option maxRecDepth 100000 in
private theorem oneBlockRun_deletes :
    Deletes (afterCalls oneBlockRun) nameA 0 where
  mounted := by decide
  inRange := by decide
  isUsed := by decide
  found := by decide
  first := fun _ before => absurd before (Nat.not_lt_zero _)
  notOpen := by decide

set_option maxRecDepth 100000 in
/-- Block 1 belongs to the second file, and byte 1 of the bitmap is the inode number of
the first. -/
private theorem oneBlockRun_state :
    (afterCalls oneBlockRun).Present 1 ∧ (afterCalls oneBlockRun).inodeOf 1 = 1 ∧
    (afterCalls oneBlockRun).directOffset 1 0 = 1 ∧
    (afterCalls oneBlockRun).usedBlockBitmap 1 = 0 ∧
    ((afterCalls oneBlockRun).directory 0).inodeNumber = 0 := by
  unfold State.Present
  decide

/-- Deleting the first file gives the block of the second one back. -/
private theorem oneBlockRun_deleted (beyond : Nat → Byte) :
    ¬ BlocksOwned ((afterCalls oneBlockRun).deleted beyond 0) := by
  obtain ⟨present, inode, block, byte, number⟩ := oneBlockRun_state
  intro owned
  have own := owned.marked 1 0 ((deleted_present 1).mpr ⟨present, by decide⟩) (by decide)
  rw [deleted_inodeOf (by decide), inode, State.directOffset, deleted_inodeTable] at own
  change (afterCalls oneBlockRun).inodeTable (directOffsetAddr 1 0) = 1 at block
  rw [block] at own
  have bit := (own (by decide)).2
  simp only [State.deleted] at bit
  rw [getBit_releaseBlocks _ _ _ _ (by decide), number] at bit
  simp [bitmapByte, bitmapBytes, totalBlocks, byte] at bit

set_option maxRecDepth 100000 in
/-- A run of writes within `MAX_FILESIZE` after which a file's block is free. -/
theorem block_lost_by_delete :
    Started "disk" newDisk ∧
    Machine.Admits call WritesWithin newDisk
      (oneBlockRun ++ [.delete nameA fun _ => 0]) ∧
    ¬ Machine.Always call BlocksOwned newDisk
      (oneBlockRun ++ [.delete nameA fun _ => 0]) := by
  refine ⟨newDisk_started, by decide, fun always => ?_⟩
  obtain ⟨replies, ran⟩ := run_afterCalls oneBlockRun_runs
  have last := (always.of_append ran).2 _ _ rfl
  rcases fsDelete_cases (afterCalls oneBlockRun) (fun _ => 0) nameA with
    ⟨none, -⟩ | ⟨e, deletes, deleted⟩
  · exact none 0 oneBlockRun_deletes
  · rw [deletes.unique oneBlockRun_deletes] at deleted
    exact oneBlockRun_deleted _ (deleted ▸ last)

end OperatingSys.FileSystem
