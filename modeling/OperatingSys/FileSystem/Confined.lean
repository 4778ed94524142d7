import OperatingSys.FileSystem.Splitting

/-!
# Bounds on sizes, offsets and blocks

Sizes and offsets stay below a limit, and the blocks that the inodes name lie on the disk.
With the limit that the inode table itself sets this holds whatever is called: an index past
`direct_offset` may reach any word of the table, but all that it ever puts there is the number
of a block.
-/

namespace OperatingSys.FileSystem

/-- Sizes and offsets are at most `limit`, and every block that an inode names lies on the open
disk, whose allocator starts at block 1. -/
structure Confined (limit : Nat) (s : State) : Prop where
  start : s.superblock.usedBlockBitmapOffset.toNat = 1
  onDisk : ∃ d, s.MountedOn d
  inDisk : ∀ i < maxNumOfFiles, ∀ k < directCount, (s.directOffset i k).toNat < totalBlocks
  size : ∀ i < maxNumOfFiles, s.fileSize i ≤ limit
  offset : ∀ j < maxFileDescriptors, (s.openFileDescriptors j).isUsed = true →
    ∃ p : Nat, (s.openFileDescriptors j).offset = p ∧ p ≤ limit

theorem Fresh.confined {d : String} {s : State} (fresh : Fresh d s) (limit : Nat) :
    Confined limit s := by
  obtain ⟨img, file, -⟩ := fresh.image
  exact {
    start := by
      rw [fresh.superblock]
      rfl
    onDisk := ⟨d, fresh.active, by simp [file]⟩
    inDisk := fun i _ k _ => by
      rw [State.directOffset, fresh.word]
      decide
    size := fun i _ => by
      rw [State.fileSize, fresh.word]
      exact Nat.zero_le _
    offset := fun j below isUsed => by simp [fresh.descriptor j below] at isUsed }

/-! ### What the calls store -/

section Stores

variable {limit : Nat} {s t : State} (confined : Confined limit s)
include confined

theorem Confined.storeDescriptor (j : Nat) {fd : FileDescriptor}
    (points : fd.isUsed = true → ∃ p : Nat, fd.offset = p ∧ p ≤ limit) :
    Confined limit (s.storeDescriptor j fd) where
  start := confined.start
  onDisk := confined.onDisk
  inDisk := confined.inDisk
  size := confined.size
  offset := fun j' inRange isUsed => by
    simp only [State.storeDescriptor, Function.update_apply] at isUsed ⊢
    split
    next here =>
      rw [if_pos here] at isUsed
      exact points isUsed
    next elsewhere =>
      rw [if_neg elsewhere] at isUsed
      exact confined.offset j' inRange isUsed

theorem Confined.storeSize (i : Nat) {v : Word} (small : v.toNat ≤ limit) :
    Confined limit (s.storeWord (fileSizeAddr i) v) where
  start := confined.start
  onDisk := confined.onDisk
  inDisk := fun i' file k below => by
    rw [State.directOffset, State.storeWord]
    simp only [Function.update_of_ne (directOffsetAddr_ne_fileSizeAddr below)]
    exact confined.inDisk i' file k below
  size := fun i' file => by
    rw [State.fileSize, State.storeWord]
    simp only [Function.update_apply]
    split
    · exact small
    · exact confined.size i' file
  offset := confined.offset

/-- A block may be taken for any word of the table, be it an entry of `direct_offset` or not. -/
theorem Confined.takeBlock (room : totalBlocks ≤ limit) (slot : Nat) {b : Nat}
    (upper : b < totalBlocks) : Confined limit (s.takeBlock slot b) := by
  have number : (BitVec.ofNat 64 b).toNat = b := by
    rw [BitVec.toNat_ofNat, Nat.mod_eq_of_lt (Nat.lt_trans upper (by decide))]
  exact {
    start := confined.start
    onDisk := confined.onDisk
    inDisk := fun i file k below => by
      rw [State.directOffset, State.takeBlock]
      simp only [Function.update_apply]
      split
      · rw [number]
        exact upper
      · exact confined.inDisk i file k below
    size := fun i file => by
      rw [State.fileSize, State.takeBlock]
      simp only [Function.update_apply]
      split
      · rw [number]
        exact Nat.le_trans (Nat.le_of_lt upper) room
      · exact confined.size i file
    offset := confined.offset }

theorem Confined.prepared (room : totalBlocks ≤ limit) {i k : Nat} (prepared : Prepared s i k t) :
    Confined limit t := by
  rcases prepared with ⟨-, rfl⟩ | ⟨-, b, free, rfl⟩
  · exact confined
  · exact confined.takeBlock room _ free.upper

/-- A round moves the descriptor, and the size of the file with it. -/
theorem Confined.advance {f p n : Nat} (small : limit < 2 ^ 31) (i : Nat)
    (points : (s.openFileDescriptors f).offset = p) (ends : p + n ≤ limit) :
    Confined limit (s.advance f i n) := by
  have moved : toInt32 ((s.openFileDescriptors f).offset + n) = ((p + n : Nat) : Int) := by
    rw [points, ← Int.natCast_add, toInt32_of_small (by omega) (by omega)]
  have grown : (BitVec.ofInt 64 ((p + n : Nat) : Int)).toNat ≤ limit := by
    rw [BitVec.toNat_ofInt]
    omega
  have stepped : Confined limit (s.storeDescriptor f
      { s.openFileDescriptors f with offset := ((p + n : Nat) : Int) }) :=
    confined.storeDescriptor f fun _ => ⟨p + n, rfl, ends⟩
  unfold State.advance
  simp only [moved]
  split
  · exact stepped.storeSize i grown
  · exact stepped

theorem Confined.setDisk {name : String} {disk : Disk} (active : disk.active = some name)
    (file : (disk.files name).isSome = true) : Confined limit { s with disk := disk } :=
  { confined with onDisk := ⟨name, active, file⟩ }

end Stores

/-! ### The calls -/

section Calls

variable {limit : Nat} {s : State} (confined : Confined limit s)
include confined

theorem Confined.create (name : CString) : Confined limit (fsCreate s name).2 := by
  have init : ∀ inode, Confined limit (s.initInode inode) := fun inode => {
    start := confined.start
    onDisk := confined.onDisk
    inDisk := fun i file k below => by
      rw [State.initInode_directOffset _ _ _ below]
      split
      · decide
      · exact confined.inDisk i file k below
    size := fun i file => by
      rw [State.initInode_fileSize]
      split
      · exact Nat.zero_le _
      · exact confined.size i file
    offset := confined.offset }
  rcases fsCreate_cases s name with same | ⟨inode, -, -, ⟨-, filled⟩ | ⟨e, -, -, filled⟩⟩
  · rw [same]
    exact confined
  · rw [filled]
    exact init inode
  · rw [filled]
    exact ⟨(init inode).start, (init inode).onDisk, (init inode).inDisk, (init inode).size,
      (init inode).offset⟩

theorem Confined.open (name : CString) : Confined limit (fsOpen s name).2 := by
  rcases fsOpen_cases s name with ⟨-, refused⟩ | ⟨e, j, -, opened⟩
  · rw [refused]
    exact confined
  · rw [opened]
    exact confined.storeDescriptor j fun _ => ⟨0, rfl, Nat.zero_le _⟩

theorem Confined.close (fildes : Int) : Confined limit (fsClose s fildes).2 := by
  unfold fsClose
  split
  · exact confined
  · split
    · exact confined
    · exact confined.storeDescriptor _ fun isUsed => absurd isUsed (by decide)

theorem Confined.delete (beyond : Nat → Byte) (name : CString) :
    Confined limit (fsDelete s beyond name).2 := by
  rcases fsDelete_cases s beyond name with ⟨-, same⟩ | ⟨e, -, deleted⟩
  · rw [same]
    exact confined
  · rw [deleted]
    -- neither the start of the allocator nor the inode table is touched
    refine ⟨?_, ?_, fun i file k below => ?_, fun i file => ?_, fun j inRange isUsed => ?_⟩
    · simp only [State.deleted]
      exact confined.start
    · simp only [State.MountedOn, State.deleted]
      exact confined.onDisk
    · simp only [State.directOffset, State.deleted]
      exact confined.inDisk i file k below
    · simp only [State.fileSize, State.deleted]
      exact confined.size i file
    · simp only [State.deleted] at isUsed ⊢
      exact confined.offset j inRange isUsed

omit confined in
/-- A length that passes the comparison with a size is not negative and at most the size. -/
private theorem accepted_length {length : BitVec 64} {size : Nat} (small : limit < 2 ^ 31)
    (bound : size ≤ limit) (accepted : toULong length.toInt ≤ size) :
    length.toInt = (length.toNat : Int) ∧ length.toNat ≤ limit := by
  have unsigned : toULong length.toInt = length.toNat := by
    rw [toULong, BitVec.toInt_eq_toNat_bmod, Int.bmod_def]
    have bound := length.isLt
    omega
  rw [unsigned] at accepted
  refine ⟨?_, by omega⟩
  rw [BitVec.toInt_eq_toNat_bmod, Int.bmod_def]
  omega

theorem Confined.lseek (small : limit < 2 ^ 31) (fildes : Int) (offset : BitVec 64) :
    Confined limit (fsLseek s fildes offset.toInt).2 := by
  unfold fsLseek
  split
  · exact confined
  · split
    · exact confined
    · dsimp only
      split
      · exact confined
      next isFile =>
        split
        · exact confined
        next shorter =>
          rw [Bool.not_eq_true, Bool.not_eq_false'] at isFile
          obtain ⟨natural, below⟩ := accepted_length small
            (confined.size _ (isFile_toNat_lt isFile)) (Nat.le_of_not_lt shorter)
          have narrow : toInt32 offset.toInt = (offset.toNat : Int) := by
            rw [natural, toInt32_of_small (by omega) (by omega)]
          exact confined.storeDescriptor _ fun _ => ⟨_, narrow, below⟩

theorem Confined.truncate (small : limit < 2 ^ 31) (fildes : Int) (length : BitVec 64) :
    Confined limit (fsTruncate s fildes length.toInt).2 := by
  rcases fsTruncate_cases s fildes length.toInt with same | ⟨-, isFile, shorter, set⟩
  · rw [same]
    exact confined
  · rw [set]
    obtain ⟨natural, below⟩ := accepted_length small
      (confined.size _ (isFile_toNat_lt isFile)) shorter
    have narrow : toInt32 length.toInt = (length.toNat : Int) := by
      rw [natural, toInt32_of_small (by omega) (by omega)]
    refine (confined.storeSize _ ?_).storeDescriptor _ fun _ => ⟨_, narrow, below⟩
    rw [BitVec.ofInt_toInt]
    exact below

end Calls

/-! ### Runs without any limit -/

/-- What the blocks named by the words of the inode table can hold together. -/
def tableLimit : Nat := inodeTableWords * blockSize

section Runs

variable {s t : State}

/-- A read that is defined stays within the table. -/
theorem fsReadLoop_within {i : Nat} (fuel : Nat) :
    ∀ (k off n : Nat) {ended : Bool} {bytes : List Byte}, off < blockSize →
      fsReadLoop s i fuel k off n = some (ended, bytes) → bytes ≠ [] →
      k * blockSize + off + bytes.length ≤ tableLimit := by
  induction fuel with
  | zero =>
    intro k off n ended bytes _ loop some_
    simp only [fsReadLoop, Option.some.injEq, Prod.mk.injEq] at loop
    exact absurd loop.2.symm some_
  | succ fuel ih =>
    intro k off n ended bytes inBlock loop some_
    simp only [fsReadLoop] at loop
    split at loop
    · simp only [Option.some.injEq, Prod.mk.injEq] at loop
      exact absurd loop.2.symm some_
    · split at loop
      · simp at loop
      next inTable =>
        have next : (k + 1) * blockSize ≤ tableLimit := by
          refine Nat.mul_le_mul_right _ ?_
          simp only [directOffsetAddr] at inTable
          omega
        rw [Nat.succ_mul] at next
        split at loop
        · simp only [Option.some.injEq, Prod.mk.injEq] at loop
          exact absurd loop.2.symm some_
        · split at loop
          · simp at loop
          next rest recursive =>
            simp only [Option.some.injEq, Prod.mk.injEq] at loop
            rw [← loop.2, List.length_append, List.length_map, List.length_range]
            -- nothing more is read, or the chunk has filled its block
            by_cases last : rest = []
            · rw [last, List.length_nil]
              omega
            · have later := ih (k + 1) 0 _ (by decide) recursive last
              rw [Nat.succ_mul] at later
              omega

theorem Confined.read {fildes : Int} {nbyte : Nat} {r : Int} {bytes : List Byte}
    (confined : Confined tableLimit s) (read : fsRead s fildes nbyte = some (r, bytes, t)) :
    Confined tableLimit t := by
  rcases fsRead_cases read with rfl | ⟨isOpen, nonneg, ⟨n, loop⟩, rfl⟩
  · exact confined
  · have small : tableLimit < 2 ^ 31 := by decide
    refine confined.storeDescriptor _ fun isUsed => ?_
    obtain ⟨p, points, below⟩ := confined.offset _ (isOpen_toNat_lt isOpen) isUsed
    rw [points, Int.toNat_natCast] at loop
    have ends : p + bytes.length ≤ tableLimit := by
      by_cases nothing : bytes = []
      · rw [nothing]
        exact below
      · have within := fsReadLoop_within n _ _ _ (Nat.mod_lt _ (by decide)) loop nothing
        rwa [Nat.div_add_mod'] at within
    refine ⟨p + bytes.length, ?_, ends⟩
    simp only [points]
    rw [← Int.natCast_add, toInt32_of_small (by omega) (by omega)]

theorem Confined.round {f i k off : Nat} {data : List Byte} {ended : Bool}
    (confined : Confined tableLimit s) (start : RoundAt s f k off data)
    (round : fsWriteRound s f i k off data = some (ended, t)) : Confined tableLimit t := by
  have room : totalBlocks ≤ tableLimit := by decide
  have first : s.superblock.usedBlockBitmapOffset.toNat < totalBlocks := by
    rw [confined.start]
    decide
  rcases fsWriteRound_cases first round with
    ⟨-, rfl | unfinished⟩ | ⟨-, u, buf, disk, ready, wrote, rfl⟩
  · exact confined
  · exact confined.prepared room unfinished
  · obtain ⟨name, active, file⟩ := Disk.active_of_blockWrite wrote
    have points : (u.openFileDescriptors f).offset = ((k * blockSize + off : Nat) : Int) := by
      rcases ready with ⟨-, rfl⟩ | ⟨-, b, -, rfl⟩
      · exact start.points
      · exact start.points
    have next : (k + 1) * blockSize ≤ tableLimit :=
      Nat.mul_le_mul_right _ (fsWriteRound_index round)
    have inBlock := start.inBlock
    have chunk : chunkSize off data ≤ blockSize - off := Nat.min_le_right _ _
    rw [Nat.succ_mul] at next
    exact ((confined.prepared room ready).setDisk active file).advance (by decide) i points
      (by omega)

/-- Every call keeps within what the table can address. -/
theorem Confined.call {c : Call} {r : Reply} (confined : Confined tableLimit s)
    (called : call s c = some (r, t)) : Confined tableLimit t := by
  have small : tableLimit < 2 ^ 31 := by decide
  have leads := leads_of_call called
  cases c with
  | create name =>
    obtain rfl := leads
    exact confined.create name
  | «open» name =>
    obtain rfl := leads
    exact confined.open name
  | close fildes =>
    obtain rfl := leads
    exact confined.close fildes
  | delete name beyond =>
    obtain rfl := leads
    exact confined.delete beyond name
  | read fildes nbyte =>
    obtain ⟨r', bytes, read⟩ := leads
    exact confined.read read
  | write fildes data =>
    obtain ⟨r', wrote⟩ := leads
    exact fsWrite_keeps (fun f i s s' k off data ended _ _ confined start round =>
      confined.round start round) wrote confined
  | lseek fildes offset =>
    obtain rfl := leads
    exact confined.lseek small fildes offset
  | truncate fildes length =>
    obtain rfl := leads
    exact confined.truncate small fildes length
  | getFilesize fildes =>
    obtain rfl := leads
    exact confined

theorem Started.confined {d : String} (started : Started d s) {calls : List Call}
    {replies : List Reply} (ran : Machine.run FileSystem.call s calls = some (replies, t)) :
    Confined tableLimit t :=
  Machine.run_invariant (Confined tableLimit)
    (fun _ _ _ _ confined _ called => confined.call called) (started.fresh.confined _)
    (Machine.admits_true calls) ran

end Runs

end OperatingSys.FileSystem
