import OperatingSys.FileSystem.Calls
import OperatingSys.FileSystem.Confined

/-!
# The limit on the size of a file

`MAX_FILESIZE` gives `direct_offset` its 256 entries, and nothing else looks at it.
`fs_write` goes on past them as long as it has data and free blocks, and so does `fs_read`
through a descriptor that a truncation has left behind the end of its file. All along a run
the files stay within the limit, and no index goes past the table, exactly if no call of the
run is one of these.
-/

namespace OperatingSys.FileSystem

/-! ### The block indices of a call -/

/-- `bytes_to_read` of `fs_read`. -/
def bytesToRead (size : Nat) (offset : Int) (nbyte : Nat) : Int :=
  let remainingBytes := toInt32 (size - offset)
  if nbyte < toULong remainingBytes then toInt32 nbyte else remainingBytes

/-- The values of `block_index` at which the loop of `fs_read` looks into `direct_offset`. -/
def readIndices (s : State) (fileIndex : Nat) :
    (fuel blockIndex blockOffset bytesLeft : Nat) → List Nat
  | 0, _, _, _ => []
  | fuel + 1, blockIndex, blockOffset, bytesLeft =>
    if bytesLeft = 0 then []
    else blockIndex ::
      if directOffsetAddr fileIndex blockIndex ≥ inodeTableWords then []
      else
        match s.disk.blockRead (toInt32 (s.directOffset fileIndex blockIndex).toNat) with
        | none => []
        | some _ => readIndices s fileIndex fuel (blockIndex + 1) 0
            (bytesLeft - min bytesLeft (blockSize - blockOffset))

/-- The values of `block_index` at which the loop of `fs_write` looks into `direct_offset`. -/
def writeIndices (fildes fileIndex : Nat) :
    (fuel : Nat) → State → (blockIndex blockOffset : Nat) → List Byte → List Nat
  | 0, _, _, _, _ => []
  | fuel + 1, s, blockIndex, blockOffset, data =>
    if data.isEmpty then []
    else blockIndex ::
      match fsWriteRound s fildes fileIndex blockIndex blockOffset data with
      | some (true, s') => writeIndices fildes fileIndex fuel s' (blockIndex + 1) 0
          (data.drop (chunkSize blockOffset data))
      | _ => []

/-- The values of `block_index` that a call uses; no other call than these two has any. -/
def blockIndices (s : State) : Call → List Nat
  | .read fildes nbyte =>
    let fd := s.openFileDescriptors fildes.toNat
    let bytes := bytesToRead (s.fileSize fd.inodeNumber.toNat) fd.offset nbyte
    if s.isOpen fildes && s.isFile fd.inodeNumber && 0 < bytes && 0 ≤ fd.offset then
      readIndices s fd.inodeNumber.toNat bytes.toNat (fd.offset.toNat / blockSize)
        (fd.offset.toNat % blockSize) bytes.toNat
    else []
  | .write fildes data =>
    let fd := s.openFileDescriptors fildes.toNat
    if s.isOpen fildes && s.isFile fd.inodeNumber && 0 ≤ fd.offset then
      writeIndices fildes.toNat fd.inodeNumber.toNat data.length s (fd.offset.toNat / blockSize)
        (fd.offset.toNat % blockSize) data
    else []
  | _ => []

/-! ### The limit -/

/-- No file is longer than `MAX_FILESIZE`. -/
def SizesBelow (s : State) : Prop := ∀ i < maxNumOfFiles, s.fileSize i ≤ maxFilesize

/-- The call stays within the entries of `direct_offset`. -/
def IndicesBelow (s : State) (c : Call) : Prop := ∀ k ∈ blockIndices s c, k < directCount

/-- A read starts within its file, or it ends at or below `MAX_FILESIZE`, or it asks for so
much that the comparison with the negative number of bytes left refuses it; a write ends at or
below `MAX_FILESIZE`, or the disk has fewer free blocks than the file lacks up to there. -/
def WithinLimit (s : State) : Call → Prop
  | .read fildes nbyte =>
    let fd := s.openFileDescriptors fildes.toNat
    s.isOpen fildes = true → s.isFile fd.inodeNumber = true →
      fd.offset ≤ s.fileSize fd.inodeNumber.toNat ∨ fd.offset + toInt32 nbyte ≤ maxFilesize ∨
        toULong (s.fileSize fd.inodeNumber.toNat - fd.offset) ≤ nbyte
  | .write fildes data =>
    let fd := s.openFileDescriptors fildes.toNat
    s.isOpen fildes = true → s.isFile fd.inodeNumber = true →
      fd.offset + data.length ≤ maxFilesize ∨
        (freeBlocks s).card < (missingBlocks s fd.inodeNumber.toNat (fd.offset.toNat / blockSize)
          maxFilesize).card
  | _ => True

instance (s : State) : (c : Call) → Decidable (WithinLimit s c)
  | .read _ _ => inferInstanceAs (Decidable (_ → _ → _ ∨ _ ∨ _))
  | .write _ _ => inferInstanceAs (Decidable (_ → _ → _ ∨ _))
  | .create _ | .open _ | .close _ | .delete _ _ | .lseek _ _ | .truncate _ _ | .getFilesize _ =>
    isTrue trivial

/-- What holds as long as every call is within the limit: sizes and offsets are at most
`MAX_FILESIZE`, and every block that an inode names lies on the open disk. -/
structure Bounded (s : State) : Prop where
  start : s.superblock.usedBlockBitmapOffset.toNat = 1
  onDisk : ∃ d, s.MountedOn d
  inDisk : ∀ i < maxNumOfFiles, ∀ k < directCount, (s.directOffset i k).toNat < totalBlocks
  size : SizesBelow s
  offset : ∀ j < maxFileDescriptors, (s.openFileDescriptors j).isUsed = true →
    ∃ p : Nat, (s.openFileDescriptors j).offset = p ∧ p ≤ maxFilesize

theorem Bounded.confined {s : State} (bounded : Bounded s) : Confined maxFilesize s :=
  ⟨bounded.start, bounded.onDisk, bounded.inDisk, bounded.size, bounded.offset⟩

theorem Confined.bounded {s : State} (confined : Confined maxFilesize s) : Bounded s :=
  ⟨confined.start, confined.onDisk, confined.inDisk, confined.size, confined.offset⟩

theorem Fresh.bounded {d : String} {s : State} (fresh : Fresh d s) : Bounded s :=
  (fresh.confined maxFilesize).bounded

section Reading

variable {s : State} {i : Nat}

/-- A read that ends at or below the limit stays within the table. -/
theorem readIndices_below (fuel : Nat) :
    ∀ k off n : Nat, off < blockSize → (0 < n → k * blockSize + off + n ≤ maxFilesize) →
      ∀ j ∈ readIndices s i fuel k off n, j < directCount := by
  induction fuel with
  | zero => exact fun _ _ _ _ _ j member => absurd member List.not_mem_nil
  | succ fuel ih =>
    intro k off n inBlock within j member
    simp only [readIndices] at member
    split at member
    · exact absurd member List.not_mem_nil
    next more =>
      have ends := within (by omega)
      rcases List.mem_cons.mp member with rfl | later
      · exact index_lt_directCount (p := j * blockSize + off + n) (by omega) ends
      · split at later
        · exact absurd later List.not_mem_nil
        · split at later
          · exact absurd later List.not_mem_nil
          · refine ih (k + 1) 0 _ (by decide) (fun left => ?_) j later
            rw [Nat.succ_mul]
            omega

/-- A read that ends behind the limit goes past the table: every block before that lies on
the disk. -/
theorem Bounded.readIndices_past (bounded : Bounded s) (file : i < maxNumOfFiles) (fuel : Nat) :
    ∀ k off n : Nat, off < blockSize → n ≤ fuel → k * blockSize + off ≤ maxFilesize →
      maxFilesize < k * blockSize + off + n → ∃ j ∈ readIndices s i fuel k off n, directCount ≤ j := by
  obtain ⟨d, onDisk⟩ := bounded.onDisk
  obtain ⟨img, opened⟩ := MountedOn.image onDisk
  have limit : maxFilesize = directCount * blockSize := rfl
  induction fuel with
  | zero => exact fun _ _ _ _ _ _ _ => by omega
  | succ fuel ih =>
    intro k off n inBlock enough lower past
    have more : n ≠ 0 := by omega
    simp only [readIndices, more, if_false, List.mem_cons, exists_eq_or_imp]
    by_cases below : k < directCount
    · right
      have inTable : ¬ directOffsetAddr i k ≥ inodeTableWords :=
        Nat.not_le.mpr (directOffsetAddr_in_table file below)
      have inDisk := bounded.inDisk i file k below
      have block : toInt32 (s.directOffset i k).toNat = ((s.directOffset i k).toNat : Int) :=
        toInt32_of_small (by omega) (by simp only [totalBlocks] at inDisk; omega)
      simp only [inTable, if_false, block, Disk.blockRead_of_image opened inDisk]
      have next : (k + 1) * blockSize ≤ directCount * blockSize := Nat.mul_le_mul_right _ below
      rw [Nat.succ_mul] at next
      refine ih (k + 1) 0 _ (by decide) (by omega) (by rw [Nat.succ_mul]; omega) ?_
      rw [Nat.succ_mul]
      omega
    · exact Or.inl (by omega)

theorem fsReadLoop_length (fuel : Nat) :
    ∀ (k off n : Nat) {bytes : List Byte}, off < blockSize → n ≤ fuel →
      fsReadLoop s i fuel k off n = some (true, bytes) → bytes.length = n := by
  induction fuel with
  | zero =>
    intro k off n bytes _ enough loop
    simp only [fsReadLoop, Option.some.injEq, Prod.mk.injEq, true_and] at loop
    rw [← loop, List.length_nil]
    omega
  | succ fuel ih =>
    intro k off n bytes inBlock enough loop
    simp only [fsReadLoop] at loop
    split at loop
    next done =>
      simp only [Option.some.injEq, Prod.mk.injEq, true_and] at loop
      rw [← loop, List.length_nil, done]
    next more =>
      split at loop
      · simp at loop
      · split at loop
        · simp at loop
        · split at loop
          · simp at loop
          next ended rest recursive =>
            simp only [Option.some.injEq, Prod.mk.injEq] at loop
            obtain ⟨rfl, rfl⟩ := loop
            rw [List.length_append, List.length_map, List.length_range,
              ih (k + 1) 0 _ (by decide) (by omega) recursive]
            omega

end Reading

section Writing

variable {s t : State} {f i k p : Nat}

theorem Bounded.put {name : String} {img : Image} {b off n : Nat} {data : List Byte}
    (bounded : Bounded s) (here : At s f i p) (within : p + n ≤ maxFilesize) :
    Bounded (s.putBytes name img f i b off n data) := by
  rw [At] at here
  let disk := Disk.holding s.disk.files name (Function.update img b (overlay (img b) off n data))
  have file : (disk.files name).isSome = true := by simp [disk, Disk.holding]
  have written := bounded.confined.setDisk rfl file
  exact (written.advance (by decide) i (by simp [here]) within).bounded

/-- A round within the table finds the disk full, or it writes its chunk, for which it takes a
free block if the file lacks that one. -/
theorem Bounded.round (bounded : Bounded s) {off : Nat} (ready : Ready s f i (k * blockSize + off))
    (below : k < directCount) (inBlock : off < blockSize) (data : List Byte) :
    (k ∈ missingBlocks s i k maxFilesize ∧ freeBlocks s = ∅ ∧
      fsWriteRound s f i k off data = some (false, s)) ∨
    ∃ s', fsWriteRound s f i k off data = some (true, s') ∧ Bounded s' ∧
      Ready s' f i (k * blockSize + off + chunkSize off data) ∧
      ∃ x, (missingBlocks s i k maxFilesize).card =
          (missingBlocks s' i (k + 1) maxFilesize).card + x ∧
        (freeBlocks s).card = (freeBlocks s').card + x := by
  have limit : maxFilesize = 256 * blockSize := rfl
  have small : 256 * blockSize < 2 ^ 31 := by decide
  have next : (k + 1) * blockSize ≤ 256 * blockSize := Nat.mul_le_mul_right _ below
  rw [Nat.succ_mul] at next
  have chunk : chunkSize off data ≤ blockSize - off := Nat.min_le_right _ _
  rcases ready.round below with stuck | ⟨t, name, img, prepared, ready', -, rounds⟩
  · have start : s.superblock.usedBlockBitmapOffset.toNat < totalBlocks := by
      rw [bounded.start]
      decide
    exact Or.inl ⟨mem_missingBlocks.mpr ⟨below, Nat.le_refl k, by omega, stuck.1⟩,
      freeBlocks_eq_empty start stuck.2, stuck.round ready.file below f off data⟩
  · refine Or.inr ⟨_, rounds off data, (bounded.confined.prepared (by decide) prepared).bounded.put ready'.here (by omega),
      ready'.put (by omega), ?_⟩
    exact counts_after_round below (by omega) prepared (advance_sameBlocks _ _ _ _ _)

/-- What is left of the data after a chunk, and where it goes. -/
private theorem chunk_rest {k off : Nat} {data : List Byte} (inBlock : off < blockSize)
    (left : data.drop (chunkSize off data) ≠ []) :
    chunkSize off data = blockSize - off ∧
      k * blockSize + off + chunkSize off data = (k + 1) * blockSize + 0 ∧
      (k + 1) * blockSize + 0 + (data.drop (chunkSize off data)).length =
        k * blockSize + off + data.length := by
  have length := List.length_pos_iff.mpr left
  rw [List.length_drop] at length ⊢
  have filled : chunkSize off data = blockSize - off := by
    rw [chunkSize] at *
    omega
  rw [Nat.succ_mul]
  omega

/-- Data that ends at or below the limit, or a disk that is full before that: the loop stays
within the table, is defined and keeps all bounds. -/
theorem Bounded.writeLoop_below (fuel : Nat) :
    ∀ (s : State) (k off : Nat) (data : List Byte) {p : Nat}, Bounded s → Ready s f i p →
      off < blockSize → (data ≠ [] → p = k * blockSize + off ∧
        (k * blockSize + off + data.length ≤ maxFilesize ∨
          (freeBlocks s).card < (missingBlocks s i k maxFilesize).card)) →
      (∀ j ∈ writeIndices f i fuel s k off data, j < directCount) ∧
        ∃ ended s', fsWriteLoop f i fuel s k off data = some (ended, s') ∧ Bounded s' := by
  -- Induction on the rounds. A round takes as many of the free blocks as of the missing ones, so
  -- a disk that is full before the limit stays so.
  induction fuel with
  | zero =>
    intro s k off data p bounded _ _ _
    exact ⟨fun j member => absurd member List.not_mem_nil, true, s, rfl, bounded⟩
  | succ fuel ih =>
    intro s k off data p bounded ready inBlock within
    by_cases empty : data = []
    · subst empty
      exact ⟨fun j member => absurd member List.not_mem_nil, true, s, rfl, bounded⟩
    · obtain ⟨rfl, ends⟩ := within empty
      have positive := List.length_pos_iff.mpr empty
      have more : data.isEmpty = false := by simpa using empty
      -- the data ends below the limit, or some index from here on has no block yet
      have below : k < directCount := by
        rcases ends with ends | full
        · exact index_lt_directCount (p := k * blockSize + off + data.length) (by omega) ends
        · obtain ⟨k', member⟩ := Finset.card_pos.mp (Nat.zero_lt_of_lt full)
          obtain ⟨below', lower, -⟩ := mem_missingBlocks.mp member
          omega
      simp only [writeIndices, fsWriteLoop, more, Bool.false_eq_true, if_false]
      -- either the disk is full here and the loop ends, or the round fills its part of the block
      rcases bounded.round ready below inBlock data with
        ⟨-, -, round⟩ | ⟨s', round, bounded', ready', x, missing, free⟩
      · simp only [round]
        refine ⟨fun j member => ?_, false, s, rfl, bounded⟩
        rw [List.mem_singleton.mp member]
        exact below
      · simp only [round]
        obtain ⟨later, result⟩ := ih s' (k + 1) 0 (data.drop (chunkSize off data)) bounded' ready'
          (by decide) fun left => by
            obtain ⟨-, position, length⟩ := chunk_rest (k := k) inBlock left
            refine ⟨position, ?_⟩
            rw [length]
            omega
        refine ⟨fun j member => ?_, result⟩
        rcases List.mem_cons.mp member with rfl | inRest
        · exact below
        · exact later j inRest

/-- Data that goes past the limit, and free blocks enough up to there: the loop goes past the
table. -/
theorem Bounded.writeLoop_past (fuel : Nat) :
    ∀ (s : State) (k off : Nat) (data : List Byte), Bounded s →
      Ready s f i (k * blockSize + off) → data.length ≤ fuel → off < blockSize →
      k * blockSize + off ≤ maxFilesize → maxFilesize < k * blockSize + off + data.length →
      (missingBlocks s i k maxFilesize).card ≤ (freeBlocks s).card →
      ∃ j ∈ writeIndices f i fuel s k off data, directCount ≤ j := by
  have limit : maxFilesize = 256 * blockSize := rfl
  -- induction on the rounds: each one goes on until the index is past the table
  induction fuel with
  | zero =>
    intro s k off data _ _ short _ lower past
    omega
  | succ fuel ih =>
    intro s k off data bounded ready short inBlock lower past enough
    have empty : data ≠ [] := List.ne_nil_of_length_pos (by omega)
    have more : data.isEmpty = false := by simpa using empty
    simp only [writeIndices, more, Bool.false_eq_true, if_false, List.mem_cons, exists_eq_or_imp]
    by_cases below : k < directCount
    · right
      have next : (k + 1) * blockSize ≤ 256 * blockSize := Nat.mul_le_mul_right _ below
      rw [Nat.succ_mul] at next
      -- a full disk would leave this index without a block, against the blocks that are enough
      rcases bounded.round ready below inBlock data with
        ⟨member, none_, -⟩ | ⟨s', round, bounded', ready', x, missing, free⟩
      · have positive := Finset.card_pos.mpr ⟨k, member⟩
        rw [none_, Finset.card_empty] at enough
        omega
      -- the block ends at or below the limit, so that data is left for the next one
      · have left : data.drop (chunkSize off data) ≠ [] := by
          have chunk : chunkSize off data ≤ blockSize - off := Nat.min_le_right _ _
          refine List.ne_nil_of_length_pos ?_
          rw [List.length_drop]
          omega
        obtain ⟨filled, position, length⟩ := chunk_rest (k := k) inBlock left
        have progress := chunkSize_pos inBlock empty
        simp only [round]
        rw [position] at ready'
        refine ih s' (k + 1) 0 _ bounded' ready' ?_ (by decide) ?_ ?_ (by omega)
        · rw [List.length_drop]
          omega
        · rw [Nat.succ_mul]
          omega
        · rw [length]
          exact past
    · exact Or.inl (by simpa using below)

end Writing

/-! ### One call -/

section Calls

variable {s t : State}

/-- A descriptor that passes the two tests. -/
theorem Bounded.ready (bounded : Bounded s) {fildes : Int} (isOpen : s.isOpen fildes = true)
    (isFile : s.isFile (s.openFileDescriptors fildes.toNat).inodeNumber = true) :
    ∃ f i p, fildes = ((f : Nat) : Int) ∧ f < maxFileDescriptors ∧ p ≤ maxFilesize ∧
      Ready s f i p := by
  have inRange := isOpen_toNat_lt isOpen
  have isUsed : (s.openFileDescriptors fildes.toNat).isUsed = true := by
    simp only [State.isOpen, Bool.and_eq_true] at isOpen
    exact isOpen.2
  obtain ⟨p, offset, below⟩ := bounded.offset _ inRange isUsed
  have ready := Ready.of_tests isOpen isFile (by omega) bounded.start bounded.inDisk bounded.onDisk
  rw [offset, Int.toNat_natCast] at ready
  exact ⟨_, _, p, (isOpen_toNat isOpen).symm, inRange, below, ready⟩

theorem Ready.write_iff {f i p : Nat} (bounded : Bounded s) (ready : Ready s f i p)
    (inRange : f < maxFileDescriptors) (below : p ≤ maxFilesize) (data : List Byte) :
    (IndicesBelow s (.write f data) ↔ WithinLimit s (.write f data)) ∧
      (WithinLimit s (.write f data) → ∀ r t, fsWrite s f data = some (r, t) → Bounded t) := by
  have here := ready.here
  rw [At] at here
  have isOpen := ready.isOpen inRange
  have isFile := ready.isFile
  have nonneg : (0 : Int) ≤ p := by omega
  have position := Nat.div_add_mod' p blockSize
  have inBlock : p % blockSize < blockSize := Nat.mod_lt _ (by decide)
  have limit : WithinLimit s (.write f data) ↔ (p + data.length ≤ maxFilesize ∨
      (freeBlocks s).card < (missingBlocks s i (p / blockSize) maxFilesize).card) := by
    simp only [WithinLimit, Int.toNat_natCast, here, isOpen, isFile, true_imp_iff]
    rw [← Int.natCast_add, Int.ofNat_le]
  have indices : blockIndices s (.write f data) =
      writeIndices f i data.length s (p / blockSize) (p % blockSize) data := by
    simp only [blockIndices, Int.toNat_natCast, here, isOpen, isFile, nonneg, decide_true,
      Bool.and_true, if_true]
  have within : WithinLimit s (.write f data) →
      (∀ j ∈ writeIndices f i data.length s (p / blockSize) (p % blockSize) data, j < directCount) ∧
        ∃ ended s', fsWriteLoop f i data.length s (p / blockSize) (p % blockSize) data =
          some (ended, s') ∧ Bounded s' := by
    intro ok
    refine Bounded.writeLoop_below data.length s (p / blockSize) (p % blockSize) data bounded ready
      inBlock fun _ => ⟨position.symm, ?_⟩
    rw [position]
    exact limit.mp ok
  -- data past the limit, with blocks for it, leads to an index past the table; the other two parts
  -- are what `within` says
  refine ⟨⟨fun inside => ?_, fun ok => ?_⟩, fun ok r t wrote => ?_⟩
  · rw [limit]
    by_contra contrary
    rw [not_or] at contrary
    obtain ⟨j, member, past⟩ := Bounded.writeLoop_past data.length s (p / blockSize) (p % blockSize)
      data bounded (by rw [position]; exact ready) (Nat.le_refl _) inBlock (by omega) (by omega)
      (by omega)
    have := inside j (by rw [indices]; exact member)
    omega
  · intro j member
    rw [indices] at member
    exact (within ok).1 j member
  · obtain ⟨-, ended, s', loop, bounded'⟩ := within ok
    have unfolded := ready.fsWrite_eq inRange data
    rw [writeFrom, loop, wrote] at unfolded
    cases ended with
    | false =>
      rw [(Prod.mk.inj (Option.some.inj unfolded)).2]
      exact bounded'
    | true =>
      rw [(Prod.mk.inj (Option.some.inj unfolded)).2]
      exact bounded'

/-- What `fs_read` sets out to read: what is left of the file or less; and behind the end of
the file, what it is asked for. -/
theorem bytesToRead_eq {size p : Nat} (small : size ≤ maxFilesize) (below : p ≤ maxFilesize)
    (nbyte : Nat) :
    bytesToRead size p nbyte =
      if p ≤ size then ((min nbyte (size - p) : Nat) : Int)
      else if nbyte < toULong ((size : Int) - p) then toInt32 nbyte else (size : Int) - p := by
  have limit : maxFilesize = 1048576 := rfl
  have narrow : toInt32 ((size : Int) - p) = (size : Int) - p := by
    rw [toInt32, Int.bmod_def]
    omega
  simp only [bytesToRead, narrow]
  by_cases inFile : p ≤ size
  · rw [if_pos inFile]
    have left : toULong ((size : Int) - p) = size - p := by
      rw [toULong_of_small (by omega) (by omega)]
      omega
    rw [left]
    split
    next less =>
      rw [toInt32_of_small (by omega) (by omega)]
      omega
    next => omega
  · rw [if_neg inFile]

theorem Ready.read_within_iff {f i p : Nat} (bounded : Bounded s) (ready : Ready s f i p)
    (inRange : f < maxFileDescriptors) (below : p ≤ maxFilesize) (nbyte : Nat) :
    WithinLimit s (.read f nbyte) ↔ bytesToRead (s.fileSize i) p nbyte ≤ 0 ∨
      p + bytesToRead (s.fileSize i) p nbyte ≤ maxFilesize := by
  have here := ready.here
  rw [At] at here
  have small := bounded.size i ready.file
  rw [bytesToRead_eq small below]
  simp only [WithinLimit, Int.toNat_natCast, here, ready.isOpen inRange, ready.isFile, true_imp_iff]
  split
  next inFile =>
    refine iff_of_true (Or.inl (by omega)) (Or.inr ?_)
    omega
  next behind =>
    split
    next => omega
    next => omega

theorem Ready.read_indices {f i p : Nat} (ready : Ready s f i p) (inRange : f < maxFileDescriptors)
    (nbyte : Nat) :
    blockIndices s (.read f nbyte) =
      if 0 < bytesToRead (s.fileSize i) p nbyte then
        readIndices s i (bytesToRead (s.fileSize i) p nbyte).toNat (p / blockSize) (p % blockSize)
          (bytesToRead (s.fileSize i) p nbyte).toNat
      else [] := by
  have here := ready.here
  rw [At] at here
  have nonneg : (0 : Int) ≤ p := by omega
  simp only [blockIndices, Int.toNat_natCast, here, ready.isOpen inRange, ready.isFile, nonneg,
    decide_true, Bool.and_true, Bool.true_and, decide_eq_true_eq]

/-- A read leaves the process alone, or moves the offset by what it set out to read. -/
theorem Ready.read_moves {f i p nbyte : Nat} {r : Int} {bytes : List Byte} {t : State}
    (ready : Ready s f i p) (inRange : f < maxFileDescriptors)
    (read : fsRead s f nbyte = some (r, bytes, t)) :
    t = s ∨ 0 < bytesToRead (s.fileSize i) p nbyte ∧
      t = s.storeDescriptor f ⟨true, i, toInt32 (p + bytesToRead (s.fileSize i) p nbyte)⟩ := by
  have here := ready.here
  rw [At] at here
  have nonneg : (0 : Int) ≤ p := by omega
  have inBlock : p % blockSize < blockSize := Nat.mod_lt _ (by decide)
  have requested : (if nbyte < toULong (toInt32 ((s.fileSize i : Int) - p)) then toInt32 nbyte
      else toInt32 ((s.fileSize i : Int) - p)) = bytesToRead (s.fileSize i) p nbyte := rfl
  simp only [fsRead, ready.isOpen inRange, Bool.not_true, Bool.false_eq_true, if_false,
    Int.toNat_natCast, here, ready.isFile, Int.not_lt.mpr nonneg, requested] at read
  split at read
  · simp only [Option.some.injEq, Prod.mk.injEq] at read
    exact Or.inl read.2.2.symm
  next positive =>
    split at read
    · simp at read
    · simp only [Option.some.injEq, Prod.mk.injEq] at read
      exact Or.inl read.2.2.symm
    next delivered loop =>
      have length := fsReadLoop_length _ _ _ _ inBlock (Nat.le_refl _) loop
      have count : (delivered.length : Int) = bytesToRead (s.fileSize i) p nbyte := by omega
      simp only [Option.some.injEq, Prod.mk.injEq] at read
      rw [← read.2.2, count]
      exact Or.inr ⟨by omega, rfl⟩

theorem Ready.read_iff {f i p : Nat} (bounded : Bounded s) (ready : Ready s f i p)
    (inRange : f < maxFileDescriptors) (below : p ≤ maxFilesize) (nbyte : Nat) :
    IndicesBelow s (.read f nbyte) ↔ WithinLimit s (.read f nbyte) := by
  have position := Nat.div_add_mod' p blockSize
  have inBlock : p % blockSize < blockSize := Nat.mod_lt _ (by decide)
  have within := ready.read_within_iff bounded inRange below nbyte
  have indices := ready.read_indices inRange nbyte
  by_cases positive : 0 < bytesToRead (s.fileSize i) p nbyte
  · rw [if_pos positive] at indices
    obtain ⟨n, count⟩ : ∃ n : Nat, bytesToRead (s.fileSize i) p nbyte = n :=
      ⟨_, (Int.toNat_of_nonneg (Int.le_of_lt positive)).symm⟩
    simp only [count, Int.toNat_natCast] at indices within positive
    refine ⟨fun inside => ?_, fun ok => ?_⟩
    · rw [within]
      by_contra contrary
      rw [not_or] at contrary
      -- the loop reaches the block behind the last one of the table
      obtain ⟨j, member, past⟩ := bounded.readIndices_past ready.file n (p / blockSize)
        (p % blockSize) n inBlock (Nat.le_refl _) (by omega) (by omega)
      have := inside j (by rw [indices]; exact member)
      omega
    · intro j member
      rw [indices] at member
      have ends := within.mp ok
      exact readIndices_below n (p / blockSize) (p % blockSize) n inBlock (fun _ => by omega) j member
  · rw [if_neg positive] at indices
    refine iff_of_true (fun j member => ?_) (within.mpr (Or.inl (by omega)))
    rw [indices] at member
    exact absurd member List.not_mem_nil

theorem Ready.read_bounded {f i p nbyte : Nat} {r : Int} {bytes : List Byte} {t : State}
    (bounded : Bounded s) (ready : Ready s f i p) (inRange : f < maxFileDescriptors)
    (below : p ≤ maxFilesize) (ok : WithinLimit s (.read f nbyte))
    (read : fsRead s f nbyte = some (r, bytes, t)) : Bounded t := by
  rcases ready.read_moves inRange read with rfl | ⟨positive, rfl⟩
  · exact bounded
  · obtain ⟨n, count⟩ : ∃ n : Nat, bytesToRead (s.fileSize i) p nbyte = n :=
      ⟨_, (Int.toNat_of_nonneg (Int.le_of_lt positive)).symm⟩
    have within := (ready.read_within_iff bounded inRange below nbyte).mp ok
    rw [count] at within positive ⊢
    have limit : maxFilesize = 1048576 := rfl
    have inside : p + n ≤ maxFilesize := by omega
    have moved : toInt32 ((p : Int) + n) = ((p + n : Nat) : Int) := by
      rw [← Int.natCast_add, toInt32_of_small (by omega) (by omega)]
    rw [moved]
    exact (bounded.confined.storeDescriptor f fun _ => ⟨p + n, rfl, inside⟩).bounded

/-- A call through a descriptor that fails one of the two tests uses no index. -/
private theorem indices_refused {fildes : Int}
    (refused : ¬ (s.isOpen fildes = true ∧
      s.isFile (s.openFileDescriptors fildes.toNat).inodeNumber = true)) (c : Call)
    (reads : (∃ nbyte, c = .read fildes nbyte) ∨ ∃ data, c = .write fildes data) :
    IndicesBelow s c ↔ WithinLimit s c := by
  rcases reads with ⟨nbyte, rfl⟩ | ⟨data, rfl⟩
  · refine iff_of_true (fun j member => ?_) fun isOpen isFile => absurd ⟨isOpen, isFile⟩ refused
    rw [blockIndices, if_neg fun h => refused ?_] at member
    · exact absurd member List.not_mem_nil
    · simp only [Bool.and_eq_true] at h
      exact h.1.1
  · refine iff_of_true (fun j member => ?_) fun isOpen isFile => absurd ⟨isOpen, isFile⟩ refused
    rw [blockIndices, if_neg fun h => refused ?_] at member
    · exact absurd member List.not_mem_nil
    · simp only [Bool.and_eq_true] at h
      exact h.1

/-- In a bounded state a call stays within the table exactly if it is within the limit. -/
theorem Bounded.indices_iff (bounded : Bounded s) (c : Call) :
    IndicesBelow s c ↔ WithinLimit s c := by
  cases c with
  | read fildes nbyte =>
    by_cases tests : s.isOpen fildes = true ∧
        s.isFile (s.openFileDescriptors fildes.toNat).inodeNumber = true
    · obtain ⟨f, i, p, rfl, inRange, below, ready⟩ := bounded.ready tests.1 tests.2
      exact ready.read_iff bounded inRange below nbyte
    · exact indices_refused tests _ (Or.inl ⟨nbyte, rfl⟩)
  | write fildes data =>
    by_cases tests : s.isOpen fildes = true ∧
        s.isFile (s.openFileDescriptors fildes.toNat).inodeNumber = true
    · obtain ⟨f, i, p, rfl, inRange, below, ready⟩ := bounded.ready tests.1 tests.2
      exact (ready.write_iff bounded inRange below data).1
    · exact indices_refused tests _ (Or.inr ⟨data, rfl⟩)
  | _ => exact iff_of_true (fun j member => absurd member List.not_mem_nil) trivial

/-- Calls within the limit keep all bounds. -/
theorem Bounded.call (bounded : Bounded s) {c : Call} {r : Reply} (within : WithinLimit s c)
    (called : call s c = some (r, t)) : Bounded t := by
  have leads := leads_of_call called
  cases c with
  | create name =>
    obtain rfl := leads
    exact (bounded.confined.create name).bounded
  | «open» name =>
    obtain rfl := leads
    exact (bounded.confined.open name).bounded
  | close fildes =>
    obtain rfl := leads
    exact (bounded.confined.close fildes).bounded
  | delete name beyond =>
    obtain rfl := leads
    exact (bounded.confined.delete beyond name).bounded
  -- a read or a write that fails its tests leaves the state alone; else its file is open
  | read fildes nbyte =>
    obtain ⟨r', bytes, read⟩ := leads
    by_cases tests : s.isOpen fildes = true ∧
        s.isFile (s.openFileDescriptors fildes.toNat).inodeNumber = true
    · obtain ⟨f, i, p, rfl, inRange, below, ready⟩ := bounded.ready tests.1 tests.2
      exact ready.read_bounded bounded inRange below within read
    · rw [fsRead_refused tests] at read
      simp only [Option.some.injEq, Prod.mk.injEq] at read
      exact read.2.2 ▸ bounded
  | write fildes data =>
    obtain ⟨r', wrote⟩ := leads
    by_cases tests : s.isOpen fildes = true ∧
        s.isFile (s.openFileDescriptors fildes.toNat).inodeNumber = true
    · obtain ⟨f, i, p, rfl, inRange, below, ready⟩ := bounded.ready tests.1 tests.2
      exact (ready.write_iff bounded inRange below data).2 within r' t wrote
    · rw [fsWrite_refused tests] at wrote
      simp only [Option.some.injEq, Prod.mk.injEq] at wrote
      exact wrote.2 ▸ bounded
  | lseek fildes offset =>
    obtain rfl := leads
    exact (bounded.confined.lseek (by decide) fildes offset).bounded
  | truncate fildes length =>
    obtain rfl := leads
    exact (bounded.confined.truncate (by decide) fildes length).bounded
  | getFilesize fildes =>
    obtain rfl := leads
    exact bounded

end Calls

/-! ### Runs -/

/-- **The limit.** On a new disk, no file exceeds `MAX_FILESIZE` all along a run and no call of
the run uses an index past `direct_offset`, exactly if every call of the run is within the
limit. -/
theorem limit_kept_iff {d : String} {s : State} (started : Started d s) (calls : List Call) :
    (Machine.Always call SizesBelow s calls ∧ Machine.Admits call IndicesBelow s calls) ↔
      Machine.Admits call WithinLimit s calls := by
  have initial := started.fresh.bounded
  have same : Machine.Admits call IndicesBelow s calls ↔ Machine.Admits call WithinLimit s calls :=
    Machine.admits_iff_admits Bounded (fun s c bounded _ => bounded.indices_iff c)
      (fun s c r t bounded _ within called => bounded.call within called) initial
      (Machine.admits_true calls)
  constructor
  · exact fun kept => same.mp kept.2
  · intro within
    exact ⟨Machine.always_of_invariant Bounded (fun s bounded => bounded.size)
      (fun s c r t bounded ok called => bounded.call ok called) initial within, same.mpr within⟩

/-- One file, created and opened. -/
def openedFile : List Call := [.create nameA, .open nameA]

set_option maxRecDepth 100000 in
theorem openedFile_runs : (Machine.run call newDisk openedFile).isSome = true := by decide

set_option maxRecDepth 100000 in
theorem openedFile_state :
    (afterCalls openedFile).openFileDescriptors 0 = ⟨true, 0, 0⟩ ∧
      (afterCalls openedFile).isOpen 0 = true ∧ (afterCalls openedFile).isFile 0 = true ∧
      (afterCalls openedFile).superblock.usedBlockBitmapCount = 1 := by
  decide

/-- Three bytes are written and read back. -/
def threeBytesRun : List Call := openedFile ++ [.write 0 [1, 2, 3], .lseek 0 0, .read 0 3]

theorem limit_kept_iff_three_bytes :
    (Machine.run call newDisk threeBytesRun).map Prod.fst =
        some [(0, []), (0, []), (3, []), (0, []), (3, [1, 2, 3])] ∧
      Machine.Always call SizesBelow newDisk threeBytesRun ∧
      Machine.Admits call IndicesBelow newDisk threeBytesRun :=
  ⟨by decide +kernel, (limit_kept_iff newDisk_started _).mpr (by decide +kernel)⟩

/-- One byte more than a file can have. -/
def tooMuch : List Byte := List.replicate (maxFilesize + 1) 7

/-- A new file is written past the limit: the loop goes on with index 256, which is the word of
the inode behind `direct_offset`. -/
theorem write_past_limit :
    Started "disk" newDisk ∧
    (∃ k ∈ blockIndices (afterCalls openedFile) (.write 0 tooMuch), directCount ≤ k) ∧
    ¬ (Machine.Always call SizesBelow newDisk (openedFile ++ [.write 0 tooMuch]) ∧
      Machine.Admits call IndicesBelow newDisk (openedFile ++ [.write 0 tooMuch])) := by
  obtain ⟨replies, ran⟩ := run_afterCalls openedFile_runs
  obtain ⟨descriptor, isOpen, isFile, count⟩ := openedFile_state
  have growing : Machine.Admits call Growing newDisk openedFile :=
    ⟨trivial, fun _ _ _ => ⟨trivial, fun _ _ _ => trivial⟩⟩
  have within : Machine.Admits call WithinLimit newDisk openedFile :=
    ⟨trivial, fun _ _ _ => ⟨trivial, fun _ _ _ => trivial⟩⟩
  obtain ⟨nm, m, consistent⟩ := newDisk_started.consistent ⟨openedFile, replies, growing, ran⟩
  have bounded : Bounded (afterCalls openedFile) :=
    Machine.run_invariant Bounded (fun s c r t bounded ok called => bounded.call ok called)
      newDisk_started.fresh.bounded within ran
  have past : ¬ IndicesBelow (afterCalls openedFile) (.write 0 tooMuch) := by
    rw [bounded.indices_iff]
    intro limit
    have ends := limit isOpen (by rw [Int.toNat_zero, descriptor]; exact isFile)
    rw [Int.toNat_zero, descriptor, tooMuch, List.length_replicate] at ends
    rcases ends with ends | full
    · dsimp only at ends
      omega
    · -- far more blocks are free than a file can lack
      have enough := consistent.allotted.enough (by rw [count]; decide) 0 (0 / blockSize) maxFilesize
      exact absurd full (Nat.not_lt.mpr enough)
  refine ⟨newDisk_started, ?_, fun kept => past (kept.2.of_append ran).1⟩
  simpa [IndicesBelow] using past

end OperatingSys.FileSystem
