import OperatingSys.FileSystem.Contents

/-!
# Writing in pieces

Two calls of `fs_write` through one descriptor, and one call with both pieces. A split in
the middle of a block makes two rounds of the loop out of one, over the same block; a split
between blocks leaves the rounds as they are. The two calls also stop where the one call
stops: a round fails only for want of a free block, and then changes nothing.
-/

namespace OperatingSys.FileSystem

/-! ### The loop by position -/

/-- The loop of `fs_write` from byte `p` of the file on. -/
def writeFrom (f i : Nat) (s : State) (p : Nat) (data : List Byte) : Option (Bool × State) :=
  fsWriteLoop f i data.length s (p / blockSize) (p % blockSize) data

section Loop

variable {f i : Nat} {s : State}

theorem chunkSize_pos {off : Nat} {data : List Byte} (inBlock : off < blockSize)
    (more : data ≠ []) : 0 < chunkSize off data := by
  have length := List.length_pos_iff.mpr more
  rw [chunkSize]
  omega

/-- As long as there is a round for each byte, their number does not matter. -/
theorem fsWriteLoop_fuel {fuel fuel' k off : Nat} {data : List Byte}
    (enough : data.length ≤ fuel) (enough' : data.length ≤ fuel') (inBlock : off < blockSize) :
    fsWriteLoop f i fuel s k off data = fsWriteLoop f i fuel' s k off data := by
  induction fuel generalizing fuel' s k off data with
  | zero =>
    obtain rfl : data = [] := List.length_eq_zero_iff.mp (by omega)
    cases fuel' with
    | zero => rfl
    | succ fuel' => rfl
  | succ fuel ih =>
    cases fuel' with
    | zero =>
      obtain rfl : data = [] := List.length_eq_zero_iff.mp (by omega)
      rfl
    | succ fuel' =>
      simp only [fsWriteLoop]
      split
      · rfl
      next more =>
        have nonempty : data ≠ [] := fun empty => more (by simp [empty])
        have progress := chunkSize_pos inBlock nonempty
        split
        · rfl
        · rfl
        · exact ih (by rw [List.length_drop]; omega) (by rw [List.length_drop]; omega) (by decide)

/-- Data is left behind only by a chunk that has filled its block. -/
theorem chunk_left {p : Nat} {data : List Byte}
    (left : data.drop (chunkSize (p % blockSize) data) ≠ []) :
    (p + chunkSize (p % blockSize) data) / blockSize = p / blockSize + 1 ∧
      (p + chunkSize (p % blockSize) data) % blockSize = 0 ∧
      p + chunkSize (p % blockSize) data +
        (data.drop (chunkSize (p % blockSize) data)).length = p + data.length := by
  have length := List.length_pos_iff.mpr left
  rw [List.length_drop] at length ⊢
  have filled : chunkSize (p % blockSize) data = blockSize - p % blockSize := by
    rw [chunkSize] at *
    omega
  rw [filled] at length ⊢
  simp only [blockSize] at *
  omega

@[simp] theorem writeFrom_nil (p : Nat) : writeFrom f i s p [] = some (true, s) := rfl

theorem writeFrom_stops {p : Nat} {data : List Byte} {s' : State} (more : data ≠ [])
    (round : fsWriteRound s f i (p / blockSize) (p % blockSize) data = some (false, s')) :
    writeFrom f i s p data = some (false, s') := by
  obtain ⟨x, rest, rfl⟩ := List.exists_cons_of_ne_nil more
  simp only [writeFrom, List.length_cons, fsWriteLoop, List.isEmpty_cons, Bool.false_eq_true,
    if_false, round]

/-- One round, and the loop from where it ended. -/
theorem writeFrom_step {p : Nat} {data : List Byte} {s' : State} (more : data ≠ [])
    (round : fsWriteRound s f i (p / blockSize) (p % blockSize) data = some (true, s')) :
    writeFrom f i s p data = writeFrom f i s' (p + chunkSize (p % blockSize) data)
      (data.drop (chunkSize (p % blockSize) data)) := by
  have inBlock : p % blockSize < blockSize := Nat.mod_lt _ (by decide)
  have progress := chunkSize_pos inBlock more
  have unfolded : writeFrom f i s p data = fsWriteLoop f i (data.length - 1) s' (p / blockSize + 1) 0
      (data.drop (chunkSize (p % blockSize) data)) := by
    obtain ⟨x, rest, rfl⟩ := List.exists_cons_of_ne_nil more
    simp only [writeFrom, List.length_cons, fsWriteLoop, List.isEmpty_cons, Bool.false_eq_true,
      if_false, round, Nat.add_sub_cancel]
  have shorter : (data.drop (chunkSize (p % blockSize) data)).length ≤ data.length - 1 := by
    rw [List.length_drop]
    omega
  rw [unfolded, fsWriteLoop_fuel shorter (Nat.le_refl _) (by decide)]
  by_cases left : data.drop (chunkSize (p % blockSize) data) = []
  · rw [left]
    rfl
  · obtain ⟨index, start, -⟩ := chunk_left left
    rw [writeFrom, index, start]

end Loop

/-! ### Bytes of a block -/

/-- The bytes written are the first `n` of the data. -/
theorem overlay_append_left (block : Block) (off : Nat) (a b : List Byte) {n : Nat}
    (fits : n ≤ a.length) : overlay block off n (a ++ b) = overlay block off n a := by
  funext j
  simp only [overlay]
  split
  next inside =>
    rw [List.getD_eq_getElem?_getD, List.getD_eq_getElem?_getD,
      List.getElem?_append_left (by omega)]
  next => rfl

/-- Writing a block twice, the second time behind the first. -/
theorem overlay_overlay (block : Block) (off n : Nat) (a b : List Byte) :
    overlay (overlay block off a.length a) (off + a.length) n b =
      overlay block off (a.length + n) (a ++ b) := by
  funext j
  simp only [overlay]
  by_cases second : off + a.length ≤ j ∧ j < off + a.length + n
  · rw [if_pos second, if_pos (by omega), List.getD_eq_getElem?_getD, List.getD_eq_getElem?_getD,
      List.getElem?_append_right (by omega)]
    congr 2
    omega
  · rw [if_neg second]
    by_cases first : off ≤ j ∧ j < off + a.length
    · rw [if_pos first, if_pos (by omega), List.getD_eq_getElem?_getD,
        List.getD_eq_getElem?_getD, List.getElem?_append_left (by omega)]
    · rw [if_neg first, if_neg (by omega)]

/-! ### Rounds -/

/-- What the loop needs to go on: descriptor `f` stands at byte `p` of file `i`, the blocks of
the file lie on the open disk, and the allocator starts at block 1. -/
structure Ready (s : State) (f i p : Nat) : Prop where
  here : At s f i p
  file : i < maxNumOfFiles
  isUsed : (s.directory i).isUsed = true
  start : s.superblock.usedBlockBitmapOffset.toNat = 1
  inDisk : ∀ k < directCount, (s.directOffset i k).toNat < totalBlocks
  onDisk : ∃ name, s.MountedOn name

/-- The first `n` bytes of the data go into block `b` of the disk `name`, whose blocks were
`img`. -/
def State.putBytes (s : State) (name : String) (img : Image) (f i b off n : Nat)
    (data : List Byte) : State :=
  s.storeChunk (Disk.holding s.disk.files name (Function.update img b (overlay (img b) off n data)))
    f i n

section Put

variable {s : State} {f i p : Nat} {name : String} {img : Image} {b off n : Nat} {data : List Byte}

/-- The inode table once file `i` reaches at least up to byte `n`. -/
def grown (table : Nat → Word) (i n : Nat) : Nat → Word :=
  if (table (fileSizeAddr i)).toNat < n
  then Function.update table (fileSizeAddr i) (BitVec.ofNat 64 n) else table

theorem grown_grown (table : Nat → Word) (i : Nat) {n n' : Nat} (further : n ≤ n')
    (small : n < 2 ^ 64) : grown (grown table i n) i n' = grown table i n' := by
  by_cases grows : (table (fileSizeAddr i)).toNat < n
  · have first : grown table i n = Function.update table (fileSizeAddr i) (BitVec.ofNat 64 n) :=
      if_pos grows
    have size : (BitVec.ofNat 64 n).toNat = n := by
      rw [BitVec.toNat_ofNat, Nat.mod_eq_of_lt small]
    rw [first, grown, grown, Function.update_self, size, Function.update_idem,
      if_pos (Nat.lt_of_lt_of_le grows further)]
    split
    · rfl
    next still => rw [show n = n' by omega]
  · have first : grown table i n = table := if_neg grows
    rw [first]

/-- A descriptor that stays within `int` moves by `n` bytes, and the file grows up to it. -/
theorem State.advance_eq (here : At s f i p) (small : p + n < 2 ^ 31) :
    s.advance f i n = { s with
      openFileDescriptors := Function.update s.openFileDescriptors f ⟨true, i, (p + n : Nat)⟩
      inodeTable := grown s.inodeTable i (p + n) } := by
  rw [At] at here
  have moved : toInt32 ((p : Int) + n) = ((p + n : Nat) : Int) := by
    rw [← Int.natCast_add, toInt32_of_small (by omega) (by omega)]
  have unsigned : toULong ((p + n : Nat) : Int) = p + n := by
    rw [toULong_of_small (by omega) (by omega), Int.toNat_natCast]
  simp only [State.advance, here, moved, unsigned, gt_iff_lt, State.storeDescriptor,
    State.storeWord, BitVec.ofInt_natCast, grown, State.fileSize]
  split
  · rfl
  · rfl

/-- Moving a descriptor twice is moving it once. -/
theorem storeChunk_storeChunk (disk disk' : Disk) {n' : Nat} (here : At s f i p)
    (small : p + n + n' < 2 ^ 31) :
    (s.storeChunk disk f i n).storeChunk disk' f i n' = s.storeChunk disk' f i (n + n') := by
  have here' : At { s with disk := disk } f i p := here
  have here'' : At { s with disk := disk' } f i p := here
  rw [State.storeChunk, State.storeChunk, State.storeChunk, State.advance_eq here' (by omega),
    State.advance_eq here'' (by omega), State.advance_eq (p := p + n) (by simp [At]) (by omega),
    grown_grown _ _ (by omega) (by omega), Function.update_idem]
  simp only [Nat.add_assoc]

theorem putBytes_disk (s : State) :
    (s.putBytes name img f i b off n data).disk = Disk.holding s.disk.files name
      (Function.update img b (overlay (img b) off n data)) := by
  rw [State.putBytes, State.advance_disk]

theorem Ready.put (ready : Ready s f i p) (small : p + n < 2 ^ 31) :
    Ready (s.putBytes name img f i b off n data) f i (p + n) := by
  have here := ready.here
  rw [At] at here
  refine ⟨?_, ready.file, ?_, ?_, fun k below => ?_, name, ?_⟩
  · rw [At, State.putBytes, State.advance_openFileDescriptors, Function.update_self]
    simp only [here]
    rw [← Int.natCast_add, toInt32_of_small (by omega) (by omega)]
  · rw [State.putBytes, State.advance_directory]
    exact ready.isUsed
  · rw [State.putBytes, State.advance_superblock]
    exact ready.start
  · rw [State.putBytes, State.advance_directOffset _ _ _ _ below]
    exact ready.inDisk k below
  · rw [State.MountedOn, putBytes_disk]
    simp [Disk.holding]

/-- Two chunks of one block are one chunk. -/
theorem putBytes_putBytes {a b' : List Byte} (ready : Ready s f i p)
    (small : p + a.length + n < 2 ^ 31) :
    (s.putBytes name img f i b off a.length a).putBytes name
        (Function.update img b (overlay (img b) off a.length a)) f i b (off + a.length) n b' =
      s.putBytes name img f i b off (a.length + n) (a ++ b') := by
  rw [State.putBytes, putBytes_disk, Function.update_self, State.putBytes,
    storeChunk_storeChunk _ _ ready.here small, overlay_overlay, State.putBytes]
  simp only [Disk.holding, Function.update_idem]

end Put

section Rounds

variable {s : State} {f i p k off : Nat}

/-- The block of a round is missing and there is none left for it. -/
def Stuck (s : State) (i k : Nat) : Prop :=
  s.directOffset i k = 0 ∧ allocateBlock s (directOffsetAddr i k) = none

theorem Stuck.round (stuck : Stuck s i k) (file : i < maxNumOfFiles) (below : k < directCount)
    (f off : Nat) (data : List Byte) : fsWriteRound s f i k off data = some (false, s) := by
  have inTable : ¬ directOffsetAddr i k ≥ inodeTableWords :=
    Nat.not_le.mpr (directOffsetAddr_in_table file below)
  simp only [fsWriteRound, inTable, if_false, stuck.1, if_true, stuck.2]

/-- A round whose block is in place writes what it is given, whatever that is. -/
theorem Ready.round_of_placed {t : State} {name : String} {img : Image} (ready : Ready t f i p)
    (below : k < directCount)
    (active : t.disk.active = some name) (file : t.disk.files name = some img)
    (placed : (if s.directOffset i k = 0 then allocateBlock s (directOffsetAddr i k) else some s) =
      some t) (off : Nat) (data : List Byte) :
    fsWriteRound s f i k off data = some (true,
      t.putBytes name img f i (t.directOffset i k).toNat off (chunkSize off data) data) := by
  have inTable : ¬ directOffsetAddr i k ≥ inodeTableWords :=
    Nat.not_le.mpr (directOffsetAddr_in_table ready.file below)
  have inDisk := ready.inDisk k below
  simp only [totalBlocks] at inDisk
  have block : toInt32 (t.directOffset i k).toNat = ((t.directOffset i k).toNat : Int) :=
    toInt32_of_small (by omega) (by omega)
  have opened : t.disk.image = some img := by simp [Disk.image, active, file]
  have wrote := Disk.holding_blockWrite t.disk.files name img (t.directOffset i k).toNat inDisk
    (overlay (img (t.directOffset i k).toNat) off (chunkSize off data) data)
  rw [← Disk.eq_holding active file] at wrote
  simp only [fsWriteRound, inTable, if_false, placed, block, Disk.blockRead_of_image opened inDisk,
    wrote, State.putBytes]

theorem Ready.take {b : Nat} (ready : Ready s f i p) (below : k < directCount)
    (free : FirstFree s b) :
    Ready (s.takeBlock (directOffsetAddr i k) b) f i p ∧
      (s.takeBlock (directOffsetAddr i k) b).directOffset i k ≠ 0 := by
  have lower := free.lower
  have upper := free.upper
  rw [ready.start] at lower
  have small : b < 2 ^ 64 := Nat.lt_trans upper (by decide)
  have pointer : (BitVec.ofNat 64 b).toNat = b := by
    rw [BitVec.toNat_ofNat, Nat.mod_eq_of_lt small]
  refine ⟨⟨ready.here, ready.file, ready.isUsed, ready.start, fun k' below' => ?_, ready.onDisk⟩, ?_⟩
  · rw [State.takeBlock_directOffset _ _ below below']
    split
    · rw [pointer]
      exact upper
    · exact ready.inDisk k' below'
  · rw [State.takeBlock_directOffset _ _ below below, if_pos ⟨rfl, rfl⟩]
    intro zero
    rw [zero] at pointer
    have none_ : (0 : BitVec 64).toNat = 0 := rfl
    omega

/-- A round is stuck, or it has its block in place or takes one for it and writes. -/
theorem Ready.round (ready : Ready s f i p) (below : k < directCount) :
    Stuck s i k ∨ ∃ t name img, Prepared s i k t ∧ Ready t f i p ∧ t.directOffset i k ≠ 0 ∧
      ∀ off data, fsWriteRound s f i k off data = some (true,
        t.putBytes name img f i (t.directOffset i k).toNat off (chunkSize off data) data) := by
  have start : s.superblock.usedBlockBitmapOffset.toNat < totalBlocks := by
    rw [ready.start]
    decide
  obtain ⟨name, active, isSome⟩ := ready.onDisk
  obtain ⟨img, file⟩ := Option.isSome_iff_exists.mp isSome
  by_cases absent : s.directOffset i k = 0
  · rcases allocateBlock_cases s (directOffsetAddr i k) start with ⟨full, -⟩ | ⟨b, free, took⟩
    · exact Or.inl ⟨absent, full⟩
    · obtain ⟨ready', used⟩ := ready.take below free
      exact Or.inr ⟨_, name, img, Or.inr ⟨absent, b, free, rfl⟩, ready', used,
        ready'.round_of_placed below active file (by rw [if_pos absent, took])⟩
  · exact Or.inr ⟨s, name, img, Or.inl ⟨absent, rfl⟩, ready, absent,
      ready.round_of_placed below active file (if_neg absent)⟩

end Rounds

/-! ### Two pieces -/

section Pieces

variable {s : State} {f i p : Nat}

/-- Two pieces in one block: the second round goes on where the first one stopped. -/
theorem Ready.writeFrom_block {t : State} {name : String} {img : Image} (ready : Ready t f i p)
    (below : p / blockSize < directCount) (used : t.directOffset i (p / blockSize) ≠ 0)
    (rounds : ∀ off data, fsWriteRound s f i (p / blockSize) off data = some (true,
      t.putBytes name img f i (t.directOffset i (p / blockSize)).toNat off (chunkSize off data)
        data))
    {a b : List Byte} (more : a ≠ []) (fits : a.length < blockSize - p % blockSize)
    (within : p + a.length + b.length ≤ maxFilesize) :
    writeFrom f i s p (a ++ b) = writeFrom f i
      (t.putBytes name img f i (t.directOffset i (p / blockSize)).toNat (p % blockSize) a.length a)
      (p + a.length) b := by
  have limit : maxFilesize = 1048576 := rfl
  have size : blockSize = 4096 := rfl
  have whole : chunkSize (p % blockSize) a = a.length := Nat.min_eq_left (by omega)
  by_cases last : b = []
  · subst last
    have round := rounds (p % blockSize) a
    rw [whole] at round
    rw [List.append_nil, writeFrom_step more round, whole, List.drop_length]
  · have inBlock : (p + a.length) / blockSize = p / blockSize := by
      simp only [size] at fits ⊢
      omega
    have position : (p + a.length) % blockSize = p % blockSize + a.length := by
      simp only [size] at fits ⊢
      omega
    have both : chunkSize (p % blockSize) (a ++ b) =
        a.length + chunkSize (p % blockSize + a.length) b := by
      simp only [chunkSize, List.length_append]
      omega
    have bound : chunkSize (p % blockSize + a.length) b ≤ b.length := Nat.min_le_left _ _
    -- the block of the second round is the one that the first round has just written
    generalize first : t.putBytes name img f i (t.directOffset i (p / blockSize)).toNat
      (p % blockSize) a.length a = s₁
    have ready₁ : Ready s₁ f i (p + a.length) := first ▸ ready.put (by omega)
    have pointer : s₁.directOffset i (p / blockSize) = t.directOffset i (p / blockSize) := by
      rw [← first]
      exact State.advance_directOffset _ _ _ _ below
    have disk := congrArg State.disk first
    rw [putBytes_disk] at disk
    have active : s₁.disk.active = some name := by
      rw [← disk]
      rfl
    have file : s₁.disk.files name = some (Function.update img
        (t.directOffset i (p / blockSize)).toNat
        (overlay (img (t.directOffset i (p / blockSize)).toNat) (p % blockSize) a.length a)) := by
      rw [← disk]
      simp [Disk.holding]
    have second := ready₁.round_of_placed (s := s₁) below active file
      (by rw [pointer]; exact if_neg used) (p % blockSize + a.length) b
    rw [pointer, ← first, putBytes_putBytes ready (by omega), first] at second
    have round := rounds (p % blockSize) (a ++ b)
    rw [both] at round
    rw [writeFrom_step (by simp [more]) round, both,
      writeFrom_step (s := s₁) last (by rw [inBlock, position]; exact second), position,
      List.drop_append, List.drop_eq_nil_of_le (by omega), List.nil_append, Nat.add_sub_cancel_left,
      Nat.add_assoc]

/-- A first piece that reaches the end of its block: the round is the same for both. -/
theorem Ready.writeFrom_filled {t : State} {name : String} {img : Image} (ready : Ready t f i p)
    {b : Nat} (rounds : ∀ off data, fsWriteRound s f i (p / blockSize) off data = some (true,
      t.putBytes name img f i b off (chunkSize off data) data))
    {a : List Byte} (reaches : blockSize - p % blockSize ≤ a.length)
    (within : p + a.length ≤ maxFilesize) :
    ∃ s₁, Ready s₁ f i (p + (blockSize - p % blockSize)) ∧
      ∀ c, writeFrom f i s p (a ++ c) = writeFrom f i s₁ (p + (blockSize - p % blockSize))
        (a.drop (blockSize - p % blockSize) ++ c) := by
  have limit : maxFilesize = 1048576 := rfl
  have inBlock : p % blockSize < blockSize := Nat.mod_lt _ (by decide)
  refine ⟨t.putBytes name img f i b (p % blockSize) (blockSize - p % blockSize) a,
    ready.put (by omega), fun c => ?_⟩
  have more : a ++ c ≠ [] := List.ne_nil_of_length_pos (by rw [List.length_append]; omega)
  have filled : chunkSize (p % blockSize) (a ++ c) = blockSize - p % blockSize := by
    rw [chunkSize, List.length_append]
    omega
  have round := rounds (p % blockSize) (a ++ c)
  rw [filled, State.putBytes, overlay_append_left _ _ _ _ reaches] at round
  rw [writeFrom_step more round, filled, List.drop_append_of_le_length reaches]
  rfl

/-- Writing both pieces at once is writing one after the other; and where the first piece
finds the disk full, both stop. -/
theorem Ready.writeFrom_append (ready : Ready s f i p) (a b : List Byte)
    (within : p + a.length + b.length ≤ maxFilesize) :
    (∃ s₁, writeFrom f i s p a = some (true, s₁) ∧ Ready s₁ f i (p + a.length) ∧
      writeFrom f i s p (a ++ b) = writeFrom f i s₁ (p + a.length) b) ∨
    (∃ s₁ p₁, writeFrom f i s p a = some (false, s₁) ∧ Ready s₁ f i p₁ ∧
      p₁ / blockSize < directCount ∧ Stuck s₁ i (p₁ / blockSize) ∧
      writeFrom f i s p (a ++ b) = some (false, s₁)) := by
  have limit : maxFilesize = 1048576 := rfl
  have size : blockSize = 4096 := rfl
  -- by induction on the blocks that the first piece reaches
  generalize length : a.length = n at *
  induction n using Nat.strongRecOn generalizing a s p with
  | ind n ih =>
    subst length
    by_cases empty : a = []
    · subst empty
      exact Or.inl ⟨s, rfl, ready, rfl⟩
    · have positive := List.length_pos_iff.mpr empty
      have below : p / blockSize < directCount := by
        simp only [directCount, size, limit] at *
        omega
      rcases ready.round below with stuck | ⟨t, name, img, -, ready', used, rounds⟩
      · exact Or.inr ⟨s, p, writeFrom_stops empty (stuck.round ready.file below f _ a), ready, below,
          stuck, writeFrom_stops (by simp [empty]) (stuck.round ready.file below f _ (a ++ b))⟩
      · by_cases fits : a.length < blockSize - p % blockSize
        · refine Or.inl ⟨_, ?_, ready'.put (by omega),
            ready'.writeFrom_block below used rounds empty fits within⟩
          have alone := ready'.writeFrom_block (b := []) below used rounds empty fits
            (by rw [List.length_nil]; omega)
          rwa [List.append_nil, writeFrom_nil] at alone
        · obtain ⟨s₁, ready₁, step⟩ :=
            ready'.writeFrom_filled rounds (a := a) (by omega) (by omega)
          have alone := step []
          rw [List.append_nil, List.append_nil] at alone
          have remains : (a.drop (blockSize - p % blockSize)).length =
              a.length - (blockSize - p % blockSize) := List.length_drop
          have inBlock : p % blockSize < blockSize := Nat.mod_lt _ (by decide)
          have position : p + (blockSize - p % blockSize) +
              (a.length - (blockSize - p % blockSize)) = p + a.length := by
            omega
          have rest := ih _ (by omega) ready₁ _ remains (by omega)
          rwa [position, ← alone, ← step b] at rest

end Pieces

/-! ### Two calls -/

section Calls

variable {s : State} {f i p : Nat}

/-- A descriptor that passes the two tests of `fs_write` and has a non-negative offset. -/
theorem Ready.of_tests {fildes : Int} (isOpen : s.isOpen fildes = true)
    (isFile : s.isFile (s.openFileDescriptors fildes.toNat).inodeNumber = true)
    (lower : 0 ≤ (s.openFileDescriptors fildes.toNat).offset)
    (start : s.superblock.usedBlockBitmapOffset.toNat = 1)
    (inDisk : ∀ i < maxNumOfFiles, ∀ k < directCount, (s.directOffset i k).toNat < totalBlocks)
    (onDisk : ∃ name, s.MountedOn name) :
    Ready s fildes.toNat (s.openFileDescriptors fildes.toNat).inodeNumber.toNat
      (s.openFileDescriptors fildes.toNat).offset.toNat := by
  have inTable := isFile_toNat_lt isFile
  simp only [State.isOpen, State.isFile, Bool.and_eq_true, decide_eq_true_eq] at isOpen isFile
  exact {
    here := by
      rw [At, Int.toNat_of_nonneg lower, Int.toNat_of_nonneg isFile.1.1]
      exact congrArg (fun isUsed => FileDescriptor.mk isUsed _ _) isOpen.2
    file := inTable
    isUsed := isFile.2
    start := start
    inDisk := inDisk _ inTable
    onDisk := onDisk }

theorem Ready.isOpen (ready : Ready s f i p) (inRange : f < maxFileDescriptors) :
    s.isOpen f = true :=
  isOpen_of_used inRange (by rw [ready.here])

theorem Ready.isFile (ready : Ready s f i p) : s.isFile i = true := by
  simp [State.isFile, ready.file, ready.isUsed]

/-- `fs_write` through a descriptor that is ready. -/
theorem Ready.fsWrite_eq (ready : Ready s f i p) (inRange : f < maxFileDescriptors)
    (data : List Byte) :
    fsWrite s f data =
      match writeFrom f i s p data with
      | none => none
      | some (false, s') => some (-1, s')
      | some (true, s') => some (toInt32 data.length, s') := by
  have here := ready.here
  rw [At] at here
  have nonneg : ¬ ((p : Int) < 0 ∧ (!data.isEmpty) = true) := by omega
  simp only [fsWrite, ready.isOpen inRange, Bool.not_true, Bool.false_eq_true, if_false,
    Int.toNat_natCast, here, ready.isFile, nonneg]
  rfl

theorem Stuck.writeFrom_eq (stuck : Stuck s i (p / blockSize)) (file : i < maxNumOfFiles)
    (below : p / blockSize < directCount) (f : Nat) (data : List Byte) :
    writeFrom f i s p data = some (data.isEmpty, s) := by
  cases data with
  | nil => rfl
  | cons x rest => exact writeFrom_stops (by simp) (stuck.round file below f _ (x :: rest))

/-- Both ways of writing through a descriptor that is ready. -/
theorem Ready.fsWrite_joined (ready : Ready s f i p) (inRange : f < maxFileDescriptors)
    (a b : List Byte) (within : p + a.length + b.length ≤ maxFilesize) :
    ∃ r₁ r₂ r s₁ t, fsWrite s f a = some (r₁, s₁) ∧ fsWrite s₁ f b = some (r₂, t) ∧
      fsWrite s f (a ++ b) = some (r, t) ∧ (r ≠ -1 → r₁ + r₂ = r) := by
  have limit : maxFilesize = 1048576 := rfl
  have small : ∀ c : List Byte, c.length ≤ maxFilesize → toInt32 (c.length : Int) = c.length :=
    fun c below => toInt32_of_small (by omega) (by omega)
  have both : ((a ++ b).length : Int) = a.length + b.length := by rw [List.length_append]; omega
  rcases ready.writeFrom_append a b within with
    ⟨s₁, first, ready₁, whole⟩ | ⟨s₁, p₁, first, ready₁, below, stuck, whole⟩
  -- the second call goes on in the state in which the one call goes on
  · have rest := ready₁.writeFrom_append b [] (by rw [List.length_nil]; omega)
    rw [List.append_nil] at rest
    rcases rest with ⟨t, second, -, -⟩ | ⟨t, -, second, -⟩
    · refine ⟨toInt32 a.length, toInt32 b.length, toInt32 (a ++ b).length, s₁, t, ?_, ?_, ?_,
        fun _ => ?_⟩
      · rw [ready.fsWrite_eq inRange, first]
      · rw [ready₁.fsWrite_eq inRange, second]
      · rw [ready.fsWrite_eq inRange, whole, second]
      · rw [small a (by omega), small b (by omega), small (a ++ b) (by rw [List.length_append]; omega),
          both]
    · refine ⟨toInt32 a.length, -1, -1, s₁, t, ?_, ?_, ?_, fun fails => absurd rfl fails⟩
      · rw [ready.fsWrite_eq inRange, first]
      · rw [ready₁.fsWrite_eq inRange, second]
      · rw [ready.fsWrite_eq inRange, whole, second]
  -- the disk is full: the second call finds it so and changes nothing
  · have second := stuck.writeFrom_eq ready₁.file below f b
    refine ⟨-1, if b.isEmpty then toInt32 b.length else -1, -1, s₁, s₁, ?_, ?_, ?_,
      fun fails => absurd rfl fails⟩
    · rw [ready.fsWrite_eq inRange, first]
    · rw [ready₁.fsWrite_eq inRange, second]
      cases b.isEmpty with
      | false => simp only [Bool.false_eq_true, if_false]
      | true => simp only [if_true]
    · rw [ready.fsWrite_eq inRange, whole]

end Calls

/-- **Writes compose.** On a mounted disk whose allocator starts at block 1 and whose files'
blocks lie on the disk, `fs_write(fd, a)` and then `fs_write(fd, b)` end in the state in which
`fs_write(fd, a ++ b)` ends, full disk or not, provided the data ends at or below
`MAX_FILESIZE`; and what the two return adds up to what the one returns, if that succeeds. -/
theorem fsWrite_append {s : State} {d : String} {fildes : Int} (a b : List Byte)
    (mounted : s.MountedOn d) (start : s.superblock.usedBlockBitmapOffset = 1)
    (inDisk : ∀ i < maxNumOfFiles, ∀ k < directCount, (s.directOffset i k).toNat < totalBlocks)
    (position : s.isOpen fildes = true → 0 ≤ (s.openFileDescriptors fildes.toNat).offset ∧
      (s.openFileDescriptors fildes.toNat).offset + a.length + b.length ≤ maxFilesize) :
    ∃ r₁ r₂ r s₁ t, fsWrite s fildes a = some (r₁, s₁) ∧ fsWrite s₁ fildes b = some (r₂, t) ∧
      fsWrite s fildes (a ++ b) = some (r, t) ∧ (r ≠ -1 → r₁ + r₂ = r) := by
  by_cases tests : s.isOpen fildes = true ∧
      s.isFile (s.openFileDescriptors fildes.toNat).inodeNumber = true
  · obtain ⟨isOpen, isFile⟩ := tests
    obtain ⟨lower, within⟩ := position isOpen
    have ready := Ready.of_tests isOpen isFile lower (by rw [start]; rfl) inDisk ⟨d, mounted⟩
    have natural := isOpen_toNat isOpen
    have result := ready.fsWrite_joined (isOpen_toNat_lt isOpen) a b (by omega)
    rwa [natural] at result
  -- a call that is refused leaves the state alone and is refused again
  · exact ⟨-1, -1, -1, s, s, fsWrite_refused tests, fsWrite_refused tests, fsWrite_refused tests,
      fun fails => absurd rfl fails⟩

/-- A mounted disk with one file that is open, at byte 4095. -/
def oneOpenFile : State :=
  { oneInode 0 with
    directory := fun e => ⟨decide (e = 0), 0, strncpy nameA⟩
    openFileDescriptors := fun j => ⟨decide (j = 0), 0, 4095⟩ }

/-- Three bytes, the second of which starts a new block. -/
theorem fsWrite_append_oneOpenFile :
    ∃ r₁ r₂ r s₁ t, fsWrite oneOpenFile 0 [1, 2] = some (r₁, s₁) ∧
      fsWrite s₁ 0 [3] = some (r₂, t) ∧ fsWrite oneOpenFile 0 ([1, 2] ++ [3]) = some (r, t) ∧
      (r ≠ -1 → r₁ + r₂ = r) := by
  refine fsWrite_append (d := "disk") [1, 2] [3] (oneInode_mounted 0) rfl
    (fun i below k inTable => ?_) (fun _ => by decide)
  have zero : oneOpenFile.directOffset i k = 0 :=
    oneInode_word 0 _ (directOffsetAddr_ne_fileTypeAddr inTable)
  rw [zero]
  decide

end OperatingSys.FileSystem
