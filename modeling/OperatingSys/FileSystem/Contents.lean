import OperatingSys.FileSystem.Consistent

/-!
# Contents of files

The bytes of a file as its blocks hold them, and what each call does to them and to the
invariant `Consistent`. A file keeps the blocks it has once been given, so a byte below
the size of the file is always found through `direct_offset`.
-/

namespace OperatingSys.FileSystem

/-- Byte `p` of the file with inode `i`. -/
def State.byteAt (s : State) (i p : Nat) : Byte :=
  match s.disk.image with
  | none => 0
  | some img => img (s.directOffset i (p / blockSize)).toNat (p % blockSize)

def State.contents (s : State) (i : Nat) : List Byte :=
  (List.range (s.fileSize i)).map (s.byteAt i)

theorem State.length_contents (s : State) (i : Nat) : (s.contents i).length = s.fileSize i := by
  simp [State.contents]

theorem State.getElem?_contents (s : State) (i p : Nat) :
    (s.contents i)[p]? = if p < s.fileSize i then some (s.byteAt i p) else none := by
  rw [State.contents, List.getElem?_map]
  split
  next inside => rw [List.getElem?_range inside, Option.map_some]
  next outside => rw [List.getElem?_eq_none (by simpa using outside), Option.map_none]

/-- Files of one size with the same bytes below it have the same contents. -/
theorem State.contents_congr {s t : State} {i : Nat} (size : t.fileSize i = s.fileSize i)
    (bytes : ∀ p < s.fileSize i, t.byteAt i p = s.byteAt i p) : t.contents i = s.contents i := by
  unfold State.contents
  rw [size]
  exact List.map_congr_left fun p member => bytes p (List.mem_range.mp member)

theorem MountedOn.image {s : State} {d : String} (onDisk : s.MountedOn d) :
    ∃ img, s.disk.image = some img := by
  obtain ⟨active, isSome⟩ := onDisk
  obtain ⟨img, file⟩ := Option.isSome_iff_exists.mp isSome
  exact ⟨img, by simp [Disk.image, active, file]⟩

section Blocks

variable {d : String} {nm : Nat → CString} {m : Nat} {s : State}

/-! ### Reading -/

private theorem map_range_add {α : Type} (f : Nat → α) (a b : Nat) :
    (List.range (a + b)).map f = (List.range a).map f ++ (List.range b).map fun j => f (a + j) := by
  rw [List.range_add, List.map_append, List.map_map]
  rfl

theorem byteAt_block {img : Image} (image : s.disk.image = some img) (i k : Nat) {r : Nat}
    (inside : r < blockSize) :
    s.byteAt i (k * blockSize + r) = img (s.directOffset i k).toNat r := by
  simp only [State.byteAt, image]
  rw [Nat.mul_comm k, Nat.mul_add_div (by decide), Nat.mul_add_mod, Nat.mod_eq_of_lt inside,
    Nat.div_eq_of_lt inside, Nat.add_zero]

/-- The loop of `fs_read` delivers the bytes of the file from its position on. -/
theorem fsReadLoop_eq (readable : Readable d nm m s) {i : Nat} (file : i < m) (fuel : Nat) :
    ∀ k off n : Nat, n ≤ fuel → off < blockSize →
      (0 < n → k * blockSize + off + n ≤ s.fileSize i) →
      fsReadLoop s i fuel k off n =
        some (true, (List.range n).map fun j => s.byteAt i (k * blockSize + off + j)) := by
  obtain ⟨img, image⟩ := MountedOn.image readable.onDisk
  induction fuel with
  | zero =>
    intro k off n enough _ _
    obtain rfl : n = 0 := by omega
    simp [fsReadLoop]
  | succ fuel ih =>
    intro k off n enough inBlock inFile
    by_cases done : n = 0
    · subst done
      simp [fsReadLoop]
    · have ends := inFile (by omega)
      have lower : k * blockSize < s.fileSize i := by omega
      have below : k < directCount := index_lt_directCount lower (readable.extent.size i file)
      have used := readable.extent.covered i file k lower
      have inTable : ¬ directOffsetAddr i k ≥ inodeTableWords :=
        Nat.not_le.mpr (directOffsetAddr_in_table (readable.catalogue.below file) below)
      have block := Disk.blockRead_of_image image (readable.inDisk i file k below used)
      obtain ⟨c, chunk⟩ : ∃ c, c = min n (blockSize - off) := ⟨_, rfl⟩
      -- a chunk that leaves bytes behind ends at the end of its block
      have rest := ih (k + 1) 0 (n - c) (by omega) (by decide) (by
        intro more
        rw [Nat.succ_mul]
        omega)
      have here : (List.range c).map (fun j => img (s.directOffset i k).toNat (off + j)) =
          (List.range c).map fun j => s.byteAt i (k * blockSize + off + j) := by
        apply List.map_congr_left
        intro j member
        have inChunk := List.mem_range.mp member
        rw [Nat.add_assoc, byteAt_block image i k (by omega)]
      have there : (List.range (n - c)).map
            (fun j => s.byteAt i ((k + 1) * blockSize + 0 + j)) =
          (List.range (n - c)).map fun j => s.byteAt i (k * blockSize + off + (c + j)) := by
        apply List.map_congr_left
        intro j member
        have more := List.mem_range.mp member
        have same : (k + 1) * blockSize + 0 + j = k * blockSize + off + (c + j) := by
          rw [Nat.succ_mul]
          omega
        rw [same]
      have whole : n = c + (n - c) := by omega
      simp only [fsReadLoop, done, inTable, if_false, readable.block_toInt32 file below used, block,
        ← chunk, rest, here, there]
      conv_rhs => rw [whole, map_range_add]

/-! ### Moving a descriptor -/

theorem Consistent.storeDescriptor (consistent : Consistent d nm m s) (j : Nat)
    {fd : FileDescriptor} (points : fd.isUsed = true →
      ∃ i off : Nat, i < m ∧ fd = ⟨true, i, off⟩ ∧ off ≤ s.fileSize i) :
    Consistent d nm m (s.storeDescriptor j fd) where
  catalogue := { consistent.catalogue with }
  allotted := { consistent.allotted with }
  owned := { consistent.owned with }
  extent := {
    size := consistent.extent.size
    covered := consistent.extent.covered
    descriptor := fun j' below isUsed => by
      simp only [State.storeDescriptor, Function.update_apply] at isUsed ⊢
      split at isUsed
      next here =>
        rw [if_pos here]
        exact points isUsed
      next elsewhere =>
        rw [if_neg elsewhere]
        exact consistent.extent.descriptor j' below isUsed }

/-! ### Taking a block -/

/-- The first free block is the next one. -/
theorem Allotted.firstFree (allotted : Allotted d m s) {b : Nat} (free : FirstFree s b) :
    b = s.superblock.usedBlockBitmapCount.toNat := by
  obtain ⟨lower, -, clear, least⟩ := free
  rw [allotted.layout.start] at lower least
  have some_ := allotted.least
  have notBelow : ¬ (1 ≤ b ∧ b < s.superblock.usedBlockBitmapCount.toNat) := by
    rw [← allotted.counted b, clear]
    exact Bool.false_ne_true
  by_cases above : s.superblock.usedBlockBitmapCount.toNat < b
  · have := (allotted.counted _).mp (least _ some_ above)
    omega
  · omega

/-- The count after a block has been taken. -/
private theorem count_succ
    (more : s.superblock.usedBlockBitmapCount.toNat < totalBlocks) :
    (s.superblock.usedBlockBitmapCount + 1).toNat =
      s.superblock.usedBlockBitmapCount.toNat + 1 := by
  have blocks : totalBlocks = 8192 := rfl
  have one : (1 : BitVec 16).toNat = 1 := rfl
  rw [BitVec.toNat_add, one]
  omega

theorem Allotted.takeBlock (allotted : Allotted d m s) {i k b : Nat} (file : i < m)
    (below : k < directCount) (free : FirstFree s b) (absent : s.directOffset i k = 0) :
    Allotted d m (s.takeBlock (directOffsetAddr i k) b) := by
  -- blocks are taken in order, so that the free one is the next after those in use
  have next := allotted.firstFree free
  have upper := free.upper
  have grown : (s.takeBlock (directOffsetAddr i k) b).superblock.usedBlockBitmapCount.toNat = b + 1 := by
    rw [next]
    exact count_succ (next ▸ upper)
  have first := allotted.least
  refine ⟨⟨allotted.layout.1, allotted.layout.2, allotted.layout.3⟩, allotted.onDisk, ?_, ?_,
    fun j => ?_, fun j bit => ?_⟩
  · omega
  · omega
  · rw [State.takeBlock_getBit, Bool.or_eq_true, decide_eq_true_eq, allotted.counted j, grown]
    omega
  · rw [State.takeBlock_getBit, Bool.or_eq_true, decide_eq_true_eq] at bit
    rcases bit with rfl | bit
    · refine ⟨i, file, k, below, ?_⟩
      have small : b < 2 ^ 64 := Nat.lt_trans upper (by decide)
      rw [State.takeBlock_directOffset _ _ below below, if_pos ⟨rfl, rfl⟩, BitVec.toNat_ofNat,
        Nat.mod_eq_of_lt small]
    -- the slot that gets the block was empty, so that no other block is lost by it
    · obtain ⟨i', file', k', below', block⟩ := allotted.taken j bit
      refine ⟨i', file', k', below', ?_⟩
      have nonzero := ((allotted.counted j).mp bit).1
      have other : ¬ (i' = i ∧ k' = k) := by
        rintro ⟨rfl, rfl⟩
        have zero : (0 : Word).toNat = 0 := rfl
        rw [absent, zero] at block
        omega
      rw [State.takeBlock_directOffset _ _ below below', if_neg other]
      exact block

/-- A file that gets a block where it had none keeps its bytes. -/
theorem Consistent.prepared (consistent : Consistent d nm m s) {i k : Nat} {t : State}
    (file : i < m) (below : k < directCount) (prepared : Prepared s i k t) :
    Consistent d nm m t ∧ t.directOffset i k ≠ 0 ∧ (∀ i', t.fileSize i' = s.fileSize i') ∧
      t.openFileDescriptors = s.openFileDescriptors ∧
      ∀ i' < m, t.contents i' = s.contents i' := by
  rcases prepared with ⟨used, rfl⟩ | ⟨absent, b, free, rfl⟩
  · exact ⟨consistent, used, fun _ => rfl, rfl, fun _ _ => rfl⟩
  · have size := fun i' => s.takeBlock_fileSize (i := i) b i' below
    -- the slot that changes is no place of a byte
    have other : ∀ i' < m, ∀ k', k' * blockSize < s.fileSize i' → ¬ (i' = i ∧ k' = k) := by
      rintro i' file' k' inFile ⟨rfl, rfl⟩
      exact consistent.extent.covered i' file' k' inFile absent
    have kept : ∀ i' < m, ∀ k', k' * blockSize < s.fileSize i' →
        (s.takeBlock (directOffsetAddr i k) b).directOffset i' k' = s.directOffset i' k' := by
      intro i' file' k' inFile
      have below' := index_lt_directCount inFile (consistent.extent.size i' file')
      rw [State.takeBlock_directOffset _ _ below below', if_neg (other i' file' k' inFile)]
    refine ⟨⟨?_, consistent.allotted.takeBlock file below free absent,
      takeBlock_owned below consistent.directorySound free consistent.owned, ?_⟩, ?_, size, rfl, ?_⟩
    · exact { consistent.catalogue with
        untyped := fun i' inRange => by
          rw [State.takeBlock_fileType _ _ _ below]
          exact consistent.catalogue.untyped i' inRange }
    · refine ⟨fun i' file' => ?_, fun i' file' k' inFile => ?_, fun j inRange isUsed => ?_⟩
      · rw [size]
        exact consistent.extent.size i' file'
      · rw [size] at inFile
        rw [kept i' file' k' inFile]
        exact consistent.extent.covered i' file' k' inFile
      · simp only [size]
        exact consistent.extent.descriptor j inRange isUsed
    · have bounds := free.lower
      have upper := free.upper
      have blocks : totalBlocks = 8192 := rfl
      have zero : (0 : Word).toNat = 0 := rfl
      rw [consistent.allotted.layout.start] at bounds
      rw [State.takeBlock_directOffset _ _ below below, if_pos ⟨rfl, rfl⟩, ne_eq,
        ← BitVec.toNat_inj, BitVec.toNat_ofNat, zero]
      omega
    · intro i' file'
      refine State.contents_congr (size i') fun p inside => ?_
      have inFile : p / blockSize * blockSize < s.fileSize i' := blockStart_lt inside
      simp only [State.byteAt, State.takeBlock_disk, kept i' file' _ inFile]

/-! ### Storing a chunk -/

/-- Descriptor `f` is open on inode `i` at byte `p`. -/
def At (s : State) (f i p : Nat) : Prop := s.openFileDescriptors f = ⟨true, i, p⟩

/-- The globals once the block of a round has been written to `disk`. -/
abbrev State.storeChunk (s : State) (disk : Disk) (f i n : Nat) : State :=
  State.advance { s with disk := disk } f i n

/-- A round of `fs_write` whose block is in place: descriptor `f` of file `i` stands in
block `k` at `off`, and `disk` is the disk after `n` bytes of `data` went into that block. -/
structure Chunk (d : String) (nm : Nat → CString) (m : Nat) (s : State) (img : Image) (disk : Disk)
    (f i k off n : Nat) (data : List Byte) : Prop where
  consistent : Consistent d nm m s
  file : i < m
  here : At s f i (k * blockSize + off)
  inFile : k * blockSize + off ≤ s.fileSize i
  below : k < directCount
  used : s.directOffset i k ≠ 0
  inBlock : off + n ≤ blockSize
  enough : n ≤ data.length
  opened : s.disk.image = some img
  active : disk.active = s.disk.active
  image : disk.image = some (Function.update img (s.directOffset i k).toNat
    (overlay (img (s.directOffset i k).toNat) off n data))

section Stored

variable {f i k off n : Nat} {data : List Byte} {img : Image} {disk : Disk}
  (chunk : Chunk d nm m s img disk f i k off n data)
include chunk

theorem Chunk.within : k * blockSize + off + n ≤ maxFilesize := by
  have below := chunk.below
  have inBlock := chunk.inBlock
  have size : directCount = 256 := rfl
  have limit : maxFilesize = 256 * blockSize := rfl
  have last : k * blockSize ≤ 255 * blockSize := Nat.mul_le_mul_right _ (by omega)
  omega

theorem Chunk.fileSize (i' : Nat) :
    (s.storeChunk disk f i n).fileSize i' =
      if i' = i then max (s.fileSize i) (k * blockSize + off + n) else s.fileSize i' := by
  have within := chunk.within
  have limit : maxFilesize = 1048576 := rfl
  have here := chunk.here
  rw [At] at here
  exact State.advance_fileSize _ f i n i' (k * blockSize + off) (by simp [here]) (by omega)

theorem Chunk.openFileDescriptors :
    (s.storeChunk disk f i n).openFileDescriptors =
      Function.update s.openFileDescriptors f ⟨true, i, (k * blockSize + off + n : Nat)⟩ := by
  have within := chunk.within
  have limit : maxFilesize = 1048576 := rfl
  have here := chunk.here
  rw [At] at here
  have moved : toInt32 (((k * blockSize + off : Nat) : Int) + n) =
      ((k * blockSize + off + n : Nat) : Int) := by
    rw [show ((k * blockSize + off : Nat) : Int) + n = (k * blockSize + off + n : Nat) by omega]
    exact toInt32_of_small (by omega) (by omega)
  rw [State.advance_openFileDescriptors]
  simp only [here, moved]

/-- The file has a block wherever it has bytes, also where it has just grown. -/
theorem Chunk.covered {i' k' : Nat} (file' : i' < m)
    (inFile' : k' * blockSize < (s.storeChunk disk f i n).fileSize i') :
    s.directOffset i' k' ≠ 0 := by
  rw [chunk.fileSize] at inFile'
  split at inFile'
  next eq =>
    subst eq
    by_cases old : k' * blockSize < s.fileSize i'
    · exact chunk.consistent.extent.covered i' file' k' old
    · have inFile := chunk.inFile
      have inBlock := chunk.inBlock
      have eq : k' = k := by
        simp only [blockSize] at *
        omega
      exact eq ▸ chunk.used
  next => exact chunk.consistent.extent.covered i' file' k' inFile'

theorem Chunk.size {i' : Nat} (file' : i' < m) :
    (s.storeChunk disk f i n).fileSize i' ≤ maxFilesize := by
  have within := chunk.within
  have old := chunk.consistent.extent.size i chunk.file
  rw [chunk.fileSize]
  split
  · omega
  · exact chunk.consistent.extent.size i' file'

/-- One block of the disk has changed. -/
theorem Chunk.byteAt_block {i' k' r : Nat} (below' : k' < directCount) (inside : r < blockSize) :
    (s.storeChunk disk f i n).byteAt i' (k' * blockSize + r) =
      if (s.directOffset i' k').toNat = (s.directOffset i k).toNat ∧ off ≤ r ∧ r < off + n
      then data.getD (r - off) 0
      else img (s.directOffset i' k').toNat r := by
  have open_ : (s.storeChunk disk f i n).disk.image = some (Function.update img
      (s.directOffset i k).toNat (overlay (img (s.directOffset i k).toNat) off n data)) := by
    simpa using chunk.image
  rw [FileSystem.byteAt_block open_ i' k' inside, State.advance_directOffset _ _ _ _ below']
  change Function.update img _ _ (s.directOffset i' k').toNat r = _
  by_cases same : (s.directOffset i' k').toNat = (s.directOffset i k).toNat
  · rw [same, Function.update_self, overlay]
    simp only [true_and]
  · rw [Function.update_of_ne same, if_neg (fun h => same h.1)]

/-- Two places share a block only if they lie in the same block of one file, so one segment
of one file has changed. -/
theorem Chunk.byteAt {i' p : Nat} (file' : i' < m)
    (inside : p < (s.storeChunk disk f i n).fileSize i') :
    (s.storeChunk disk f i n).byteAt i' p =
      if i' = i ∧ k * blockSize + off ≤ p ∧ p < k * blockSize + off + n
      then data.getD (p - (k * blockSize + off)) 0 else s.byteAt i' p := by
  have lower : p / blockSize * blockSize < (s.storeChunk disk f i n).fileSize i' := blockStart_lt inside
  have below' := index_lt_directCount lower (chunk.size file')
  have inBlock := chunk.inBlock
  have inside' : p % blockSize < blockSize := Nat.mod_lt _ (by decide)
  have whole : p = p / blockSize * blockSize + p % blockSize := (Nat.div_add_mod' p blockSize).symm
  -- the written block holds this byte exactly if the byte lies in block `k` of the file
  have shared : (s.directOffset i' (p / blockSize)).toNat = (s.directOffset i k).toNat ↔
      i' = i ∧ p / blockSize = k := by
    rw [BitVec.toNat_inj]
    constructor
    · exact chunk.consistent.distinct file' chunk.file below' chunk.below (chunk.covered file' lower)
    · rintro ⟨rfl, rfl⟩
      rfl
  have segment : ((i' = i ∧ p / blockSize = k) ∧ off ≤ p % blockSize ∧ p % blockSize < off + n) ↔
      (i' = i ∧ k * blockSize + off ≤ p ∧ p < k * blockSize + off + n) := by
    clear lower inside whole
    simp only [blockSize] at *
    omega
  have offset : i' = i ∧ k * blockSize + off ≤ p ∧ p < k * blockSize + off + n →
      p % blockSize - off = p - (k * blockSize + off) := by
    clear lower inside whole segment
    simp only [blockSize] at *
    omega
  conv_lhs => rw [whole]
  rw [chunk.byteAt_block below' inside']
  simp only [shared, segment]
  split
  next hit => rw [offset hit]
  next =>
    conv_rhs => rw [whole]
    rw [FileSystem.byteAt_block chunk.opened i' _ inside']

theorem Chunk.extent : Extent m (s.storeChunk disk f i n) where
  size := fun i' file' => chunk.size file'
  covered := fun i' file' k' inFile' => by
    rw [State.advance_directOffset _ _ _ _ (index_lt_directCount inFile' (chunk.size file'))]
    exact chunk.covered file' inFile'
  descriptor := fun j inRange isUsed => by
    rw [chunk.openFileDescriptors] at isUsed ⊢
    -- the descriptor that writes ends at the end of the chunk; the file only grows for the others
    by_cases moved : j = f
    · subst moved
      refine ⟨i, k * blockSize + off + n, chunk.file, by simp, ?_⟩
      rw [chunk.fileSize, if_pos rfl]
      omega
    · rw [Function.update_of_ne moved] at isUsed ⊢
      obtain ⟨i', off', file', points, inFile'⟩ :=
        chunk.consistent.extent.descriptor j inRange isUsed
      refine ⟨i', off', file', points, ?_⟩
      rw [chunk.fileSize]
      split
      next eq =>
        subst eq
        omega
      next => exact inFile'

theorem Chunk.allotted : Allotted d m (s.storeChunk disk f i n) := by
  have same := advance_sameBlocks s disk f i n
  have allotted := chunk.consistent.allotted
  have drive : (s.storeChunk disk f i n).disk = disk := by simp
  have super : (s.storeChunk disk f i n).superblock = s.superblock := by simp
  refine ⟨super ▸ allotted.layout, ?_, super ▸ allotted.least, super ▸ allotted.most,
    fun b => ?_, fun b bit => ?_⟩
  · rw [State.MountedOn, drive, chunk.active]
    refine ⟨allotted.onDisk.1, ?_⟩
    have image := chunk.image
    rw [Disk.image, chunk.active, allotted.onDisk.1] at image
    exact Option.isSome_iff_exists.mpr ⟨_, image⟩
  · rw [same.bitmap, super]
    exact allotted.counted b
  · rw [same.bitmap] at bit
    obtain ⟨i', file', k', below', block⟩ := allotted.taken b bit
    exact ⟨i', file', k', below', by rw [same.directOffset _ _ below', block]⟩

theorem Chunk.catalogue : Catalogue nm m (s.storeChunk disk f i n) := by
  have same := advance_sameBlocks s disk f i n
  have old := chunk.consistent.catalogue
  exact {
    mounted := by simpa using old.mounted
    bound := old.bound
    isUsed := by simpa only [same.directory] using old.isUsed
    number := by simpa only [same.directory] using old.number
    untyped := by simpa only [same.fileType] using old.untyped
    named := by simpa only [same.directory] using old.named
    short := old.short
    different := old.different }

theorem Chunk.stays_consistent : Consistent d nm m (s.storeChunk disk f i n) :=
  ⟨chunk.catalogue, chunk.allotted,
    (advance_sameBlocks s disk f i n).blocksOwned chunk.consistent.owned, chunk.extent⟩

/-- The chunk overwrites its segment of the file. -/
theorem Chunk.contents :
    (s.storeChunk disk f i n).contents i =
      (s.contents i).overwrite (k * blockSize + off) (data.take n) := by
  have inFile := chunk.inFile
  have enough := chunk.enough
  have start : k * blockSize + off ≤ (s.contents i).length := by
    rw [State.length_contents]
    exact inFile
  have taken : (data.take n).length = n := by
    rw [List.length_take]
    omega
  have grown := chunk.fileSize i
  rw [if_pos rfl] at grown
  -- byte by byte: in the chunk, elsewhere in the file, past its end
  apply List.ext_getElem?
  intro p
  rw [List.getElem?_overwrite start, taken, State.getElem?_contents, State.getElem?_contents]
  by_cases inside : p < (s.storeChunk disk f i n).fileSize i
  · rw [if_pos inside, chunk.byteAt chunk.file inside]
    by_cases hit : k * blockSize + off ≤ p ∧ p < k * blockSize + off + n
    · rw [if_pos ⟨rfl, hit⟩, if_pos hit, List.getElem?_take_of_lt (by omega),
        List.getD_eq_getElem?_getD, List.getElem?_eq_getElem (by omega)]
      rfl
    · rw [if_neg (fun h => hit h.2), if_neg hit, if_pos (by omega)]
  · rw [if_neg inside, if_neg (by omega), if_neg (by omega)]

/-- No other file changes. -/
theorem Chunk.contents_of_ne {i' : Nat} (file' : i' < m) (other : i' ≠ i) :
    (s.storeChunk disk f i n).contents i' = s.contents i' := by
  have unchanged : (s.storeChunk disk f i n).fileSize i' = s.fileSize i' := by
    rw [chunk.fileSize, if_neg other]
  refine State.contents_congr unchanged fun p inside => ?_
  rw [chunk.byteAt file' (unchanged ▸ inside), if_neg (fun h => other h.1)]

end Stored

end Blocks

end OperatingSys.FileSystem
