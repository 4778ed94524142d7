import OperatingSys.FileSystem.Contents
import Mathlib.Data.Finset.Card

/-!
# Writing

What `fs_write` does on a consistent file system, round by round. A round fails only when
it needs a block and none is free; a whole write succeeds when there are at least as many
free blocks as blocks missing in its range, and then it overwrites its segment of the file.
-/

namespace OperatingSys.FileSystem

/-- The blocks the allocator may hand out. -/
def freeBlocks (s : State) : Finset Nat :=
  (Finset.range totalBlocks).filter fun b =>
    s.superblock.usedBlockBitmapOffset.toNat ≤ b ∧ getBit s.usedBlockBitmap b = false

/-- The blocks of file `i` from block `k` on, up to byte `stop`, that it does not have. -/
def missingBlocks (s : State) (i k stop : Nat) : Finset Nat :=
  (Finset.range directCount).filter fun k' =>
    k ≤ k' ∧ k' * blockSize < stop ∧ s.directOffset i k' = 0

/-- `s'` is `s` with `data` written to file `i` at byte `p` through descriptor `f`. -/
structure Wrote (m : Nat) (s s' : State) (f i p : Nat) (data : List Byte) : Prop where
  moved : At s' f i (p + data.length)
  others : ∀ j ≠ f, s'.openFileDescriptors j = s.openFileDescriptors j
  written : s'.contents i = (s.contents i).overwrite p data
  rest : ∀ i' < m, i' ≠ i → s'.contents i' = s.contents i'

section Wrote

variable {m : Nat} {s s' s'' : State} {f i p : Nat} {data more : List Byte}

theorem Wrote.nil (here : At s f i p) : Wrote m s s f i p [] :=
  ⟨here, fun _ _ => rfl, by simp, fun _ _ _ => rfl⟩

/-- Consecutive writes through one descriptor are one write. -/
theorem Wrote.append (inFile : p ≤ s.fileSize i) (first : Wrote m s s' f i p data)
    (second : Wrote m s' s'' f i (p + data.length) more) : Wrote m s s'' f i p (data ++ more) where
  moved := by
    rw [List.length_append, ← Nat.add_assoc]
    exact second.moved
  others := fun j other => (second.others j other).trans (first.others j other)
  written := by
    rw [second.written, first.written, List.overwrite_append]
    rwa [State.length_contents]
  rest := fun i' file other => (second.rest i' file other).trans (first.rest i' file other)

end Wrote

/-! ### Counting blocks -/

section Counting

variable {s t u : State} {i k stop : Nat}

theorem mem_freeBlocks {b : Nat} :
    b ∈ freeBlocks s ↔ b < totalBlocks ∧ s.superblock.usedBlockBitmapOffset.toNat ≤ b ∧
      getBit s.usedBlockBitmap b = false := by
  rw [freeBlocks, Finset.mem_filter, Finset.mem_range]

theorem mem_missingBlocks {k' : Nat} :
    k' ∈ missingBlocks s i k stop ↔
      k' < directCount ∧ k ≤ k' ∧ k' * blockSize < stop ∧ s.directOffset i k' = 0 := by
  rw [missingBlocks, Finset.mem_filter, Finset.mem_range]

/-- Allocation fails only when there is no free block. -/
theorem freeBlocks_eq_empty {slot : Nat}
    (start : s.superblock.usedBlockBitmapOffset.toNat < totalBlocks)
    (full : allocateBlock s slot = none) : freeBlocks s = ∅ := by
  rcases allocateBlock_cases s slot start with ⟨-, marked⟩ | ⟨b, -, took⟩
  · rw [Finset.eq_empty_iff_forall_notMem]
    intro b member
    obtain ⟨upper, lower, clear⟩ := mem_freeBlocks.mp member
    rw [marked b lower upper] at clear
    exact Bool.false_ne_true clear.symm
  · rw [full] at took
    exact absurd took (by simp)

/-- The free blocks are the ones behind those in use. -/
theorem Allotted.card_freeBlocks {d : String} {m : Nat} (allotted : Allotted d m s) :
    (freeBlocks s).card = totalBlocks - s.superblock.usedBlockBitmapCount.toNat := by
  have free : freeBlocks s =
      Finset.range totalBlocks \ Finset.range s.superblock.usedBlockBitmapCount.toNat := by
    ext b
    have used := allotted.counted b
    have least := allotted.least
    rw [mem_freeBlocks, Finset.mem_sdiff, Finset.mem_range, Finset.mem_range,
      allotted.layout.start, ← Bool.not_eq_true, used]
    omega
  rw [free, Finset.card_sdiff_of_subset (Finset.range_subset_range.mpr allotted.most),
    Finset.card_range, Finset.card_range]

/-- Whatever a file is missing, there are free blocks enough for it while at least
`directCount` blocks are free. -/
theorem Allotted.enough {d : String} {m : Nat} (allotted : Allotted d m s)
    (room : s.superblock.usedBlockBitmapCount.toNat + directCount ≤ totalBlocks) (i k stop : Nat) :
    (missingBlocks s i k stop).card ≤ (freeBlocks s).card := by
  have missing : (missingBlocks s i k stop).card ≤ directCount := by
    rw [missingBlocks]
    exact (Finset.card_filter_le _ _).trans_eq (Finset.card_range _)
  rw [allotted.card_freeBlocks]
  omega

/-- A round that takes a block uses up one free block and one missing one, and a round that
has its block uses up neither. -/
theorem counts_after_round (below : k < directCount) (inRange : k * blockSize < stop)
    (prepared : Prepared s i k t) (same : SameBlocks t u) :
    ∃ x, (missingBlocks s i k stop).card = (missingBlocks u i (k + 1) stop).card + x ∧
      (freeBlocks s).card = (freeBlocks u).card + x := by
  -- after the round, block `k` is no longer missing, and no other one changes
  have missing : missingBlocks u i (k + 1) stop = (missingBlocks s i k stop).erase k := by
    ext k'
    rw [Finset.mem_erase, mem_missingBlocks, mem_missingBlocks]
    have pointer : k' < directCount → k' ≠ k → u.directOffset i k' = s.directOffset i k' := by
      intro below' other
      rw [same.directOffset _ _ below']
      rcases prepared with ⟨-, rfl⟩ | ⟨-, b, -, rfl⟩
      · rfl
      · rw [State.takeBlock_directOffset _ _ below below', if_neg (fun h => other h.2)]
    constructor
    · rintro ⟨below', lower, upper, absent⟩
      have other : k' ≠ k := by omega
      exact ⟨other, below', by omega, upper, pointer below' other ▸ absent⟩
    · rintro ⟨other, below', lower, upper, absent⟩
      exact ⟨below', by omega, upper, (pointer below' other).symm ▸ absent⟩
  rw [missing]
  rcases prepared with ⟨used, rfl⟩ | ⟨absent, b, free, rfl⟩
  -- the block was there already: nothing is taken, and nothing was missing
  · have unchanged : freeBlocks u = freeBlocks t := by
      simp only [freeBlocks, same.bitmap, same.start]
    have notMissing : k ∉ missingBlocks t i k stop := by
      rw [mem_missingBlocks]
      exact fun h => used h.2.2.2
    exact ⟨0, by rw [Finset.erase_eq_of_notMem notMissing, Nat.add_zero], by rw [unchanged,
      Nat.add_zero]⟩
  -- one free block less, and one missing block less
  · have taken : freeBlocks u = (freeBlocks s).erase b := by
      ext j
      rw [Finset.mem_erase, mem_freeBlocks, mem_freeBlocks, same.bitmap, same.start,
        State.takeBlock_getBit, Bool.or_eq_false_iff, decide_eq_false_iff_not]
      change _ ∧ s.superblock.usedBlockBitmapOffset.toNat ≤ j ∧ _ ↔ _
      constructor
      · rintro ⟨upper, lower, other, clear⟩
        exact ⟨fun eq => other eq.symm, upper, lower, clear⟩
      · rintro ⟨other, upper, lower, clear⟩
        exact ⟨upper, lower, fun eq => other eq.symm, clear⟩
    have wasFree : b ∈ freeBlocks s := mem_freeBlocks.mpr ⟨free.upper, free.lower, free.clear⟩
    have wasMissing : k ∈ missingBlocks s i k stop :=
      mem_missingBlocks.mpr ⟨below, Nat.le_refl k, inRange, absent⟩
    rw [taken]
    exact ⟨1, (Finset.card_erase_add_one wasMissing).symm, (Finset.card_erase_add_one wasFree).symm⟩

end Counting

section Rounds

variable {d : String} {nm : Nat → CString} {m : Nat} {s : State} {f i k off : Nat}

/-- A round fails for want of a free block, or it writes its chunk. -/
theorem fsWriteRound_spec (data : List Byte) (consistent : Consistent d nm m s) (file : i < m)
    (here : At s f i (k * blockSize + off)) (inFile : k * blockSize + off ≤ s.fileSize i)
    (inBlock : off < blockSize) (below : k < directCount) :
    (s.directOffset i k = 0 ∧ freeBlocks s = ∅ ∧
      fsWriteRound s f i k off data = some (false, s)) ∨
    ∃ t s', Prepared s i k t ∧ SameBlocks t s' ∧
      fsWriteRound s f i k off data = some (true, s') ∧ Consistent d nm m s' ∧
      Wrote m s s' f i (k * blockSize + off) (data.take (chunkSize off data)) := by
  have start : s.superblock.usedBlockBitmapOffset.toNat < totalBlocks := by
    rw [consistent.allotted.layout.start]
    decide
  have inTable : ¬ directOffsetAddr i k ≥ inodeTableWords :=
    Nat.not_le.mpr (directOffsetAddr_in_table (consistent.catalogue.below file) below)
  have chunkLength : (data.take (chunkSize off data)).length = chunkSize off data := by
    rw [List.length_take, chunkSize]
    omega
  -- with its block in place the round goes through
  have finish : ∀ t, Prepared s i k t →
      (if s.directOffset i k = 0 then allocateBlock s (directOffsetAddr i k) else some s) = some t →
      ∃ t s', Prepared s i k t ∧ SameBlocks t s' ∧
        fsWriteRound s f i k off data = some (true, s') ∧ Consistent d nm m s' ∧
        Wrote m s s' f i (k * blockSize + off) (data.take (chunkSize off data)) := by
    intro t prepared placed
    obtain ⟨consistent', used, size, fds, kept⟩ := consistent.prepared file below prepared
    obtain ⟨img, opened⟩ := MountedOn.image consistent'.allotted.onDisk
    have bounds := consistent'.block_bounds file below used
    obtain ⟨disk, wrote, active, image⟩ := Disk.blockWrite_of_image opened bounds.2
      (overlay (img (t.directOffset i k).toNat) off (chunkSize off data) data)
    have chunk : Chunk d nm m t img disk f i k off (chunkSize off data) data := {
      consistent := consistent'
      file := file
      here := by
        rw [At, fds]
        exact here
      inFile := by
        rw [size]
        exact inFile
      below := below
      used := used
      inBlock := by
        rw [chunkSize]
        omega
      enough := Nat.min_le_left _ _
      opened := opened
      active := active
      image := image }
    refine ⟨t, t.storeChunk disk f i (chunkSize off data), prepared, advance_sameBlocks _ _ _ _ _,
      ?_, chunk.stays_consistent, ?_⟩
    · simp only [fsWriteRound, inTable, if_false, placed, consistent'.readable.block_toInt32 file below used,
        Disk.blockRead_of_image opened bounds.2, wrote]
    · refine ⟨?_, fun j other => ?_, ?_, fun i' file' other => ?_⟩
      · rw [At, chunk.openFileDescriptors, Function.update_self, chunkLength]
      · rw [chunk.openFileDescriptors, Function.update_of_ne other, fds]
      · rw [chunk.contents, kept i file]
      · rw [chunk.contents_of_ne file' other, kept i' file']
  by_cases absent : s.directOffset i k = 0
  · rcases allocateBlock_cases s (directOffsetAddr i k) start with ⟨full, -⟩ | ⟨b, free, took⟩
    · left
      exact ⟨absent, freeBlocks_eq_empty start full, by
        simp only [fsWriteRound, inTable, if_false, absent, if_true, full]⟩
    · right
      exact finish _ (Or.inr ⟨absent, b, free, rfl⟩) (by rw [if_pos absent, took])
  · right
    exact finish s (Or.inl ⟨absent, rfl⟩) (if_neg absent)

/-- The whole loop: it ends in a consistent file system, with all of the data written unless
it ran out of free blocks. -/
theorem fsWriteLoop_spec (file : i < m) (fuel : Nat) :
    ∀ (s : State) (k off : Nat) (data : List Byte) {p : Nat}, Consistent d nm m s → At s f i p →
      p ≤ s.fileSize i → data.length ≤ fuel → (data ≠ [] → p = k * blockSize + off) →
      off < blockSize → p + data.length ≤ maxFilesize →
      ∃ ended s', fsWriteLoop f i fuel s k off data = some (ended, s') ∧ Consistent d nm m s' ∧
        (ended = true → Wrote m s s' f i p data) ∧
        ((missingBlocks s i k (p + data.length)).card ≤ (freeBlocks s).card → ended = true) := by
  induction fuel with
  | zero =>
    intro s k off data p consistent here _ short _ _ _
    obtain rfl : data = [] := List.length_eq_zero_iff.mp (by omega)
    exact ⟨true, s, rfl, consistent, fun _ => Wrote.nil here, fun _ => rfl⟩
  | succ fuel ih =>
    intro s k off data p consistent here inFile short position inBlock within
    cases data with
    | nil => exact ⟨true, s, rfl, consistent, fun _ => Wrote.nil here, fun _ => rfl⟩
    | cons x rest =>
      obtain rfl := position (by simp)
      have longer : 0 < (x :: rest).length := by simp
      have below : k < directCount :=
        index_lt_directCount (p := k * blockSize + off + (x :: rest).length) (by omega) within
      simp only [fsWriteLoop, List.isEmpty_cons, Bool.false_eq_true, if_false]
      generalize eq : x :: rest = data at *
      rcases fsWriteRound_spec data consistent file here inFile inBlock below with
        ⟨absent, none_, round⟩ | ⟨t, s₁, prepared, same, round, consistent₁, wrote₁⟩
      · refine ⟨false, s, by rw [round], consistent, fun h => absurd h (by decide), fun enough => ?_⟩
        -- a block is missing and none is free
        have missing : k ∈ missingBlocks s i k (k * blockSize + off + data.length) :=
          mem_missingBlocks.mpr ⟨below, Nat.le_refl k, by omega, absent⟩
        have positive := Finset.card_pos.mpr ⟨k, missing⟩
        rw [none_, Finset.card_empty] at enough
        omega
      · have chunkLength : (data.take (chunkSize off data)).length = chunkSize off data := by
          rw [List.length_take, chunkSize]
          omega
        have restLength : (data.drop (chunkSize off data)).length =
          data.length - chunkSize off data := List.length_drop
        have progress : 0 < chunkSize off data := by
          rw [chunkSize]
          omega
        have bounded : chunkSize off data ≤ data.length := Nat.min_le_left _ _
        have here₁ := wrote₁.moved
        have inFile₁ : k * blockSize + off + chunkSize off data ≤ s₁.fileSize i := by
          rw [← State.length_contents, wrote₁.written, List.length_overwrite, chunkLength]
          · omega
          · rw [State.length_contents]
            exact inFile
        rw [chunkLength] at here₁
        obtain ⟨ended, s', loop, consistent', wrote', done⟩ := ih s₁ (k + 1) 0
          (data.drop (chunkSize off data)) consistent₁ here₁ inFile₁ (by omega)
          (by
            -- data is left behind only by a chunk that filled its block
            intro nonempty
            have left : 0 < (data.drop (chunkSize off data)).length :=
              List.length_pos_iff.mpr nonempty
            have filled : chunkSize off data = blockSize - off := by
              rw [chunkSize] at *
              omega
            rw [Nat.succ_mul]
            omega)
          (by decide) (by omega)
        refine ⟨ended, s', by rw [round]; exact loop, consistent', fun finished => ?_, fun enough => ?_⟩
        · have both := wrote₁.append inFile (by rw [chunkLength]; exact wrote' finished)
          rwa [List.take_append_drop] at both
        · apply done
          have stop : k * blockSize + off + chunkSize off data +
              (data.drop (chunkSize off data)).length = k * blockSize + off + data.length := by
            omega
          rw [stop]
          obtain ⟨x, missing, free⟩ := counts_after_round below
            (show k * blockSize < k * blockSize + off + data.length by omega) prepared same
          omega

end Rounds

end OperatingSys.FileSystem
