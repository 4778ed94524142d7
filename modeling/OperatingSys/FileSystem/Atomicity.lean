import OperatingSys.FileSystem.Integrity
import OperatingSys.FileSystem.History
import OperatingSys.FileSystem.Limits
import Mathlib.Data.Fintype.EquivFin

/-!
# Calls that fail

A call that returns `-1` should leave the globals as they were. `fs_create` does: the exit that
it takes after an inode has been set up is out of reach, since an entry for every name and an
inode for every entry leave no inode when there is no entry. `fs_write` does not: its loop keeps
what the rounds before the failing one have done.
-/

namespace OperatingSys.FileSystem

open Search

/-! ### Creating -/

/-- `fs_create(name)` takes its exit "No available directory entries", with `inode` set up. -/
structure OutOfEntries (s : State) (name : CString) (inode : Nat) : Prop where
  creates : Creates s name
  free : firstIndex maxNumOfFiles (fun i => s.fileType i = 0) = some inode
  entries : firstIndex maxNumOfFiles (fun e => !((s.initInode inode).directory e).isUsed) = none

section Creation

variable {s : State}

/-- Entries name inodes one to one, and there are as many of the one as of the other. -/
theorem DirectorySound.typed_of_full (sound : DirectorySound s)
    (full : ∀ e < maxNumOfFiles, (s.directory e).isUsed = true) {i : Nat}
    (file : i < maxNumOfFiles) : s.fileType i ≠ 0 := by
  have present : ∀ e : Fin maxNumOfFiles, s.Present e := fun e => ⟨e.2, full e e.2⟩
  let inode : Fin maxNumOfFiles → Fin maxNumOfFiles :=
    fun e => ⟨s.inodeOf e, sound.inTable e (present e)⟩
  have injective : Function.Injective inode := fun e e' same =>
    Fin.ext (sound.single e e' (present e) (present e') (congrArg Fin.val same))
  obtain ⟨e, named⟩ := Finite.injective_iff_surjective.mp injective ⟨i, file⟩
  have same : s.inodeOf e = i := congrArg Fin.val named
  rw [← same]
  exact sound.typed e (present e)

theorem DirectorySound.not_outOfEntries (sound : DirectorySound s) (name : CString) (inode : Nat) :
    ¬ OutOfEntries s name inode := by
  intro out
  obtain ⟨file, untyped, -⟩ := firstIndex_eq_some.mp out.free
  refine sound.typed_of_full (fun e inRange => ?_) file (of_decide_eq_true untyped)
  simpa [State.initInode] using firstIndex_eq_none.mp out.entries e inRange

/-- Without that exit a failing `fs_create` has not got as far as to change anything. -/
theorem fsCreate_unchanged {name : CString} (never : ∀ inode, ¬ OutOfEntries s name inode)
    (failed : (fsCreate s name).1 = -1) : (fsCreate s name).2 = s := by
  by_cases creates : Creates s name
  · rw [creates.fsCreate_eq] at failed ⊢
    cases found : firstIndex maxNumOfFiles (fun i => s.fileType i = 0) with
    | none => rfl
    | some inode =>
      simp only [found] at failed ⊢
      cases entry : firstIndex maxNumOfFiles
          (fun e => !((s.initInode inode).directory e).isUsed) with
      | none => exact absurd ⟨creates, found, entry⟩ (never inode)
      | some e => simp only [entry, Int.reduceNeg, reduceCtorEq] at failed
  · rw [fsCreate_refused creates]

end Creation

/-- **All or nothing.** In every state that calls reach on a new disk, with writes that end at
or below `MAX_FILESIZE`, `fs_create` never runs out of directory entries once it has an inode,
and if it fails all globals are as before. -/
theorem fsCreate_all_or_nothing {d : String} {s t : State} (started : Started d s)
    {calls : List Call} {replies : List Reply}
    (within : Machine.Admits call WritesWithin s calls)
    (ran : Machine.run call s calls = some (replies, t)) (name : CString) :
    (∀ inode, ¬ OutOfEntries t name inode) ∧
      ((fsCreate t name).1 = -1 → (fsCreate t name).2 = t) := by
  have sound : DirectorySound t :=
    Machine.run_invariant DirectorySound (fun _ _ _ _ sound ok called => call_sound sound ok called)
      started.fresh.directorySound within ran
  have never := fun inode => sound.not_outOfEntries name inode
  exact ⟨never, fsCreate_unchanged never⟩

set_option maxRecDepth 100000 in
/-- A file that was deleted and created again cannot be created once more. -/
theorem fsCreate_all_or_nothing_recreated :
    let t := afterCalls [.create nameA, .delete nameA fun _ => 0, .create nameA]
    (fsCreate t nameA).1 = -1 ∧ (fsCreate t nameA).2 = t := by
  have isSome : (Machine.run call newDisk
      [.create nameA, .delete nameA fun _ => 0, .create nameA]).isSome = true := by decide
  obtain ⟨replies, ran⟩ := run_afterCalls isSome
  have failed : (fsCreate (afterCalls [.create nameA, .delete nameA fun _ => 0, .create nameA])
      nameA).1 = -1 := by decide
  exact ⟨failed, (fsCreate_all_or_nothing newDisk_started (by decide) ran nameA).2 failed⟩

/-! ### Writing -/

/-- What a failed write through descriptor `f` to file `i` is to leave as it was. -/
structure Unharmed (s t : State) (f i : Nat) : Prop where
  offset : (t.openFileDescriptors f).offset = (s.openFileDescriptors f).offset
  size : t.fileSize i = s.fileSize i
  contents : t.contents i = s.contents i
  blocks : ∀ k < directCount, t.directOffset i k = s.directOffset i k
  bitmap : t.usedBlockBitmap = s.usedBlockBitmap

/-- `fs_write` returns. If it returns `-1` it has changed nothing, and if it returns `r ≥ 0` the
offset has advanced by `r`. -/
def FailsCleanly (s : State) (fildes : Int) (data : List Byte) : Prop :=
  ∃ r t, fsWrite s fildes data = some (r, t) ∧
    (r = -1 → Unharmed s t fildes.toNat (s.openFileDescriptors fildes.toNat).inodeNumber.toNat) ∧
    (0 ≤ r → (t.openFileDescriptors fildes.toNat).offset =
      (s.openFileDescriptors fildes.toNat).offset + r)

/-- The write is not cut short: there is nothing to write, or there are free blocks for all that
the file lacks, or the file lacks the first block already and no block is free. -/
def NotCutShort (s : State) (fildes : Int) (data : List Byte) : Prop :=
  let fd := s.openFileDescriptors fildes.toNat
  s.isOpen fildes = true → s.isFile fd.inodeNumber = true →
    data = [] ∨
    (missingBlocks s fd.inodeNumber.toNat (fd.offset.toNat / blockSize)
      (fd.offset.toNat + data.length)).card ≤ (freeBlocks s).card ∨
    (s.directOffset fd.inodeNumber.toNat (fd.offset.toNat / blockSize) = 0 ∧ freeBlocks s = ∅)

theorem Unharmed.refl (s : State) (f i : Nat) : Unharmed s s f i :=
  ⟨rfl, rfl, rfl, fun _ _ => rfl, rfl⟩

section Writing

variable {s : State} {f i p : Nat}

theorem Ready.stuck_iff (ready : Ready s f i p) (k : Nat) :
    Stuck s i k ↔ s.directOffset i k = 0 ∧ freeBlocks s = ∅ := by
  have start : s.superblock.usedBlockBitmapOffset.toNat < totalBlocks := by
    rw [ready.start]
    decide
  constructor
  · exact fun stuck => ⟨stuck.1, freeBlocks_eq_empty start stuck.2⟩
  · rintro ⟨absent, none_⟩
    refine ⟨absent, ?_⟩
    rcases allocateBlock_cases s (directOffsetAddr i k) start with ⟨full, -⟩ | ⟨b, free, -⟩
    · exact full
    · have member : b ∈ freeBlocks s := mem_freeBlocks.mpr ⟨free.upper, free.lower, free.clear⟩
      rw [none_] at member
      exact absurd member (Finset.notMem_empty b)

/-- A round that is not stuck writes its chunk, and uses up as many free blocks as missing
ones. -/
theorem Ready.writeFrom_round {data : List Byte} (ready : Ready s f i p) (more : data ≠ [])
    (within : p + data.length ≤ maxFilesize) (notStuck : ¬ Stuck s i (p / blockSize)) :
    ∃ s₁, writeFrom f i s p data = writeFrom f i s₁ (p + chunkSize (p % blockSize) data)
        (data.drop (chunkSize (p % blockSize) data)) ∧
      Ready s₁ f i (p + chunkSize (p % blockSize) data) ∧
      ∃ x, (missingBlocks s i (p / blockSize) (p + data.length)).card =
          (missingBlocks s₁ i (p / blockSize + 1) (p + data.length)).card + x ∧
        (freeBlocks s).card = (freeBlocks s₁).card + x := by
  have limit : maxFilesize = 1048576 := rfl
  have positive := List.length_pos_iff.mpr more
  have position := Nat.div_add_mod' p blockSize
  have chunk : chunkSize (p % blockSize) data ≤ data.length := Nat.min_le_left _ _
  have below : p / blockSize < directCount :=
    index_lt_directCount (p := p + data.length) (by omega) within
  rcases ready.round below with stuck | ⟨t, name, img, prepared, ready', -, rounds⟩
  · exact absurd stuck notStuck
  · refine ⟨_, writeFrom_step more (rounds (p % blockSize) data), ready'.put (by omega), ?_⟩
    exact counts_after_round below (by omega) prepared (advance_sameBlocks _ _ _ _ _)

/-- Behind the block in which a write ends nothing is missing. -/
theorem missingBlocks_behind (s : State) (i : Nat) {k stop : Nat} (ends : stop ≤ k * blockSize) :
    missingBlocks s i k stop = ∅ := by
  rw [Finset.eq_empty_iff_forall_notMem]
  intro k' member
  obtain ⟨-, lower, upper, -⟩ := mem_missingBlocks.mp member
  have := Nat.mul_le_mul_right blockSize lower
  omega

/-- The first block is missing and none is left. -/
theorem Ready.missing_of_stuck {data : List Byte} (ready : Ready s f i p) (more : data ≠ [])
    (within : p + data.length ≤ maxFilesize) (stuck : Stuck s i (p / blockSize)) :
    (freeBlocks s).card < (missingBlocks s i (p / blockSize) (p + data.length)).card ∧
      writeFrom f i s p data = some (false, s) := by
  have positive := List.length_pos_iff.mpr more
  have position := Nat.div_add_mod' p blockSize
  have below : p / blockSize < directCount :=
    index_lt_directCount (p := p + data.length) (by omega) within
  obtain ⟨absent, none_⟩ := (ready.stuck_iff _).mp stuck
  have member : p / blockSize ∈ missingBlocks s i (p / blockSize) (p + data.length) :=
    mem_missingBlocks.mpr ⟨below, Nat.le_refl _, by omega, absent⟩
  constructor
  · rw [none_, Finset.card_empty]
    exact Finset.card_pos.mpr ⟨_, member⟩
  · rw [stuck.writeFrom_eq ready.file below, List.isEmpty_eq_false_iff.mpr more]

/-- A write that gets past its first round: it succeeds if there are blocks enough, and if not
it fails with its descriptor moved. -/
theorem Ready.writeFrom_outcome (n : Nat) :
    ∀ {s : State} {p : Nat} {data : List Byte}, data.length ≤ n → Ready s f i p → data ≠ [] →
      p + data.length ≤ maxFilesize → ¬ Stuck s i (p / blockSize) →
      (∃ t, writeFrom f i s p data = some (true, t) ∧ At t f i (p + data.length) ∧
        (freeBlocks s).card = (freeBlocks t).card +
          (missingBlocks s i (p / blockSize) (p + data.length)).card) ∨
      ((freeBlocks s).card < (missingBlocks s i (p / blockSize) (p + data.length)).card ∧
        ∃ t q, writeFrom f i s p data = some (false, t) ∧ At t f i q ∧ p < q) := by
  -- by induction on the rounds
  induction n with
  | zero =>
    intro s p data short _ more
    exact absurd (List.length_eq_zero_iff.mp (by omega)) more
  | succ n ih =>
    intro s p data short ready more within notStuck
    have progress := chunkSize_pos (Nat.mod_lt p (show 0 < blockSize by decide)) more
    obtain ⟨s₁, step, ready₁, x, missing, free⟩ := ready.writeFrom_round more within notStuck
    by_cases left : data.drop (chunkSize (p % blockSize) data) = []
    -- the last round
    · have whole : chunkSize (p % blockSize) data = data.length := by
        rw [List.drop_eq_nil_iff] at left
        exact Nat.le_antisymm (Nat.min_le_left _ _) left
      have inside : p + data.length ≤ (p / blockSize + 1) * blockSize := by
        have position := Nat.div_add_mod' p blockSize
        have inBlock : p % blockSize < blockSize := Nat.mod_lt _ (by decide)
        rw [chunkSize] at whole
        rw [Nat.succ_mul]
        omega
      rw [missingBlocks_behind s₁ i inside, Finset.card_empty] at missing
      rw [left, writeFrom_nil] at step
      rw [whole] at ready₁
      exact Or.inl ⟨s₁, step, ready₁.here, by omega⟩
    · obtain ⟨index, -, ends⟩ := chunk_left left
      rw [← index, ← ends] at missing
      rw [← ends] at within
      by_cases stuck : Stuck s₁ i ((p + chunkSize (p % blockSize) data) / blockSize)
      -- the next block is missing, and there is none left
      · obtain ⟨few, stops⟩ := ready₁.missing_of_stuck left within stuck
        rw [← ends]
        exact Or.inr ⟨by omega, s₁, _, step.trans stops, ready₁.here, by omega⟩
      · rcases ih (by rw [List.length_drop]; omega) ready₁ left within stuck with
          ⟨u, wrote, there, used⟩ | ⟨few, u, q, wrote, there, further⟩
        · rw [ends] at there
          refine Or.inl ⟨u, step.trans wrote, there, ?_⟩
          rw [← ends]
          omega
        · refine Or.inr ⟨?_, u, q, step.trans wrote, there, by omega⟩
          rw [← ends]
          omega

/-- Through a descriptor that is ready, `fs_write` fails cleanly exactly if it is not cut
short. -/
theorem Ready.failsCleanly_iff {data : List Byte} (ready : Ready s f i p)
    (inRange : f < maxFileDescriptors) (within : p + data.length ≤ maxFilesize) :
    FailsCleanly s f data ↔ NotCutShort s f data := by
  have limit : maxFilesize = 1048576 := rfl
  have here := ready.here
  rw [At] at here
  have returned : toInt32 (data.length : Int) = data.length :=
    toInt32_of_small (by omega) (by omega)
  have written := ready.fsWrite_eq inRange data
  simp only [FailsCleanly, NotCutShort, Int.toNat_natCast, here, ready.isOpen inRange,
    ready.isFile, true_imp_iff, ← ready.stuck_iff]
  by_cases empty : data = []
  · subst empty
    rw [writeFrom_nil] at written
    refine iff_of_true ⟨_, s, written, fun failed => ?_, fun _ => ?_⟩ (Or.inl rfl)
    · rw [returned] at failed
      simp at failed
    · rw [here, returned]
      exact (Int.add_zero _).symm
  · by_cases stuck : Stuck s i (p / blockSize)
    -- the first round finds the disk full
    · obtain ⟨-, stops⟩ := ready.missing_of_stuck empty within stuck
      rw [stops] at written
      refine iff_of_true ⟨-1, s, written, fun _ => Unharmed.refl s f i, fun nonneg => ?_⟩
        (Or.inr (Or.inr stuck))
      exact absurd nonneg (by decide)
    · rcases Ready.writeFrom_outcome data.length (Nat.le_refl _) ready empty within stuck with
        ⟨t, wrote, there, used⟩ | ⟨few, t, q, wrote, there, further⟩
      · rw [wrote] at written
        rw [At] at there
        refine iff_of_true ⟨_, t, written, fun failed => ?_, fun _ => ?_⟩ (Or.inr (Or.inl ?_))
        · rw [returned] at failed
          omega
        · rw [there, returned]
          exact Int.natCast_add p data.length
        · omega
      -- a later one does, and the descriptor has moved
      · rw [wrote] at written
        rw [At] at there
        refine iff_of_false ?_ ?_
        · rintro ⟨r, u, again, clean, -⟩
          rw [written, Option.some.injEq, Prod.mk.injEq] at again
          obtain ⟨rfl, rfl⟩ := again
          have still := (clean rfl).offset
          rw [there, here] at still
          simp only [Int.natCast_inj] at still
          omega
        · rintro (nothing | enough | stuck')
          · exact empty nothing
          · omega
          · exact stuck stuck'

end Writing

/-- **Failed writes.** In every state that calls reach on a new disk, whatever they write, a
write that ends at or below `MAX_FILESIZE` changes nothing if it fails, and moves the offset by
what it returns if it does not, exactly if the disk does not fill up part-way. -/
theorem fsWrite_failsCleanly_iff {d : String} {s t : State} (started : Started d s)
    {calls : List Call} {replies : List Reply}
    (ran : Machine.run call s calls = some (replies, t)) (fildes : Int) (data : List Byte)
    (within : WritesWithin t (.write fildes data)) :
    FailsCleanly t fildes data ↔ NotCutShort t fildes data := by
  have confined := started.confined ran
  by_cases tests : t.isOpen fildes = true ∧
      t.isFile (t.openFileDescriptors fildes.toNat).inodeNumber = true
  · obtain ⟨isOpen, isFile⟩ := tests
    have inRange := isOpen_toNat_lt isOpen
    have isUsed : (t.openFileDescriptors fildes.toNat).isUsed = true := by
      simp only [State.isOpen, Bool.and_eq_true] at isOpen
      exact isOpen.2
    obtain ⟨p, points, -⟩ := confined.offset _ inRange isUsed
    have ready := Ready.of_tests isOpen isFile (by omega) confined.start confined.inDisk
      confined.onDisk
    have ends := within isOpen
    have result : FailsCleanly t fildes.toNat data ↔ NotCutShort t fildes.toNat data :=
      ready.failsCleanly_iff inRange (by omega)
    rwa [isOpen_toNat isOpen] at result
  · refine iff_of_true
      ⟨-1, t, fsWrite_refused tests, fun _ => Unharmed.refl t _ _, fun nonneg => ?_⟩
      fun isOpen isFile => absurd ⟨isOpen, isFile⟩ tests
    exact absurd nonneg (by decide)

/-- One byte to a new file, for which the disk is not too full, and one byte through a descriptor
that is not open. -/
theorem fsWrite_failsCleanly_iff_one_byte :
    FailsCleanly (afterCalls openedFile) 0 [7] ∧ FailsCleanly (afterCalls openedFile) 1 [7] ∧
      fsWrite (afterCalls openedFile) 1 [7] = some (-1, afterCalls openedFile) := by
  obtain ⟨replies, ran⟩ := run_afterCalls openedFile_runs
  obtain ⟨descriptor, -, -, count⟩ := openedFile_state
  have growing : Machine.Admits call Growing newDisk openedFile :=
    ⟨trivial, fun _ _ _ => ⟨trivial, fun _ _ _ => trivial⟩⟩
  obtain ⟨nm, m, consistent⟩ := newDisk_started.consistent ⟨openedFile, replies, growing, ran⟩
  have closed : (afterCalls openedFile).isOpen 1 ≠ true := by decide +kernel
  refine ⟨?_, ?_, fsWrite_refused fun tests => closed tests.1⟩
  · refine (fsWrite_failsCleanly_iff newDisk_started ran 0 [7] fun _ => ?_).mpr
      fun _ _ => Or.inr (Or.inl (consistent.allotted.enough (by rw [count]; decide) _ _ _))
    rw [Int.toNat_zero, descriptor]
    decide
  · exact (fsWrite_failsCleanly_iff newDisk_started ran 1 [7] fun isOpen =>
      absurd isOpen closed).mpr fun isOpen => absurd isOpen closed

/-! ### A full disk -/

/-- As many bytes as a file can have. -/
def megabyte : List Byte := List.replicate maxFilesize 7

/-- A file is created, filled up to `MAX_FILESIZE` and closed. -/
def fillFile (name : CString) : List Call :=
  [.create name, .open name, .write 0 megabyte, .close 0]

/-- The name of the file that does not fit any more. -/
def lastName : CString := numbered ⟨31, by decide⟩

/-- 31 files are filled, and one more is opened. -/
def nearlyFull : List Call :=
  (allNumbered.take 31).flatMap fillFile ++ [.create lastName, .open lastName]

section Filling

variable {d : String} {nm : Nat → CString} {m : Nat} {s : State}

theorem Consistent.ready (consistent : Consistent d nm m s) {f i p : Nat} (file : i < m)
    (here : At s f i p) : Ready s f i p where
  here := here
  file := consistent.catalogue.below file
  isUsed := ((consistent.catalogue.present_iff i).mpr file).2
  start := consistent.allotted.layout.start
  inDisk := fun k below => by
    by_cases used : s.directOffset i k = 0
    · rw [used]
      decide
    · exact (consistent.block_bounds file below used).2
  onDisk := ⟨d, consistent.allotted.onDisk⟩

/-- A new file lacks all of its blocks. -/
theorem missingBlocks_new {i : Nat} (new : ∀ k < directCount, s.directOffset i k = 0) :
    (missingBlocks s i 0 maxFilesize).card = directCount := by
  have all : missingBlocks s i 0 maxFilesize = Finset.range directCount := by
    ext k
    rw [mem_missingBlocks, Finset.mem_range]
    constructor
    · exact fun missing => missing.1
    · intro below
      refine ⟨below, Nat.zero_le k, ?_, new k below⟩
      simp only [blockSize, maxFilesize, directCount] at *
      omega
  rw [all, Finset.card_range]

/-- File `m` is the last one created, has no blocks, and descriptor 0 stands at its start. -/
structure NewFile (d : String) (nm : Nat → CString) (m : Nat) (s : State) : Prop where
  consistent : Consistent d nm (m + 1) s
  here : At s 0 m 0
  empty : ∀ k < directCount, s.directOffset m k = 0

theorem NewFile.ready (new : NewFile d nm m s) : Ready s 0 m 0 :=
  new.consistent.ready (Nat.lt_succ_self m) new.here

/-- A new file is filled if there are blocks for it, and if there are only some the write
fails with its descriptor moved. -/
theorem NewFile.write_outcome (new : NewFile d nm m s) (some_ : 0 < (freeBlocks s).card) :
    (∃ t, fsWrite s 0 megabyte = some (toInt32 megabyte.length, t) ∧ At t 0 m maxFilesize ∧
      (freeBlocks s).card = (freeBlocks t).card + directCount) ∨
    ((freeBlocks s).card < directCount ∧ ∃ t q, fsWrite s 0 megabyte = some (-1, t) ∧
      At t 0 m q ∧ 0 < q) := by
  have ready := new.ready
  have length : 0 + megabyte.length = maxFilesize := by
    rw [Nat.zero_add, megabyte, List.length_replicate]
  have nonempty : megabyte ≠ [] := by
    rintro empty
    rw [empty] at length
    exact absurd length (by decide)
  have notStuck : ¬ Stuck s m (0 / blockSize) := by
    intro stuck
    rw [((ready.stuck_iff _).mp stuck).2, Finset.card_empty] at some_
    omega
  have written := ready.fsWrite_eq (by decide) megabyte
  have outcome := ready.writeFrom_outcome megabyte.length (Nat.le_refl _) nonempty
    (Nat.le_of_eq length) notStuck
  rw [Nat.zero_div, length, missingBlocks_new new.empty] at outcome
  rcases outcome with ⟨t, wrote, there, used⟩ | ⟨few, t, q, wrote, there, further⟩
  · rw [wrote] at written
    exact Or.inl ⟨t, written, there, used⟩
  · rw [wrote] at written
    exact Or.inr ⟨few, t, q, written, there, further⟩

theorem newFile_exists (consistent : Consistent d nm m s) {name : CString}
    (nonempty : strlen name ≠ 0) (fits : strlen name ≤ maxFileName) (new : ∀ e < m, nm e ≠ name)
    (room : m < maxNumOfFiles) (closed : (s.openFileDescriptors 0).isUsed = false) :
    ∃ replies t, Machine.run call s [.create name, .open name] = some (replies, t) ∧
      NewFile d (Function.update nm m name) m t ∧ freeBlocks t = freeBlocks s := by
  rcases fsCreate_spec consistent name with ⟨refused, -⟩ | ⟨-, -, -, created, consistent'⟩
  · rcases refused with long | empty | ⟨e, file, same⟩ | full
    · omega
    · exact absurd empty nonempty
    · exact absurd same (new e file)
    · omega
  have free : firstIndex maxFileDescriptors
      (fun j => !((s.created m name).openFileDescriptors j).isUsed) = some 0 :=
    firstIndex_eq_some.mpr
      ⟨by decide, congrArg (!·) closed, fun j below => absurd below (Nat.not_lt_zero j)⟩
  have opened := fsOpen_found consistent'.catalogue fits (Nat.lt_succ_self m)
    (Function.update_self m name nm)
  rw [free] at opened
  refine ⟨[(0, []), (0, [])], (s.created m name).storeDescriptor 0 ⟨true, m, 0⟩, ?_,
    ⟨?_, ?_, fun k below => ?_⟩, rfl⟩
  · simp only [Machine.run, call, plain, created, opened]
    rfl
  · exact consistent'.storeDescriptor 0 fun _ =>
      ⟨m, 0, Nat.lt_succ_self m, rfl, Nat.zero_le _⟩
  · simp only [At, State.storeDescriptor, Function.update_self, Int.natCast_zero]
  · exact (created_directOffset m below name).trans (if_pos rfl)

/-- Filling a file uses up `directCount` free blocks. -/
theorem fillFile_spec (consistent : Consistent d nm m s) {name : CString}
    (nonempty : strlen name ≠ 0) (fits : strlen name ≤ maxFileName) (new : ∀ e < m, nm e ≠ name)
    (room : m < maxNumOfFiles) (closed : (s.openFileDescriptors 0).isUsed = false)
    (enough : directCount ≤ (freeBlocks s).card) :
    ∃ replies t, Machine.run call s (fillFile name) = some (replies, t) ∧
      Consistent d (Function.update nm m name) (m + 1) t ∧
      (t.openFileDescriptors 0).isUsed = false ∧
      (freeBlocks s).card = (freeBlocks t).card + directCount := by
  obtain ⟨replies, u, opened, new', sameFree⟩ :=
    newFile_exists consistent nonempty fits new room closed
  rw [← sameFree] at enough ⊢
  rcases new'.write_outcome (Nat.lt_of_lt_of_le (by decide) enough) with
    ⟨t, written, there, used⟩ | ⟨few, -⟩
  · have isOpen := new'.ready.isOpen (show 0 < maxFileDescriptors by decide)
    have limit : 0 + megabyte.length ≤ maxFilesize := by
      rw [Nat.zero_add, megabyte, List.length_replicate]
    obtain ⟨r, t', spec, consistent', -⟩ := fsWrite_spec new'.consistent isOpen
      (Nat.lt_succ_self m) new'.here (Nat.zero_le _) megabyte limit
    rw [Int.natCast_zero, written, Option.some.injEq, Prod.mk.injEq] at spec
    obtain ⟨-, rfl⟩ := spec
    have closes := fsClose_open (isOpen_of_used (j := 0) (by decide) (by rw [there]))
    rw [Int.natCast_zero] at closes
    refine ⟨replies ++ [(toInt32 megabyte.length, []), (0, [])],
      t.storeDescriptor 0 ⟨false, 0, 0⟩, Machine.run_append opened ?_,
      consistent'.storeDescriptor 0 fun isUsed => absurd isUsed (by decide), ?_, used⟩
    · simp only [Machine.run, call, plain, written, closes, Option.map_some]
    · simp only [State.storeDescriptor, Function.update_self]
  · omega

/-- Filling file after file, with names that are still to come in `later`. -/
theorem fillAll_spec (consistent : Consistent d nm m s) (names later : List CString)
    (nodup : (names ++ later).Nodup)
    (valid : ∀ name ∈ names, 0 < strlen name ∧ strlen name ≤ maxFileName)
    (new : ∀ e < m, nm e ∉ names ++ later) (room : m + names.length ≤ maxNumOfFiles)
    (closed : (s.openFileDescriptors 0).isUsed = false)
    (enough : names.length * directCount ≤ (freeBlocks s).card) :
    ∃ replies nm' t, Machine.run call s (names.flatMap fillFile) = some (replies, t) ∧
      Consistent d nm' (m + names.length) t ∧ (∀ e < m + names.length, nm' e ∉ later) ∧
      (t.openFileDescriptors 0).isUsed = false ∧
      (freeBlocks s).card = (freeBlocks t).card + names.length * directCount := by
  induction names generalizing nm m s with
  | nil => exact ⟨[], nm, s, rfl, consistent, new, closed, by simp⟩
  | cons name rest ih =>
    rw [List.length_cons] at room
    rw [List.length_cons, Nat.succ_mul] at enough
    obtain ⟨positive, fits⟩ := valid name (by simp)
    obtain ⟨absent, nodup'⟩ := List.nodup_cons.mp nodup
    obtain ⟨replies, u, filled, consistent', closed', used⟩ :=
      fillFile_spec consistent (by omega) fits (fun e below same => new e below (by simp [same]))
        (by omega) closed (by omega)
    -- the names still to come are none of the old ones and not the one just created
    have new' : ∀ e < m + 1, Function.update nm m name e ∉ rest ++ later := by
      intro e below
      rw [Function.update_apply]
      split
      · exact absent
      next other => exact fun member => new e (by omega) (List.mem_cons_of_mem _ member)
    obtain ⟨replies', nm', t, ran, consistent'', fresh, closed'', used'⟩ :=
      ih consistent' nodup' (fun name' member => valid name' (List.mem_cons_of_mem _ member)) new'
        (by omega) closed' (by omega)
    have count : m + 1 + rest.length = m + (name :: rest).length := by
      rw [List.length_cons]
      omega
    rw [count] at consistent'' fresh
    refine ⟨_, nm', t, Machine.run_append filled ran, consistent'', fresh, closed'', ?_⟩
    rw [List.length_cons, Nat.succ_mul]
    omega

end Filling

/-- 31 full files, and one block less than the 32nd file needs. -/
private theorem nearlyFull_state :
    ∃ replies nm t, Machine.run call newDisk nearlyFull = some (replies, t) ∧
      NewFile "disk" nm 31 t ∧ (freeBlocks t).card = 255 := by
  have consistent := newDisk_started.fresh.consistent fun _ => lastName
  have free : (freeBlocks newDisk).card = 8191 := by
    rw [consistent.allotted.card_freeBlocks, newDisk_started.fresh.superblock]
    rfl
  obtain ⟨replies, nm, s, filled, consistent', new, closed, used⟩ :=
    fillAll_spec consistent (allNumbered.take 31) [lastName] (by decide)
      (fun name member => allNumbered_valid name (List.mem_of_mem_take member))
      (fun e below => absurd below (Nat.not_lt_zero e)) (by decide) (by decide)
      (by rw [free]; decide)
  have count : (allNumbered.take 31).length = 31 := by decide
  rw [count] at consistent' new used
  have new' : ∀ e < 0 + 31, nm e ≠ lastName := fun e below same => new e below (by simp [same])
  obtain ⟨replies', t, opened, new', sameFree⟩ :=
    newFile_exists consistent' (by decide) (by decide) new' (by decide) closed
  refine ⟨_, _, t, Machine.run_append filled opened, new', ?_⟩
  rw [sameFree]
  simp only [directCount] at used
  omega

/-- The 32nd file gets 255 of its 256 blocks before the disk is full: the write returns `-1`,
but its offset has moved. -/
theorem write_cut_short :
    Started "disk" newDisk ∧ ∃ replies t, Machine.run call newDisk nearlyFull = some (replies, t) ∧
      WritesWithin t (.write 0 megabyte) ∧ ¬ FailsCleanly t 0 megabyte ∧
      ∃ u, fsWrite t 0 megabyte = some (-1, u) ∧
        (u.openFileDescriptors 0).offset ≠ (t.openFileDescriptors 0).offset := by
  obtain ⟨replies, nm, t, ran, new, left⟩ := nearlyFull_state
  have here := new.here
  rw [At] at here
  refine ⟨newDisk_started, replies, t, ran, fun _ => ?_, ?_⟩
  · rw [Int.toNat_zero, here, megabyte, List.length_replicate]
    decide
  · rcases new.write_outcome (by omega) with ⟨u, -, -, used⟩ | ⟨-, u, q, written, there, moved⟩
    · simp only [directCount] at used
      omega
    · have different : (u.openFileDescriptors 0).offset ≠ (t.openFileDescriptors 0).offset := by
        rw [At] at there
        rw [there, here]
        simp only [ne_eq, Int.natCast_inj]
        omega
      refine ⟨?_, u, written, different⟩
      rintro ⟨r, u', again, clean, -⟩
      rw [written, Option.some.injEq, Prod.mk.injEq] at again
      obtain ⟨rfl, rfl⟩ := again
      exact different (clean rfl).offset

end OperatingSys.FileSystem
