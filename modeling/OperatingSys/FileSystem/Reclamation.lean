import OperatingSys.FileSystem.Integrity

/-!
# What deleting gives back

`fs_delete` empties the entry of a file and leaves its inode in use, so that the file is
never given back as a whole. `fs_create` goes on working for new names exactly as long as
there is an inode that is not in use.
-/

namespace OperatingSys.FileSystem

open Search

/-- Between `s` and `t` the file of entry `e` has been given back: its blocks are free in the
bitmap, and so is its inode. -/
def Reclaimed (s t : State) (e : Nat) : Prop :=
  (∀ k < directCount, s.directOffset (s.inodeOf e) k ≠ 0 →
    getBit t.usedBlockBitmap (s.directOffset (s.inodeOf e) k).toNat = false) ∧
  t.fileType (s.inodeOf e) = 0

theorem exists_unused {s : State} (few : s.fileCount < maxNumOfFiles) :
    ∃ e < maxNumOfFiles, (s.directory e).isUsed = false := by
  by_contra full
  have all : ∀ e ∈ Finset.range maxNumOfFiles, (s.directory e).isUsed = true := by
    intro e member
    rw [← Bool.not_eq_false]
    exact fun unused => full ⟨e, Finset.mem_range.mp member, unused⟩
  rw [State.fileCount, Finset.filter_true_of_mem all, Finset.card_range] at few
  omega

/-! ### Deleting -/

section Delete

variable {s : State}

theorem Deletes.fsDelete_eq {name : CString} {e : Nat} (deletes : Deletes s name e)
    (beyond : Nat → Byte) : fsDelete s beyond name = (0, s.deleted beyond e) := by
  have found : firstIndex maxNumOfFiles (fun i => (s.directory i).isUsed &&
      strncmp (List.ofFn (s.directory i).name) name.1 maxFileName = 0) = some e := by
    refine firstIndex_eq_some.mpr ⟨deletes.inRange, by simp [deletes.isUsed, deletes.found], ?_⟩
    intro e' before
    have earlier := deletes.first e' before
    simpa [Bool.and_eq_false_imp] using earlier
  have closed : firstIndex maxFileDescriptors (fun j => (s.openFileDescriptors j).isUsed &&
      (s.openFileDescriptors j).inodeNumber = (s.directory e).inodeNumber.toInt) = none := by
    refine firstIndex_eq_none.mpr fun j inRange => ?_
    have notOpen := deletes.notOpen j inRange
    simpa [Bool.and_eq_false_imp] using notOpen
  simp only [fsDelete, if_neg deletes.mounted, found, closed, Option.isSome_none,
    Bool.false_eq_true, if_false]
  rfl

theorem length_nameOf_le (s : State) (e : Nat) : (s.nameOf e).length ≤ maxFileName := by
  have shorter := (List.takeWhile_sublist (p := (· ≠ 0#8))
    (l := List.ofFn (s.directory e).name)).length_le
  rw [List.length_ofFn] at shorter
  exact shorter

/-- The name of a file without open descriptors leads `fs_delete` to its entry. -/
theorem Aligned.deletes (aligned : Aligned s) (mounted : s.openDiskFd ≠ -1) {name : CString}
    {e : Nat} (present : s.Present e) (named : s.nameOf e = name.1)
    (notOpen : ∀ j < maxFileDescriptors, (s.openFileDescriptors j).isUsed = true →
      (s.openFileDescriptors j).inodeNumber ≠ (s.directory e).inodeNumber.toInt) :
    Deletes s name e where
  mounted := mounted
  inRange := present.1
  isUsed := present.2
  found := by
    rw [strncmp_eq_zero_iff, beforeNul_of_not_mem name.2, ← named]
    rfl
  -- names are unique, so that the search stops at this entry
  first := fun e' before hit => by
    have present' : s.Present e' := ⟨Nat.lt_trans before present.1, hit.1⟩
    have same := (strncmp_eq_zero_iff _ _ _).mp hit.2
    rw [beforeNul_of_not_mem name.2, ← named] at same
    change (s.nameOf e').take maxFileName = _ at same
    rw [List.take_of_length_le (length_nameOf_le s e'),
      List.take_of_length_le (length_nameOf_le s e)] at same
    have eq := aligned.names e' e present' present same
    omega
  notOpen := fun j inRange hit => notOpen j inRange hit.1 hit.2

/-- `fs_delete` leaves the inode of the file in use. -/
theorem Aligned.not_reclaimed (aligned : Aligned s) {e : Nat} (present : s.Present e)
    (beyond : Nat → Byte) : ¬ Reclaimed s (s.deleted beyond e) e := by
  rintro ⟨-, freed⟩
  rw [State.fileType, deleted_inodeTable] at freed
  exact aligned.sound.typed e present freed

end Delete

/-! ### Creating -/

/-- With an entry to spare, a new name is refused exactly if every inode is in use. -/
theorem Creates.returns_zero_iff {s : State} {name : CString} (creates : Creates s name)
    (few : s.fileCount < maxNumOfFiles) :
    (fsCreate s name).1 = 0 ↔ ∃ i < maxNumOfFiles, s.fileType i = 0 := by
  -- there is a free entry, so that only the search for an inode can fail
  obtain ⟨e, below, unused⟩ := exists_unused few
  rw [creates.fsCreate_eq]
  cases search : firstIndex maxNumOfFiles (fun i => decide (s.fileType i = 0)) with
  | none =>
    refine iff_of_false (by simp) ?_
    rintro ⟨i, inRange, untyped⟩
    have typed := firstIndex_eq_none.mp search i inRange
    simp [untyped] at typed
  | some inode =>
    obtain ⟨inRange, untyped, -⟩ := firstIndex_eq_some.mp search
    have entry : (firstIndex maxNumOfFiles fun e =>
        !((s.initInode inode).directory e).isUsed).isSome = true :=
      firstIndex_isSome.mpr ⟨e, below, by simp [unused]⟩
    obtain ⟨e', found⟩ := Option.isSome_iff_exists.mp entry
    simp only [found]
    exact iff_of_true trivial ⟨inode, inRange, of_decide_eq_true untyped⟩

/-! ### Runs -/

section Mounted

variable {s t : State}

theorem fsWriteRound_openDiskFd (sound : DirectorySound s) {f i k off : Nat} {data : List Byte}
    {ended : Bool} (round : fsWriteRound s f i k off data = some (ended, t)) :
    t.openDiskFd = s.openDiskFd := by
  have prepared : ∀ u, Prepared s i k u → u.openDiskFd = s.openDiskFd := by
    rintro u (⟨-, rfl⟩ | ⟨-, b, -, rfl⟩)
    · rfl
    · rfl
  rcases fsWriteRound_cases sound.start_lt round with
    ⟨-, rfl | unfinished⟩ | ⟨-, u, buf, disk, ready, -, rfl⟩
  · rfl
  · exact prepared t unfinished
  · rw [State.advance_openDiskFd]
    exact prepared u ready

theorem DescriptorStep.openDiskFd (step : DescriptorStep s t) : t.openDiskFd = s.openDiskFd := by
  rcases step with rfl | ⟨j, fd, -, rfl⟩
  · rfl
  · rfl

/-- No call unmounts the disk. -/
theorem call_openDiskFd {c : Call} {r : Reply} (sound : DirectorySound s)
    (within : WritesWithin s c) (called : call s c = some (r, t)) :
    t.openDiskFd = s.openDiskFd := by
  have leads := leads_of_call called
  cases c with
  | create name =>
    obtain rfl := leads
    rcases fsCreate_cases s name with same | ⟨inode, -, -, ⟨-, filled⟩ | ⟨e, -, -, filled⟩⟩
    · rw [same]
    · rw [filled]
      rfl
    · rw [filled]
      rfl
  | «open» name =>
    obtain rfl := leads
    exact (fsOpen_step s name).openDiskFd
  | close fildes =>
    obtain rfl := leads
    exact (fsClose_step s fildes).openDiskFd
  | delete name beyond =>
    obtain rfl := leads
    rcases fsDelete_cases s beyond name with ⟨-, same⟩ | ⟨e, -, deleted⟩
    · rw [same]
    · rw [deleted, State.deleted]
  | read fildes nbyte =>
    obtain ⟨r', bytes, read⟩ := leads
    exact (fsRead_step read).descriptorStep.openDiskFd
  | write fildes data =>
    obtain ⟨r', wrote⟩ := leads
    -- each round needs the directory to be sound, so that both are carried along the loop
    have kept := fsWrite_preserves (P := fun u => DirectorySound u ∧ u.openDiskFd = s.openDiskFd)
      (fun f i u u' k off data ended _ kept below round =>
        ⟨fsWriteRound_sound below round kept.1,
          (fsWriteRound_openDiskFd kept.1 round).trans kept.2⟩) within wrote ⟨sound, rfl⟩
    exact kept.2
  | lseek fildes offset =>
    obtain rfl := leads
    exact (fsLseek_step s fildes offset.toInt).descriptorStep.openDiskFd
  | truncate fildes length =>
    obtain rfl := leads
    rcases fsTruncate_step s fildes length.toInt with same | ⟨i, v, j, fd, -, set⟩
    · rw [same]
    · rw [set]
      rfl
  | getFilesize fildes =>
    obtain rfl := leads
    exact rfl

theorem Started.aligned {d : String} (started : Started d s)
    (reached : Machine.Reaches call WritesWithin s t) : Aligned t ∧ t.openDiskFd ≠ -1 := by
  refine reached.invariant (fun u => Aligned u ∧ u.openDiskFd ≠ -1) ?_
    ⟨started.fresh.aligned, by rw [started.fresh.openDiskFd]; decide⟩
  rintro u c r u' ⟨aligned, mounted⟩ within called
  exact ⟨aligned.call within called, by rwa [call_openDiskFd aligned.sound within called]⟩

end Mounted

/-- **No reclamation.** In every state that calls reach on a new disk, `fs_delete` of any file
without open descriptors returns 0 and does not give the file back; and with fewer than 64
files `fs_create` of a new name returns 0 exactly if there is an inode that is not in use. -/
theorem delete_never_reclaims {d : String} {s t : State} (started : Started d s)
    (reached : Machine.Reaches call WritesWithin s t) :
    (∀ name e beyond, t.Present e → t.nameOf e = name.1 →
      (∀ j < maxFileDescriptors, (t.openFileDescriptors j).isUsed = true →
        (t.openFileDescriptors j).inodeNumber ≠ (t.directory e).inodeNumber.toInt) →
      (fsDelete t beyond name).1 = 0 ∧ ¬ Reclaimed t (fsDelete t beyond name).2 e) ∧
    (∀ name, Creates t name → t.fileCount < maxNumOfFiles →
      ((fsCreate t name).1 = 0 ↔ ∃ i < maxNumOfFiles, t.fileType i = 0)) := by
  obtain ⟨aligned, mounted⟩ := started.aligned reached
  refine ⟨fun name e beyond present named notOpen => ?_,
    fun name creates few => creates.returns_zero_iff few⟩
  have deletes := aligned.deletes mounted present named notOpen
  rw [deletes.fsDelete_eq beyond]
  exact ⟨rfl, aligned.not_reclaimed present beyond⟩

section OneFile

/-- One file of one block, closed. -/
def oneFile : List Call := [.create nameA, .open nameA, .write 0 [7], .close 0]

set_option maxRecDepth 100000 in
private theorem oneFile_runs : (Machine.run call newDisk oneFile).isSome = true := by
  decide

set_option maxRecDepth 100000 in
private theorem oneFile_within : Machine.Admits call WritesWithin newDisk oneFile := by
  decide

private theorem oneFile_reached :
    Machine.Reaches call WritesWithin newDisk (afterCalls oneFile) := by
  obtain ⟨replies, ran⟩ := run_afterCalls oneFile_runs
  exact ⟨oneFile, replies, oneFile_within, ran⟩

set_option maxRecDepth 100000 in
private theorem oneFile_state :
    (afterCalls oneFile).Present 0 ∧ (afterCalls oneFile).nameOf 0 = nameA.1 ∧
      (∀ j < maxFileDescriptors, ((afterCalls oneFile).openFileDescriptors j).isUsed = false) ∧
      (afterCalls oneFile).inodeOf 0 = 0 ∧ (afterCalls oneFile).fileType 0 = 1 := by
  unfold State.Present
  decide

private theorem oneFile_closed : ∀ j < maxFileDescriptors,
    ((afterCalls oneFile).openFileDescriptors j).isUsed = true →
      ((afterCalls oneFile).openFileDescriptors j).inodeNumber ≠
        ((afterCalls oneFile).directory 0).inodeNumber.toInt := by
  obtain ⟨-, -, closed, -, -⟩ := oneFile_state
  intro j inRange isUsed
  exact absurd ((closed j inRange).symm.trans isUsed) (by decide)

theorem delete_never_reclaims_oneFile :
    (fsDelete (afterCalls oneFile) (fun _ => 0) nameA).1 = 0 ∧
      ¬ Reclaimed (afterCalls oneFile) (fsDelete (afterCalls oneFile) (fun _ => 0) nameA).2 0 := by
  obtain ⟨present, named, -, -, -⟩ := oneFile_state
  exact (delete_never_reclaims newDisk_started oneFile_reached).1 nameA 0 (fun _ => 0) present named
    oneFile_closed

/-- Deleting the only file succeeds and leaves its inode in use. -/
theorem deleted_not_reclaimed :
    Started "disk" newDisk ∧ Machine.Reaches call WritesWithin newDisk (afterCalls oneFile) ∧
    (afterCalls oneFile).Present 0 ∧ (afterCalls oneFile).nameOf 0 = nameA.1 ∧
    (fsDelete (afterCalls oneFile) (fun _ => 0) nameA).1 = 0 ∧
    ¬ Reclaimed (afterCalls oneFile) (fsDelete (afterCalls oneFile) (fun _ => 0) nameA).2 0 := by
  obtain ⟨present, named, -, inode, typed⟩ := oneFile_state
  obtain ⟨aligned, mounted⟩ := newDisk_started.aligned oneFile_reached
  have deletes := aligned.deletes mounted present named oneFile_closed
  refine ⟨newDisk_started, oneFile_reached, present, named, ?_⟩
  rw [deletes.fsDelete_eq]
  refine ⟨rfl, fun reclaimed => ?_⟩
  have freed := reclaimed.2
  rw [State.fileType, deleted_inodeTable, inode] at freed
  exact absurd (typed.symm.trans freed) (by decide)

end OneFile

end OperatingSys.FileSystem
