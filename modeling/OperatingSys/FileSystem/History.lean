import OperatingSys.FileSystem.Calls
import Mathlib.Data.Finset.Card
import Mathlib.Data.List.Nodup

/-!
# A new disk in an old process

`make_fs` and `mount_fs` in a process that has worked on other disks before. `mount_fs`
loads the inode table through windows that end in the middle of inode 33, and nothing else
clears it: what lies behind them is still that of the earlier sessions. The new file system
is the same whatever came before, and has room for 64 files, exactly if that part of the
table is the same and marks no inode as used.
-/

namespace OperatingSys.FileSystem

open Search

/-! ### Histories -/

/-- What a process calls: the three functions on whole disks and the file operations. -/
inductive Session where
  | make (diskName : Option String) (past : Past)
  | mount (diskName : Option String)
  | umount (diskName : Option String)
  | file (c : Call)

def session (s : State) : Session → Option (Reply × State)
  | .make diskName past => plain (makeFs s diskName past)
  | .mount diskName => (mountFs s diskName).bind plain
  | .umount diskName => plain (umountFs s diskName)
  | .file c => call s c

/-- The globals that some process has left after any calls, with no disk open. -/
def History (s : State) : Prop :=
  (∃ host, Machine.Reaches session (fun _ _ => True) (State.fresh host) s) ∧ s.disk.active = none

/-- `make_fs(d)` and `mount_fs(d)` succeed after a history that ended with `s`, and lead to `t`. -/
structure Restart (d : String) (s t : State) : Prop where
  history : History s
  started : ∃ past s', makeFs s (some d) past = (0, s') ∧ mountFs s' (some d) = some (0, t)

/-- The globals of `s` and `t` agree: directory, inodes, bitmap, descriptors, superblock. -/
structure SameGlobals (s t : State) : Prop where
  directory : ∀ e < maxNumOfFiles, t.directory e = s.directory e
  inodeTable : ∀ w < inodeTableWords, t.inodeTable w = s.inodeTable w
  usedBlockBitmap : ∀ i < bitmapBytes, t.usedBlockBitmap i = s.usedBlockBitmap i
  descriptors : ∀ j < maxFileDescriptors, t.openFileDescriptors j = s.openFileDescriptors j
  superblock : t.superblock = s.superblock

/-- Any 64 different names that `fs_create` takes can be created one after the other. -/
def RoomForAll (s : State) : Prop :=
  ∀ names : List CString, names.Nodup → names.length = maxNumOfFiles →
    (∀ name ∈ names, 0 < strlen name ∧ strlen name ≤ maxFileName) →
    ∃ t, Machine.run call s (names.map .create) =
      some (List.replicate maxNumOfFiles (0, []), t)

/-- An empty file system: no file, no block and no descriptor in use, and room for 64 files. -/
structure EmptyDisk (s : State) : Prop where
  noFile : ∀ e < maxNumOfFiles, (s.directory e).isUsed = false
  noBlock : ∀ b < totalBlocks, getBit s.usedBlockBitmap b = false
  noDescriptor : ∀ j < maxFileDescriptors, (s.openFileDescriptors j).isUsed = false
  room : RoomForAll s

/-- What `make_fs` and `mount_fs` do not load: the words behind the last window. -/
def SameTail (s t : State) : Prop :=
  ∀ w, savedWords ≤ w → w < inodeTableWords → t.inodeTable w = s.inodeTable w

/-- No inode behind the last window is marked as used. -/
def TailUnused (s : State) : Prop := ∀ i, 34 ≤ i → i < maxNumOfFiles → s.fileType i = 0

/-! ### What `make_fs` and `mount_fs` leave -/

theorem Restart.restarted {d : String} {s t : State} (restart : Restart d s t) :
    Restarted d s t := by
  obtain ⟨past, s', made, mount⟩ := restart.started
  obtain ⟨s₁, t', made', mount', restarted⟩ := restarted_exists d past restart.history.2
  have first : s' = s₁ := by
    rw [made] at made'
    exact (Prod.mk.inj made').2
  subst first
  have second : t = t' := by
    rw [mount] at mount'
    exact (Prod.mk.inj (Option.some.inj mount')).2
  exact second ▸ restarted

section Restarted

variable {d : String} {s t : State}

theorem Restarted.getBit_false (restarted : Restarted d s t) {b : Nat} (below : b < totalBlocks) :
    getBit t.usedBlockBitmap b = false := by
  have inside : b / 8 < bitmapBytes := by
    simp only [bitmapBytes, totalBlocks] at *
    omega
  rw [getBit, restarted.bitmap, if_pos inside]
  simp

/-- Two restarts lead to the same globals exactly if what they do not load is the same. -/
theorem Restarted.sameGlobals_iff {s' t' : State} (first : Restarted d s t)
    (second : Restarted d s' t') : SameGlobals t t' ↔ SameTail s s' := by
  constructor
  · intro same w above below
    rw [← first.otherWord w above, ← second.otherWord w above]
    exact same.inodeTable w below
  · intro tail
    refine ⟨fun e below => ?_, fun w below => ?_, fun i below => ?_, fun j below => ?_, ?_⟩
    · rw [first.entry e below, second.entry e below]
    · by_cases saved : w < savedWords
      · rw [first.savedWord w saved, second.savedWord w saved]
      · have above : savedWords ≤ w := by omega
        rw [first.otherWord w above, second.otherWord w above]
        exact tail w above below
    · rw [first.bitmap, second.bitmap, if_pos below, if_pos below]
    · rw [first.descriptor j below, second.descriptor j below]
    · rw [first.superblock, second.superblock]

theorem Restarted.untyped_iff (restarted : Restarted d s t) :
    (∀ i < maxNumOfFiles, t.fileType i = 0) ↔ TailUnused s := by
  constructor
  · intro untyped i lower below
    have above : savedWords ≤ fileTypeAddr i := by
      simp only [savedWords, fileTypeAddr, inodeWords]
      omega
    rw [State.fileType, ← restarted.otherWord _ above]
    exact untyped i below
  · intro unused i below
    by_cases saved : fileTypeAddr i < savedWords
    · exact restarted.savedWord _ saved
    · have above : savedWords ≤ fileTypeAddr i := by omega
      have late : 34 ≤ i := by
        simp only [savedWords, fileTypeAddr, inodeWords] at above
        omega
      rw [State.fileType, restarted.otherWord _ above]
      exact unused i late below

/-- An inode table without used inodes and an empty directory are a catalogue of no files. -/
theorem Restarted.catalogue (restarted : Restarted d s t)
    (untyped : ∀ i < maxNumOfFiles, t.fileType i = 0) (nm : Nat → CString) :
    Catalogue nm 0 t where
  mounted := by
    rw [restarted.openDiskFd]
    decide
  bound := Nat.zero_le _
  isUsed := fun e below => by simp [restarted.entry e below]
  number := fun e below => absurd below (Nat.not_lt_zero e)
  untyped := fun i below => iff_of_true (untyped i below) (Nat.zero_le i)
  named := fun e below => absurd below (Nat.not_lt_zero e)
  short := fun e below => absurd below (Nat.not_lt_zero e)
  different := fun e below => absurd below (Nat.not_lt_zero e)

end Restarted

/-! ### Room for 64 files -/

/-- Creating new files one after the other, as long as there is room. -/
theorem Catalogue.createAll {nm : Nat → CString} {m : Nat} {s : State}
    (catalogue : Catalogue nm m s) (names : List CString) (nodup : names.Nodup)
    (valid : ∀ name ∈ names, 0 < strlen name ∧ strlen name ≤ maxFileName)
    (new : ∀ e < m, nm e ∉ names) (room : m + names.length ≤ maxNumOfFiles) :
    ∃ nm' t, Machine.run call s (names.map .create) =
        some (List.replicate names.length (0, []), t) ∧
      Catalogue nm' (m + names.length) t ∧ t.superblock = s.superblock ∧ t.disk = s.disk ∧
      ∀ w, fileTypeAddr (m + names.length) ≤ w → t.inodeTable w = s.inodeTable w := by
  induction names generalizing nm m s with
  | nil => exact ⟨nm, s, rfl, catalogue, rfl, rfl, fun _ _ => rfl⟩
  | cons name rest ih =>
    rw [List.length_cons] at room
    obtain ⟨positive, fits⟩ := valid name (by simp)
    obtain ⟨absent, nodup'⟩ := List.nodup_cons.mp nodup
    have new' : ∀ e < m, nm e ≠ name := fun e below same => new e below (by simp [same])
    have created := catalogue.fsCreate_eq (by omega) fits new'
    rw [if_pos (by omega)] at created
    -- the names still to come are none of the old ones and not the one just created
    have later : ∀ e < m + 1, Function.update nm m name e ∉ rest := by
      intro e below
      rw [Function.update_apply]
      split
      · exact absent
      next other => exact fun member => new e (by omega) (List.mem_cons_of_mem _ member)
    obtain ⟨nm', t, ran, catalogue', superblock, disk, words⟩ :=
      ih (created_catalogue catalogue fits new' (by omega)) nodup'
        (fun name' member => valid name' (List.mem_cons_of_mem _ member)) later (by omega)
    refine ⟨nm', t, ?_, ?_, superblock, disk, fun w above => ?_⟩
    · simp only [List.map_cons, Machine.run, call, plain, created, ran, List.length_cons,
        List.replicate_succ]
    · rw [List.length_cons, Nat.add_comm rest.length 1, ← Nat.add_assoc]
      exact catalogue'
    · have outside : w ≠ fileTypeAddr m ∧ ¬ w < fileTypeAddr m + inodeWords := by
        simp only [fileTypeAddr, inodeWords, List.length_cons] at above ⊢
        omega
      rw [words w (by rwa [Nat.add_assoc, Nat.add_comm 1])]
      simp only [State.created, State.storeEntry, State.initInode, outside, and_false, if_false]

/-- The inodes that are marked as used. -/
def State.typedInodes (s : State) : Finset Nat :=
  (Finset.range maxNumOfFiles).filter fun i => s.fileType i ≠ 0

theorem State.typedInodes_card_le (s : State) : s.typedInodes.card ≤ maxNumOfFiles := by
  have subset := Finset.card_filter_le (Finset.range maxNumOfFiles) fun i => s.fileType i ≠ 0
  rwa [Finset.card_range] at subset

/-- A file that is created marks one more inode. -/
theorem fsCreate_typedInodes {s : State} {name : CString} (created : (fsCreate s name).1 = 0) :
    (fsCreate s name).2.typedInodes.card = s.typedInodes.card + 1 := by
  by_cases creates : Creates s name
  · rw [creates.fsCreate_eq] at created ⊢
    split at created
    · simp at created
    next inode free =>
      obtain ⟨below, untyped, -⟩ := firstIndex_eq_some.mp free
      split at created
      · simp at created
      next e found =>
        have marked : ∀ entry, State.typedInodes ((s.initInode inode).storeEntry e entry) =
            insert inode s.typedInodes := by
          intro entry
          ext i
          have type_ : State.fileType ((s.initInode inode).storeEntry e entry) i =
              (s.initInode inode).fileType i := rfl
          rw [State.typedInodes, Finset.mem_filter, type_, State.initInode_fileType,
            Finset.mem_insert, State.typedInodes, Finset.mem_filter]
          by_cases same : i = inode
          · simp [same, below]
          · simp [same]
        have absent : inode ∉ s.typedInodes := by
          simp only [State.typedInodes, Finset.mem_filter, not_and, not_not]
          exact fun _ => of_decide_eq_true untyped
        simp only [marked]
        exact Finset.card_insert_of_notMem absent
  · rw [fsCreate_refused creates] at created
    simp at created

/-- `n` files that are created mark `n` more inodes. -/
theorem createAll_typedInodes {s t : State} {names : List CString}
    (ran : Machine.run call s (names.map .create) =
      some (List.replicate names.length (0, []), t)) :
    t.typedInodes.card = s.typedInodes.card + names.length := by
  induction names generalizing s with
  | nil =>
    simp only [List.map_nil, Machine.run, Option.some.injEq, Prod.mk.injEq] at ran
    rw [ran.2]
    rfl
  | cons name rest ih =>
    obtain ⟨reply, s', replies, created, tail, outputs⟩ := Machine.run_cons_eq_some ran
    simp only [List.length_cons, List.replicate_succ, List.cons.injEq] at outputs
    obtain ⟨rfl, rfl⟩ := outputs
    simp only [call, plain, Option.some.injEq, Prod.mk.injEq] at created
    obtain ⟨⟨zero, -⟩, rfl⟩ := created
    rw [ih tail, fsCreate_typedInodes zero, List.length_cons]
    omega

/-- 64 names of one character. -/
def numbered (k : Fin maxNumOfFiles) : CString :=
  letter (BitVec.ofNat 8 (k + 1)) (by revert k; decide)

def allNumbered : List CString := (List.finRange maxNumOfFiles).map numbered

theorem allNumbered_nodup : allNumbered.Nodup := by decide

theorem allNumbered_valid :
    ∀ name ∈ allNumbered, 0 < strlen name ∧ strlen name ≤ maxFileName := by decide

/-- With an empty directory there is room for 64 files exactly if no inode is in use. -/
theorem Restarted.room_iff {d : String} {s t : State} (restarted : Restarted d s t) :
    RoomForAll t ↔ ∀ i < maxNumOfFiles, t.fileType i = 0 := by
  constructor
  · intro room i below
    -- each of the 64 files takes an inode of its own
    obtain ⟨u, ran⟩ := room allNumbered allNumbered_nodup rfl allNumbered_valid
    have length : allNumbered.length = maxNumOfFiles := rfl
    rw [← length] at ran
    have total := createAll_typedInodes ran
    have bound := u.typedInodes_card_le
    have empty : t.typedInodes = ∅ := Finset.card_eq_zero.mp (by omega)
    by_contra typed
    have member : i ∈ t.typedInodes := Finset.mem_filter.mpr ⟨Finset.mem_range.mpr below, typed⟩
    simp [empty] at member
  · intro untyped names nodup length valid
    obtain ⟨-, u, ran, -⟩ := (restarted.catalogue untyped fun _ => nameA).createAll names nodup
      valid (fun e below => absurd below (Nat.not_lt_zero e)) (by omega)
    rw [length] at ran
    exact ⟨u, ran⟩

theorem Restarted.emptyDisk_iff {d : String} {s t : State} (restarted : Restarted d s t) :
    EmptyDisk t ↔ TailUnused s := by
  rw [← restarted.untyped_iff, ← restarted.room_iff]
  constructor
  · exact EmptyDisk.room
  · intro room
    exact {
      noFile := fun e below => by rw [restarted.entry e below]
      noBlock := fun b below => restarted.getBit_false below
      noDescriptor := fun j below => by rw [restarted.descriptor j below]
      room := room }

/-- **A new disk and what came before it.** After any two histories, `make_fs(d)` and
`mount_fs(d)` lead to the same globals and to an empty file system with room for 64 files
exactly if the words of the inode table behind the last window were the same before, and
marked none of the inodes 34 to 63 as used. -/
theorem restart_independent_iff {d : String} {s s' t t' : State} (first : Restart d s t)
    (second : Restart d s' t') :
    SameGlobals t t' ∧ EmptyDisk t ∧ EmptyDisk t' ↔
      SameTail s s' ∧ TailUnused s ∧ TailUnused s' := by
  rw [first.restarted.sameGlobals_iff second.restarted, first.restarted.emptyDisk_iff,
    second.restarted.emptyDisk_iff]

/-! ### Sessions -/

/-- File operations within a session. -/
theorem run_session_file {s t : State} {calls : List Call} {replies : List Reply}
    (ran : Machine.run call s calls = some (replies, t)) :
    Machine.run session s (calls.map .file) = some (replies, t) := by
  induction calls generalizing s replies with
  | nil => exact ran
  | cons c rest ih =>
    obtain ⟨reply, next, replies', stepped, tail, rfl⟩ := Machine.run_cons_eq_some ran
    simp only [List.map_cons, Machine.run, session, stepped, ih tail]

/-- `make_fs`, `mount_fs`, some files created, `umount_fs`. -/
def filesSession (names : List CString) : List Session :=
  [.make (some "disk") ⟨fun _ => 0, fun _ => 0⟩, .mount (some "disk")] ++
    (names.map Call.create).map .file ++ [.umount (some "disk")]

/-- A process on a machine without files. -/
def firstProcess : State := State.fresh ⟨fun _ => none, none⟩

/-- A session that creates `n` files leaves the first `n` inodes marked in memory. -/
theorem filesSession_runs (names : List CString) (nodup : names.Nodup)
    (valid : ∀ name ∈ names, 0 < strlen name ∧ strlen name ≤ maxFileName)
    (few : names.length ≤ maxNumOfFiles) :
    ∃ replies s, Machine.run session firstProcess (filesSession names) = some (replies, s) ∧
      s.disk.active = none ∧ (∀ i < maxNumOfFiles, s.fileType i = 0 ↔ names.length ≤ i) ∧
      ∀ w, fileTypeAddr names.length ≤ w → s.inodeTable w = 0 := by
  obtain ⟨s₁, s₂, made, mount, fresh⟩ :=
    started_exists "disk" ⟨fun _ => none, none⟩ ⟨fun _ => 0, fun _ => 0⟩
  obtain ⟨nm, s₃, ran, catalogue, superblock, disk, words⟩ :=
    (fresh.consistent fun _ => nameA).catalogue.createAll names nodup valid
      (fun e below => absurd below (Nat.not_lt_zero e)) (by omega)
  rw [Nat.zero_add] at catalogue words
  have layout : Layout s₃.superblock := by
    rw [superblock, fresh.superblock]
    exact freshLayout
  obtain ⟨img, file, -⟩ := fresh.image
  have opened : Machine.run session firstProcess
      [.make (some "disk") ⟨fun _ => 0, fun _ => 0⟩, .mount (some "disk")] =
      some ([(0, []), (0, [])], s₂) := by
    simp only [Machine.run, session, plain, firstProcess, made, mount, Option.bind_some]
  have closed : Machine.run session s₃ [.umount (some "disk")] =
      some ([((umountFs s₃ (some "disk")).1, [])], (umountFs s₃ (some "disk")).2) := rfl
  rw [umountFs_eq layout (by rw [disk, fresh.active]) (by rw [disk, file])] at closed
  refine ⟨_, _, Machine.run_append (Machine.run_append opened (run_session_file ran)) closed, rfl,
    catalogue.untyped, fun w above => ?_⟩
  exact (words w above).trans (fresh.word w)

/-- After any session that has ended, a new disk can be made and mounted. -/
theorem restart_exists {s : State} {calls : List Session} {replies : List Reply}
    (ran : Machine.run session firstProcess calls = some (replies, s))
    (closed : s.disk.active = none) (d : String) : ∃ t, Restart d s t := by
  obtain ⟨s', t, made, mount, -⟩ := restarted_exists d ⟨fun _ => 0, fun _ => 0⟩ closed
  exact ⟨t, ⟨⟨_, calls, replies, Machine.admits_true calls, ran⟩, closed⟩, _, s', made, mount⟩

/-- A process that has had two files before, and a new one. -/
theorem restart_independent_iff_two :
    ∃ replies s t t', Machine.run session firstProcess (filesSession [nameA, nameB]) =
        some (replies, s) ∧
      Restart "disk" firstProcess t ∧ Restart "disk" s t' ∧
      SameGlobals t t' ∧ EmptyDisk t ∧ EmptyDisk t' := by
  obtain ⟨replies, s, ran, closed, types, words⟩ :=
    filesSession_runs [nameA, nameB] (by decide) (by decide) (by decide)
  have nothing : Machine.run session firstProcess [] = some ([], firstProcess) := rfl
  obtain ⟨t, first⟩ := restart_exists nothing rfl "disk"
  obtain ⟨t', second⟩ := restart_exists ran closed "disk"
  refine ⟨replies, s, t, t', ran, first, second, (restart_independent_iff first second).mpr
    ⟨fun w above _ => ?_, fun i _ _ => rfl, fun i late below => (types i below).mpr ?_⟩⟩
  · exact words w (Nat.le_trans (by decide) above)
  · exact Nat.le_trans (by decide) late

/-- A process that has had 35 files before finds inode 34 in use on the new disk. -/
theorem restart_remembers :
    ∃ replies s t t', Machine.run session firstProcess (filesSession (allNumbered.take 35)) =
        some (replies, s) ∧
      Restart "disk" firstProcess t ∧ Restart "disk" s t' ∧
      t.fileType 34 = 0 ∧ t'.fileType 34 ≠ 0 ∧
      ¬ (SameGlobals t t' ∧ EmptyDisk t ∧ EmptyDisk t') := by
  obtain ⟨replies, s, ran, closed, types, -⟩ :=
    filesSession_runs (allNumbered.take 35) (by decide) (by decide) (by decide)
  have nothing : Machine.run session firstProcess [] = some ([], firstProcess) := rfl
  obtain ⟨t, first⟩ := restart_exists nothing rfl "disk"
  obtain ⟨t', second⟩ := restart_exists ran closed "disk"
  have new : t.fileType 34 = 0 := first.restarted.otherWord _ (by decide)
  have old : t'.fileType 34 ≠ 0 := by
    rw [State.fileType, second.restarted.otherWord _ (by decide)]
    exact (types 34 (by decide)).not.mpr (by decide)
  refine ⟨replies, s, t, t', ran, first, second, new, old, fun both => old ?_⟩
  exact (both.1.inodeTable _ (by decide)).trans new

end OperatingSys.FileSystem
