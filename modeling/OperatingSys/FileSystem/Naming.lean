import OperatingSys.FileSystem.Confined
import OperatingSys.FileSystem.Lookup

/-!
# Names

Each entry of the directory is recorded with the string that `fs_create` was given for it. The
string fits its field of 15 characters, so that it is stored in full, and different entries have
different strings. `fs_open` and `fs_delete` compare only the first 15 characters of what they
are given and do not look at its length: they take a longer string for its first 15 characters.
-/

namespace OperatingSys.FileSystem

open Search

/-- The globals and, for each entry in use, the string with which it was created. -/
structure Named where
  globals : State
  createdAs : Nat → Option CString

/-- An entry that a call has taken into use has the name of the call, and one that it has given
back has none. -/
def recordName (c : Call) (s t : State) (createdAs : Nat → Option CString) (e : Nat) :
    Option CString :=
  if !(t.directory e).isUsed then none
  else if (s.directory e).isUsed then createdAs e
  else
    match c with
    | .create name => some name
    | _ => none

def namedCall (n : Named) (c : Call) : Option (Reply × Named) :=
  (call n.globals c).map fun r => (r.1, ⟨r.2, recordName c n.globals r.2 n.createdAs⟩)

/-- No entry is in use yet. -/
def Named.start (s : State) : Named := ⟨s, fun _ => none⟩

/-- Recording the names changes nothing else. -/
theorem run_namedCall {n : Named} {calls : List Call} {replies : List Reply} {t : State}
    (ran : Machine.run call n.globals calls = some (replies, t)) :
    ∃ createdAs, Machine.run namedCall n calls = some (replies, ⟨t, createdAs⟩) := by
  induction calls generalizing n replies with
  | nil =>
    simp only [Machine.run, Option.some.injEq, Prod.mk.injEq] at ran
    obtain ⟨rfl, rfl⟩ := ran
    exact ⟨n.createdAs, rfl⟩
  | cons c rest ih =>
    obtain ⟨reply, s', replies', called, tail, rfl⟩ := Machine.run_cons_eq_some ran
    obtain ⟨createdAs, ran'⟩ := ih (n := ⟨s', recordName c n.globals s' n.createdAs⟩) tail
    refine ⟨createdAs, ?_⟩
    simp only [Machine.run, namedCall, called, Option.map_some, ran']

/-! ### What a call does to the directory -/

structure SameDirectory (s t : State) : Prop where
  directory : t.directory = s.directory
  openDiskFd : t.openDiskFd = s.openDiskFd

/-- `fs_create` fills the unused entry `e`. -/
structure FillsEntry (s t : State) (name : CString) (e : Nat) : Prop where
  creates : Creates s name
  inRange : e < maxNumOfFiles
  unused : (s.directory e).isUsed = false
  openDiskFd : t.openDiskFd = s.openDiskFd
  directory : ∃ inode, t.directory =
    Function.update s.directory e { isUsed := true, inodeNumber := inode, name := strncpy name }

/-- `fs_delete` clears the entry `e`. -/
structure ClearsEntry (s t : State) (name : CString) (e : Nat) : Prop where
  deletes : Deletes s name e
  openDiskFd : t.openDiskFd = s.openDiskFd
  directory : t.directory =
    Function.update s.directory e { isUsed := false, inodeNumber := 0, name := fun _ => 0 }

section Directory

variable {s t : State}

theorem DescriptorStep.sameDirectory (step : DescriptorStep s t) : SameDirectory s t := by
  rcases step with rfl | ⟨j, fd, -, rfl⟩
  · exact ⟨rfl, rfl⟩
  · exact ⟨rfl, rfl⟩

theorem fsTruncate_sameDirectory (s : State) (fildes length : Int) :
    SameDirectory s (fsTruncate s fildes length).2 := by
  rcases fsTruncate_step s fildes length with same | ⟨i, v, j, fd, -, set⟩
  · rw [same]
    exact ⟨rfl, rfl⟩
  · rw [set]
    exact ⟨rfl, rfl⟩

theorem fsWriteRound_sameDirectory {f i k off : Nat} {data : List Byte} {ended : Bool}
    (start : s.superblock.usedBlockBitmapOffset.toNat < totalBlocks)
    (round : fsWriteRound s f i k off data = some (ended, t)) : SameDirectory s t := by
  have kept : ∀ u, Prepared s i k u → SameDirectory s u := by
    rintro u (⟨-, rfl⟩ | ⟨-, b, -, rfl⟩)
    · exact ⟨rfl, rfl⟩
    · exact ⟨rfl, rfl⟩
  rcases fsWriteRound_cases start round with
    ⟨-, rfl | unfinished⟩ | ⟨-, u, buf, disk, ready, -, rfl⟩
  · exact ⟨rfl, rfl⟩
  · exact kept t unfinished
  · obtain ⟨directory, openDiskFd⟩ := kept u ready
    unfold State.advance
    dsimp only
    split
    · exact ⟨directory, openDiskFd⟩
    · exact ⟨directory, openDiskFd⟩

theorem fsWrite_sameDirectory {fildes : Int} {data : List Byte} {r : Int}
    (confined : Confined tableLimit s) (wrote : fsWrite s fildes data = some (r, t)) :
    SameDirectory s t := by
  have kept := fsWrite_keeps (P := fun u => Confined tableLimit u ∧ SameDirectory s u)
    (fun f i u u' k off data ended _ _ holds start round => by
      refine ⟨holds.1.round start round, ?_⟩
      have step := fsWriteRound_sameDirectory (by rw [holds.1.start]; decide) round
      exact ⟨step.directory.trans holds.2.directory, step.openDiskFd.trans holds.2.openDiskFd⟩)
    wrote ⟨confined, rfl, rfl⟩
  exact kept.2

theorem fsCreate_directory (s : State) (name : CString) :
    SameDirectory s (fsCreate s name).2 ∨ ∃ e, FillsEntry s (fsCreate s name).2 name e := by
  by_cases creates : Creates s name
  · rcases fsCreate_cases s name with same | ⟨inode, -, -, ⟨-, filled⟩ | ⟨e, inRange, unused, filled⟩⟩
    · rw [same]
      exact Or.inl ⟨rfl, rfl⟩
    · rw [filled]
      exact Or.inl ⟨rfl, rfl⟩
    · rw [filled]
      exact Or.inr ⟨e, creates, inRange, unused, rfl, _, rfl⟩
  · rw [fsCreate_refused creates]
    exact Or.inl ⟨rfl, rfl⟩

/-- All that a call can do to the directory. -/
theorem call_directory {c : Call} {r : Reply} (confined : Confined tableLimit s)
    (called : call s c = some (r, t)) :
    SameDirectory s t ∨ (∃ name e, c = .create name ∧ FillsEntry s t name e) ∨
      ∃ name beyond e, c = .delete name beyond ∧ ClearsEntry s t name e := by
  have leads := leads_of_call called
  cases c with
  | create name =>
    obtain rfl := leads
    rcases fsCreate_directory s name with same | ⟨e, fills⟩
    · exact Or.inl same
    · exact Or.inr (Or.inl ⟨name, e, rfl, fills⟩)
  | «open» name =>
    obtain rfl := leads
    exact Or.inl (fsOpen_step s name).sameDirectory
  | close fildes =>
    obtain rfl := leads
    exact Or.inl (fsClose_step s fildes).sameDirectory
  | delete name beyond =>
    obtain rfl := leads
    rcases fsDelete_cases s beyond name with ⟨-, same⟩ | ⟨e, deletes, deleted⟩
    · rw [same]
      exact Or.inl ⟨rfl, rfl⟩
    · rw [deleted]
      refine Or.inr (Or.inr ⟨name, beyond, e, rfl, deletes, ?_, ?_⟩)
      · simp only [State.deleted]
      · simp only [State.deleted]
  | read fildes nbyte =>
    obtain ⟨r', bytes, read⟩ := leads
    exact Or.inl (fsRead_step read).descriptorStep.sameDirectory
  | write fildes data =>
    obtain ⟨r', wrote⟩ := leads
    exact Or.inl (fsWrite_sameDirectory confined wrote)
  | lseek fildes offset =>
    obtain rfl := leads
    exact Or.inl (fsLseek_step s fildes offset.toInt).descriptorStep.sameDirectory
  | truncate fildes length =>
    obtain rfl := leads
    exact Or.inl (fsTruncate_sameDirectory s fildes length.toInt)
  | getFilesize fildes =>
    obtain rfl := leads
    exact Or.inl ⟨rfl, rfl⟩

end Directory

/-! ### What the entries hold -/

/-- An entry in use holds all of the string it was created with, and an unused one is
cleared. -/
def Holds (entry : DirEntry) : Option CString → Prop
  | none => entry.isUsed = false ∧ entry.name = fun _ => 0
  | some name => entry.isUsed = true ∧ strlen name ≠ 0 ∧ strlen name ≤ maxFileName ∧
      entry.name = strncpy name

/-- No string was used for two entries. -/
structure Recorded (n : Named) : Prop where
  confined : Confined tableLimit n.globals
  mounted : n.globals.openDiskFd ≠ -1
  holds : ∀ e < maxNumOfFiles, Holds (n.globals.directory e) (n.createdAs e)
  single : ∀ e < maxNumOfFiles, ∀ e' < maxNumOfFiles, ∀ name, n.createdAs e = some name →
    n.createdAs e' = some name → e = e'

theorem Fresh.recorded {d : String} {s : State} (fresh : Fresh d s) : Recorded (Named.start s) where
  confined := fresh.confined _
  mounted := by
    rw [Named.start, fresh.openDiskFd]
    decide
  holds := fun e inRange => by
    rw [Named.start, fresh.entry e inRange]
    exact ⟨rfl, rfl⟩
  single := fun e _ e' _ name created => by simp [Named.start] at created

section Recorded

variable {n : Named}

theorem Recorded.isUsed_iff (recorded : Recorded n) {e : Nat} (inRange : e < maxNumOfFiles) :
    (n.globals.directory e).isUsed = true ↔ ∃ name, n.createdAs e = some name := by
  have holds := recorded.holds e inRange
  cases created : n.createdAs e with
  | none =>
    rw [created] at holds
    simp [holds.1]
  | some name =>
    rw [created] at holds
    simp [holds.1]

/-- A search finds the entry that was created with the first 15 characters of what it is given. -/
theorem Recorded.matches_iff (recorded : Recorded n) {e : Nat} (inRange : e < maxNumOfFiles)
    (name : CString) :
    ((n.globals.directory e).isUsed = true ∧
      strncmp (List.ofFn (n.globals.directory e).name) name.1 maxFileName = 0) ↔
      ∃ stored, n.createdAs e = some stored ∧ stored.1 = name.1.take maxFileName := by
  have holds := recorded.holds e inRange
  cases created : n.createdAs e with
  | none =>
    rw [created] at holds
    simp [holds.1]
  | some stored =>
    rw [created] at holds
    obtain ⟨isUsed, -, short, field⟩ := holds
    rw [field, stored_matches, List.take_of_length_le short]
    simp [isUsed]

/-- What is recorded of an entry that a call leaves as it is. -/
theorem Recorded.recordName_eq (recorded : Recorded n) {c : Call} {t : State} {e : Nat}
    (inRange : e < maxNumOfFiles) (same : t.directory e = n.globals.directory e) :
    recordName c n.globals t n.createdAs e = n.createdAs e := by
  have holds := recorded.holds e inRange
  simp only [recordName, same]
  cases created : n.createdAs e with
  | none =>
    rw [created] at holds
    simp [holds.1]
  | some name =>
    rw [created] at holds
    simp [holds.1]

theorem Recorded.same (recorded : Recorded n) {c : Call} {t : State}
    (confined : Confined tableLimit t) (same : SameDirectory n.globals t) :
    Recorded ⟨t, recordName c n.globals t n.createdAs⟩ := by
  have names : ∀ e < maxNumOfFiles, recordName c n.globals t n.createdAs e = n.createdAs e :=
    fun e inRange => recorded.recordName_eq inRange (congrFun same.directory e)
  refine ⟨confined, ?_, fun e inRange => ?_, fun e inRange e' inRange' name created created' => ?_⟩
  · rw [same.openDiskFd]
    exact recorded.mounted
  · dsimp only
    rw [same.directory, names e inRange]
    exact recorded.holds e inRange
  · dsimp only at created created'
    rw [names e inRange] at created
    rw [names e' inRange'] at created'
    exact recorded.single e inRange e' inRange' name created created'

theorem Recorded.create (recorded : Recorded n) {name : CString} {t : State} {e : Nat}
    (confined : Confined tableLimit t) (fills : FillsEntry n.globals t name e) :
    Recorded ⟨t, recordName (.create name) n.globals t n.createdAs⟩ := by
  obtain ⟨inode, directory⟩ := fills.directory
  have names : ∀ e' < maxNumOfFiles, recordName (.create name) n.globals t n.createdAs e' =
      if e' = e then some name else n.createdAs e' := by
    intro e' inRange
    split
    next here =>
      rw [here]
      simp [recordName, directory, fills.unused]
    next other =>
      exact recorded.recordName_eq inRange (by rw [directory, Function.update_of_ne other])
  -- the new name is not among the old ones
  have new : ∀ e' < maxNumOfFiles, n.createdAs e' ≠ some name := by
    intro e' inRange created
    obtain ⟨isUsed, hit⟩ := (recorded.matches_iff inRange name).mpr
      ⟨name, created, (List.take_of_length_le fills.creates.short).symm⟩
    exact fills.creates.new e' inRange isUsed hit
  refine ⟨confined, ?_, fun e' inRange => ?_,
    fun e₁ inRange₁ e₂ inRange₂ name' created₁ created₂ => ?_⟩
  · rw [fills.openDiskFd]
    exact recorded.mounted
  · dsimp only
    rw [directory, Function.update_apply, names e' inRange]
    split
    · exact ⟨rfl, fills.creates.nonempty, fills.creates.short, rfl⟩
    · exact recorded.holds e' inRange
  · dsimp only at created₁ created₂
    rw [names e₁ inRange₁] at created₁
    rw [names e₂ inRange₂] at created₂
    split at created₁
    next here₁ =>
      rw [Option.some.injEq] at created₁
      split at created₂
      next here₂ => exact here₁.trans here₂.symm
      next => exact absurd (created₁ ▸ created₂) (new e₂ inRange₂)
    next =>
      split at created₂
      next here₂ =>
        rw [Option.some.injEq] at created₂
        exact absurd (created₂ ▸ created₁) (new e₁ inRange₁)
      next => exact recorded.single e₁ inRange₁ e₂ inRange₂ name' created₁ created₂

theorem Recorded.delete (recorded : Recorded n) {c : Call} {name : CString} {t : State} {e : Nat}
    (confined : Confined tableLimit t) (clears : ClearsEntry n.globals t name e) :
    Recorded ⟨t, recordName c n.globals t n.createdAs⟩ := by
  have directory := clears.directory
  have names : ∀ e' < maxNumOfFiles, recordName c n.globals t n.createdAs e' =
      if e' = e then none else n.createdAs e' := by
    intro e' inRange
    split
    next here =>
      rw [here]
      simp [recordName, directory]
    next other =>
      exact recorded.recordName_eq inRange (by rw [directory, Function.update_of_ne other])
  refine ⟨confined, ?_, fun e' inRange => ?_,
    fun e₁ inRange₁ e₂ inRange₂ name' created₁ created₂ => ?_⟩
  · rw [clears.openDiskFd]
    exact recorded.mounted
  · dsimp only
    rw [directory, Function.update_apply, names e' inRange]
    split
    · exact ⟨rfl, rfl⟩
    · exact recorded.holds e' inRange
  · dsimp only at created₁ created₂
    rw [names e₁ inRange₁] at created₁
    rw [names e₂ inRange₂] at created₂
    split at created₁
    · simp at created₁
    · split at created₂
      · simp at created₂
      · exact recorded.single e₁ inRange₁ e₂ inRange₂ name' created₁ created₂

theorem Recorded.call {c : Call} {r : Reply} {n' : Named} (recorded : Recorded n)
    (called : namedCall n c = some (r, n')) : Recorded n' := by
  simp only [namedCall, Option.map_eq_some_iff, Prod.mk.injEq] at called
  obtain ⟨⟨r', t⟩, called', -, rfl⟩ := called
  have confined := recorded.confined.call called'
  rcases call_directory recorded.confined called' with
    same | ⟨name, e, rfl, fills⟩ | ⟨name, beyond, e, rfl, clears⟩
  · exact recorded.same confined same
  · exact recorded.create confined fills
  · exact recorded.delete confined clears

end Recorded

theorem Started.recorded {d : String} {s : State} (started : Started d s) {calls : List Call}
    {replies : List Reply} {n : Named}
    (ran : Machine.run namedCall (Named.start s) calls = some (replies, n)) : Recorded n :=
  Machine.run_invariant Recorded (fun _ _ _ _ recorded _ called => recorded.call called)
    started.fresh.recorded (Machine.admits_true calls) ran

/-! ### Opening and deleting -/

/-- `fs_open(name)` opens and `fs_delete(name)` removes only what was created with this very
string, and if there is no such file both fail and change nothing. -/
structure MatchesInFull (n : Named) (name : CString) : Prop where
  opens : (fsOpen n.globals name).1 ≠ -1 → ∃ e < maxNumOfFiles, n.createdAs e = some name ∧
    ((fsOpen n.globals name).2.openFileDescriptors (fsOpen n.globals name).1.toNat).inodeNumber =
      (n.globals.directory e).inodeNumber.toInt
  deletes : ∀ beyond, ∀ e < maxNumOfFiles, (n.globals.directory e).isUsed = true →
    ((fsDelete n.globals beyond name).2.directory e).isUsed = false → n.createdAs e = some name
  refuses : (∀ e < maxNumOfFiles, n.createdAs e ≠ some name) →
    fsOpen n.globals name = (-1, n.globals) ∧
      ∀ beyond, fsDelete n.globals beyond name = (-1, n.globals)

/-- An open file cannot be deleted, and with all descriptors in use none can be opened. -/
structure Unavailable (n : Named) (e : Nat) : Prop where
  full : ∀ j < maxFileDescriptors, (n.globals.openFileDescriptors j).isUsed = true
  isOpen : ∃ j < maxFileDescriptors, (n.globals.openFileDescriptors j).isUsed = true ∧
    (n.globals.openFileDescriptors j).inodeNumber = (n.globals.directory e).inodeNumber.toInt

/-- The string fits its field, or no file has its first 15 characters as its name, or this file
is not available. -/
def NotCutOff (n : Named) (name : CString) : Prop :=
  strlen name ≤ maxFileName ∨
    ∀ e < maxNumOfFiles, ∀ stored, n.createdAs e = some stored →
      stored.1 = name.1.take maxFileName → Unavailable n e

section Matching

variable {n : Named} {name : CString}

/-- With a file of that name and a free descriptor `fs_open` gets through. -/
theorem opens_exists {s : State} {e j : Nat} (mounted : s.openDiskFd ≠ -1)
    (inRange : e < maxNumOfFiles) (isUsed : (s.directory e).isUsed = true)
    (hit : strncmp (List.ofFn (s.directory e).name) name.1 maxFileName = 0)
    (inTable : j < maxFileDescriptors) (unused : (s.openFileDescriptors j).isUsed = false) :
    ∃ e' j', Opens s name e' j' := by
  have entry : (firstIndex maxNumOfFiles (fun i => (s.directory i).isUsed &&
      decide (strncmp name.1 (List.ofFn (s.directory i).name) maxFileName = 0))).isSome = true :=
    firstIndex_isSome.mpr ⟨e, inRange, by simp [isUsed, (strncmp_comm_zero _ _ _).mp hit]⟩
  have descriptor : (firstIndex maxFileDescriptors
      (fun j => !(s.openFileDescriptors j).isUsed)).isSome = true :=
    firstIndex_isSome.mpr ⟨j, inTable, by simp [unused]⟩
  obtain ⟨e', found⟩ := Option.isSome_iff_exists.mp entry
  obtain ⟨j', free⟩ := Option.isSome_iff_exists.mp descriptor
  exact ⟨e', j', mounted, found, free⟩

/-- The entry that `fs_open` finds. -/
theorem Recorded.opens_entry (recorded : Recorded n) {e j : Nat} (opens : Opens n.globals name e j) :
    e < maxNumOfFiles ∧ ∃ stored, n.createdAs e = some stored ∧
      stored.1 = name.1.take maxFileName := by
  obtain ⟨inRange, hit, -⟩ := firstIndex_eq_some.mp opens.entry
  rw [Bool.and_eq_true, decide_eq_true_eq, strncmp_comm_zero] at hit
  exact ⟨inRange, (recorded.matches_iff inRange name).mp hit⟩

/-- The entry that `fs_delete` finds. -/
theorem Recorded.deletes_entry (recorded : Recorded n) {e : Nat} (deletes : Deletes n.globals name e) :
    ∃ stored, n.createdAs e = some stored ∧ stored.1 = name.1.take maxFileName :=
  (recorded.matches_iff deletes.inRange name).mp ⟨deletes.isUsed, deletes.found⟩

/-- Both calls fail exactly if the file with the first 15 characters is not there or not
available. -/
theorem Recorded.refused_iff (recorded : Recorded n) :
    (fsOpen n.globals name = (-1, n.globals) ∧
      ∀ beyond, fsDelete n.globals beyond name = (-1, n.globals)) ↔
    ∀ e < maxNumOfFiles, ∀ stored, n.createdAs e = some stored →
      stored.1 = name.1.take maxFileName → Unavailable n e := by
  constructor
  · rintro ⟨notOpened, notDeleted⟩ e inRange stored created same
    obtain ⟨isUsed, hit⟩ := (recorded.matches_iff inRange name).mpr ⟨stored, created, same⟩
    constructor
    · intro j inTable
      by_contra unused
      obtain ⟨e', j', opens⟩ := opens_exists recorded.mounted inRange isUsed hit inTable
        (Bool.not_eq_true _ ▸ unused)
      rcases fsOpen_cases n.globals name with ⟨never, -⟩ | ⟨_, j'', -, opened⟩
      · exact never e' j' opens
      · rw [notOpened, Prod.mk.injEq] at opened
        omega
    · by_contra closed
      -- no entry before it matches, since there is only one
      have first : ∀ e' < e, ¬ ((n.globals.directory e').isUsed = true ∧
          strncmp (List.ofFn (n.globals.directory e').name) name.1 maxFileName = 0) := by
        intro e' before hit'
        have inRange' := Nat.lt_trans before inRange
        obtain ⟨stored', created', same'⟩ := (recorded.matches_iff inRange' name).mp hit'
        have equal : stored' = stored := Subtype.ext (same'.trans same.symm)
        have here := recorded.single e' inRange' e inRange stored (equal ▸ created') created
        omega
      have deletes : Deletes n.globals name e := ⟨recorded.mounted, inRange, isUsed, hit, first,
        fun j inTable isOpen => closed ⟨j, inTable, isOpen⟩⟩
      rcases fsDelete_cases n.globals (fun _ => 0) name with ⟨never, -⟩ | ⟨e', -, deleted⟩
      · exact never e deletes
      · rw [notDeleted] at deleted
        simp at deleted
  · intro unavailable
    constructor
    · rcases fsOpen_cases n.globals name with ⟨-, refused⟩ | ⟨e, j, opens, -⟩
      · exact refused
      · obtain ⟨inRange, stored, created, same⟩ := recorded.opens_entry opens
        obtain ⟨inTable, free, -⟩ := firstIndex_eq_some.mp opens.descriptor
        simp [(unavailable e inRange stored created same).full j inTable] at free
    · intro beyond
      rcases fsDelete_cases n.globals beyond name with ⟨-, refused⟩ | ⟨e, deletes, -⟩
      · exact refused
      · obtain ⟨stored, created, same⟩ := recorded.deletes_entry deletes
        obtain ⟨j, inTable, isOpen⟩ :=
          (unavailable e deletes.inRange stored created same).isOpen
        exact absurd isOpen (deletes.notOpen j inTable)

theorem Recorded.matchesInFull_of_short (recorded : Recorded n) (short : strlen name ≤ maxFileName) :
    MatchesInFull n name := by
  have whole : name.1.take maxFileName = name.1 := List.take_of_length_le short
  refine ⟨fun opened => ?_, fun beyond e inRange isUsed removed => ?_, fun absent => ?_⟩
  · rcases fsOpen_cases n.globals name with ⟨-, refused⟩ | ⟨e, j, opens, result⟩
    · rw [refused] at opened
      exact absurd rfl opened
    · obtain ⟨inRange, stored, created, same⟩ := recorded.opens_entry opens
      have equal : stored = name := Subtype.ext (same.trans whole)
      refine ⟨e, inRange, equal ▸ created, ?_⟩
      rw [result]
      simp only [State.storeDescriptor, Int.toNat_natCast, Function.update_self]
  · rcases fsDelete_cases n.globals beyond name with ⟨-, refused⟩ | ⟨e', deletes, deleted⟩
    · rw [refused, isUsed] at removed
      simp at removed
    · have here : e = e' := by
        by_contra other
        rw [deleted] at removed
        simp only [State.deleted, Function.update_of_ne other, isUsed] at removed
        simp at removed
      obtain ⟨stored, created, same⟩ := recorded.deletes_entry deletes
      have equal : stored = name := Subtype.ext (same.trans whole)
      rw [here]
      exact equal ▸ created
  · refine recorded.refused_iff.mpr fun e inRange stored created same => ?_
    have equal : stored = name := Subtype.ext (same.trans whole)
    exact absurd (equal ▸ created) (absent e inRange)

/-- No file has a name that does not fit its field. -/
theorem Recorded.long_absent (recorded : Recorded n) (long : ¬ strlen name ≤ maxFileName) :
    ∀ e < maxNumOfFiles, n.createdAs e ≠ some name := by
  intro e inRange created
  have holds := recorded.holds e inRange
  rw [created] at holds
  exact long holds.2.2.1

end Matching

/-- **Names.** In every state that calls reach on a new disk, whatever they do, `fs_open` and
`fs_delete` match a string in full exactly if it is not cut off at 15 characters. -/
theorem matchesInFull_iff {d : String} {s : State} (started : Started d s) {calls : List Call}
    {replies : List Reply} {n : Named}
    (ran : Machine.run namedCall (Named.start s) calls = some (replies, n)) (name : CString) :
    MatchesInFull n name ↔ NotCutOff n name := by
  have recorded := started.recorded ran
  by_cases short : strlen name ≤ maxFileName
  · exact iff_of_true (recorded.matchesInFull_of_short short) (Or.inl short)
  · have absent := recorded.long_absent short
    constructor
    · intro inFull
      exact Or.inr (recorded.refused_iff.mp (inFull.refuses absent))
    · rintro (short' | unavailable)
      · exact absurd short' short
      · have refused := recorded.refused_iff.mpr unavailable
        refine ⟨fun opened => ?_, fun beyond e inRange isUsed removed => ?_, fun _ => refused⟩
        · rw [refused.1] at opened
          exact absurd rfl opened
        · rw [refused.2 beyond, isUsed] at removed
          simp at removed

/-- The longest name that `fs_create` accepts. -/
def longestName : CString := ⟨List.replicate 15 97#8, by decide⟩

/-- The same name with one more character. -/
def tooLongName : CString := ⟨List.replicate 16 97#8, by decide⟩

set_option maxRecDepth 100000 in
private theorem longestName_created :
    (Machine.run call newDisk [.create longestName]).isSome = true ∧
      (fsOpen (afterCalls [.create longestName]) longestName).1 = 0 ∧
      (fsOpen (afterCalls [.create longestName]) tooLongName).1 = 0 ∧
      (fsDelete (afterCalls [.create longestName]) (fun _ => 0) tooLongName).1 = 0 := by
  decide

/-- A name of 15 characters is found. -/
theorem matchesInFull_iff_longest : ∃ replies n,
    Machine.run namedCall (Named.start newDisk) [.create longestName] = some (replies, n) ∧
      (fsOpen n.globals longestName).1 = 0 ∧ MatchesInFull n longestName := by
  obtain ⟨isSome, opened, -⟩ := longestName_created
  obtain ⟨replies, ran⟩ := run_afterCalls isSome
  obtain ⟨createdAs, named⟩ := run_namedCall (n := Named.start newDisk) ran
  exact ⟨replies, _, named, opened,
    (matchesInFull_iff newDisk_started named longestName).mpr (Or.inl (by decide))⟩

/-- With one more character it is found as well: no file was created with this string, but it
can be opened and deleted. -/
theorem found_by_longer_name :
    Started "disk" newDisk ∧ ∃ replies n,
      Machine.run namedCall (Named.start newDisk) [.create longestName] = some (replies, n) ∧
      (∀ e < maxNumOfFiles, n.createdAs e ≠ some tooLongName) ∧
      (fsOpen n.globals tooLongName).1 = 0 ∧
      (fsDelete n.globals (fun _ => 0) tooLongName).1 = 0 ∧ ¬ MatchesInFull n tooLongName := by
  obtain ⟨isSome, -, opened, deleted⟩ := longestName_created
  obtain ⟨replies, ran⟩ := run_afterCalls isSome
  obtain ⟨createdAs, named⟩ := run_namedCall (n := Named.start newDisk) ran
  have long : ¬ strlen tooLongName ≤ maxFileName := by decide
  have absent := (newDisk_started.recorded named).long_absent long
  refine ⟨newDisk_started, replies, _, named, absent, opened, deleted, fun inFull => ?_⟩
  rw [(inFull.refuses absent).1] at opened
  simp at opened

end OperatingSys.FileSystem
