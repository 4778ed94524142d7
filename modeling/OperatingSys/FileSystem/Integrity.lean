import OperatingSys.FileSystem.Ownership

/-!
# The directory and the descriptors

Names and inode numbers identify entries, and every open descriptor names exactly one of
them. Every call keeps this, `fs_delete` included: it refuses while a descriptor names its
entry. That blocks may be lost meanwhile does not matter here.
-/

namespace OperatingSys.FileSystem

open Search

/-- The characters of the name of entry `e`. -/
def State.nameOf (s : State) (e : Nat) : List Byte := beforeNul (List.ofFn (s.directory e).name)

/-- Descriptor `j` names entry `e`. -/
def State.Names (s : State) (j e : Nat) : Prop :=
  s.Present e ∧ (s.directory e).inodeNumber.toInt = (s.openFileDescriptors j).inodeNumber

/-- The used entries differ in their names and in their inode numbers, which are in use and
between 0 and 63. A used descriptor names exactly one of them, and `fs_get_filesize` returns
the size of its file. -/
structure Integrity (s : State) : Prop where
  names : ∀ e e', s.Present e → s.Present e' → s.nameOf e = s.nameOf e' → e = e'
  numbers : ∀ e e', s.Present e → s.Present e' →
    (s.directory e).inodeNumber = (s.directory e').inodeNumber → e = e'
  inRange : ∀ e, s.Present e →
    0 ≤ (s.directory e).inodeNumber.toInt ∧ (s.directory e).inodeNumber.toInt < maxNumOfFiles
  typed : ∀ e, s.Present e → s.fileType (s.inodeOf e) ≠ 0
  descriptor : ∀ j < maxFileDescriptors, (s.openFileDescriptors j).isUsed = true →
    ∃ e, s.Names j e ∧ ∀ e', s.Names j e' → e' = e
  filesize : ∀ j < maxFileDescriptors, (s.openFileDescriptors j).isUsed = true →
    fsGetFilesize s j = s.fileSize (s.openFileDescriptors j).inodeNumber.toNat

/-- What the calls carry along to keep the three tables in step. -/
structure Aligned (s : State) : Prop where
  sound : DirectorySound s
  nonneg : ∀ e, s.Present e → 0 ≤ (s.directory e).inodeNumber.toInt
  names : ∀ e e', s.Present e → s.Present e' → s.nameOf e = s.nameOf e' → e = e'
  sizes : ∀ i < maxNumOfFiles, s.fileSize i ≤ maxFilesize
  names_one : ∀ j < maxFileDescriptors, (s.openFileDescriptors j).isUsed = true → ∃ e, s.Names j e

section Aligned

variable {s : State} (aligned : Aligned s)
include aligned

theorem Aligned.number {e : Nat} (present : s.Present e) :
    (s.directory e).inodeNumber.toInt = s.inodeOf e :=
  (Int.toNat_of_nonneg (aligned.nonneg e present)).symm

theorem Aligned.number_inj {e e' : Nat} (present : s.Present e) (present' : s.Present e')
    (same : (s.directory e).inodeNumber.toInt = (s.directory e').inodeNumber.toInt) : e = e' := by
  rw [aligned.number present, aligned.number present'] at same
  exact aligned.sound.single e e' present present' (by omega)

theorem Aligned.names_unique {j e e' : Nat} (names : s.Names j e) (names' : s.Names j e') :
    e = e' :=
  aligned.number_inj names.1 names'.1 (names.2.trans names'.2.symm)

/-- The search of `fs_get_filesize` finds the entry that the descriptor names. -/
theorem Aligned.fsGetFilesize_eq {j e : Nat} (isOpen : s.isOpen j = true) (names : s.Names j e) :
    fsGetFilesize s j = s.fileSize (s.openFileDescriptors j).inodeNumber.toNat := by
  have found : firstIndex maxNumOfFiles (fun i => (s.directory i).isUsed &&
      (s.directory i).inodeNumber.toInt = (s.openFileDescriptors (j : Int).toNat).inodeNumber) =
      some e := by
    refine firstIndex_eq_some.mpr ⟨names.1.1, by simp [names.1.2, names.2], fun e' before => ?_⟩
    rw [Int.toNat_natCast, Bool.and_eq_false_imp]
    intro isUsed
    rw [decide_eq_false_iff_not]
    intro hit
    -- an earlier entry with the same number would be the same entry
    have present' : s.Present e' := ⟨Nat.lt_trans before names.1.1, isUsed⟩
    have same := aligned.names_unique ⟨present', hit⟩ names
    omega
  have size := aligned.sizes (s.inodeOf e) (aligned.sound.inTable e names.1)
  have limit : maxFilesize = 1048576 := rfl
  rw [fsGetFilesize, isOpen, Bool.not_true, if_neg (by decide), found]
  simp only
  rw [← names.2]
  change toInt32 (s.fileSize (s.inodeOf e)) = s.fileSize (s.inodeOf e)
  exact toInt32_of_small (by omega) (by omega)

theorem Aligned.integrity : Integrity s where
  names := aligned.names
  numbers := fun e e' present present' same =>
    aligned.number_inj present present' (congrArg BitVec.toInt same)
  inRange := fun e present => by
    have below := aligned.sound.inTable e present
    rw [aligned.number present]
    omega
  typed := aligned.sound.typed
  descriptor := fun j inRange isUsed => by
    obtain ⟨e, names⟩ := aligned.names_one j inRange isUsed
    exact ⟨e, names, fun e' names' => aligned.names_unique names' names⟩
  filesize := fun j inRange isUsed => by
    obtain ⟨e, names⟩ := aligned.names_one j inRange isUsed
    exact aligned.fsGetFilesize_eq (isOpen_of_used inRange isUsed) names

end Aligned

/-! ### Calls that leave the directory alone -/

section Quiet

variable {s t : State} (aligned : Aligned s)
include aligned

theorem Aligned.of_directory (sound : DirectorySound t) (directory : t.directory = s.directory)
    (sizes : ∀ i < maxNumOfFiles, t.fileSize i ≤ maxFilesize)
    (names_one : ∀ j < maxFileDescriptors, (t.openFileDescriptors j).isUsed = true →
      ∃ e, t.Names j e) : Aligned t where
  sound := sound
  nonneg := fun e present => by
    simp only [State.Present, directory] at present ⊢
    exact aligned.nonneg e present
  names := fun e e' present present' same => by
    simp only [State.Present, State.nameOf, directory] at present present' same
    exact aligned.names e e' present present' same
  sizes := sizes
  names_one := names_one

/-- Storing a descriptor that is free or names an entry. -/
theorem Aligned.storeDescriptor (j : Nat) (fd : FileDescriptor)
    (free_or_names : fd.isUsed = true →
      ∃ e, s.Present e ∧ (s.directory e).inodeNumber.toInt = fd.inodeNumber) :
    Aligned (s.storeDescriptor j fd) := by
  refine aligned.of_directory { aligned.sound with } rfl aligned.sizes fun j' inRange isUsed => ?_
  simp only [State.storeDescriptor, State.Names, Function.update_apply] at isUsed ⊢
  split at isUsed
  next here =>
    rw [if_pos here]
    exact free_or_names isUsed
  next elsewhere =>
    rw [if_neg elsewhere]
    exact aligned.names_one j' inRange isUsed

theorem Aligned.moveOffset {j : Nat} (inRange : j < maxFileDescriptors) (off : Int) :
    Aligned (s.storeDescriptor j { s.openFileDescriptors j with offset := off }) :=
  aligned.storeDescriptor j _ fun isUsed => aligned.names_one j inRange isUsed

theorem Aligned.offsetStep (step : OffsetStep s t) : Aligned t := by
  rcases step with rfl | ⟨j, off, inRange, rfl⟩
  · exact aligned
  · exact aligned.moveOffset inRange off

theorem Aligned.open (name : CString) : Aligned (fsOpen s name).2 := by
  rcases fsOpen_cases s name with ⟨-, refused⟩ | ⟨e, j, opens, opened⟩
  · rw [refused]
    exact aligned
  · rw [opened]
    obtain ⟨inRange, hit, -⟩ := firstIndex_eq_some.mp opens.entry
    rw [Bool.and_eq_true] at hit
    exact aligned.storeDescriptor j _ fun _ => ⟨e, ⟨inRange, hit.1⟩, rfl⟩

theorem Aligned.close (fildes : Int) : Aligned (fsClose s fildes).2 := by
  unfold fsClose
  split
  · exact aligned
  · split
    · exact aligned
    · exact aligned.storeDescriptor _ _ fun isUsed => absurd isUsed (by decide)

/-- Setting the size of a file to no more than `MAX_FILESIZE`. -/
theorem Aligned.storeFileSize (i : Nat) {v : Word} (small : v.toNat ≤ maxFilesize) :
    Aligned (s.storeWord (fileSizeAddr i) v) := by
  have same := storeFileSize_sameBlocks s i v 0 (s.openFileDescriptors 0)
  have sound : DirectorySound (s.storeWord (fileSizeAddr i) v) :=
    { same.directorySound aligned.sound with }
  refine aligned.of_directory sound rfl (fun i' file => ?_) aligned.names_one
  change ((Function.update s.inodeTable (fileSizeAddr i) v) (fileSizeAddr i')).toNat ≤ _
  rw [Function.update_apply]
  split
  · exact small
  · exact aligned.sizes i' file

theorem Aligned.truncate (fildes length : Int) : Aligned (fsTruncate s fildes length).2 := by
  rcases fsTruncate_cases s fildes length with same | ⟨inRange, isFile, shorter, set⟩
  · rw [same]
    exact aligned
  · rw [set]
    have stored : (BitVec.ofInt 64 length).toNat = toULong length := BitVec.toNat_ofInt ..
    have small : (BitVec.ofInt 64 length).toNat ≤ maxFilesize := by
      rw [stored]
      exact Nat.le_trans shorter (aligned.sizes _ (isFile_toNat_lt isFile))
    exact (aligned.storeFileSize _ small).moveOffset inRange _

theorem Aligned.advance {f off n : Nat} (inRange : f < maxFileDescriptors) (i : Nat)
    (points : (s.openFileDescriptors f).offset = off) (within : off + n ≤ maxFilesize) :
    Aligned (s.advance f i n) := by
  have limit : maxFilesize = 1048576 := rfl
  have moved : toInt32 ((s.openFileDescriptors f).offset + n) = ((off + n : Nat) : Int) := by
    rw [points, ← Int.natCast_add, toInt32_of_small (by omega) (by omega)]
  have small : (BitVec.ofInt 64 ((off + n : Nat) : Int)).toNat ≤ maxFilesize := by
    rw [BitVec.toNat_ofInt]
    omega
  unfold State.advance
  simp only [moved]
  split
  · exact (aligned.moveOffset inRange _).storeFileSize i small
  · exact aligned.moveOffset inRange _

/-- Taking a block changes a pointer and nothing that counts here. -/
theorem Aligned.prepared {i k : Nat} (below : k < directCount) (prepared : Prepared s i k t) :
    Aligned t ∧ t.openFileDescriptors = s.openFileDescriptors := by
  rcases prepared with ⟨-, rfl⟩ | ⟨-, b, -, rfl⟩
  · exact ⟨aligned, rfl⟩
  · refine ⟨aligned.of_directory (takeBlock_sound i k b below aligned.sound) rfl
      (fun i' file => ?_) aligned.names_one, rfl⟩
    rw [State.takeBlock_fileSize _ _ _ below]
    exact aligned.sizes i' file

theorem Aligned.round {f i k off : Nat} {data : List Byte} {ended : Bool}
    (inRange : f < maxFileDescriptors) (start : RoundStart s f k off data)
    (round : fsWriteRound s f i k off data = some (ended, t)) : Aligned t := by
  rcases fsWriteRound_cases aligned.sound.start_lt round with
    ⟨-, rfl | unfinished⟩ | ⟨-, u, buf, disk, ready, -, rfl⟩
  · exact aligned
  · exact (aligned.prepared start.below unfinished).1
  · obtain ⟨aligned', same⟩ := aligned.prepared start.below ready
    have written : Aligned { u with disk := disk } :=
      aligned'.of_directory { aligned'.sound with } rfl aligned'.sizes aligned'.names_one
    have chunk : chunkSize off data ≤ data.length := Nat.min_le_left _ _
    have within := start.within
    refine written.advance inRange i ?_ (Nat.le_trans (Nat.add_le_add_left chunk _) within)
    rw [same]
    exact start.points

end Quiet

/-! ### Creating and deleting -/

/-- The entry that `fs_create` fills in. -/
abbrev newEntry (inode : Nat) (name : CString) : DirEntry where
  isUsed := true
  inodeNumber := BitVec.ofNat 32 inode
  name := strncpy name

section Directory

variable {s : State} (aligned : Aligned s)
include aligned

omit aligned in
/-- A name that `fs_create` accepts is the name of no entry. -/
theorem Creates.nameOf_ne {name : CString} (creates : Creates s name) {e : Nat}
    (present : s.Present e) : s.nameOf e ≠ name.1.take maxFileName := by
  intro same
  apply creates.new e present.1 present.2
  rw [strncmp_eq_zero_iff, beforeNul_of_not_mem name.2]
  change (s.nameOf e).take maxFileName = _
  rw [same, List.take_take, Nat.min_self]

/-- A new entry has a name of its own and the number of its inode. -/
theorem Aligned.storeEntry {name : CString} (creates : Creates s name) {inode e : Nat}
    (file : inode < maxNumOfFiles) (free : (s.directory e).isUsed = false)
    (sound : DirectorySound (s.storeEntry e (newEntry inode name))) :
    Aligned (s.storeEntry e (newEntry inode name)) := by
  -- only entry `e` changes, which was free
  have old : ∀ e', e' ≠ e →
      (s.storeEntry e (newEntry inode name)).directory e' = s.directory e' :=
    fun e' other => Function.update_of_ne other _ _
  have name_new : (s.storeEntry e (newEntry inode name)).nameOf e = name.1.take maxFileName := by
    simp only [State.nameOf, State.storeEntry, Function.update_self]
    exact beforeNul_strncpy name
  refine ⟨sound, fun e' present => ?_, fun e' e'' present present' same => ?_, aligned.sizes,
    fun j inRange isUsed => ?_⟩
  · by_cases new : e' = e
    · subst new
      have small : inode < 2 ^ 31 := Nat.lt_trans file (by decide)
      simp only [State.storeEntry, Function.update_self]
      rw [BitVec.toInt_ofNat', Int.bmod_def]
      omega
    · simp only [State.Present, old e' new] at present ⊢
      exact aligned.nonneg e' present
  -- `fs_create` has looked for the name, so that no old entry has it
  · by_cases new : e' = e
    · by_cases new' : e'' = e
      · exact new.trans new'.symm
      · subst new
        rw [name_new] at same
        simp only [State.Present, State.nameOf, old e'' new'] at present' same
        exact absurd same.symm (creates.nameOf_ne present')
    · by_cases new' : e'' = e
      · subst new'
        rw [name_new] at same
        simp only [State.Present, State.nameOf, old e' new] at present same
        exact absurd same (creates.nameOf_ne present)
      · simp only [State.Present, State.nameOf, old e' new, old e'' new'] at present present' same
        exact aligned.names e' e'' present present' same
  · obtain ⟨e', present, number⟩ := aligned.names_one j inRange isUsed
    -- a descriptor names an entry in use, and so not the new one
    have other : e' ≠ e := by
      rintro rfl
      exact absurd (free.symm.trans present.2) (by decide)
    refine ⟨e', ?_, ?_⟩
    · simp only [State.Present, old e' other]
      exact present
    · rw [old e' other]
      exact number

theorem Aligned.initInode (inode : Nat) : Aligned (s.initInode inode) := by
  refine aligned.of_directory (initInode_sound aligned.sound) rfl (fun i file => ?_)
    aligned.names_one
  rw [State.initInode_fileSize]
  split
  · exact Nat.zero_le _
  · exact aligned.sizes i file

theorem Aligned.create (name : CString) : Aligned (fsCreate s name).2 := by
  have sound := fsCreate_sound name aligned.sound
  by_cases creates : Creates s name
  · rcases fsCreate_cases s name with
      same | ⟨inode, file, untyped, ⟨-, filled⟩ | ⟨e, -, free, filled⟩⟩
    · rw [same]
      exact aligned
    · rw [filled]
      exact aligned.initInode inode
    · rw [filled] at sound ⊢
      have creates' : Creates (s.initInode inode) name := { creates with }
      exact (aligned.initInode inode).storeEntry creates' file free sound
  · rw [fsCreate_refused creates]
    exact aligned

theorem Aligned.deleted {name : CString} {e : Nat} (deletes : Deletes s name e)
    (beyond : Nat → Byte) : Aligned (s.deleted beyond e) where
  sound := deleted_sound aligned.sound
  nonneg := fun e' present => by
    obtain ⟨old, other⟩ := (deleted_present e').mp present
    simp only [State.deleted, Function.update_of_ne other]
    exact aligned.nonneg e' old
  names := fun e' e'' present present' same => by
    obtain ⟨old, other⟩ := (deleted_present e').mp present
    obtain ⟨old', other'⟩ := (deleted_present e'').mp present'
    simp only [State.nameOf, State.deleted, Function.update_of_ne other,
      Function.update_of_ne other'] at same
    exact aligned.names e' e'' old old' same
  sizes := fun i file => by
    simp only [State.fileSize, deleted_inodeTable]
    exact aligned.sizes i file
  names_one := fun j inRange isUsed => by
    obtain ⟨e', present, number⟩ := aligned.names_one j inRange isUsed
    -- the entry that goes is not the one that the descriptor names
    have other : e' ≠ e := by
      rintro rfl
      exact deletes.notOpen j inRange ⟨isUsed, number.symm⟩
    refine ⟨e', (deleted_present e').mpr ⟨present, other⟩, ?_⟩
    simp only [State.deleted, Function.update_of_ne other]
    exact number

theorem Aligned.delete (name : CString) (beyond : Nat → Byte) :
    Aligned (fsDelete s beyond name).2 := by
  rcases fsDelete_cases s beyond name with ⟨-, same⟩ | ⟨e, deletes, deleted⟩
  · rw [same]
    exact aligned
  · rw [deleted]
    exact aligned.deleted deletes beyond

end Directory

/-! ### Runs -/

/-- Every call keeps the tables aligned. -/
theorem Aligned.call {s t : State} {c : Call} {r : Reply} (aligned : Aligned s)
    (within : WritesWithin s c) (called : call s c = some (r, t)) : Aligned t := by
  have leads := leads_of_call called
  cases c with
  | create name =>
    obtain rfl := leads
    exact aligned.create name
  | «open» name =>
    obtain rfl := leads
    exact aligned.open name
  | close fildes =>
    obtain rfl := leads
    exact aligned.close fildes
  | delete name beyond =>
    obtain rfl := leads
    exact aligned.delete name beyond
  | read fildes nbyte =>
    obtain ⟨r', bytes, read⟩ := leads
    exact aligned.offsetStep (fsRead_step read)
  | write fildes data =>
    obtain ⟨r', wrote⟩ := leads
    exact fsWrite_preserves_rounds
      (fun f i s s' k off data ended inRange _ aligned start round =>
        aligned.round inRange start round) within wrote aligned
  | lseek fildes offset =>
    obtain rfl := leads
    exact aligned.offsetStep (fsLseek_step s fildes offset.toInt)
  | truncate fildes length =>
    obtain rfl := leads
    exact aligned.truncate fildes length.toInt
  | getFilesize fildes =>
    obtain rfl := leads
    exact aligned

theorem Fresh.aligned {d : String} {s : State} (fresh : Fresh d s) : Aligned s := by
  have absent : ∀ e, ¬ s.Present e := by
    rintro e ⟨below, isUsed⟩
    rw [fresh.entry e below] at isUsed
    exact Bool.false_ne_true isUsed
  refine ⟨fresh.directorySound, fun e present => absurd present (absent e),
    fun e _ present => absurd present (absent e), fun i _ => ?_, fun j inRange isUsed => ?_⟩
  · simp [State.fileSize, fresh.word]
  · simp [fresh.descriptor j inRange] at isUsed

/-- **Integrity.** In every state that calls reach on a new disk, with writes that end at or
below `MAX_FILESIZE`, the directory, the inodes and the descriptors fit together. -/
theorem integrity_always {d : String} {s : State} (started : Started d s) {calls : List Call}
    (within : Machine.Admits call WritesWithin s calls) :
    Machine.Always call Integrity s calls :=
  Machine.always_of_invariant Aligned (fun _ aligned => aligned.integrity)
    (fun _ _ _ _ aligned ok called => aligned.call ok called) started.fresh.aligned within

set_option maxRecDepth 100000 in
/-- A file that is deleted, and one that is created in its place. -/
theorem integrity_always_recreated :
    Machine.Always call Integrity newDisk
      [.create nameA, .create nameB, .open nameB, .write 0 [7], .delete nameA fun _ => 0,
        .delete nameB fun _ => 0, .create nameA, .open nameA] :=
  integrity_always newDisk_started (by decide)

end OperatingSys.FileSystem
