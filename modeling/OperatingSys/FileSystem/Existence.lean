import OperatingSys.FileSystem.Integrity

/-!
# Does the file of a descriptor exist?

`fs_read`, `fs_write`, `fs_lseek` and `fs_truncate` take the inode number of a descriptor
for an index into the directory and ask whether that entry is used; `fs_get_filesize`
searches the directory for the inode number. The search always succeeds. The test succeeds
as long as no file is opened and no file is deleted whose numbers are at odds.
-/

namespace OperatingSys.FileSystem

open Search

/-- For every open descriptor, both the test and the search find a file. -/
def Agreement (s : State) : Prop :=
  ∀ j < maxFileDescriptors, (s.openFileDescriptors j).isUsed = true →
    s.isFile (s.openFileDescriptors j).inodeNumber = true ∧
      (firstIndex maxNumOfFiles fun i => (s.directory i).isUsed &&
        (s.directory i).inodeNumber.toInt = (s.openFileDescriptors j).inodeNumber).isSome = true

/-- A file is opened only if the entry that its inode number points to is used, and no entry
is deleted that the inode number of an open descriptor points to. -/
def KeepsAgreement (s : State) : Call → Prop
  | .open name => ∀ e j, Opens s name e j → (s.directory (s.inodeOf e)).isUsed = true
  | .delete name _ => ∀ e, Deletes s name e → ∀ j < maxFileDescriptors,
      (s.openFileDescriptors j).isUsed = true → (s.openFileDescriptors j).inodeNumber ≠ e
  | _ => True

/-- The test alone: for every open descriptor it finds a used entry. -/
def Tested (s : State) : Prop :=
  ∀ j < maxFileDescriptors, (s.openFileDescriptors j).isUsed = true →
    s.isFile (s.openFileDescriptors j).inodeNumber = true

theorem Aligned.agreement_iff {s : State} (aligned : Aligned s) : Agreement s ↔ Tested s := by
  constructor
  · exact fun agreement j inRange isUsed => (agreement j inRange isUsed).1
  · intro tested j inRange isUsed
    obtain ⟨e, present, number⟩ := aligned.names_one j inRange isUsed
    refine ⟨tested j inRange isUsed, firstIndex_isSome.mpr ⟨e, present.1, ?_⟩⟩
    simp [present.2, number]

/-! ### Calls that neither open nor close, create nor delete -/

/-- `t` has the directory of `s`, and its descriptors name the same inodes. -/
structure SameNames (s t : State) : Prop where
  directory : t.directory = s.directory
  isUsed : ∀ j, (t.openFileDescriptors j).isUsed = (s.openFileDescriptors j).isUsed
  number : ∀ j, (t.openFileDescriptors j).inodeNumber = (s.openFileDescriptors j).inodeNumber

section Quiet

variable {s t u : State}

theorem SameNames.refl (s : State) : SameNames s s := ⟨rfl, fun _ => rfl, fun _ => rfl⟩

theorem SameNames.trans (first : SameNames s t) (second : SameNames t u) : SameNames s u where
  directory := second.directory.trans first.directory
  isUsed := fun j => (second.isUsed j).trans (first.isUsed j)
  number := fun j => (second.number j).trans (first.number j)

theorem SameNames.tested (same : SameNames s t) (tested : Tested s) : Tested t := by
  intro j inRange isUsed
  rw [same.isUsed] at isUsed
  have hit := tested j inRange isUsed
  simp only [State.isFile, same.directory, same.number] at hit ⊢
  exact hit

/-- Moving the offset of one descriptor. -/
theorem sameNames_moveOffset (s : State) (j : Nat) (off : Int) :
    SameNames s (s.storeDescriptor j { s.openFileDescriptors j with offset := off }) := by
  refine ⟨rfl, fun j' => ?_, fun j' => ?_⟩
  · simp only [State.storeDescriptor, Function.update_apply]
    split
    next here => rw [here]
    next => rfl
  · simp only [State.storeDescriptor, Function.update_apply]
    split
    next here => rw [here]
    next => rfl

theorem OffsetStep.sameNames (step : OffsetStep s t) : SameNames s t := by
  rcases step with rfl | ⟨j, off, -, rfl⟩
  · exact SameNames.refl t
  · exact sameNames_moveOffset s j off

theorem fsTruncate_sameNames (s : State) (fildes length : Int) :
    SameNames s (fsTruncate s fildes length).2 := by
  rcases fsTruncate_cases s fildes length with same | ⟨-, -, -, set⟩
  · rw [same]
    exact SameNames.refl s
  · rw [set]
    have moved := sameNames_moveOffset s fildes.toNat (toInt32 length)
    exact ⟨rfl, moved.isUsed, moved.number⟩

theorem advance_sameNames (s : State) (f i n : Nat) : SameNames s (s.advance f i n) := by
  have moved := sameNames_moveOffset s f (toInt32 ((s.openFileDescriptors f).offset + n))
  refine ⟨s.advance_directory f i n, fun j => ?_, fun j => ?_⟩
  · rw [State.advance_openFileDescriptors]
    exact moved.isUsed j
  · rw [State.advance_openFileDescriptors]
    exact moved.number j

theorem Prepared.sameNames {i k : Nat} (prepared : Prepared s i k t) : SameNames s t := by
  rcases prepared with ⟨-, rfl⟩ | ⟨-, b, -, rfl⟩
  · exact SameNames.refl t
  · exact ⟨rfl, fun _ => rfl, fun _ => rfl⟩

theorem fsWriteRound_sameNames (sound : DirectorySound s) {f i k off : Nat} {data : List Byte}
    {ended : Bool} (round : fsWriteRound s f i k off data = some (ended, t)) : SameNames s t := by
  rcases fsWriteRound_cases sound.start_lt round with
    ⟨-, rfl | prepared⟩ | ⟨-, u, buf, disk, prepared, -, rfl⟩
  · exact SameNames.refl t
  · exact prepared.sameNames
  · have written : SameNames u { u with disk := disk } := ⟨rfl, fun _ => rfl, fun _ => rfl⟩
    exact (prepared.sameNames.trans written).trans (advance_sameNames _ f i _)

theorem fsWrite_sameNames (sound : DirectorySound s) {fildes : Int} {data : List Byte} {r : Int}
    (within : WritesWithin s (.write fildes data))
    (wrote : fsWrite s fildes data = some (r, t)) : SameNames s t := by
  have kept := fsWrite_preserves (P := fun u => DirectorySound u ∧ SameNames s u)
    (fun f i u u' k off data ended _ kept below round =>
      ⟨fsWriteRound_sound below round kept.1,
        kept.2.trans (fsWriteRound_sameNames kept.1 round)⟩)
    within wrote ⟨sound, SameNames.refl s⟩
  exact kept.2

end Quiet

/-! ### Calls that change an entry or a descriptor -/

section Change

variable {s : State}

/-- Creating a file uses more entries. -/
theorem Tested.create (tested : Tested s) (name : CString) : Tested (fsCreate s name).2 := by
  rcases fsCreate_cases s name with
    same | ⟨inode, -, -, ⟨-, filled⟩ | ⟨e, -, -, filled⟩⟩
  · rw [same]
    exact tested
  · rw [filled]
    exact tested
  · rw [filled]
    intro j inRange isUsed
    have hit := tested j inRange isUsed
    simp only [State.isFile, Bool.and_eq_true, State.storeEntry, Function.update_apply] at hit ⊢
    refine ⟨hit.1, ?_⟩
    split
    · rfl
    · exact hit.2

theorem Tested.close (tested : Tested s) (fildes : Int) : Tested (fsClose s fildes).2 := by
  unfold fsClose
  split
  · exact tested
  · split
    · exact tested
    · intro j inRange isUsed
      simp only [State.storeDescriptor, State.isFile, Function.update_apply] at isUsed ⊢
      split at isUsed
      · simp at isUsed
      next elsewhere =>
        rw [if_neg elsewhere]
        exact tested j inRange isUsed

/-- Opening keeps the test true exactly if it is true of the file that is opened. -/
theorem Tested.open_iff (aligned : Aligned s) (tested : Tested s) (name : CString) :
    Tested (fsOpen s name).2 ↔ KeepsAgreement s (.open name) := by
  rcases fsOpen_cases s name with ⟨nothing, refused⟩ | ⟨e, j, opens, opened⟩
  · rw [refused]
    exact iff_of_true tested fun e j opens => absurd opens (nothing e j)
  · obtain ⟨inRange, hit, -⟩ := firstIndex_eq_some.mp opens.entry
    obtain ⟨below, -, -⟩ := firstIndex_eq_some.mp opens.descriptor
    rw [Bool.and_eq_true] at hit
    have present : s.Present e := ⟨inRange, hit.1⟩
    -- the test of the source looks at the entry that has the inode's number
    have file : s.isFile (s.directory e).inodeNumber.toInt =
        (s.directory (s.inodeOf e)).isUsed := by
      have bound := aligned.sound.inTable e present
      rw [aligned.number present]
      simp [State.isFile, bound]
    rw [opened]
    constructor
    · intro after e' j' opens'
      have same : e' = e := Option.some.inj (opens'.entry.symm.trans opens.entry)
      have test := after j below (by simp [State.storeDescriptor])
      simp only [State.storeDescriptor, Function.update_self] at test
      rw [same, ← file]
      exact test
    -- the new descriptor passes its test by the condition, the others as before
    · intro kept j' inRange' isUsed
      simp only [State.storeDescriptor, Function.update_apply] at isUsed ⊢
      split at isUsed
      next here =>
        rw [if_pos here]
        exact file.trans (kept e j opens)
      next elsewhere =>
        rw [if_neg elsewhere]
        exact tested j' inRange' isUsed

/-- Deleting keeps the test true exactly if no open descriptor's test looks at the entry. -/
theorem Tested.delete_iff (tested : Tested s) (name : CString) (beyond : Nat → Byte) :
    Tested (fsDelete s beyond name).2 ↔ KeepsAgreement s (.delete name beyond) := by
  rcases fsDelete_cases s beyond name with ⟨nothing, same⟩ | ⟨e, deletes, deleted⟩
  · rw [same]
    exact iff_of_true tested fun e deletes => absurd deletes (nothing e)
  · rw [deleted]
    constructor
    -- a descriptor whose test looks at the deleted entry fails it
    · intro after e' deletes' j inRange isUsed looks
      have test := after j inRange isUsed
      have index : (s.openFileDescriptors j).inodeNumber.toNat = e := by
        rw [looks, Int.toNat_natCast]
        exact deletes'.unique deletes
      simp only [State.isFile, State.deleted, index, Function.update_self, Bool.and_false] at test
      exact absurd test (by decide)
    · intro kept j inRange isUsed
      have test := tested j inRange isUsed
      have apart := kept e deletes j inRange isUsed
      have lower : 0 ≤ (s.openFileDescriptors j).inodeNumber := by
        simp only [State.isFile, Bool.and_eq_true, decide_eq_true_eq] at test
        exact test.1.1
      have other : (s.openFileDescriptors j).inodeNumber.toNat ≠ e := by
        intro eq
        exact apart (by rw [← eq, Int.toNat_of_nonneg lower])
      simp only [State.isFile, State.deleted, Function.update_of_ne other]
      exact test

end Change

/-! ### Runs -/

/-- One call keeps the test true exactly if it meets `KeepsAgreement`. -/
theorem tested_call_iff {s t : State} {c : Call} {r : Reply} (aligned : Aligned s)
    (tested : Tested s) (within : WritesWithin s c) (called : call s c = some (r, t)) :
    Tested t ↔ KeepsAgreement s c := by
  have leads := leads_of_call called
  cases c with
  | create name =>
    obtain rfl := leads
    exact iff_of_true (tested.create name) trivial
  | «open» name =>
    obtain rfl := leads
    exact tested.open_iff aligned name
  | close fildes =>
    obtain rfl := leads
    exact iff_of_true (tested.close fildes) trivial
  | delete name beyond =>
    obtain rfl := leads
    exact tested.delete_iff name beyond
  -- these calls change neither entries nor the numbers in descriptors
  | read fildes nbyte =>
    obtain ⟨r', bytes, read⟩ := leads
    exact iff_of_true ((fsRead_step read).sameNames.tested tested) trivial
  | write fildes data =>
    obtain ⟨r', wrote⟩ := leads
    exact iff_of_true ((fsWrite_sameNames aligned.sound within wrote).tested tested) trivial
  | lseek fildes offset =>
    obtain rfl := leads
    exact iff_of_true ((fsLseek_step s fildes offset.toInt).sameNames.tested tested)
      trivial
  | truncate fildes length =>
    obtain rfl := leads
    exact iff_of_true ((fsTruncate_sameNames s fildes length.toInt).tested tested)
      trivial
  | getFilesize fildes =>
    obtain rfl := leads
    exact iff_of_true tested trivial

private theorem keepsAgreement_of_undefined {s : State} {c : Call} (undefined : call s c = none) :
    KeepsAgreement s c := by
  cases c with
  | «open» name => simp [call, plain] at undefined
  | delete name beyond => simp [call, plain] at undefined
  | _ => trivial

/-- **Agreement.** On a new disk the existence test and the search succeed for every open
descriptor all along a run, exactly if the run only opens files whose inode number points
to a used entry and only deletes entries to which no open descriptor's inode number points. -/
theorem agreement_always_iff {d : String} {s : State} (started : Started d s)
    {calls : List Call} (within : Machine.Admits call WritesWithin s calls) :
    Machine.Always call Agreement s calls ↔ Machine.Admits call KeepsAgreement s calls := by
  have initial := started.fresh.aligned
  have closed : Agreement s := initial.agreement_iff.mpr fun j inRange isUsed => by
    simp [started.fresh.descriptor j inRange] at isUsed
  refine Machine.always_iff_admits Aligned (fun s c r t aligned agreement ok called => ?_)
    (fun _ _ => keepsAgreement_of_undefined) initial closed within
  have aligned' := aligned.call ok called
  rw [aligned'.agreement_iff]
  exact ⟨tested_call_iff aligned (aligned.agreement_iff.mp agreement) ok called, fun _ => aligned'⟩

set_option maxRecDepth 100000 in
/-- Deleting the first of two files leaves the second where its inode number says. -/
theorem agreement_always_iff_second :
    Machine.Always call Agreement newDisk
      [.create nameA, .create nameB, .delete nameA fun _ => 0, .open nameB] := by
  refine (agreement_always_iff newDisk_started (by decide)).mpr ⟨trivial, ?_⟩
  rintro _ _ ⟨⟩
  refine ⟨trivial, ?_⟩
  rintro _ _ ⟨⟩
  have closed : ∀ j < maxFileDescriptors, ((fsCreate (fsCreate newDisk nameA).2
      nameB).2.openFileDescriptors j).isUsed = false := by
    decide
  refine ⟨fun e _ j inRange isUsed => absurd ((closed j inRange).symm.trans isUsed) (by decide), ?_⟩
  rintro _ _ ⟨⟩
  refine ⟨fun e j opens => ?_, fun _ _ _ => trivial⟩
  have only : ∀ e < maxNumOfFiles, ((fsDelete (fsCreate (fsCreate newDisk nameA).2 nameB).2
      (fun _ => 0) nameA).2.directory e).isUsed = true → e = 1 := by
    decide
  obtain ⟨inRange, hit, -⟩ := firstIndex_eq_some.mp opens.entry
  rw [Bool.and_eq_true] at hit
  rw [only e inRange hit.1]
  decide

/-- The entry of a deleted file is used again, with the next inode. -/
def entryReused : List Call :=
  [.create nameA, .create nameB, .delete nameA fun _ => 0, .create nameA, .open nameA]

set_option maxRecDepth 100000 in
private theorem entryReused_runs : (Machine.run call newDisk entryReused).isSome = true := by
  decide

set_option maxRecDepth 100000 in
/-- The file has entry 0 and inode 2; entry 2 is not used, and so the file that has just been
created and opened cannot be written. -/
private theorem entryReused_state :
    (afterCalls entryReused).openFileDescriptors 0 = ⟨true, 2, 0⟩ ∧
      (afterCalls entryReused).isFile 2 = false ∧
      (fsWrite (afterCalls entryReused) 0 [7]).map Prod.fst = some (-1) := by
  decide

set_option maxRecDepth 100000 in
theorem created_and_opened_lost :
    Started "disk" newDisk ∧ Machine.Admits call WritesWithin newDisk entryReused ∧
    (fsWrite (afterCalls entryReused) 0 [7]).map Prod.fst = some (-1) ∧
    ¬ Machine.Always call Agreement newDisk entryReused := by
  obtain ⟨descriptor, lost, refused⟩ := entryReused_state
  refine ⟨newDisk_started, by decide, refused, fun always => ?_⟩
  obtain ⟨replies, ran⟩ := run_afterCalls entryReused_runs
  have found := (always.last ran 0 (by decide) (by rw [descriptor])).1
  rw [descriptor, lost] at found
  exact absurd found (by decide)

end OperatingSys.FileSystem
