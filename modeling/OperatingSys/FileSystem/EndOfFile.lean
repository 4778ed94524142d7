import OperatingSys.FileSystem.Calls

/-!
# Reading up to the end of the file

Sizes belong to inodes and offsets to descriptors. On a file system from which nothing is
deleted only `fs_truncate` can leave an offset behind the end of a file, and it does so to
every other descriptor of the file that points further than the new length.
-/

namespace OperatingSys.FileSystem

/-- Every open descriptor points into its file, and `fs_read` through it returns no more
bytes than are left of the file. -/
def WithinFile (s : State) : Prop :=
  ∀ j < maxFileDescriptors, (s.openFileDescriptors j).isUsed = true →
    let fd := s.openFileDescriptors j
    let size : Int := s.fileSize fd.inodeNumber.toNat
    fd.offset ≤ size ∧
      ∀ nbyte, ∃ r bytes t, fsRead s j nbyte = some (r, bytes, t) ∧ r ≤ size - fd.offset ∧
        (size ≤ fd.offset → r = 0)

/-- The calls other than `fs_delete`; writes end at or below `MAX_FILESIZE`. -/
def Undeleting (s : State) : Call → Prop
  | .delete _ _ => False
  | c => WritesWithin s c

instance (s : State) : (c : Call) → Decidable (Undeleting s c)
  | .delete _ _ => isFalse id
  | .write fildes data => inferInstanceAs (Decidable (WritesWithin s (.write fildes data)))
  | .create _ | .open _ | .close _ | .read _ _ | .lseek _ _ | .truncate _ _ | .getFilesize _ =>
    isTrue trivial

/-- A truncation to a length below 0 is refused; any other is to a length that no other open
descriptor of the file has passed. -/
def LeavesNoneBehind (s : State) : Call → Prop
  | .truncate fildes length => s.isOpen fildes = true → 0 ≤ length.toInt →
      ∀ j < maxFileDescriptors, j ≠ fildes.toNat → (s.openFileDescriptors j).isUsed = true →
        (s.openFileDescriptors j).inodeNumber = (s.openFileDescriptors fildes.toNat).inodeNumber →
        (s.openFileDescriptors j).offset ≤ length.toInt
  | _ => True

instance (s : State) : (c : Call) → Decidable (LeavesNoneBehind s c)
  | .truncate _ _ => inferInstanceAs (Decidable (_ → _ → ∀ j < maxFileDescriptors, _ → _ → _ → _))
  | .create _ | .open _ | .close _ | .delete _ _ | .read _ _ | .write _ _ | .lseek _ _
  | .getFilesize _ => isTrue trivial

section Step

variable {d : String} {nm : Nat → CString} {m : Nat} {s : State}

theorem Consistent.withinFile (consistent : Consistent d nm m s) : WithinFile s := by
  intro j inRange isUsed
  obtain ⟨i, off, file, here, inFile⟩ := consistent.extent.descriptor j inRange isUsed
  have isOpen := isOpen_of_used inRange isUsed
  simp only [here, Int.toNat_natCast]
  refine ⟨by omega, fun nbyte => ?_⟩
  refine ⟨_, _, _, fsRead_spec consistent.readable isOpen file here inFile nbyte, ?_⟩
  rw [List.length_take, List.length_drop, State.length_contents]
  omega

/-- Truncating keeps every descriptor within its file exactly if no other descriptor of the
file is further than the new length. -/
theorem Consistent.truncate_iff (consistent : Consistent d nm m s) (fildes : Int)
    (length : BitVec 64) :
    (WithinFile (fsTruncate s fildes length.toInt).2 ↔
        LeavesNoneBehind s (.truncate fildes length)) ∧
      (WithinFile (fsTruncate s fildes length.toInt).2 →
        ∃ nm m, Consistent d nm m (fsTruncate s fildes length.toInt).2) := by
  rcases consistent.descriptor_cases fildes with
    closed | ⟨j, i, off, rfl, inRange, isOpen, file, here, inFile⟩
  · have same : (fsTruncate s fildes length.toInt).2 = s := by
      simp only [fsTruncate, closed, Bool.not_false, if_true]
    rw [same]
    refine ⟨iff_of_true consistent.withinFile ?_, fun _ => ⟨nm, m, consistent⟩⟩
    intro isOpen
    exact absurd (closed.symm.trans isOpen) (by decide)
  · rw [fsTruncate_spec consistent isOpen file here length]
    have here' := here
    rw [At] at here'
    split
    next accepted =>
      have natural : (length.toInt.toNat : Int) = length.toInt := Int.toNat_of_nonneg accepted.1
      have shorter : length.toInt.toNat ≤ s.fileSize i := by omega
      have size := truncated_fileSize s j i (Nat.lt_of_le_of_lt shorter (s.inodeTable _).isLt) i
      rw [if_pos rfl] at size
      have kept : LeavesNoneBehind s (.truncate j length) →
          Consistent d nm m (s.truncated j i length.toInt.toNat) := by
        intro none_behind
        refine consistent.truncated file shorter fun j' inRange' other isUsed sameFile => ?_
        have behind := none_behind isOpen accepted.1 j' inRange' (by simpa using other) isUsed
        rw [Int.toNat_natCast, here'] at behind
        exact natural ▸ behind sameFile
      have needed : WithinFile (s.truncated j i length.toInt.toNat) →
          LeavesNoneBehind s (.truncate j length) := by
        intro within _ _ j' inRange' other isUsed sameFile
        rw [Int.toNat_natCast] at other sameFile
        rw [here'] at sameFile
        -- the other descriptor has not moved, but the end of its file has
        have unmoved : (s.truncated j i length.toInt.toNat).openFileDescriptors j' =
            s.openFileDescriptors j' := Function.update_of_ne other _ _
        have bound := (within j' inRange' (by rw [unmoved]; exact isUsed)).1
        rw [unmoved, sameFile, Int.toNat_natCast, size] at bound
        exact natural ▸ bound
      exact ⟨⟨needed, fun none_behind => (kept none_behind).withinFile⟩,
        fun within => ⟨nm, m, kept (needed within)⟩⟩
    next refused =>
      refine ⟨iff_of_true consistent.withinFile ?_, fun _ => ⟨nm, m, consistent⟩⟩
      intro _ nonneg j' inRange' _ isUsed sameFile
      -- a length that is refused lies behind every descriptor of the file
      have bound := (consistent.withinFile j' inRange' isUsed).1
      rw [sameFile, Int.toNat_natCast, here', Int.toNat_natCast] at bound
      omega

/-- One call keeps every descriptor within its file exactly if it meets `LeavesNoneBehind`. -/
theorem Consistent.withinFile_call_iff (consistent : Consistent d nm m s) {c : Call} {r : Reply}
    {t : State} (undeleting : Undeleting s c) (called : FileSystem.call s c = some (r, t)) :
    (WithinFile t ↔ LeavesNoneBehind s c) ∧ (WithinFile t → ∃ nm m, Consistent d nm m t) := by
  -- calls that grow keep consistency, and with it every offset within its file
  have quiet : Growing s c → LeavesNoneBehind s c →
      (WithinFile t ↔ LeavesNoneBehind s c) ∧ (WithinFile t → ∃ nm m, Consistent d nm m t) := by
    intro growing harmless
    obtain ⟨nm', m', consistent'⟩ := consistent.call growing called
    exact ⟨iff_of_true consistent'.withinFile harmless, fun _ => ⟨nm', m', consistent'⟩⟩
  have leads := leads_of_call called
  cases c with
  | truncate fildes length =>
    obtain rfl := leads
    exact consistent.truncate_iff fildes length
  | delete name beyond => exact absurd undeleting id
  | create name => exact quiet trivial trivial
  | «open» name => exact quiet trivial trivial
  | close fildes => exact quiet trivial trivial
  | read fildes nbyte => exact quiet trivial trivial
  | write fildes data => exact quiet undeleting trivial
  | lseek fildes offset => exact quiet trivial trivial
  | getFilesize fildes => exact quiet trivial trivial

end Step

private theorem leavesNoneBehind_of_undefined {s : State} {c : Call} (undefined : call s c = none) :
    LeavesNoneBehind s c := by
  cases c with
  | truncate fildes length => simp [call, plain] at undefined
  | _ => trivial

/-- **End of file.** On a new disk from which nothing is deleted, no descriptor points or
reads behind the end of its file all along a run, exactly if no truncation of the run cuts
a file before the offset of another of its open descriptors. -/
theorem withinFile_always_iff {d : String} {s : State} (started : Started d s)
    {calls : List Call} (undeleting : Machine.Admits call Undeleting s calls) :
    Machine.Always call WithinFile s calls ↔ Machine.Admits call LeavesNoneBehind s calls := by
  have initial := started.fresh.consistent fun _ => ⟨[], by simp⟩
  refine Machine.always_iff_admits (fun s => ∃ nm m, Consistent d nm m s) ?_
    (fun _ _ => leavesNoneBehind_of_undefined) ⟨_, 0, initial⟩ initial.withinFile undeleting
  rintro s c r t ⟨nm, m, consistent⟩ - ok called
  exact consistent.withinFile_call_iff ok called

/-- Two descriptors of one file, the first of them at its end. -/
def twoDescriptors : List Call :=
  [.create nameA, .open nameA, .open nameA, .write 0 [7, 8]]

set_option maxRecDepth 100000 in
/-- The descriptor that is at the end cuts the file, and the other one has not read yet. -/
theorem withinFile_always_iff_cut :
    Machine.Always call WithinFile newDisk (twoDescriptors ++ [.truncate 0 1, .read 1 5]) :=
  (withinFile_always_iff newDisk_started (by decide)).mpr (by decide)

set_option maxRecDepth 100000 in
private theorem twoDescriptors_runs :
    (Machine.run call newDisk (twoDescriptors ++ [.truncate 1 1])).isSome = true := by
  decide

set_option maxRecDepth 100000 in
private theorem twoDescriptors_behind :
    (afterCalls (twoDescriptors ++ [.truncate 1 1])).openFileDescriptors 0 = ⟨true, 0, 2⟩ ∧
      (afterCalls (twoDescriptors ++ [.truncate 1 1])).fileSize 0 = 1 := by
  decide

set_option maxRecDepth 100000 in
/-- The other descriptor cuts the file before the first one's offset, through which
`fs_read` then delivers bytes that are not in the file. -/
theorem read_past_end :
    Started "disk" newDisk ∧
    Machine.Admits call Undeleting newDisk (twoDescriptors ++ [.truncate 1 1]) ∧
    (fsRead (afterCalls (twoDescriptors ++ [.truncate 1 1])) 0 5).map Prod.fst = some 5 ∧
    ¬ Machine.Always call WithinFile newDisk (twoDescriptors ++ [.truncate 1 1]) := by
  refine ⟨newDisk_started, by decide, by decide, fun always => ?_⟩
  obtain ⟨replies, ran⟩ := run_afterCalls twoDescriptors_runs
  obtain ⟨descriptor, size⟩ := twoDescriptors_behind
  have bound := (always.last ran 0 (by decide) (by rw [descriptor])).1
  rw [descriptor, Int.toNat_zero, size] at bound
  exact absurd bound (by decide)

end OperatingSys.FileSystem
