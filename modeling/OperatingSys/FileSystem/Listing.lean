import OperatingSys.FileSystem.Naming

/-!
# Listing the files

`fs_listfiles` counts the entries in use and copies the names of as many entries from the front
of the directory. That is a list of the files exactly if the entries in use are the first ones;
otherwise it has the cleared name of an unused entry and lacks the name of a file.
-/

namespace OperatingSys.FileSystem

open Search

/-- `strncpy` from a field of `MAX_FILE_NAME` bytes into a zeroed buffer of one byte more: the
string in the buffer is what stands in the field before its first NUL. -/
def copiedName (field : Fin maxFileName → Byte) : CString :=
  ⟨beforeNul (List.ofFn field), zero_notMem_beforeNul _⟩

/-- The loop of `fs_listfiles` that copies the names, from entry `i` on; `none` if an allocation
fails. -/
def copyNames (s : State) (calloc : Nat → Bool) (i : Nat) : (rounds : Nat) → Option (List CString)
  | 0 => some []
  | rounds + 1 =>
    if !calloc i then none
    else (copyNames s calloc (i + 1) rounds).map (copiedName (s.directory i).name :: ·)

/-- What `fs_listfiles` returns and the array it leaves in `*files`: strings and the NULL at the
end, or nothing where it has been freed or not allocated. `callocArray` and `calloc i` tell
which allocations succeed. -/
def fsListfiles (s : State) (callocArray : Bool) (calloc : Nat → Bool) :
    Int × Option (List (Option CString)) :=
  let numOfFiles := countIndices maxNumOfFiles fun i => (s.directory i).isUsed
  if !callocArray then (-1, none)
  else
    match copyNames s calloc 0 numOfFiles with
    | none => (-1, none)
    | some names => (0, some (names.map some ++ [none]))

theorem copyNames_eq (s : State) (i rounds : Nat) :
    copyNames s (fun _ => true) i rounds =
      some ((List.range' i rounds).map fun e => copiedName (s.directory e).name) := by
  induction rounds generalizing i with
  | zero => rfl
  | succ rounds ih =>
    simp [copyNames, ih, List.range'_succ]

/-- What it lists while all allocations succeed. -/
theorem fsListfiles_eq (s : State) :
    fsListfiles s true (fun _ => true) =
      (0, some (((List.range (countIndices maxNumOfFiles fun i => (s.directory i).isUsed)).map
        fun e => copiedName (s.directory e).name).map some ++ [none])) := by
  simp only [fsListfiles, copyNames_eq, List.range_eq_range']
  rfl

/-- The list has the full name of every file once, nothing else, and NULL behind them. -/
def ListsExactly (n : Named) : Prop :=
  ∃ names : List CString,
    fsListfiles n.globals true (fun _ => true) = (0, some (names.map some ++ [none])) ∧
    names.Nodup ∧ ∀ name, name ∈ names ↔ ∃ e < maxNumOfFiles, n.createdAs e = some name

/-- No unused entry stands before one in use. -/
def NoHoles (s : State) : Prop :=
  ∀ e < maxNumOfFiles, ∀ e' < e, (s.directory e).isUsed = true → (s.directory e').isUsed = true

section Listing

variable {n : Named}

theorem copiedName_strncpy {name : CString} (short : strlen name ≤ maxFileName) :
    copiedName (strncpy name) = name :=
  Subtype.ext ((beforeNul_strncpy name).trans (List.take_of_length_le short))

theorem copiedName_cleared : strlen (copiedName fun _ => 0) = 0 := by
  decide

/-- The name that is copied for an entry is the one it was created with, or empty. -/
theorem Recorded.copiedName_eq (recorded : Recorded n) {e : Nat} (inRange : e < maxNumOfFiles) :
    n.createdAs e = some (copiedName (n.globals.directory e).name) ∨
      (n.globals.directory e).isUsed = false ∧
        strlen (copiedName (n.globals.directory e).name) = 0 := by
  have holds := recorded.holds e inRange
  cases created : n.createdAs e with
  | none =>
    rw [created] at holds
    obtain ⟨unused, cleared⟩ := holds
    rw [cleared]
    exact Or.inr ⟨unused, copiedName_cleared⟩
  | some name =>
    rw [created] at holds
    obtain ⟨-, -, short, field⟩ := holds
    rw [field, copiedName_strncpy short]
    exact Or.inl rfl

theorem Recorded.listsExactly_iff (recorded : Recorded n) :
    ListsExactly n ↔ NoHoles n.globals := by
  have bound := countIndices_le maxNumOfFiles fun i => (n.globals.directory i).isUsed
  let files := (List.range (countIndices maxNumOfFiles fun i => (n.globals.directory i).isUsed)).map
    fun e => copiedName (n.globals.directory e).name
  have listed : fsListfiles n.globals true (fun _ => true) = (0, some (files.map some ++ [none])) :=
    fsListfiles_eq n.globals
  constructor
  · rintro ⟨names, listed', -, exactly_⟩
    have same : names = files := by
      rw [listed, Prod.mk.injEq, Option.some.injEq, List.append_cancel_right_eq] at listed'
      exact (List.map_injective_iff.mpr (Option.some_injective _) listed'.2).symm
    -- the entries that are listed are all in use, since no file has an empty name
    have filled : ∀ e < countIndices maxNumOfFiles (fun i => (n.globals.directory i).isUsed),
        (n.globals.directory e).isUsed = true := by
      intro e below
      have member : copiedName (n.globals.directory e).name ∈ names := by
        rw [same]
        exact List.mem_map_of_mem (List.mem_range.mpr below)
      obtain ⟨e', inRange', created⟩ := (exactly_ _).mp member
      have holds := recorded.holds e' inRange'
      rw [created] at holds
      rcases recorded.copiedName_eq (Nat.lt_of_lt_of_le below bound) with stored | ⟨-, empty⟩
      · exact (recorded.isUsed_iff (Nat.lt_of_lt_of_le below bound)).mpr ⟨_, stored⟩
      · exact absurd empty holds.2.1
    intro e inRange e' before isUsed
    exact filled e' (Nat.lt_trans before (lt_countIndices filled inRange isUsed))
  · intro noHoles
    have filled := filled_of_closed noHoles
    have stored : ∀ e < countIndices maxNumOfFiles (fun i => (n.globals.directory i).isUsed),
        n.createdAs e = some (copiedName (n.globals.directory e).name) := by
      intro e below
      rcases recorded.copiedName_eq (Nat.lt_of_lt_of_le below bound) with stored | ⟨unused, -⟩
      · exact stored
      · rw [filled e below] at unused
        simp at unused
    refine ⟨files, listed, ?_, fun name => ?_⟩
    · refine List.Nodup.map_on (fun e member e' member' same => ?_) List.nodup_range
      have below := List.mem_range.mp member
      have below' := List.mem_range.mp member'
      exact recorded.single e (Nat.lt_of_lt_of_le below bound) e' (Nat.lt_of_lt_of_le below' bound)
        _ (stored e below) (same ▸ stored e' below')
    · constructor
      · intro member
        obtain ⟨e, member', rfl⟩ := List.mem_map.mp member
        have below := List.mem_range.mp member'
        exact ⟨e, Nat.lt_of_lt_of_le below bound, stored e below⟩
      · rintro ⟨e, inRange, created⟩
        have isUsed := (recorded.isUsed_iff inRange).mpr ⟨name, created⟩
        have below := lt_countIndices filled inRange isUsed
        have same := stored e below
        rw [created, Option.some.injEq] at same
        rw [same]
        exact List.mem_map_of_mem (List.mem_range.mpr below)

end Listing

/-- **Listing.** In every state that calls reach on a new disk, whatever they do, the list of
the files is exact if and only if the entries in use are the first ones of the directory. -/
theorem listsExactly_iff_noHoles {d : String} {s : State} (started : Started d s)
    {calls : List Call} {replies : List Reply} {n : Named}
    (ran : Machine.run namedCall (Named.start s) calls = some (replies, n)) :
    ListsExactly n ↔ NoHoles n.globals :=
  (started.recorded ran).listsExactly_iff

set_option maxRecDepth 100000 in
private theorem twoFiles_state :
    (Machine.run call newDisk [.create nameA, .create nameB]).isSome = true ∧
      NoHoles (afterCalls [.create nameA, .create nameB]) := by
  unfold NoHoles
  decide

/-- Two files, and none deleted. -/
theorem listsExactly_iff_noHoles_two : ∃ replies n,
    Machine.run namedCall (Named.start newDisk) [.create nameA, .create nameB] =
      some (replies, n) ∧ ListsExactly n := by
  obtain ⟨isSome, noHoles⟩ := twoFiles_state
  obtain ⟨replies, ran⟩ := run_afterCalls isSome
  obtain ⟨createdAs, named⟩ := run_namedCall (n := Named.start newDisk) ran
  exact ⟨replies, _, named, (listsExactly_iff_noHoles newDisk_started named).mpr noHoles⟩

/-- Two files are created, and the first of them is deleted. -/
def firstDeleted : List Call := [.create nameA, .create nameB, .delete nameA fun _ => 0]

set_option maxRecDepth 100000 in
private theorem firstDeleted_state :
    (Machine.run call newDisk firstDeleted).isSome = true ∧
      ((afterCalls firstDeleted).directory 0).isUsed = false ∧
      ((afterCalls firstDeleted).directory 1).isUsed = true ∧
      fsListfiles (afterCalls firstDeleted) true (fun _ => true) =
        (0, some [some ⟨[], by decide⟩, none]) := by
  decide

/-- The list has the cleared name of the first entry, and the name of the file that is left is
missing. -/
theorem listing_after_delete :
    Started "disk" newDisk ∧ ∃ replies n,
      Machine.run namedCall (Named.start newDisk) firstDeleted = some (replies, n) ∧
      fsListfiles n.globals true (fun _ => true) = (0, some [some ⟨[], by decide⟩, none]) ∧
      ¬ ListsExactly n := by
  obtain ⟨isSome, unused, isUsed, listed⟩ := firstDeleted_state
  obtain ⟨replies, ran⟩ := run_afterCalls isSome
  obtain ⟨createdAs, named⟩ := run_namedCall (n := Named.start newDisk) ran
  refine ⟨newDisk_started, replies, _, named, listed, fun lists => ?_⟩
  have noHoles := (newDisk_started.recorded named).listsExactly_iff.mp lists
  have filled := noHoles 1 (by decide) 0 (by decide) isUsed
  dsimp only at filled
  rw [unused] at filled
  simp at filled

end OperatingSys.FileSystem
