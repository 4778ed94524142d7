import OperatingSys.FileSystem.Abstract
import OperatingSys.FileSystem.Calls

/-!
# The file system as a store of named byte strings

Every run of the calls other than `fs_delete` on a new disk returns what the abstract store
returns, as long as writes fit and no descriptor is left behind the end of a file by
`fs_truncate`.
-/

namespace OperatingSys.FileSystem

open Search

abbrev FileStore := Store CString Byte maxNumOfFiles maxFileDescriptors

/-- The calls as operations of the store; `delete` is none of them. -/
def FileStore.step (a : FileStore) : Call → Reply × FileStore
  | .create name => (((a.create name).1, []), (a.create name).2)
  | .open name => (((a.openFile name).1, []), (a.openFile name).2)
  | .close fildes => (((a.close fildes).1, []), (a.close fildes).2)
  | .delete _ _ => ((-1, []), a)
  | .read fildes n => (((a.read fildes n).1, (a.read fildes n).2.1), (a.read fildes n).2.2)
  | .write fildes data => (((a.write fildes data).1, []), (a.write fildes data).2)
  | .lseek fildes offset => (((a.seek fildes offset.toInt).1, []), (a.seek fildes offset.toInt).2)
  | .truncate fildes length =>
    (((a.truncate fildes length.toInt).1, []), (a.truncate fildes length.toInt).2)
  | .getFilesize fildes => ((a.size fildes, []), a)

/-- The calls of the interface: names of 1 to 15 characters, writes that end at or below
`MAX_FILESIZE` and find enough free blocks, truncations that leave no other descriptor of
the file behind its new end. -/
def Allowed (s : State) : Call → Prop
  | .create name | .open name => 1 ≤ strlen name ∧ strlen name ≤ maxFileName
  | .delete _ _ => False
  | .write fildes data => s.isOpen fildes = true →
      let fd := s.openFileDescriptors fildes.toNat
      fd.offset + data.length ≤ maxFilesize ∧
        (missingBlocks s fd.inodeNumber.toNat (fd.offset.toNat / blockSize)
          (fd.offset.toNat + data.length)).card ≤ (freeBlocks s).card
  | .truncate fildes length => s.isOpen fildes = true →
      ∀ j < maxFileDescriptors, j ≠ fildes.toNat → (s.openFileDescriptors j).isUsed = true →
        (s.openFileDescriptors j).inodeNumber = (s.openFileDescriptors fildes.toNat).inodeNumber →
        (s.openFileDescriptors j).offset ≤ length.toInt
  | .close _ | .read _ _ | .lseek _ _ | .getFilesize _ => True

/-- A descriptor as the store sees it. -/
def FileDescriptor.view (nm : Nat → CString) (fd : FileDescriptor) : Option (CString × Nat) :=
  if fd.isUsed then some (nm fd.inodeNumber.toNat, fd.offset.toNat) else none

theorem FileDescriptor.view_used (nm : Nat → CString) (i off : Nat) :
    FileDescriptor.view nm ⟨true, i, off⟩ = some (nm i, off) := by
  simp only [FileDescriptor.view, if_true, Int.toNat_natCast]

/-- The globals represent the store `a`. -/
structure Represents (d : String) (nm : Nat → CString) (m : Nat) (s : State) (a : FileStore) :
    Prop where
  consistent : Consistent d nm m s
  names : a.names = (Finset.range m).image nm
  bytes : ∀ e < m, a.bytes (nm e) = s.contents e
  descriptors : ∀ j : Fin maxFileDescriptors,
    a.descriptors j = (s.openFileDescriptors j).view nm

theorem Fresh.represents {d : String} {s : State} (fresh : Fresh d s) (nm : Nat → CString) :
    Represents d nm 0 s Store.empty where
  consistent := fresh.consistent nm
  names := by simp [Store.empty]
  bytes := fun e below => absurd below (Nat.not_lt_zero e)
  descriptors := fun j => by
    simp [Store.empty, FileDescriptor.view, fresh.descriptor j j.isLt]

section Represented

variable {d : String} {nm : Nat → CString} {m : Nat} {s : State} {a : FileStore}
  (represents : Represents d nm m s a)
include represents

theorem Represents.mem_names (name : CString) : name ∈ a.names ↔ ∃ e < m, nm e = name := by
  simp [represents.names]

theorem Represents.card_names : a.names.card = m := by
  rw [represents.names, Finset.card_image_of_injOn, Finset.card_range]
  intro e member e' member' same
  exact represents.consistent.catalogue.different e (Finset.mem_range.mp member) e'
    (Finset.mem_range.mp member') same

/-! ### Descriptors -/

theorem Represents.lookup_closed {fildes : Int} (closed : s.isOpen fildes = false) :
    a.lookup fildes = none := by
  unfold Store.lookup
  split
  next inRange =>
    have unused : (s.openFileDescriptors fildes.toNat).isUsed = false := by
      simpa [State.isOpen, inRange.1, inRange.2] using closed
    simp [represents.descriptors, FileDescriptor.view, unused]
  next => rfl

theorem Represents.lookup_open {j i off : Nat} (inRange : j < maxFileDescriptors)
    (here : At s j i off) : a.lookup j = some (⟨j, inRange⟩, nm i, off) := by
  have bounds : (0 : Int) ≤ j ∧ (j : Int) < maxFileDescriptors := by omega
  rw [At] at here
  simp [Store.lookup, bounds, represents.descriptors, FileDescriptor.view, here]

theorem Represents.lowestFree :
    (firstIndex maxFileDescriptors (fun j => !(s.openFileDescriptors j).isUsed) = none ∧
      a.lowestFree = none) ∨
    ∃ j : Fin maxFileDescriptors, firstIndex maxFileDescriptors
        (fun j => !(s.openFileDescriptors j).isUsed) = some j.val ∧ a.lowestFree = some j := by
  have free : ∀ j : Fin maxFileDescriptors,
      (a.descriptors j).isNone = !(s.openFileDescriptors j).isUsed := by
    intro j
    rw [represents.descriptors, FileDescriptor.view]
    cases (s.openFileDescriptors j).isUsed <;> rfl
  -- both searches go upwards through the same flags
  cases search : firstIndex maxFileDescriptors (fun j => !(s.openFileDescriptors j).isUsed) with
  | none =>
    left
    refine ⟨rfl, Fin.find?_eq_none_iff.mpr fun j => ?_⟩
    rw [free]
    exact firstIndex_eq_none.mp search j j.isLt
  | some j =>
    right
    obtain ⟨inRange, hit, earlier⟩ := firstIndex_eq_some.mp search
    refine ⟨⟨j, inRange⟩, rfl, Fin.find?_eq_some_iff.mpr ⟨?_, fun j' before => ?_⟩⟩
    · rw [free]
      exact hit
    · rw [free]
      exact earlier j' before

/-- Moving one descriptor on both sides. -/
theorem Represents.setDescriptor (j : Fin maxFileDescriptors) (fd : FileDescriptor)
    (points : fd.isUsed = true → ∃ i off : Nat, i < m ∧ fd = ⟨true, i, off⟩ ∧ off ≤ s.fileSize i)
    {view : Option (CString × Nat)} (seen : fd.view nm = view) :
    Represents d nm m (s.storeDescriptor j fd) (a.setDescriptor j view) where
  consistent := represents.consistent.storeDescriptor j points
  names := represents.names
  bytes := represents.bytes
  descriptors := fun j' => by
    simp only [Store.setDescriptor, State.storeDescriptor, Function.update_apply, Fin.val_inj]
    split
    · exact seen.symm
    · exact represents.descriptors j'

/-! ### One call -/

omit represents

/-- The call is defined, replies as the store does and leads to globals that represent the
store's next state. -/
def Simulates (d : String) (s : State) (a : FileStore) (c : Call) : Prop :=
  ∃ next nm m, call s c = some ((FileStore.step a c).1, next) ∧
    Represents d nm m next (FileStore.step a c).2

theorem Simulates.intro {c : Call} {next : State} {a' : FileStore} (reply : Reply)
    (called : call s c = some (reply, next)) (stepped : FileStore.step a c = (reply, a'))
    (represents : Represents d nm m next a') : Simulates d s a c :=
  ⟨next, nm, m, by rw [called, stepped], by rwa [stepped]⟩

include represents

theorem Represents.create_new (a' : FileStore) {name : CString} (new : ∀ e < m, nm e ≠ name)
    (names : a'.names = insert name a.names) (bytes : a'.bytes = Function.update a.bytes name [])
    (descriptors : a'.descriptors = a.descriptors)
    (consistent : Consistent d (Function.update nm m name) (m + 1) (s.created m name)) :
    Represents d (Function.update nm m name) (m + 1) (s.created m name) a' := by
  have other : ∀ e < m, Function.update nm m name e = nm e := fun e file =>
    Function.update_of_ne (Nat.ne_of_lt file) _ _
  refine ⟨consistent, ?_, fun e file => ?_, fun j => ?_⟩
  · rw [names, represents.names, Finset.range_add_one, Finset.image_insert, Function.update_self]
    congr 1
    exact Finset.image_congr fun e member => (other e (Finset.mem_range.mp member)).symm
  · rw [bytes]
    -- the new file is empty, the others are as they were
    by_cases last : e = m
    · subst last
      rw [Function.update_self, Function.update_self, State.contents, created_fileSize, if_pos rfl]
      rfl
    · have file' : e < m := by omega
      rw [other e file', Function.update_of_ne (new e file'),
        created_contents represents.consistent name file', represents.bytes e file']
  · rw [descriptors, represents.descriptors]
    change FileDescriptor.view nm (s.openFileDescriptors j) =
      FileDescriptor.view _ (s.openFileDescriptors j)
    unfold FileDescriptor.view
    split
    next isUsed =>
      -- open descriptors are of old files, whose names stay
      obtain ⟨i, off, file, points, -⟩ := represents.consistent.extent.descriptor j j.isLt isUsed
      rw [points, Int.toNat_natCast, other i file]
    next => rfl

theorem Represents.create {name : CString} (length : 1 ≤ strlen name ∧ strlen name ≤ maxFileName) :
    Simulates d s a (.create name) := by
  have card := represents.card_names
  have member := represents.mem_names name
  rcases fsCreate_spec represents.consistent name with ⟨refused, eq⟩ | ⟨-, new, room, eq, consistent⟩
  · refine Simulates.intro (-1, []) (by simp only [call, plain, eq]) ?_ represents
    simp only [FileStore.step, Store.create, member]
    rcases refused with exceeds | zero | exists_ | full
    · omega
    · omega
    · rw [if_pos exists_]
    · rw [dif_neg (by omega), ite_self]
  · have absent : ¬ ∃ e < m, nm e = name := by
      rintro ⟨e, file, same⟩
      exact new e file same
    have room' : a.names.card < maxNumOfFiles := card ▸ room
    refine Simulates.intro (0, []) (by simp only [call, plain, eq]) ?_
      (represents.create_new (a.create name).2 new ?_ ?_ ?_ consistent)
    all_goals
      simp only [FileStore.step, Store.create, member, absent, if_false, dif_pos room']

theorem Represents.open {name : CString} (fits : strlen name ≤ maxFileName) :
    Simulates d s a (.open name) := by
  have catalogue := represents.consistent.catalogue
  by_cases exists_ : ∃ e < m, nm e = name
  · have member : name ∈ a.names := (represents.mem_names name).mpr exists_
    obtain ⟨e, file, named⟩ := exists_
    have found := fsOpen_found catalogue fits file named
    rcases represents.lowestFree with ⟨none_, none'⟩ | ⟨j, some_, some'⟩
    · refine Simulates.intro (-1, []) ?_ ?_ represents
      · simp only [call, plain, found, none_]
      · simp only [FileStore.step, Store.openFile, member, if_true, none']
    · refine Simulates.intro (j, []) ?_ ?_ (represents.setDescriptor j ⟨true, e, 0⟩
        (fun _ => ⟨e, 0, file, rfl, Nat.zero_le _⟩) (FileDescriptor.view_used nm e 0))
      · simp only [call, plain, found, some_]
      · simp only [FileStore.step, Store.openFile, member, if_true, some', named]
  · have absent : ∀ e < m, nm e ≠ name := fun e file same => exists_ ⟨e, file, same⟩
    have notMember : name ∉ a.names := fun h => exists_ ((represents.mem_names name).mp h)
    refine Simulates.intro (-1, []) ?_ ?_ represents
    · simp only [call, plain, fsOpen_absent catalogue fits absent]
    · simp only [FileStore.step, Store.openFile, notMember, if_false]

theorem Represents.close (fildes : Int) : Simulates d s a (.close fildes) := by
  rcases represents.consistent.descriptor_cases fildes with
    closed | ⟨j, i, off, rfl, inRange, isOpen, file, here, -⟩
  · refine Simulates.intro (-1, []) ?_ ?_ represents
    · simp only [call, plain, fsClose_closed closed]
    · simp only [FileStore.step, Store.close, represents.lookup_closed closed]
  · refine Simulates.intro (0, []) ?_ ?_ (represents.setDescriptor ⟨j, inRange⟩ ⟨false, 0, 0⟩
      (fun isUsed => absurd isUsed (by decide)) rfl)
    · simp only [call, plain, fsClose_open isOpen]
    · simp only [FileStore.step, Store.close, represents.lookup_open inRange here]
      rfl

theorem Represents.read (fildes : Int) (nbyte : Nat) : Simulates d s a (.read fildes nbyte) := by
  rcases represents.consistent.descriptor_cases fildes with
    closed | ⟨j, i, off, rfl, inRange, isOpen, file, here, inFile⟩
  · refine Simulates.intro (-1, []) ?_ ?_ represents
    · simp only [call, fsRead, closed, Bool.not_false, if_true, Option.map_some]
    · simp only [FileStore.step, Store.read, represents.lookup_closed closed]
  · have spec := fsRead_spec represents.consistent.readable isOpen file here inFile nbyte
    have within : off + (((s.contents i).drop off).take nbyte).length ≤ s.fileSize i := by
      rw [List.length_take, List.length_drop, State.length_contents]
      omega
    refine Simulates.intro ((((s.contents i).drop off).take nbyte).length, ((s.contents i).drop off).take nbyte) ?_ ?_
      (represents.setDescriptor ⟨j, inRange⟩ _ (fun _ => ⟨i, _, file, rfl, within⟩) (FileDescriptor.view_used nm i _))
    · simp only [call, spec, Option.map_some]
    · simp only [FileStore.step, Store.read, represents.lookup_open inRange here,
        represents.bytes i file]

theorem Represents.write {fildes : Int} {data : List Byte} (allowed : Allowed s (.write fildes data)) :
    Simulates d s a (.write fildes data) := by
  rcases represents.consistent.descriptor_cases fildes with
    closed | ⟨j, i, off, rfl, inRange, isOpen, file, here, inFile⟩
  · refine Simulates.intro (-1, []) ?_ ?_ represents
    · simp only [call, fsWrite, closed, Bool.not_false, if_true, Option.map_some]
    · simp only [FileStore.step, Store.write, represents.lookup_closed closed]
  · obtain ⟨within, enough⟩ := allowed isOpen
    have here' := here
    rw [At] at here'
    simp only [Int.toNat_natCast, here'] at within enough
    obtain ⟨r, s', spec, consistent, done⟩ :=
      fsWrite_spec represents.consistent isOpen file here inFile data (by omega)
    -- the blocks that are left are enough, so that all data gets written
    obtain ⟨rfl, wrote⟩ := done enough
    refine Simulates.intro (data.length, []) ?_ ?_
      (show Represents d nm m s' (a.write j data).2 from
        ⟨consistent, ?_, fun e file' => ?_, fun j' => ?_⟩)
    · simp only [call, spec, Option.map_some]
    all_goals
      simp only [FileStore.step, Store.write, represents.lookup_open inRange here,
        Store.setDescriptor, Store.setBytes, Function.update_apply]
    · exact represents.names
    · split
      next same =>
        rw [represents.consistent.catalogue.different e file' i file same, represents.bytes i file]
        exact wrote.written.symm
      next other =>
        rw [wrote.rest e file' (fun eq => other (by rw [eq])), represents.bytes e file']
    · split
      next same =>
        have moved := wrote.moved
        rw [At] at moved
        rw [same, moved, FileDescriptor.view_used]
      next other =>
        rw [wrote.others j' (fun eq => other (Fin.ext eq)), represents.descriptors]

theorem Represents.lseek (fildes : Int) (offset : BitVec 64) :
    Simulates d s a (.lseek fildes offset) := by
  rcases represents.consistent.descriptor_cases fildes with
    closed | ⟨j, i, off, rfl, inRange, isOpen, file, here, inFile⟩
  · refine Simulates.intro (-1, []) ?_ ?_ represents
    · simp only [call, plain, fsLseek, closed, Bool.not_false, if_true]
    · simp only [FileStore.step, Store.seek, represents.lookup_closed closed]
  · have spec := fsLseek_spec represents.consistent isOpen file here offset
    have lookup := represents.lookup_open inRange here
    have bytes := represents.bytes i file
    by_cases inside : 0 ≤ offset.toInt ∧ offset.toInt ≤ s.fileSize i
    · have natural := Int.toNat_of_nonneg inside.1
      refine Simulates.intro (0, []) ?_ ?_ (represents.setDescriptor ⟨j, inRange⟩ _
        (fun _ => ⟨i, offset.toInt.toNat, file, rfl, by omega⟩) (FileDescriptor.view_used nm i _))
      · simp only [call, plain, spec, if_pos inside, natural]
      · simp only [FileStore.step, Store.seek, lookup, bytes, State.length_contents, if_pos inside]
    · refine Simulates.intro (-1, []) ?_ ?_ represents
      · simp only [call, plain, spec, if_neg inside]
      · simp only [FileStore.step, Store.seek, lookup, bytes, State.length_contents, if_neg inside]

theorem Represents.truncate {fildes : Int} {length : BitVec 64}
    (allowed : Allowed s (.truncate fildes length)) : Simulates d s a (.truncate fildes length) := by
  rcases represents.consistent.descriptor_cases fildes with
    closed | ⟨j, i, off, rfl, inRange, isOpen, file, here, inFile⟩
  · refine Simulates.intro (-1, []) ?_ ?_ represents
    · simp only [call, plain, fsTruncate, closed, Bool.not_false, if_true]
    · simp only [FileStore.step, Store.truncate, represents.lookup_closed closed]
  · have spec := fsTruncate_spec represents.consistent isOpen file here length
    have lookup := represents.lookup_open inRange here
    have bytes := represents.bytes i file
    by_cases inside : 0 ≤ length.toInt ∧ length.toInt ≤ s.fileSize i
    · have shorter : length.toInt.toNat ≤ s.fileSize i := by omega
      have natural : (length.toInt.toNat : Int) = length.toInt := Int.toNat_of_nonneg inside.1
      -- no other descriptor lies behind the new end
      have others := allowed isOpen
      have here' := here
      rw [At] at here'
      simp only [Int.toNat_natCast, here'] at others
      rw [← natural] at others
      refine Simulates.intro (0, []) ?_ ?_
        (show Represents d nm m _ (a.truncate j length.toInt).2 from
          ⟨represents.consistent.truncated (j := j) file shorter others, ?_, fun e file' => ?_,
            fun j' => ?_⟩)
      · simp only [call, plain, spec, if_pos inside]
      all_goals
        simp only [FileStore.step, Store.truncate, lookup, bytes, State.length_contents,
          if_pos inside, Store.setDescriptor, Store.setBytes, Function.update_apply]
      · exact represents.names
      · rw [truncated_contents represents.consistent file shorter file']
        by_cases same : e = i
        · rw [if_pos (by rw [same]), if_pos same]
        · rw [if_neg same, if_neg, represents.bytes e file']
          exact fun eq => same (represents.consistent.catalogue.different e file' i file eq)
      · simp only [State.truncated, State.storeDescriptor, State.storeWord, Function.update_apply]
        by_cases same : j' = ⟨j, inRange⟩
        · rw [if_pos same, if_pos (by rw [same]), FileDescriptor.view_used]
        · rw [if_neg same, if_neg (fun eq => same (Fin.ext eq)), represents.descriptors]
    · refine Simulates.intro (-1, []) ?_ ?_ represents
      · simp only [call, plain, spec, if_neg inside]
      · simp only [FileStore.step, Store.truncate, lookup, bytes, State.length_contents,
          if_neg inside]

theorem Represents.getFilesize (fildes : Int) : Simulates d s a (.getFilesize fildes) := by
  rcases represents.consistent.descriptor_cases fildes with
    closed | ⟨j, i, off, rfl, inRange, isOpen, file, here, -⟩
  · refine Simulates.intro (-1, []) ?_ ?_ represents
    · simp only [call, plain, fsGetFilesize, closed, Bool.not_false, if_true]
    · simp only [FileStore.step, Store.size, represents.lookup_closed closed]
  · refine Simulates.intro (s.fileSize i, []) ?_ ?_ represents
    · simp only [call, plain, fsGetFilesize_spec represents.consistent isOpen file here]
    · simp only [FileStore.step, Store.size, represents.lookup_open inRange here,
        represents.bytes i file, State.length_contents]

theorem Represents.simulates (c : Call) (allowed : Allowed s c) : Simulates d s a c := by
  cases c with
  | create name => exact represents.create allowed
  | «open» name => exact represents.open allowed.2
  | close fildes => exact represents.close fildes
  | delete name beyond => exact absurd allowed id
  | read fildes nbyte => exact represents.read fildes nbyte
  | write fildes data => exact represents.write allowed
  | lseek fildes offset => exact represents.lseek fildes offset
  | truncate fildes length => exact represents.truncate allowed
  | getFilesize fildes => exact represents.getFilesize fildes

end Represented

/-- **Refinement.** On a new disk every allowed run of calls, of any length, is defined, and
its return values and the bytes it delivers are those of the store. -/
theorem fileSystem_refines_store {d : String} {s : State} (started : Started d s)
    {calls : List Call} (allowed : Machine.Admits call Allowed s calls) :
    ∃ t, Machine.run call s calls =
      some ((Machine.total FileStore.step Store.empty calls).1, t) := by
  obtain ⟨t, ran, -⟩ := Machine.simulation
    (fun s a => ∃ nm m, Represents d nm m s a) FileStore.step
    (fun s a c ⟨nm, m, represents⟩ ok => by
      obtain ⟨next, nm', m', called, represents'⟩ := represents.simulates c ok
      exact ⟨next, called, nm', m', represents'⟩)
    ⟨fun _ => ⟨[], by simp⟩, 0, started.fresh.represents _⟩ allowed
  exact ⟨t, ran⟩

/-- Write three bytes, go back, read two of them. -/
def writeThenRead : List Call :=
  [.create nameA, .open nameA, .write 0 [1#8, 2#8, 3#8], .lseek 0 0,
    .read 0 2]

set_option maxRecDepth 100000 in
theorem fileSystem_refines_store_run :
    ∃ t, Machine.run call newDisk writeThenRead =
      some ([(0, []), (0, []), (3, []), (0, []), (2, [1, 2])], t) := by
  have reached : Machine.Reaches call Growing newDisk
      (fsOpen (fsCreate newDisk nameA).2 nameA).2 :=
    ⟨[.create nameA, .open nameA], _, by decide, rfl⟩
  obtain ⟨nm, m, consistent⟩ := newDisk_started.consistent reached
  have enough := consistent.allotted.enough (by decide)
  refine @fileSystem_refines_store _ _ newDisk_started writeThenRead
    ⟨⟨by decide, by decide⟩, ?_⟩
  rintro _ _ ⟨⟩
  refine ⟨⟨by decide, by decide⟩, ?_⟩
  rintro _ _ ⟨⟩
  refine ⟨fun _ => ⟨by decide, enough _ _ _⟩, fun _ _ _ => ⟨trivial, fun _ _ _ => ⟨trivial, ?_⟩⟩⟩
  exact fun _ _ _ => trivial

end OperatingSys.FileSystem
