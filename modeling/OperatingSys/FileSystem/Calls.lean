import OperatingSys.FileSystem.Writing

/-!
# Calls on a consistent file system

One specification for each call, in terms of names, contents and descriptors. Every call
but `fs_delete` leads from a consistent file system to a consistent one.
-/

namespace OperatingSys.FileSystem

open Search

section Calls

variable {d : String} {nm : Nat → CString} {m : Nat} {s : State}

/-! ### Creating -/

/-- The globals after file `m` has been created. -/
abbrev State.created (s : State) (m : Nat) (name : CString) : State :=
  (s.initInode m).storeEntry m
    { isUsed := true, inodeNumber := BitVec.ofNat 32 m, name := strncpy name }

theorem created_catalogue (catalogue : Catalogue nm m s) {name : CString}
    (fits : strlen name ≤ maxFileName) (new : ∀ e < m, nm e ≠ name) (room : m < maxNumOfFiles) :
    Catalogue (Function.update nm m name) (m + 1) (s.created m name) := by
  -- entry `m` is the new one, and the entries before it are as they were
  have entry : ∀ e, (s.created m name).directory e =
      if e = m then ⟨true, BitVec.ofNat 32 m, strncpy name⟩ else s.directory e := by
    intro e
    simp only [State.created, State.storeEntry, Function.update_apply, State.initInode_directory]
  refine ⟨catalogue.mounted, room, fun e below => ?_, fun e file => ?_, fun i below => ?_,
    fun e file => ?_, fun e file => ?_, fun e file e' file' same => ?_⟩
  · rw [entry]
    split
    next here => simp [here]
    next elsewhere =>
      rw [catalogue.isUsed e below, decide_eq_decide]
      omega
  · rw [entry]
    split
    next here => rw [here]
    next elsewhere => exact catalogue.number e (by omega)
  · change (s.initInode m).fileType i = 0 ↔ _
    rw [State.initInode_fileType]
    split
    next here =>
      exact iff_of_false (by decide) (by omega)
    next elsewhere =>
      rw [catalogue.untyped i below]
      omega
  · rw [entry, Function.update_apply]
    split
    · rfl
    next elsewhere => exact catalogue.named e (by omega)
  · rw [Function.update_apply]
    split
    · exact fits
    next elsewhere => exact catalogue.short e (by omega)
  -- the names stay different, since the new one is not among the old ones
  · rw [Function.update_apply, Function.update_apply] at same
    split at same
    next here =>
      split at same
      next there => omega
      next elsewhere => exact absurd same.symm (new e' (by omega))
    next elsewhere =>
      split at same
      next there => exact absurd same (new e (by omega))
      next => exact catalogue.different e (by omega) e' (by omega) same

theorem created_directOffset (i : Nat) {k : Nat} (below : k < directCount) (name : CString) :
    (s.created m name).directOffset i k = if i = m then 0 else s.directOffset i k :=
  State.initInode_directOffset s m i below

theorem created_fileSize (i : Nat) (name : CString) :
    (s.created m name).fileSize i = if i = m then 0 else s.fileSize i :=
  State.initInode_fileSize s m i

theorem created_contents (consistent : Consistent d nm m s) (name : CString) {i : Nat}
    (file : i < m) : (s.created m name).contents i = s.contents i := by
  -- the new inode is not one of the old files'
  have other : i ≠ m := Nat.ne_of_lt file
  have size : (s.created m name).fileSize i = s.fileSize i := by
    rw [created_fileSize, if_neg other]
  refine State.contents_congr size fun p inside => ?_
  have inFile : p / blockSize * blockSize < s.fileSize i := blockStart_lt inside
  have below := index_lt_directCount inFile (consistent.extent.size i file)
  have pointer := created_directOffset (s := s) (m := m) i below name
  rw [if_neg other] at pointer
  simp only [State.byteAt, pointer]
  rfl

theorem Consistent.created (consistent : Consistent d nm m s) {name : CString}
    (fits : strlen name ≤ maxFileName) (new : ∀ e < m, nm e ≠ name) (room : m < maxNumOfFiles)
    (owned : BlocksOwned (s.created m name)) :
    Consistent d (Function.update nm m name) (m + 1) (s.created m name) where
  catalogue := created_catalogue consistent.catalogue fits new room
  allotted := { consistent.allotted with
    -- the new file has no blocks, so that those taken are still the others'
    taken := fun b bit => by
      obtain ⟨i, file, k, below, block⟩ := consistent.allotted.taken b bit
      refine ⟨i, Nat.lt_succ_of_lt file, k, below, ?_⟩
      rw [created_directOffset i below, if_neg (Nat.ne_of_lt file)]
      exact block }
  owned := owned
  extent := {
    size := fun i file => by
      rw [created_fileSize]
      split
      · exact Nat.zero_le _
      · exact consistent.extent.size i (by omega)
    covered := fun i file k inFile => by
      rw [created_fileSize] at inFile
      split at inFile
      · omega
      next other =>
        have below := index_lt_directCount inFile (consistent.extent.size i (by omega))
        rw [created_directOffset i below, if_neg other]
        exact consistent.extent.covered i (by omega) k inFile
    descriptor := fun j inRange isUsed => by
      obtain ⟨i, off, file, points, inFile⟩ := consistent.extent.descriptor j inRange isUsed
      refine ⟨i, off, Nat.lt_succ_of_lt file, points, ?_⟩
      rw [created_fileSize, if_neg (Nat.ne_of_lt file)]
      exact inFile }

/-- A new name of the right length is created while there are fewer than 64 files. -/
theorem Catalogue.fsCreate_eq (catalogue : Catalogue nm m s) {name : CString}
    (nonempty : strlen name ≠ 0) (fits : strlen name ≤ maxFileName) (new : ∀ e < m, nm e ≠ name) :
    fsCreate s name = if m < maxNumOfFiles then (0, s.created m name) else (-1, s) := by
  have creates : Creates s name := ⟨catalogue.mounted, nonempty, fits, fun e inRange isUsed hit => by
    have match_ := (catalogue.matches_iff fits inRange).mp (by simp [isUsed, hit])
    exact new e match_.1 match_.2⟩
  -- entry `m` and inode `m` are the first free ones
  have inode : firstIndex maxNumOfFiles (fun i => decide (s.fileType i = 0)) =
      if m < maxNumOfFiles then some m else none :=
    firstIndex_filled catalogue.bound fun i below => by
      rw [decide_eq_true_eq, catalogue.untyped i below]
  have entry : firstIndex maxNumOfFiles (fun e => !((s.initInode m).directory e).isUsed) =
      if m < maxNumOfFiles then some m else none :=
    firstIndex_filled catalogue.bound fun e below => by
      rw [State.initInode_directory, catalogue.isUsed e below]
      simp
  rw [creates.fsCreate_eq, inode]
  by_cases room : m < maxNumOfFiles
  · rw [if_pos room] at entry
    simp only [if_pos room, entry]
  · simp only [if_neg room]

/-- `fs_create` refuses a name of the wrong length, a name that exists and a 65th file; else
it creates an empty file. -/
theorem fsCreate_spec (consistent : Consistent d nm m s) (name : CString) :
    ((strlen name > maxFileName ∨ strlen name = 0 ∨ (∃ e < m, nm e = name) ∨ m = maxNumOfFiles) ∧
      fsCreate s name = (-1, s)) ∨
    (strlen name ≤ maxFileName ∧ (∀ e < m, nm e ≠ name) ∧ m < maxNumOfFiles ∧
      fsCreate s name = (0, s.created m name) ∧
      Consistent d (Function.update nm m name) (m + 1) (s.created m name)) := by
  have catalogue := consistent.catalogue
  have owned := fsCreate_owned name consistent.directorySound consistent.owned
  by_cases length : strlen name > maxFileName ∨ strlen name = 0
  · left
    exact ⟨by omega, by rw [fsCreate, if_pos length]⟩
  · have fits : strlen name ≤ maxFileName := by omega
    by_cases exists_ : ∃ e < m, nm e = name
    · left
      obtain ⟨e, file, named⟩ := exists_
      refine ⟨Or.inr (Or.inr (Or.inl ⟨e, file, named⟩)), ?_⟩
      have found := catalogue.search_eq (fun e => catalogue.matches_iff fits) file named
      simp only [fsCreate, if_neg length, if_neg catalogue.mounted, found, Option.isSome_some,
        if_true]
    · have new : ∀ e < m, nm e ≠ name := fun e file named => exists_ ⟨e, file, named⟩
      have created := catalogue.fsCreate_eq (by omega) fits new
      by_cases room : m < maxNumOfFiles
      · right
        rw [if_pos room] at created
        rw [created] at owned
        exact ⟨fits, new, room, created, consistent.created fits new room owned⟩
      · left
        have bound := catalogue.bound
        rw [if_neg room] at created
        exact ⟨by omega, created⟩

/-! ### Opening and closing -/

/-- The descriptor table as every descriptor operation finds it. -/
theorem Consistent.descriptor_cases (consistent : Consistent d nm m s) (fildes : Int) :
    s.isOpen fildes = false ∨ ∃ j i off : Nat, fildes = j ∧ j < maxFileDescriptors ∧
      s.isOpen j = true ∧ i < m ∧ At s j i off ∧ off ≤ s.fileSize i := by
  cases isOpen : s.isOpen fildes with
  | false => exact Or.inl rfl
  | true =>
    right
    have inRange := isOpen_toNat_lt isOpen
    have fields := isOpen
    simp only [State.isOpen, Bool.and_eq_true, decide_eq_true_eq] at fields
    have eq : fildes = (fildes.toNat : Nat) := by omega
    obtain ⟨i, off, file, points, inFile⟩ :=
      consistent.extent.descriptor fildes.toNat inRange fields.2
    exact ⟨fildes.toNat, i, off, eq, inRange, eq ▸ isOpen, file, points, inFile⟩

/-- Opening a name that fits its field: the lowest free descriptor, at the start of the file
of that name. -/
theorem fsOpen_found (catalogue : Catalogue nm m s) {name : CString}
    (fits : strlen name ≤ maxFileName) {e : Nat} (file : e < m) (named : nm e = name) :
    fsOpen s name =
      match firstIndex maxFileDescriptors (fun j => !(s.openFileDescriptors j).isUsed) with
      | none => (-1, s)
      | some j => (j, s.storeDescriptor j ⟨true, e, 0⟩) := by
  have found : firstIndex maxNumOfFiles (fun i => (s.directory i).isUsed &&
      decide (strncmp name.1 (List.ofFn (s.directory i).name) maxFileName = 0)) = some e := by
    simp only [strncmp_comm_zero name.1]
    exact catalogue.search_eq (fun e => catalogue.matches_iff fits) file named
  cases free : firstIndex maxFileDescriptors (fun j => !(s.openFileDescriptors j).isUsed) with
  | none => simp only [fsOpen, if_neg catalogue.mounted, found, free]
  | some j => simp only [fsOpen, if_neg catalogue.mounted, found, free, catalogue.number_toInt file]

theorem fsOpen_absent (catalogue : Catalogue nm m s) {name : CString}
    (fits : strlen name ≤ maxFileName) (absent : ∀ e < m, nm e ≠ name) :
    fsOpen s name = (-1, s) := by
  have missing : firstIndex maxNumOfFiles (fun i => (s.directory i).isUsed &&
      decide (strncmp name.1 (List.ofFn (s.directory i).name) maxFileName = 0)) = none := by
    simp only [strncmp_comm_zero name.1]
    refine firstIndex_eq_none.mpr fun e inRange => ?_
    rw [← Bool.not_eq_true, catalogue.matches_iff fits inRange]
    exact fun h => absent e h.1 h.2
  simp only [fsOpen, if_neg catalogue.mounted, missing]

/-- Opening any name at all. -/
theorem Consistent.open (consistent : Consistent d nm m s) (name : CString) :
    Consistent d nm m (fsOpen s name).2 := by
  have catalogue := consistent.catalogue
  unfold fsOpen
  rw [if_neg catalogue.mounted]
  dsimp only
  split
  · exact consistent
  next e found =>
    split
    · exact consistent
    next j free =>
      obtain ⟨inRange, hit, -⟩ := firstIndex_eq_some.mp found
      have file : e < m := by
        rw [Bool.and_eq_true, catalogue.isUsed e inRange] at hit
        exact of_decide_eq_true hit.1
      rw [catalogue.number_toInt file]
      exact consistent.storeDescriptor j fun _ => ⟨e, 0, file, rfl, Nat.zero_le _⟩

theorem fsClose_closed {fildes : Int} (closed : s.isOpen fildes = false) :
    fsClose s fildes = (-1, s) := by
  rw [State.isOpen, Bool.and_eq_false_iff, Bool.and_eq_false_iff, decide_eq_false_iff_not,
    decide_eq_false_iff_not] at closed
  unfold fsClose
  by_cases outside : fildes < 0 ∨ fildes ≥ maxFileDescriptors
  · rw [if_pos outside]
  · have unused : (s.openFileDescriptors fildes.toNat).isUsed = false := by
      rcases closed with range | unused
      · omega
      · exact unused
    simp [outside, unused]

theorem fsClose_open {j : Nat} (isOpen : s.isOpen j = true) :
    fsClose s j = (0, s.storeDescriptor j ⟨false, 0, 0⟩) := by
  simp only [State.isOpen, Bool.and_eq_true, decide_eq_true_eq, Int.toNat_natCast] at isOpen
  have inside : ¬ ((j : Int) < 0 ∨ (j : Int) ≥ maxFileDescriptors) := by omega
  simp only [fsClose, inside, if_false, Int.toNat_natCast, isOpen.2, Bool.not_true,
    Bool.false_eq_true]

theorem Consistent.close (consistent : Consistent d nm m s) (fildes : Int) :
    Consistent d nm m (fsClose s fildes).2 := by
  rcases consistent.descriptor_cases fildes with closed | ⟨j, _, _, rfl, _, isOpen, _, _, _⟩
  · rw [fsClose_closed closed]
    exact consistent
  · rw [fsClose_open isOpen]
    exact consistent.storeDescriptor j fun isUsed => absurd isUsed (by decide)

/-! ### Reading, writing -/

theorem storeDescriptor_self (s : State) (j : Nat) :
    s.storeDescriptor j (s.openFileDescriptors j) = s := by
  simp [State.storeDescriptor]

/-- The bytes of a segment of a file, one by one. -/
theorem contents_segment (s : State) (i off n : Nat) :
    ((s.contents i).drop off).take n =
      (List.range (min n (s.fileSize i - off))).map fun r => s.byteAt i (off + r) := by
  apply List.ext_getElem?
  intro r
  rw [List.getElem?_take, List.getElem?_drop, State.getElem?_contents, List.getElem?_map]
  by_cases inside : r < min n (s.fileSize i - off)
  · rw [if_pos (by omega), if_pos (by omega), List.getElem?_range inside, Option.map_some]
  · have past : (List.range (min n (s.fileSize i - off)))[r]? = none :=
      List.getElem?_eq_none (by rw [List.length_range]; omega)
    rw [past, Option.map_none]
    split
    · rw [if_neg (by omega)]
    · rfl

private theorem segment_end {off size : Nat} (inFile : off ≤ size) (n : Nat) :
    off + min n (size - off) ≤ size := by
  omega

private theorem toInt32_add {off n size : Nat} (ends : off + n ≤ size) (small : size < 2 ^ 31) :
    toInt32 ((off : Int) + n) = ((off + n : Nat) : Int) := by
  rw [show (off : Int) + n = (off + n : Nat) by omega]
  exact toInt32_of_small (by omega) (by omega)

/-- `fs_read` delivers the bytes from the offset on. -/
theorem fsRead_spec (readable : Readable d nm m s) {j i off : Nat} (isOpen : s.isOpen j = true)
    (file : i < m) (here : At s j i off) (inFile : off ≤ s.fileSize i) (nbyte : Nat) :
    fsRead s j nbyte = some (((((s.contents i).drop off).take nbyte).length : Int),
      ((s.contents i).drop off).take nbyte,
      s.storeDescriptor j ⟨true, i,
        (off + (((s.contents i).drop off).take nbyte).length : Nat)⟩) := by
  have isFile := (readable.catalogue.isFile_iff i).mpr file
  have small : s.fileSize i < 2 ^ 31 :=
    Nat.lt_of_le_of_lt (readable.extent.size i file) (by decide)
  have here' := here
  rw [At] at here'
  -- a file is shorter than 2^31 bytes, so that the mixed `int` arithmetic of the source is exact
  have remaining : toInt32 ((s.fileSize i : Int) - off) = (s.fileSize i - off : Nat) := by
    rw [show (s.fileSize i : Int) - off = (s.fileSize i - off : Nat) by omega]
    exact toInt32_of_small (by omega) (by omega)
  have unsigned : toULong ((s.fileSize i - off : Nat) : Int) = s.fileSize i - off := by
    rw [toULong_of_small (by omega) (by omega), Int.toNat_natCast]
  have requested : (if nbyte < s.fileSize i - off then toInt32 nbyte
      else ((s.fileSize i - off : Nat) : Int)) = (min nbyte (s.fileSize i - off) : Nat) := by
    split
    next less =>
      rw [toInt32_of_small (by omega) (by omega)]
      omega
    next => omega
  have segment := contents_segment s i off nbyte
  have length : (((s.contents i).drop off).take nbyte).length =
      min nbyte (s.fileSize i - off) := by
    rw [segment, List.length_map, List.length_range]
  simp only [fsRead, isOpen, Bool.not_true, Bool.false_eq_true, if_false, Int.toNat_natCast, here',
    isFile, remaining, unsigned, requested, length]
  -- nothing is left to read, or the loop runs over the blocks of the segment
  by_cases empty : min nbyte (s.fileSize i - off) = 0
  · have still := storeDescriptor_self s j
    rw [here'] at still
    rw [segment, empty, Nat.add_zero, still]
    rfl
  · have positive : ¬ ((min nbyte (s.fileSize i - off) : Nat) : Int) ≤ 0 := by omega
    have nonneg : ¬ (off : Int) < 0 := by omega
    have ends := segment_end inFile nbyte
    have moved := toInt32_add ends small
    have loop := fsReadLoop_eq readable file (min nbyte (s.fileSize i - off))
      (off / blockSize) (off % blockSize) _ (Nat.le_refl _)
      (Nat.mod_lt _ (by decide)) (by
        intro _
        rw [Nat.div_add_mod']
        exact ends)
    simp only [Nat.div_add_mod', ← segment] at loop
    simp only [positive, nonneg, if_false, loop, length, moved]

section Descriptor

variable {j i off : Nat} (consistent : Consistent d nm m s) (isOpen : s.isOpen j = true)
  (file : i < m) (here : At s j i off) (inFile : off ≤ s.fileSize i)
include consistent isOpen file here

include inFile in
/-- `fs_write` ends in a consistent file system and, if there are free blocks enough, has
written all of the data. -/
theorem fsWrite_spec (data : List Byte) (within : off + data.length ≤ maxFilesize) :
    ∃ r s', fsWrite s j data = some (r, s') ∧ Consistent d nm m s' ∧
      ((missingBlocks s i (off / blockSize) (off + data.length)).card ≤ (freeBlocks s).card →
        r = data.length ∧ Wrote m s s' j i off data) := by
  have isFile := (consistent.catalogue.isFile_iff i).mpr file
  have limit : maxFilesize = 1048576 := rfl
  have here' := here
  rw [At] at here'
  obtain ⟨ended, s', loop, consistent', wrote, done⟩ := fsWriteLoop_spec file data.length
    s (off / blockSize) (off % blockSize) data consistent here inFile
    (Nat.le_refl _) (fun _ => (Nat.div_add_mod' off blockSize).symm)
    (Nat.mod_lt _ (by decide)) within
  have nonneg : ¬ ((off : Int) < 0 ∧ (!data.isEmpty) = true) := by omega
  have returned : toInt32 (data.length : Int) = data.length :=
    toInt32_of_small (by omega) (by omega)
  -- the loop has stopped early only if the disk was too full
  cases ended with
  | false =>
    refine ⟨-1, s', ?_, consistent', fun enough => absurd (done enough) (by decide)⟩
    simp only [fsWrite, isOpen, Bool.not_true, Bool.false_eq_true, if_false, Int.toNat_natCast,
      here', isFile, nonneg, loop]
  | true =>
    refine ⟨data.length, s', ?_, consistent', fun _ => ⟨rfl, wrote rfl⟩⟩
    simp only [fsWrite, isOpen, Bool.not_true, Bool.false_eq_true, if_false, Int.toNat_natCast,
      here', isFile, nonneg, loop, returned]

theorem fsGetFilesize_spec : fsGetFilesize s j = s.fileSize i := by
  have catalogue := consistent.catalogue
  have small : s.fileSize i < 2 ^ 31 :=
    Nat.lt_of_le_of_lt (consistent.extent.size i file) (by decide)
  have here' := here
  rw [At] at here'
  -- the search by inode number finds the file's own entry, which is number `i`
  have found : firstIndex maxNumOfFiles (fun e => (s.directory e).isUsed &&
      decide ((s.directory e).inodeNumber.toInt = (i : Int))) = some i := by
    refine firstIndex_eq_some.mpr ⟨catalogue.below file, ?_, fun e before => ?_⟩
    · simp [catalogue.isUsed i (catalogue.below file), file, catalogue.number_toInt file]
    · have other : (e : Int) ≠ i := by omega
      simp [catalogue.number_toInt (Nat.lt_trans before file), other]
  simp only [fsGetFilesize, isOpen, Bool.not_true, Bool.false_eq_true, if_false,
    Int.toNat_natCast, here', found, catalogue.number_toInt file]
  exact toInt32_of_small (by omega) (by omega)

/-- `fs_lseek` accepts the positions from the start to the end of the file. -/
theorem fsLseek_spec (offset : BitVec 64) :
    fsLseek s j offset.toInt =
      if 0 ≤ offset.toInt ∧ offset.toInt ≤ s.fileSize i
      then (0, s.storeDescriptor j ⟨true, i, offset.toInt⟩) else (-1, s) := by
  have isFile := (consistent.catalogue.isFile_iff i).mpr file
  have small : s.fileSize i < 2 ^ 31 :=
    Nat.lt_of_le_of_lt (consistent.extent.size i file) (by decide)
  have here' := here
  rw [At] at here'
  -- `offset > file_size` compares as unsigned, after the test for negative offsets
  have upper := BitVec.toInt_lt (x := offset)
  simp only [fsLseek, isOpen, Bool.not_true, Bool.false_eq_true, if_false, Int.toNat_natCast, here',
    isFile]
  by_cases negative : offset.toInt < 0
  · rw [if_pos negative, if_neg (by omega)]
  · have unsigned : toULong offset.toInt = offset.toInt.toNat :=
      toULong_of_small (by omega) (by omega)
    rw [if_neg negative, unsigned]
    by_cases inside : offset.toInt ≤ s.fileSize i
    · have exact_ : toInt32 offset.toInt = offset.toInt := toInt32_of_small (by omega) (by omega)
      rw [if_neg (by omega), if_pos ⟨by omega, inside⟩, exact_]
    · rw [if_pos (by omega), if_neg (by omega)]

/-- The globals after file `i` has been cut to `length`. -/
abbrev State.truncated (s : State) (j i length : Nat) : State :=
  (s.storeWord (fileSizeAddr i) (BitVec.ofNat 64 length)).storeDescriptor j ⟨true, i, length⟩

theorem fsTruncate_spec (length : BitVec 64) :
    fsTruncate s j length.toInt =
      if 0 ≤ length.toInt ∧ length.toInt ≤ s.fileSize i
      then (0, s.truncated j i length.toInt.toNat) else (-1, s) := by
  have isFile := (consistent.catalogue.isFile_iff i).mpr file
  have small : s.fileSize i < 2 ^ 31 :=
    Nat.lt_of_le_of_lt (consistent.extent.size i file) (by decide)
  have here' := here
  rw [At] at here'
  have lower := BitVec.le_toInt (x := length)
  have upper := BitVec.toInt_lt (x := length)
  simp only [fsTruncate, isOpen, Bool.not_true, Bool.false_eq_true, if_false, Int.toNat_natCast,
    here', isFile]
  by_cases negative : length.toInt < 0
  · -- a negative length is a huge unsigned one
    have huge : toULong length.toInt > s.fileSize i := by
      rw [toULong]
      omega
    rw [if_pos huge, if_neg (by omega)]
  · have unsigned : toULong length.toInt = length.toInt.toNat :=
      toULong_of_small (by omega) (by omega)
    rw [unsigned]
    by_cases inside : length.toInt ≤ s.fileSize i
    · have exact_ : toInt32 length.toInt = length.toInt := toInt32_of_small (by omega) (by omega)
      have natural : (length.toInt.toNat : Int) = length.toInt := Int.toNat_of_nonneg (by omega)
      rw [if_neg (by omega), if_pos ⟨by omega, inside⟩, exact_]
      simp only [State.truncated, natural]
      rw [← natural, BitVec.ofInt_natCast, natural]
    · rw [if_pos (by omega), if_neg (by omega)]

end Descriptor

/-! ### Truncating -/

section Truncated

variable {j i length : Nat}

theorem truncated_fileSize (s : State) (j i : Nat) (fits : length < 2 ^ 64) (i' : Nat) :
    (s.truncated j i length).fileSize i' = if i' = i then length else s.fileSize i' := by
  change ((Function.update s.inodeTable (fileSizeAddr i) (BitVec.ofNat 64 length))
    (fileSizeAddr i')).toNat = _
  simp only [Function.update_apply, fileSizeAddr_inj]
  split
  · rw [BitVec.toNat_ofNat, Nat.mod_eq_of_lt fits]
  · rfl

theorem Consistent.truncated (consistent : Consistent d nm m s) (file : i < m)
    (shorter : length ≤ s.fileSize i)
    (others : ∀ j' < maxFileDescriptors, j' ≠ j → (s.openFileDescriptors j').isUsed = true →
      (s.openFileDescriptors j').inodeNumber = i → (s.openFileDescriptors j').offset ≤ length) :
    Consistent d nm m (s.truncated j i length) := by
  have same := storeFileSize_sameBlocks s i (BitVec.ofNat 64 length) j ⟨true, i, length⟩
  have bound := consistent.extent.size i file
  have size := truncated_fileSize s j i
    (Nat.lt_of_le_of_lt (Nat.le_trans shorter bound) (by decide))
  -- what a shorter file covers it has covered before
  have covered : ∀ i' < m, ∀ k, k * blockSize < (s.truncated j i length).fileSize i' →
      s.directOffset i' k ≠ 0 ∧ k < directCount := by
    intro i' file' k inFile
    have inFile' : k * blockSize < s.fileSize i' := by
      rw [size] at inFile
      split at inFile
      next here =>
        subst here
        omega
      next => exact inFile
    exact ⟨consistent.extent.covered i' file' k inFile',
      index_lt_directCount inFile' (consistent.extent.size i' file')⟩
  refine ⟨?_, ?_, same.blocksOwned consistent.owned, ⟨?_, ?_, ?_⟩⟩
  · exact { consistent.catalogue with
      untyped := fun i' below => by
        rw [same.fileType]
        exact consistent.catalogue.untyped i' below }
  · exact { consistent.allotted with
      taken := fun b bit => by
        obtain ⟨i', file', k, below, block⟩ := consistent.allotted.taken b bit
        exact ⟨i', file', k, below, by rw [same.directOffset _ _ below, block]⟩ }
  · intro i' file'
    rw [size]
    split
    · omega
    · exact consistent.extent.size i' file'
  · intro i' file' k inFile
    obtain ⟨used, below⟩ := covered i' file' k inFile
    rw [same.directOffset _ _ below]
    exact used
  -- the other descriptors of the file must not be left behind its new end
  · intro j' inRange isUsed
    change (Function.update s.openFileDescriptors j ⟨true, i, length⟩ j').isUsed = true at isUsed
    change ∃ i' off : Nat, i' < m ∧ Function.update s.openFileDescriptors j ⟨true, i, length⟩ j' =
      ⟨true, i', off⟩ ∧ off ≤ (s.truncated j i length).fileSize i'
    rw [Function.update_apply] at isUsed ⊢
    split at isUsed
    next here =>
      rw [if_pos here]
      exact ⟨i, length, file, rfl, by rw [size, if_pos rfl]⟩
    next elsewhere =>
      rw [if_neg elsewhere]
      obtain ⟨i', off, file', points, inFile⟩ := consistent.extent.descriptor j' inRange isUsed
      refine ⟨i', off, file', points, ?_⟩
      have limit := others j' inRange elsewhere isUsed
      rw [points] at limit
      rw [size]
      split
      next here =>
        subst here
        exact Int.ofNat_le.mp (limit rfl)
      next => exact inFile

theorem truncated_contents (consistent : Consistent d nm m s) (file : i < m)
    (shorter : length ≤ s.fileSize i) {i' : Nat} (file' : i' < m) :
    (s.truncated j i length).contents i' =
      if i' = i then (s.contents i).take length else s.contents i' := by
  have bound := consistent.extent.size i file
  have size := truncated_fileSize s j i
    (Nat.lt_of_le_of_lt (Nat.le_trans shorter bound) (by decide)) i'
  have same := storeFileSize_sameBlocks s i (BitVec.ofNat 64 length) j ⟨true, i, length⟩
  -- no block moves, so that the bytes are where they were
  have bytes : ∀ p < s.fileSize i', (s.truncated j i length).byteAt i' p = s.byteAt i' p := by
    intro p inside
    have inFile : p / blockSize * blockSize < s.fileSize i' := blockStart_lt inside
    have below := index_lt_directCount inFile (consistent.extent.size i' file')
    simp only [State.byteAt, same.directOffset _ _ below]
    rfl
  split
  next here =>
    subst here
    rw [if_pos rfl] at size
    apply List.ext_getElem?
    intro p
    rw [List.getElem?_take, State.getElem?_contents, State.getElem?_contents, size]
    split
    next inside => rw [if_pos (by omega), bytes p (by omega)]
    next => rfl
  next elsewhere =>
    rw [if_neg elsewhere] at size
    exact State.contents_congr size bytes

end Truncated

/-! ### Runs -/

/-- Calls that neither delete nor truncate; writes end at or below `MAX_FILESIZE`. -/
def Growing (s : State) : Call → Prop
  | .delete _ _ | .truncate _ _ => False
  | c => WritesWithin s c

instance (s : State) : (c : Call) → Decidable (Growing s c)
  | .delete _ _ | .truncate _ _ => isFalse id
  | .write fildes data => inferInstanceAs (Decidable (WritesWithin s (.write fildes data)))
  | .create _ | .open _ | .close _ | .read _ _ | .lseek _ _ | .getFilesize _ => isTrue trivial

/-- Growing calls keep the file system consistent, whether they succeed or not. -/
theorem Consistent.call (consistent : Consistent d nm m s) {c : Call} {r : Reply} {t : State}
    (growing : Growing s c) (called : call s c = some (r, t)) :
    ∃ nm' m', Consistent d nm' m' t := by
  have leads := leads_of_call called
  cases c with
  | create name =>
    obtain rfl := leads
    rcases fsCreate_spec consistent name with ⟨-, eq⟩ | ⟨-, -, -, eq, consistent'⟩
    · exact ⟨nm, m, by rw [eq]; exact consistent⟩
    · exact ⟨_, m + 1, by rw [eq]; exact consistent'⟩
  | «open» name =>
    obtain rfl := leads
    exact ⟨nm, m, consistent.open name⟩
  | close fildes =>
    obtain rfl := leads
    exact ⟨nm, m, consistent.close fildes⟩
  | delete name beyond => exact absurd growing id
  -- a descriptor that is not open changes nothing, here and below
  | read fildes nbyte =>
    obtain ⟨r', bytes, read⟩ := leads
    rcases consistent.descriptor_cases fildes with
      closed | ⟨j, i, off, rfl, inRange, isOpen, file, here, inFile⟩
    · simp only [fsRead, closed, Bool.not_false, if_true, Option.some.injEq, Prod.mk.injEq] at read
      exact ⟨nm, m, read.2.2 ▸ consistent⟩
    · rw [fsRead_spec consistent.readable isOpen file here inFile nbyte] at read
      simp only [Option.some.injEq, Prod.mk.injEq] at read
      refine ⟨nm, m, read.2.2 ▸ consistent.storeDescriptor j fun _ => ⟨i, _, file, rfl, ?_⟩⟩
      rw [List.length_take, List.length_drop, State.length_contents]
      omega
  | write fildes data =>
    obtain ⟨r', wrote⟩ := leads
    rcases consistent.descriptor_cases fildes with
      closed | ⟨j, i, off, rfl, inRange, isOpen, file, here, inFile⟩
    · simp only [fsWrite, closed, Bool.not_false, if_true, Option.some.injEq, Prod.mk.injEq] at wrote
      exact ⟨nm, m, wrote.2 ▸ consistent⟩
    · have within := growing isOpen
      have here' := here
      rw [At] at here'
      simp only [Int.toNat_natCast, here'] at within
      obtain ⟨r'', s', spec, consistent', -⟩ :=
        fsWrite_spec consistent isOpen file here inFile data (by omega)
      rw [spec] at wrote
      simp only [Option.some.injEq, Prod.mk.injEq] at wrote
      exact ⟨nm, m, wrote.2 ▸ consistent'⟩
  | lseek fildes offset =>
    obtain rfl := leads
    rcases consistent.descriptor_cases fildes with
      closed | ⟨j, i, off, rfl, inRange, isOpen, file, here, inFile⟩
    · exact ⟨nm, m, by simpa only [fsLseek, closed, Bool.not_false, if_true] using consistent⟩
    · rw [fsLseek_spec consistent isOpen file here offset]
      split
      next inside =>
        refine ⟨nm, m, consistent.storeDescriptor j fun _ =>
          ⟨i, offset.toInt.toNat, file, ?_, by omega⟩⟩
        rw [Int.toNat_of_nonneg inside.1]
      next => exact ⟨nm, m, consistent⟩
  | truncate fildes length => exact absurd growing id
  | getFilesize fildes =>
    obtain rfl := leads
    exact ⟨nm, m, consistent⟩

end Calls

/-- Every state that growing calls reach on a new disk is consistent. -/
theorem Started.consistent {d : String} {s t : State} (started : Started d s)
    (reached : Machine.Reaches call Growing s t) : ∃ nm m, Consistent d nm m t :=
  reached.invariant (fun s => ∃ nm m, Consistent d nm m s)
    (fun _ _ _ _ ⟨_, _, consistent⟩ growing called => consistent.call growing called)
    ⟨fun _ => ⟨[], by simp⟩, 0, started.fresh.consistent _⟩

end OperatingSys.FileSystem
