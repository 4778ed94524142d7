import OperatingSys.FileSystem.Blocks

/-!
# What each call can do to the globals

One lemma for each call that is not `fs_write`: either it leaves the globals as they are,
or it makes one change that the lemma names. Invariants over runs are derived from these
and from `fsWrite_preserves`.
-/

namespace OperatingSys.FileSystem

open Search

/-- At most one descriptor differs. -/
def DescriptorStep (s t : State) : Prop :=
  t = s ∨ ∃ j fd, j < maxFileDescriptors ∧ t = s.storeDescriptor j fd

/-- `fs_open(name)` finds the entry `e` and the free descriptor `j`. -/
structure Opens (s : State) (name : CString) (e j : Nat) : Prop where
  mounted : s.openDiskFd ≠ -1
  entry : firstIndex maxNumOfFiles (fun i => (s.directory i).isUsed &&
    strncmp name.1 (List.ofFn (s.directory i).name) maxFileName = 0) = some e
  descriptor : firstIndex maxFileDescriptors (fun j => !(s.openFileDescriptors j).isUsed) = some j

theorem fsOpen_cases (s : State) (name : CString) :
    ((∀ e j, ¬ Opens s name e j) ∧ fsOpen s name = (-1, s)) ∨
    ∃ e j, Opens s name e j ∧ fsOpen s name = ((j : Int), s.storeDescriptor j
      { isUsed := true, inodeNumber := (s.directory e).inodeNumber.toInt, offset := 0 }) := by
  unfold fsOpen
  split
  next unmounted => exact Or.inl ⟨fun e j opens => opens.mounted unmounted, rfl⟩
  next mounted =>
    dsimp only
    split
    next absent =>
      refine Or.inl ⟨fun e j opens => ?_, rfl⟩
      have entry := opens.entry
      simp [absent] at entry
    next e found =>
      split
      next full =>
        refine Or.inl ⟨fun e' j opens => ?_, rfl⟩
        have descriptor := opens.descriptor
        simp [full] at descriptor
      next j free => exact Or.inr ⟨e, j, ⟨mounted, found, free⟩, rfl⟩

theorem fsOpen_step (s : State) (name : CString) : DescriptorStep s (fsOpen s name).2 := by
  rcases fsOpen_cases s name with ⟨-, refused⟩ | ⟨e, j, opens, opened⟩
  · exact Or.inl (by rw [refused])
  · exact Or.inr ⟨j, _, (firstIndex_eq_some.mp opens.descriptor).1, by rw [opened]⟩

theorem fsClose_step (s : State) (fildes : Int) : DescriptorStep s (fsClose s fildes).2 := by
  unfold fsClose
  split
  · exact Or.inl rfl
  next inRange =>
    split
    · exact Or.inl rfl
    · exact Or.inr ⟨fildes.toNat, _, by simp only [maxFileDescriptors] at *; omega, rfl⟩

/-- At most the offset of one open descriptor differs. -/
def OffsetStep (s t : State) : Prop :=
  t = s ∨ ∃ j off, j < maxFileDescriptors ∧
    t = s.storeDescriptor j { s.openFileDescriptors j with offset := off }

theorem OffsetStep.descriptorStep {s t : State} (step : OffsetStep s t) : DescriptorStep s t := by
  rcases step with rfl | ⟨j, off, inRange, rfl⟩
  · exact Or.inl rfl
  · exact Or.inr ⟨j, _, inRange, rfl⟩

theorem fsLseek_step (s : State) (fildes offset : Int) :
    OffsetStep s (fsLseek s fildes offset).2 := by
  unfold fsLseek
  cases isOpen : s.isOpen fildes with
  | false => exact Or.inl rfl
  | true =>
    dsimp only [Bool.not_true]
    repeat' split
    all_goals first
      | exact Or.inl rfl
      | exact Or.inr ⟨fildes.toNat, _, isOpen_toNat_lt isOpen, rfl⟩

/-- A read leaves the process alone, or moves the offset by what its loop has delivered. -/
theorem fsRead_cases {s t : State} {fildes : Int} {nbyte : Nat} {r : Int} {bytes : List Byte}
    (read : fsRead s fildes nbyte = some (r, bytes, t)) :
    t = s ∨ s.isOpen fildes = true ∧ 0 ≤ (s.openFileDescriptors fildes.toNat).offset ∧
      (∃ n, fsReadLoop s (s.openFileDescriptors fildes.toNat).inodeNumber.toNat n
        ((s.openFileDescriptors fildes.toNat).offset.toNat / blockSize)
        ((s.openFileDescriptors fildes.toNat).offset.toNat % blockSize) n = some (true, bytes)) ∧
      t = s.storeDescriptor fildes.toNat { s.openFileDescriptors fildes.toNat with
        offset := toInt32 ((s.openFileDescriptors fildes.toNat).offset + bytes.length) } := by
  unfold fsRead at read
  cases isOpen : s.isOpen fildes with
  | false =>
    simp only [isOpen, Bool.not_false, if_true, Option.some.injEq, Prod.mk.injEq] at read
    exact Or.inl read.2.2.symm
  | true =>
    simp only [isOpen, Bool.not_true, Bool.false_eq_true, if_false] at read
    split at read
    · simp only [Option.some.injEq, Prod.mk.injEq] at read
      exact Or.inl read.2.2.symm
    · generalize (if nbyte < toULong _ then toInt32 nbyte else _) = bytesToRead at read
      split at read
      · simp only [Option.some.injEq, Prod.mk.injEq] at read
        exact Or.inl read.2.2.symm
      · split at read
        · simp at read
        next nonneg =>
          split at read
          · simp at read
          · simp only [Option.some.injEq, Prod.mk.injEq] at read
            exact Or.inl read.2.2.symm
          next delivered loop =>
            simp only [Option.some.injEq, Prod.mk.injEq] at read
            obtain ⟨-, rfl, rfl⟩ := read
            exact Or.inr ⟨rfl, Int.not_lt.mp nonneg, ⟨_, loop⟩, rfl⟩

theorem fsRead_step {s t : State} {fildes : Int} {nbyte : Nat} {r : Int} {bytes : List Byte}
    (read : fsRead s fildes nbyte = some (r, bytes, t)) : OffsetStep s t := by
  rcases fsRead_cases read with same | ⟨isOpen, -, -, moved⟩
  · exact Or.inl same
  · exact Or.inr ⟨fildes.toNat, _, isOpen_toNat_lt isOpen, moved⟩

/-- A read through a descriptor that is closed or whose file is gone. -/
theorem fsRead_refused {s : State} {fildes : Int} {nbyte : Nat}
    (refused : ¬ (s.isOpen fildes = true ∧
      s.isFile (s.openFileDescriptors fildes.toNat).inodeNumber = true)) :
    fsRead s fildes nbyte = some (-1, [], s) := by
  cases isOpen : s.isOpen fildes with
  | false => simp only [fsRead, isOpen, Bool.not_false, if_true]
  | true =>
    have gone : s.isFile (s.openFileDescriptors fildes.toNat).inodeNumber = false := by
      simpa [isOpen] using refused
    simp only [fsRead, isOpen, gone, Bool.not_true, Bool.not_false, Bool.false_eq_true, if_true,
      if_false]

/-- A write through a descriptor that is closed or whose file is gone. -/
theorem fsWrite_refused {s : State} {fildes : Int} {data : List Byte}
    (refused : ¬ (s.isOpen fildes = true ∧
      s.isFile (s.openFileDescriptors fildes.toNat).inodeNumber = true)) :
    fsWrite s fildes data = some (-1, s) := by
  cases isOpen : s.isOpen fildes with
  | false => simp only [fsWrite, isOpen, Bool.not_false, if_true]
  | true =>
    have gone : s.isFile (s.openFileDescriptors fildes.toNat).inodeNumber = false := by
      simpa [isOpen] using refused
    simp only [fsWrite, isOpen, gone, Bool.not_true, Bool.not_false, Bool.false_eq_true, if_true,
      if_false]

/-- `fs_truncate` sets the size of its file, never to more than it was, and the offset of its
descriptor. -/
theorem fsTruncate_cases (s : State) (fildes length : Int) :
    (fsTruncate s fildes length).2 = s ∨
    (fildes.toNat < maxFileDescriptors ∧
      s.isFile (s.openFileDescriptors fildes.toNat).inodeNumber = true ∧
      toULong length ≤ s.fileSize (s.openFileDescriptors fildes.toNat).inodeNumber.toNat ∧
      (fsTruncate s fildes length).2 =
        (s.storeWord (fileSizeAddr (s.openFileDescriptors fildes.toNat).inodeNumber.toNat)
          (BitVec.ofInt 64 length)).storeDescriptor fildes.toNat
          { s.openFileDescriptors fildes.toNat with offset := toInt32 length }) := by
  unfold fsTruncate
  cases isOpen : s.isOpen fildes with
  | false => exact Or.inl rfl
  | true =>
    dsimp only [Bool.not_true]
    rw [if_neg (by decide)]
    split
    · exact Or.inl rfl
    next isFile =>
      rw [Bool.not_eq_true, Bool.not_eq_false'] at isFile
      split
      · exact Or.inl rfl
      next shorter =>
        exact Or.inr ⟨isOpen_toNat_lt isOpen, isFile, Nat.le_of_not_lt shorter, rfl⟩

theorem fsTruncate_step (s : State) (fildes length : Int) :
    (fsTruncate s fildes length).2 = s ∨ ∃ i v j fd, j < maxFileDescriptors ∧
      (fsTruncate s fildes length).2 = (s.storeWord (fileSizeAddr i) v).storeDescriptor j fd := by
  rcases fsTruncate_cases s fildes length with same | ⟨inRange, -, -, set⟩
  · exact Or.inl same
  · exact Or.inr ⟨_, _, fildes.toNat, _, inRange, set⟩

/-- `fs_create(name)` gets past its checks on the name. -/
structure Creates (s : State) (name : CString) : Prop where
  mounted : s.openDiskFd ≠ -1
  nonempty : strlen name ≠ 0
  short : strlen name ≤ maxFileName
  new : ∀ e < maxNumOfFiles, (s.directory e).isUsed = true →
    strncmp (List.ofFn (s.directory e).name) name.1 maxFileName ≠ 0

/-- With a name that passes, `fs_create` looks for an inode and for an entry. -/
theorem Creates.fsCreate_eq {s : State} {name : CString} (creates : Creates s name) :
    fsCreate s name =
      match firstIndex maxNumOfFiles (fun i => s.fileType i = 0) with
      | none => (-1, s)
      | some inode =>
        match firstIndex maxNumOfFiles (fun e => !((s.initInode inode).directory e).isUsed) with
        | none => (-1, s.initInode inode)
        | some e => (0, (s.initInode inode).storeEntry e
            { isUsed := true, inodeNumber := BitVec.ofNat 32 inode, name := strncpy name }) := by
  have length : ¬ (strlen name > maxFileName ∨ strlen name = 0) := by
    have short := creates.short
    have nonempty := creates.nonempty
    omega
  have absent : firstIndex maxNumOfFiles (fun i => (s.directory i).isUsed &&
      strncmp (List.ofFn (s.directory i).name) name.1 maxFileName = 0) = none := by
    refine firstIndex_eq_none.mpr fun e inRange => ?_
    cases isUsed : (s.directory e).isUsed with
    | false => rfl
    | true => simpa using creates.new e inRange isUsed
  rw [fsCreate, if_neg length, if_neg creates.mounted, absent]
  rfl

theorem fsCreate_refused {s : State} {name : CString} (fails : ¬ Creates s name) :
    fsCreate s name = (-1, s) := by
  unfold fsCreate
  split
  · rfl
  next length =>
    split
    · rfl
    next mounted =>
      split
      · rfl
      next absent =>
        refine absurd ⟨mounted, by omega, by omega, fun e inRange isUsed hit => ?_⟩ fails
        exact absent (firstIndex_isSome.mpr ⟨e, inRange, by simp [isUsed, hit]⟩)

/-- `fs_create` takes the first free inode and, if there is one, the first free entry. -/
theorem fsCreate_cases (s : State) (name : CString) :
    (fsCreate s name).2 = s ∨ ∃ inode < maxNumOfFiles, s.fileType inode = 0 ∧
      (((∀ e < maxNumOfFiles, (s.directory e).isUsed = true) ∧
          (fsCreate s name).2 = s.initInode inode) ∨
        ∃ e < maxNumOfFiles, (s.directory e).isUsed = false ∧
          (fsCreate s name).2 = (s.initInode inode).storeEntry e
            { isUsed := true, inodeNumber := BitVec.ofNat 32 inode, name := strncpy name }) := by
  by_cases creates : Creates s name
  · rw [creates.fsCreate_eq]
    split
    · exact Or.inl rfl
    next inode free =>
      obtain ⟨below, untyped, -⟩ := firstIndex_eq_some.mp free
      refine Or.inr ⟨inode, below, by simpa using untyped, ?_⟩
      split
      next full =>
        refine Or.inl ⟨fun e inRange => ?_, rfl⟩
        simpa [State.initInode] using firstIndex_eq_none.mp full e inRange
      next e found =>
        obtain ⟨inRange, unused, -⟩ := firstIndex_eq_some.mp found
        exact Or.inr ⟨e, inRange, by simpa [State.initInode] using unused, rfl⟩
  · exact Or.inl (by rw [fsCreate_refused creates])

/-- `fs_delete(name)` gets past its checks with the entry `e`. -/
structure Deletes (s : State) (name : CString) (e : Nat) : Prop where
  mounted : s.openDiskFd ≠ -1
  inRange : e < maxNumOfFiles
  isUsed : (s.directory e).isUsed = true
  found : strncmp (List.ofFn (s.directory e).name) name.1 maxFileName = 0
  first : ∀ e' < e, ¬ ((s.directory e').isUsed = true ∧
    strncmp (List.ofFn (s.directory e').name) name.1 maxFileName = 0)
  notOpen : ∀ j < maxFileDescriptors, ¬ ((s.openFileDescriptors j).isUsed = true ∧
    (s.openFileDescriptors j).inodeNumber = (s.directory e).inodeNumber.toInt)

instance (s : State) (name : CString) (e : Nat) : Decidable (Deletes s name e) :=
  decidable_of_iff (s.openDiskFd ≠ -1 ∧ e < maxNumOfFiles ∧ (s.directory e).isUsed = true ∧
      strncmp (List.ofFn (s.directory e).name) name.1 maxFileName = 0 ∧
      (∀ e' < e, ¬ ((s.directory e').isUsed = true ∧
        strncmp (List.ofFn (s.directory e').name) name.1 maxFileName = 0)) ∧
      ∀ j < maxFileDescriptors, ¬ ((s.openFileDescriptors j).isUsed = true ∧
        (s.openFileDescriptors j).inodeNumber = (s.directory e).inodeNumber.toInt))
    ⟨fun ⟨mounted, inRange, isUsed, found, first, notOpen⟩ =>
      ⟨mounted, inRange, isUsed, found, first, notOpen⟩,
    fun d => ⟨d.mounted, d.inRange, d.isUsed, d.found, d.first, d.notOpen⟩⟩

/-- The globals after entry `e` has been deleted. -/
def State.deleted (s : State) (beyond : Nat → Byte) (e : Nat) : State :=
  let released := releaseBlocks (s.directory e).inodeNumber.toInt beyond s.usedBlockBitmap
    s.superblock.usedBlockBitmapCount
  { s with
    usedBlockBitmap := released.1
    superblock := { s.superblock with usedBlockBitmapCount := released.2 }
    directory := Function.update s.directory e
      { isUsed := false, inodeNumber := 0, name := fun _ => 0 } }

theorem Deletes.unique {s : State} {name : CString} {e e' : Nat} (h : Deletes s name e)
    (h' : Deletes s name e') : e = e' := by
  rcases Nat.lt_trichotomy e e' with lt | eq | gt
  · exact absurd ⟨h.isUsed, h.found⟩ (h'.first e lt)
  · exact eq
  · exact absurd ⟨h'.isUsed, h'.found⟩ (h.first e' gt)

theorem fsDelete_cases (s : State) (beyond : Nat → Byte) (name : CString) :
    ((∀ e, ¬ Deletes s name e) ∧ fsDelete s beyond name = (-1, s)) ∨
    ∃ e, Deletes s name e ∧ fsDelete s beyond name = (0, s.deleted beyond e) := by
  unfold fsDelete
  split
  next unmounted => exact Or.inl ⟨fun e deletes => deletes.mounted unmounted, rfl⟩
  next mounted =>
    split
    next absent =>
      refine Or.inl ⟨fun e deletes => ?_, rfl⟩
      have := firstIndex_eq_none.mp absent e deletes.inRange
      simp [deletes.isUsed, deletes.found] at this
    next e found =>
      obtain ⟨inRange, hit, earlier⟩ := firstIndex_eq_some.mp found
      simp only [Bool.and_eq_true, decide_eq_true_eq] at hit
      have first : ∀ e' < e, ¬ ((s.directory e').isUsed = true ∧
          strncmp (List.ofFn (s.directory e').name) name.1 maxFileName = 0) := by
        intro e' lt hit'
        have := earlier e' lt
        simp [hit'.1, hit'.2] at this
      dsimp only
      split
      next isOpen =>
        refine Or.inl ⟨fun e' deletes => ?_, rfl⟩
        -- the entry that matches first is unique
        have eq : e' = e := by
          rcases Nat.lt_trichotomy e e' with lt | eq | gt
          · exact absurd hit (deletes.first e lt)
          · exact eq.symm
          · exact absurd ⟨deletes.isUsed, deletes.found⟩ (first e' gt)
        subst eq
        obtain ⟨j, below, inUse⟩ := firstIndex_isSome.mp isOpen
        exact deletes.notOpen j below (by simpa using inUse)
      next closed =>
        refine Or.inr ⟨e, ⟨mounted, inRange, hit.1, hit.2, first, fun j below inUse => ?_⟩, rfl⟩
        exact closed (firstIndex_isSome.mpr ⟨j, below, by simpa using inUse⟩)

/-! ### Giving blocks back -/

/-- After the first `n` rounds: the bits of the blocks before `n` whose byte equals the
inode number are clear, and the bytes still to be compared are untouched. -/
private theorem release_upTo (inodeNumber : Int) (beyond bitmap : Nat → Byte)
    (count : BitVec 16) (n : Nat) :
    let released := (List.range n).foldl (releaseStep inodeNumber beyond) (bitmap, count)
    (∀ b, getBit released.1 b = (getBit bitmap b &&
      !decide (b < n ∧ (bitmapByte bitmap beyond b).toNat = inodeNumber))) ∧
    (∀ j, n ≤ j → released.1 j = bitmap j) := by
  induction n with
  | zero => simp
  | succ n ih =>
    obtain ⟨bits, later⟩ := ih
    simp only [List.range_succ, List.foldl_append, List.foldl_cons, List.foldl_nil]
    generalize (List.range n).foldl (releaseStep inodeNumber beyond) (bitmap, count) = acc at *
    -- the rounds so far have not touched byte `n`, which this one compares
    have sameByte : bitmapByte acc.1 beyond n = bitmapByte bitmap beyond n := by
      simp [bitmapByte, later n (Nat.le_refl n)]
    simp only [releaseStep, sameByte]
    split
    next hit =>
      constructor
      · intro b
        rw [getBit_clearBit, bits b]
        by_cases here : n = b
        · subst here
          simp [hit]
        · have before : b < n + 1 ↔ b < n := by omega
          simp [here, before]
      · intro j above
        -- the bit cleared lies in byte `n / 8`, before those still to be compared
        have apart : j ≠ n / 8 := by omega
        simp only [clearBit, Function.update_of_ne apart]
        exact later j (by omega)
    next miss =>
      constructor
      · intro b
        rw [bits b]
        by_cases here : n = b
        · subst here
          simp [miss]
        · have before : b < n + 1 ↔ b < n := by omega
          simp [before]
      · intro j above
        exact later j (by omega)

/-- `fs_delete` clears bit `b` exactly when byte `b` equals the inode number. -/
theorem getBit_releaseBlocks (inodeNumber : Int) (beyond bitmap : Nat → Byte)
    (count : BitVec 16) {b : Nat} (below : b < totalBlocks) :
    getBit (releaseBlocks inodeNumber beyond bitmap count).1 b =
      (getBit bitmap b && !decide ((bitmapByte bitmap beyond b).toNat = inodeNumber)) := by
  have bits := (release_upTo inodeNumber beyond bitmap count totalBlocks).1 b
  simpa only [below, true_and, releaseBlocks] using bits

/-! ### One call -/

/-- The state that a call leads to, as the operation of the call has it. -/
def Leads (s : State) (c : Call) (t : State) : Prop :=
  match c with
  | .create name => t = (fsCreate s name).2
  | .open name => t = (fsOpen s name).2
  | .close fildes => t = (fsClose s fildes).2
  | .delete name beyond => t = (fsDelete s beyond name).2
  | .read fildes nbyte => ∃ r bytes, fsRead s fildes nbyte = some (r, bytes, t)
  | .write fildes data => ∃ r, fsWrite s fildes data = some (r, t)
  | .lseek fildes offset => t = (fsLseek s fildes offset.toInt).2
  | .truncate fildes length => t = (fsTruncate s fildes length.toInt).2
  | .getFilesize _ => t = s

theorem leads_of_call {s t : State} {c : Call} {r : Reply} (called : call s c = some (r, t)) :
    Leads s c t := by
  cases c with
  | read fildes nbyte =>
    simp only [call, Option.map_eq_some_iff, Prod.mk.injEq] at called
    obtain ⟨⟨r', bytes, t'⟩, read, -, rfl⟩ := called
    exact ⟨r', bytes, read⟩
  | write fildes data =>
    simp only [call, Option.map_eq_some_iff, Prod.mk.injEq] at called
    obtain ⟨⟨r', t'⟩, wrote, -, rfl⟩ := called
    exact ⟨r', wrote⟩
  | _ =>
    simp only [call, plain, Option.some.injEq, Prod.mk.injEq] at called
    exact called.2.symm

end OperatingSys.FileSystem
