import OperatingSys.Threads.Statements

/-!
# Pointers to nodes

The lists of waiting threads use memory that `malloc` has returned, and nothing else: whatever the
threads do, no pointer of a mutex, a barrier or a node leads past it.
-/

namespace OperatingSys.Threads

/-- A pointer leads to memory that has been allocated. -/
def Process.Allocated (p : Process) (pointer : Option Nat) : Prop := ∀ a, pointer = some a → a < p.next

/-- The nodes lie in memory that has been allocated, and so do those that they point to. -/
def Process.HeapBounded (p : Process) : Prop :=
  ∀ a node, p.nodes a = some node → a < p.next ∧ p.Allocated node.next

def Process.Owns (p : Process) (m : Mutex) : Prop :=
  p.Allocated m.blockedThreadsHead ∧ p.Allocated m.blockedThreadsTail

def Process.OwnsBarrier (p : Process) (b : Barrier) : Prop :=
  p.Allocated b.blockedOne ∧ p.Allocated b.blockedTwo

/-- What holds of all pointers of the library. -/
structure Bounded (k : Kernel) : Prop where
  heap : k.process.HeapBounded
  mutexes : ∀ m, k.process.Owns (k.mutexes m)
  barriers : ∀ b, k.process.OwnsBarrier (k.barriers b)

/-- Before any mutex or barrier has been used there are no nodes. -/
structure Kernel.Unused (k : Kernel) : Prop where
  nodes : ∀ a, k.process.nodes a = none
  mutex : ∀ m, (k.mutexes m).blockedThreadsHead = none ∧ (k.mutexes m).blockedThreadsTail = none
  barrier : ∀ b, (k.barriers b).blockedOne = none ∧ (k.barriers b).blockedTwo = none

theorem Kernel.Unused.bounded {k : Kernel} (unused : k.Unused) : Bounded k where
  heap a node here := by
    rw [unused.nodes a] at here
    exact absurd here (by simp)
  mutexes m := ⟨fun a here => absurd here (by simp [(unused.mutex m).1]),
    fun a here => absurd here (by simp [(unused.mutex m).2])⟩
  barriers b := ⟨fun a here => absurd here (by simp [(unused.barrier b).1]),
    fun a here => absurd here (by simp [(unused.barrier b).2])⟩

section Allocated

variable {p p' : Process} {pointer : Option Nat} {m m' : Mutex} {b b' : Barrier}

theorem Process.Allocated.mono (allocated : p.Allocated pointer) (more : p.next ≤ p'.next) :
    p'.Allocated pointer := fun a here => Nat.lt_of_lt_of_le (allocated a here) more

theorem Process.Owns.mono (owns : p.Owns m) (more : p.next ≤ p'.next) : p'.Owns m :=
  ⟨owns.1.mono more, owns.2.mono more⟩

theorem Process.OwnsBarrier.mono (owns : p.OwnsBarrier b) (more : p.next ≤ p'.next) :
    p'.OwnsBarrier b :=
  ⟨owns.1.mono more, owns.2.mono more⟩

theorem allocated_none : p.Allocated none := fun _ here => absurd here (by simp)

theorem Process.HeapBounded.malloc (heap : p.HeapBounded) : p.malloc.HeapBounded := by
  intro a node here
  obtain ⟨below, points⟩ := heap a node here
  exact ⟨Nat.lt_succ_of_lt below, points.mono (Nat.le_succ _)⟩

theorem Process.HeapBounded.setNode (heap : p.HeapBounded) {a : Nat} {new : Option Node}
    (bounded : ∀ node, new = some node → a < p.next ∧ p.Allocated node.next) :
    (p.setNode a new).HeapBounded := by
  intro a' node here
  by_cases same : a' = a
  · subst same
    simp only [Process.setNode, Function.update_self] at here
    exact bounded node here
  · simp only [Process.setNode, Function.update_of_ne same] at here
    exact heap a' node here

/-- What an operation on the nodes leaves true. -/
structure Process.Extends (p' p : Process) : Prop where
  heap : p'.HeapBounded
  more : p.next ≤ p'.next

theorem enqueue_bounded (heap : p.HeapBounded) (owns : p.Owns m)
    (joined : enqueue p m = some (p', m')) : p'.Extends p ∧ p'.Owns m' := by
  have new : p.next < p.malloc.next := Nat.lt_succ_self _
  -- only the new node and the one before it are written, and both point below the new bound
  unfold enqueue at joined
  dsimp only at joined
  split at joined
  · cases joined
    refine ⟨⟨heap.malloc.setNode ?_, Nat.le_succ _⟩, ?_, owns.2.mono (Nat.le_succ _)⟩
    · rintro node ⟨⟩
      exact ⟨new, allocated_none⟩
    · rintro a ⟨⟩
      exact new
  next head points _ =>
    split at joined
    · simp at joined
    next first here =>
      cases joined
      refine ⟨⟨(heap.malloc.setNode ?_).setNode ?_, Nat.le_succ _⟩, owns.1.mono (Nat.le_succ _), ?_⟩
      · rintro node ⟨⟩
        refine ⟨Nat.lt_succ_of_lt (owns.1 head points), ?_⟩
        rintro a ⟨⟩
        exact new
      · rintro node ⟨⟩
        exact ⟨new, allocated_none⟩
      · rintro a ⟨⟩
        exact new
  next head tail _ ends =>
    split at joined
    · simp at joined
    next last here =>
      cases joined
      have newer : p.next < p.malloc.malloc.next := Nat.lt_succ_of_lt new
      refine ⟨⟨(heap.malloc.malloc.setNode ?_).setNode ?_, Nat.le_add_right _ 2⟩,
        owns.1.mono (Nat.le_add_right _ 2), ?_⟩
      · rintro node ⟨⟩
        exact ⟨newer, allocated_none⟩
      · rintro node ⟨⟩
        refine ⟨Nat.lt_of_lt_of_le (owns.2 tail ends) (Nat.le_add_right _ 2), ?_⟩
        rintro a ⟨⟩
        exact newer
      · rintro a ⟨⟩
        exact newer

theorem pthreadMutexLock_bounded {progress : Progress} (heap : p.HeapBounded) (owns : p.Owns m)
    (ran : pthreadMutexLock p m = some (p', m', progress)) : p'.Extends p ∧ p'.Owns m' := by
  unfold pthreadMutexLock at ran
  dsimp only at ran
  split at ran
  · cases ran
    exact ⟨⟨heap, Nat.le_refl _⟩, owns⟩
  · split at ran
    · simp at ran
    next joined =>
      cases ran
      obtain ⟨⟨heap', more⟩, owns'⟩ :=
        enqueue_bounded (p := p.lock.setStatus p.current .blocked) heap owns joined
      exact ⟨⟨heap', more⟩, owns'⟩

theorem pthreadMutexUnlock_bounded {progress : Progress} (heap : p.HeapBounded) (owns : p.Owns m)
    (ran : pthreadMutexUnlock p m = some (p', m', progress)) : p'.Extends p ∧ p'.Owns m' := by
  unfold pthreadMutexUnlock at ran
  dsimp only at ran
  split at ran
  · cases ran
    exact ⟨⟨heap, Nat.le_refl _⟩, owns⟩
  next head points =>
    split at ran
    · simp at ran
    next first here =>
      cases ran
      have next := (heap head first here).2
      refine ⟨⟨heap.setNode (p := p.lock.setStatus first.tid .ready) (by simp), Nat.le_refl _⟩, ?_⟩
      by_cases last : first.next = none
      · simp only [last, if_true]
        exact ⟨allocated_none, allocated_none⟩
      · simp only [last, if_false]
        exact ⟨next, owns.2⟩

/-- A statement of `pthread_barrier_wait`. -/
theorem waitStatement_bounded {point next : Point} (heap : p.HeapBounded) (owns : p.OwnsBarrier b)
    (ran : waitStatement p b point = some (p', b', next)) : p'.Extends p ∧ p'.OwnsBarrier b' := by
  have new : p.next < p.malloc.next := Nat.lt_succ_self _
  obtain ⟨meeting, stepped, eq⟩ := Option.map_eq_some_iff.mp ran
  cases eq
  cases point with
  | arrive =>
    simp only [Meeting.statement] at stepped
    split at stepped
    · simp at stepped
    · cases stepped
      exact ⟨⟨heap, Nat.le_refl _⟩, owns⟩
  -- the caller joins the list of blocked threads
  | blockNode =>
    obtain ⟨blocked, block, rfl⟩ := Option.map_eq_some_iff.mp stepped
    obtain ⟨⟨q, c⟩, joined, rfl⟩ := Option.map_eq_some_iff.mp block
    simp only [blockOn] at joined
    split at joined
    · cases joined
      refine ⟨⟨heap.malloc.setNode ?_, Nat.le_succ _⟩, ?_, owns.2.mono (Nat.le_succ _)⟩
      · rintro node ⟨⟩
        exact ⟨new, allocated_none⟩
      · rintro a ⟨⟩
        exact new
    · simp at joined
    next one two _ ends =>
      split at joined
      · simp at joined
      next last here =>
        cases joined
        refine ⟨⟨(heap.malloc.setNode ?_).setNode ?_, Nat.le_succ _⟩, owns.1.mono (Nat.le_succ _), ?_⟩
        · rintro node ⟨⟩
          exact ⟨new, allocated_none⟩
        · rintro node ⟨⟩
          refine ⟨Nat.lt_succ_of_lt (owns.2 two ends), ?_⟩
          rintro a ⟨⟩
          exact new
        · rintro a ⟨⟩
          exact new
  -- the first thread of it leaves
  | wake =>
    obtain ⟨woken, unblock, rfl⟩ := Option.map_eq_some_iff.mp stepped
    obtain ⟨⟨q, c⟩, left, rfl⟩ := Option.map_eq_some_iff.mp unblock
    simp only [unblockFrom] at left
    split at left
    · split at left
      · simp at left
      · split at left
        · simp at left
        next one _ _ first here =>
          cases left
          exact ⟨⟨heap.setNode (p := p.setStatus first.tid .ready) (by simp), Nat.le_refl _⟩,
            (heap one first here).2, owns.2⟩
    · cases left
      exact ⟨⟨heap, Nat.le_refl _⟩, owns⟩
  | clearOne first =>
    cases stepped
    exact ⟨⟨heap, Nat.le_refl _⟩, allocated_none, owns.2⟩
  | clearTwo first =>
    cases stepped
    exact ⟨⟨heap, Nat.le_refl _⟩, owns.1, allocated_none⟩
  | _ =>
    cases stepped
    exact ⟨⟨heap, Nat.le_refl _⟩, owns⟩

end Allocated

/-! ### The library keeps the pointers in bounds -/

section Image

variable {s s' : Image} {joins : Image.Joins}

theorem Bounded.congr {k k' : Kernel} (bounded : Bounded k) (nodes : k'.process.nodes = k.process.nodes)
    (next : k'.process.next = k.process.next) (mutexes : k'.mutexes = k.mutexes)
    (barriers : k'.barriers = k.barriers) : Bounded k' := by
  refine ⟨fun a node here => ?_, fun m => ?_, fun b => ?_⟩
  · rw [nodes] at here
    obtain ⟨below, points⟩ := bounded.heap a node here
    exact ⟨next ▸ below, points.mono (Nat.le_of_eq next.symm)⟩
  · rw [mutexes]
    exact (bounded.mutexes m).mono (Nat.le_of_eq next.symm)
  · rw [barriers]
    exact (bounded.barriers b).mono (Nat.le_of_eq next.symm)

/-- One mutex and the nodes change. -/
theorem Bounded.setMutex {k : Kernel} (bounded : Bounded k) {p : Process} {m : Nat} {mutex : Mutex}
    (extends_ : p.Extends k.process) (owns : p.Owns mutex) :
    Bounded ({ k with process := p }.setMutex m mutex) := by
  refine ⟨extends_.heap, fun m' => ?_, fun b => (bounded.barriers b).mono extends_.more⟩
  by_cases here : m' = m
  · subst here
    simpa [Kernel.setMutex] using owns
  · simpa [Kernel.setMutex, here] using (bounded.mutexes m').mono extends_.more

theorem Bounded.setBarrier {k : Kernel} (bounded : Bounded k) {p : Process} {b : Nat}
    {barrier : Barrier} (extends_ : p.Extends k.process) (owns : p.OwnsBarrier barrier) :
    Bounded ({ k with process := p }.setBarrier b barrier) := by
  refine ⟨extends_.heap, fun m => (bounded.mutexes m).mono extends_.more, fun b' => ?_⟩
  by_cases here : b' = b
  · subst here
    simpa [Kernel.setBarrier] using owns
  · simpa [Kernel.setBarrier, here] using (bounded.barriers b').mono extends_.more

theorem Bounded.afterMutex {m : Nat} {result : Option (Process × Mutex × Progress)} {after : Int}
    (bounded : Bounded s.kernel)
    (extends_ : ∀ p mutex progress, result = some (p, mutex, progress) →
      p.Extends s.kernel.process ∧ p.Owns mutex)
    (ran : s.afterMutex m result after = some s') : Bounded s'.kernel := by
  unfold Image.afterMutex at ran
  split at ran
  · simp at ran
  next p mutex value =>
    cases ran
    obtain ⟨more, owns⟩ := extends_ p mutex _ rfl
    exact bounded.setMutex more owns
  next p mutex =>
    cases ran
    obtain ⟨more, owns⟩ := extends_ p mutex _ rfl
    exact bounded.setMutex more owns

/-- A statement of `schedule` leaves the lists alone. -/
theorem Bounded.scheduleStatement {a : Activation} {rest : List Activation}
    (bounded : Bounded s.kernel) (ran : s.scheduleStatement a rest = some s') :
    Bounded s'.kernel := by
  obtain ⟨point, handler⟩ := a
  cases point with
  | jump =>
    obtain ⟨c, -, rfl⟩ := Option.map_eq_some_iff.mp ran
    exact bounded
  | _ =>
    cases ran
    exact bounded.congr rfl rfl rfl rfl

theorem Bounded.createStatement {tid : Tid} {thread : Nat} {point : CreatePoint}
    (bounded : Bounded s.kernel) (ran : s.createStatement tid thread point = some s') :
    Bounded s'.kernel := by
  cases point with
  | first =>
    simp only [Image.createStatement] at ran
    split at ran
    · cases ran
      exact bounded.congr rfl rfl rfl rfl
    · cases ran
      exact bounded
  | search =>
    simp only [Image.createStatement] at ran
    split at ran
    all_goals
      cases ran
      exact bounded
  | limit =>
    simp only [Image.createStatement] at ran
    split at ran
    all_goals
      cases ran
      exact bounded
  | setPc =>
    simp only [Image.createStatement] at ran
    split at ran
    · simp at ran
    · cases ran
      exact bounded
  | _ =>
    cases ran
    exact bounded.congr rfl rfl rfl rfl

theorem Bounded.callStatement {call : Call} (bounded : Bounded s.kernel)
    (ran : s.callStatement call = some (joins, s')) : Bounded s'.kernel := by
  -- only the calls on mutexes and barriers write pointers to nodes
  cases call with
  | create point tid thread =>
    obtain ⟨s₁, created, eq⟩ := Option.map_eq_some_iff.mp ran
    cases eq
    exact bounded.createStatement created
  | exit point value =>
    obtain ⟨s₁, exited, eq⟩ := Option.map_eq_some_iff.mp ran
    cases eq
    cases point with
    | exit => simp [Image.exitStatement] at exited
    | _ =>
      cases exited
      exact bounded.congr rfl rfl rfl rfl
  | join point thread =>
    cases point with
    | test =>
      simp only [Image.callStatement, Image.joinStatement] at ran
      split at ran
      · simp at ran
      · split at ran
        all_goals
          cases ran
          exact bounded
    | free =>
      obtain ⟨k, freed, eq⟩ := Option.map_eq_some_iff.mp ran
      cases eq
      -- `free` takes a stack here, and the nodes stay
      rw [(freeStack_null freed).1]
      exact bounded.congr rfl rfl rfl rfl
    | _ =>
      cases ran
      exact bounded
  | lock m =>
    obtain ⟨s₁, locked, eq⟩ := Option.map_eq_some_iff.mp ran
    cases eq
    exact bounded.afterMutex (fun p mutex progress =>
      pthreadMutexLock_bounded bounded.heap (bounded.mutexes m)) locked
  | unlock m =>
    obtain ⟨s₁, unlocked, eq⟩ := Option.map_eq_some_iff.mp ran
    cases eq
    exact bounded.afterMutex (fun p mutex progress =>
      pthreadMutexUnlock_bounded bounded.heap (bounded.mutexes m)) unlocked
  | wait b point =>
    obtain ⟨s₁, waited, eq⟩ := Option.map_eq_some_iff.mp ran
    cases eq
    simp only [Image.waitOn] at waited
    split at waited
    · simp at waited
    next p barrier next moved =>
      -- a statement may allocate the node of the caller, so the heap has grown
      obtain ⟨more, owns⟩ := waitStatement_bounded bounded.heap (bounded.barriers b) moved
      have bounded' := bounded.setBarrier (b := b) more owns
      split at waited
      · cases waited
        exact bounded'
      · split at waited
        all_goals
          cases waited
          exact bounded'
  | ret value =>
    cases ran
    exact bounded

theorem Bounded.step {input : Input} (bounded : Bounded s.kernel)
    (ran : s.step input = some (joins, s')) : Bounded s'.kernel := by
  cases input with
  | statement =>
    change s.statement = _ at ran
    unfold Image.statement at ran
    split at ran
    · obtain ⟨s₁, scheduled, eq⟩ := Option.map_eq_some_iff.mp ran
      cases eq
      exact bounded.scheduleStatement scheduled
    · exact bounded.callStatement ran
    · simp at ran
  | signal =>
    obtain ⟨s₁, signalled, eq⟩ := Option.map_eq_some_iff.mp ran
    cases eq
    simp only [Image.signal] at signalled
    split at signalled
    · simp at signalled
    · cases signalled
      exact bounded
  | request r =>
    obtain ⟨s₁, requested, eq⟩ := Option.map_eq_some_iff.mp ran
    cases eq
    simp only [Image.request] at requested
    split at requested
    · split at requested
      all_goals
        cases requested
        exact bounded
    · simp at requested

end Image

end OperatingSys.Threads
