import OperatingSys.Threads.Mutex
import OperatingSys.Threads.Barrier
import OperatingSys.Lib.Search

/-!
# The thread library (threads.c)

All of the library at once: the table of threads with its stacks and saved registers, the
timer, any number of mutexes and barriers. A step is a library call up to its call of
`schedule` or to its end, a signal, or a switch by `schedule` together with what the thread
that it switches to does up to its next call of `schedule` or to its return to user code.
The result `none` stands for what the source does not define (an entry of `threads` past its
end, a pointer that is null or has been freed), for the loop of `schedule` that finds no
ready thread, and for the end of the process.
-/

namespace OperatingSys.Threads

open Search

/-- `threads[tid].stack`: `NULL`, or a pointer to memory that may have been freed since. -/
inductive Stack where
  | null
  | allocated
  | freed
  deriving DecidableEq

/-- Where the registers in `threads[tid].regs` let a thread continue: in the function of a new
thread, after the `setjmp` of the first `pthread_create`, or after a call of `schedule`. That
call is made by the handler of `SIGALRM`, on return from which the kernel restores the signal
mask, or by one of the library functions. -/
inductive Resume where
  | start
  | create
  | handler (masked : Bool)
  | exit
  | join (thread : Tid)
  | lock
  | unlock
  | blocked (barrier : Nat)
  | spin (barrier : Nat)
  | yield (barrier : Nat)
  deriving DecidableEq

/-- The globals of threads.c, the timer, the mutexes and the barriers. `calling` tells whether
the current thread is in user code (`none`) or at a call of `schedule`, and where in the
source. -/
@[ext]
structure Kernel where
  process : Process
  isFirstCall : Bool
  numThreads : Nat
  id : Tid → Nat
  stack : Tid → Stack
  exitStatus : Tid → BitVec 64
  regs : Tid → Resume
  armed : Bool
  mutexes : Nat → Mutex
  barriers : Nat → Barrier
  calling : Option Resume

/-- What user code gets when a step ends there. -/
inductive Outcome where
  | resumed
  | created (value : Int) (thread : Option Nat)
  | joined (thread : Tid) (value : BitVec 64)
  | locked (value : Int)
  | unlocked (value : Int)
  | waited (value : Int)
  | scheduling
  deriving DecidableEq

namespace Kernel

variable (k : Kernel)

def setMutex (m : Nat) (mutex : Mutex) : Kernel :=
  { k with mutexes := Function.update k.mutexes m mutex }

def setBarrier (b : Nat) (barrier : Barrier) : Kernel :=
  { k with barriers := Function.update k.barriers b barrier }

/-- The current thread is back in user code. -/
def returns (outcome : Outcome) : Option (Outcome × Kernel) :=
  some (outcome, { k with calling := none })

/-- The current thread calls `schedule`. -/
def schedules (resume : Resume) : Option (Outcome × Kernel) :=
  some (.scheduling, { k with calling := some resume })

end Kernel

/-! ### Threads -/

/-- `scheduler_init`. -/
def schedulerInit (k : Kernel) : Kernel :=
  { k with
    -- the loop, and `threads[0].status = TS_READY` after it
    process.status := fun tid =>
      if tid < maxThreads then (if tid = 0 then .ready else .empty) else k.process.status tid
    id := fun tid => if tid < maxThreads then tid else k.id tid
    stack := fun tid => if tid < maxThreads then .null else k.stack tid
    numThreads := 1
    -- `ualarm(QUANTUM, QUANTUM)`
    armed := true }

/-- The first entry without a stack, `MAX_THREADS` if there is none. -/
def freeSlot (stack : Tid → Stack) : Nat :=
  match firstIndex (maxThreads - 1) fun i => stack (i + 1) = .null with
  | none => maxThreads
  | some i => i + 1

/-- `if (is_first_call)`. -/
def firstCall (k : Kernel) : Kernel :=
  if k.isFirstCall then
    { schedulerInit k with isFirstCall := false, regs := Function.update k.regs 0 .create }
  else k

/-- A new thread in entry `tid`. -/
def Kernel.newThread (k : Kernel) (tid : Tid) : Kernel :=
  { k with
    process := k.process.setStatus tid .ready
    regs := Function.update k.regs tid .start
    stack := Function.update k.stack tid .allocated
    id := Function.update k.id tid k.numThreads
    numThreads := k.numThreads + 1 }

/-- `if (!main_thread)`. -/
def createThread (k : Kernel) : Option (Outcome × Kernel) :=
  -- the source searches for the entry first and then looks at `num_threads`
  if k.numThreads ≥ maxThreads then k.returns (.created (-1) none)
  -- an entry past the end of `threads`
  else if freeSlot k.stack ≥ maxThreads then none
  else (k.newThread (freeSlot k.stack)).returns (.created 0 (some k.numThreads))

def pthreadCreate (k : Kernel) : Option (Outcome × Kernel) := createThread (firstCall k)

def pthreadSelf (k : Kernel) : Nat := k.id k.process.current

def pthreadExit (k : Kernel) (value : BitVec 64) : Option (Outcome × Kernel) :=
  { k with
    process := k.process.setStatus k.process.current .exited
    exitStatus := Function.update k.exitStatus k.process.current value
    -- `ualarm(0,0)`
    armed := false }.schedules .exit

/-- `free(threads[thread].stack)`. -/
def freeStack (k : Kernel) (thread : Tid) : Option Kernel :=
  match k.stack thread with
  | .null => some k
  | .allocated => some { k with stack := Function.update k.stack thread .freed }
  -- a second `free` of the same stack
  | .freed => none

/-- One round of the loop of `pthread_join`. -/
def pthreadJoin (k : Kernel) (thread : Tid) : Option (Outcome × Kernel) :=
  if thread ≥ maxThreads then none
  else if k.process.status thread = .exited then
    match freeStack k thread with
    | none => none
    | some k => k.returns (.joined thread (k.exitStatus thread))
  else k.schedules (.join thread)

/-! ### Mutexes -/

/-- A call on mutex `m` that has got as far as `result`. -/
def Kernel.afterMutex (k : Kernel) (m : Nat) (result : Option (Process × Mutex × Progress))
    (outcome : Int → Outcome) (resume : Resume) : Option (Outcome × Kernel) :=
  match result with
  | none => none
  | some (p, mutex, .returns value) =>
    ({ k with process := p }.setMutex m mutex).returns (outcome value)
  | some (p, mutex, .schedules) => ({ k with process := p }.setMutex m mutex).schedules resume

/-- The loop of `pthread_mutex_destroy`. A list that has more nodes than were ever allocated
leads back into itself. -/
def freeNodes : (fuel : Nat) → Process → Option Nat → Option Process
  | _, p, none => some p
  | 0, _, some _ => none
  | fuel + 1, p, some a =>
    match p.nodes a with
    | none => none
    | some node => freeNodes fuel (p.setNode a none) node.next

def pthreadMutexDestroy (p : Process) (m : Mutex) : Option (Int × Process) :=
  if m.locked ≠ 0 then some (-1, p)
  else (freeNodes p.next p m.blockedThreadsHead).map fun p => (0, p)

/-! ### Barriers -/

/-- `pthread_barrier_wait` from the test of its loop to the next call of `schedule`, in the
loop (`true`) or after it. -/
def barrierTest (p : Process) (b : Barrier) : Option (Process × Barrier × Bool) :=
  if b.threadsBlocked < b.count then some (p, b, true)
  else
    match unblockFrom p.lock b with
    | none => none
    | some (p, b) => some (p.unlock, b, false)

/-- The end of `pthread_barrier_wait`. -/
def barrierLeave (b : Barrier) : Int × Barrier :=
  let reset := { b with threadsBlocked := 0, blockedOne := none, init := 1, blockedTwo := none }
  if !b.serialed then (serialThread, { reset with serialed := true }) else (0, reset)

def Kernel.testBarrier (k : Kernel) (b : Nat) : Option (Outcome × Kernel) :=
  match barrierTest k.process (k.barriers b) with
  | none => none
  | some (p, barrier, true) => ({ k with process := p }.setBarrier b barrier).schedules (.spin b)
  | some (p, barrier, false) => ({ k with process := p }.setBarrier b barrier).schedules (.yield b)

def pthreadBarrierWait (k : Kernel) (b : Nat) : Option (Outcome × Kernel) :=
  let barrier := k.barriers b
  -- `b->threads_blocked++` overflows
  if barrier.threadsBlocked = 2 ^ 31 - 1 then none
  else
    let barrier := { barrier with threadsBlocked := barrier.threadsBlocked + 1 }
    if barrier.init ≠ 1 then
      match blockOn (k.process.lock.setStatus k.process.current .blocked) barrier
        k.process.current with
      | none => none
      | some (p, barrier) =>
        ({ k with process := p.unlock }.setBarrier b { barrier with init := 0 }).schedules (.blocked b)
    else (k.setBarrier b barrier).testBarrier b

/-! ### Steps -/

/-- What the current thread does after `longjmp` up to its next call of `schedule` or its return
to user code. -/
def Kernel.resume (k : Kernel) : Resume → Option (Outcome × Kernel)
  | .start => k.returns .resumed
  | .create => k.returns (.created 0 none)
  | .handler masked => { k with process.masked := masked }.returns .resumed
  -- `schedule` has returned to `pthread_exit`, which calls `exit(0)`
  | .exit => none
  | .join thread => pthreadJoin k thread
  | .lock => k.returns (.locked (-1))
  | .unlock => k.returns (.unlocked 0)
  | .blocked b => k.testBarrier b
  | .spin b => k.testBarrier b
  | .yield b =>
    (k.setBarrier b (barrierLeave (k.barriers b)).2).returns
      (.waited (barrierLeave (k.barriers b)).1)

/-- `setjmp` in a `schedule` called at `resume`. The registers of a thread that exits are not
saved. -/
def Kernel.saveRegs (k : Kernel) (resume : Resume) : Tid → Resume :=
  if k.process.status k.process.current = .exited then k.regs
  else Function.update k.regs k.process.current resume

/-- `schedule` called at `resume`. -/
def Kernel.switch (k : Kernel) (resume : Resume) : Option (Outcome × Kernel) :=
  match schedule k.process with
  | none => none
  | some p =>
    { k with process := p, regs := k.saveRegs resume }.resume (k.saveRegs resume p.current)

inductive Event where
  | create
  | exit (value : BitVec 64)
  | join (thread : Tid)
  | lock (m : Nat)
  | unlock (m : Nat)
  | wait (b : Nat)
  | timer
  | switch
  deriving DecidableEq

/-- A thread in user code calls the library or is interrupted. `SIGALRM` interrupts only while it
is not masked. -/
def Kernel.call (k : Kernel) : Event → Option (Outcome × Kernel)
  | .create => pthreadCreate k
  | .exit value => pthreadExit k value
  | .join thread => pthreadJoin k thread
  | .lock m => k.afterMutex m (pthreadMutexLock k.process (k.mutexes m)) .locked .lock
  | .unlock m => k.afterMutex m (pthreadMutexUnlock k.process (k.mutexes m)) .unlocked .unlock
  | .wait b => pthreadBarrierWait k b
  | .timer => if k.process.masked then none else k.schedules (.handler k.process.masked)
  | .switch => none

/-- One step: a call by user code, or the switch away from a thread at a call of `schedule`. -/
def Kernel.step (k : Kernel) (event : Event) : Option (Outcome × Kernel) :=
  match k.calling with
  | none => k.call event
  | some resume => if event = .switch then k.switch resume else none

/-- Before the first `pthread_create`: the main thread is in user code, nobody waits, and no
barrier has been destroyed. -/
structure Initial (k : Kernel) : Prop where
  isFirstCall : k.isFirstCall = true
  current : k.process.current = 0
  masked : k.process.masked = false
  calling : k.calling = none
  mutex : ∀ m, (k.mutexes m).blockedThreadsHead = none ∧ (k.mutexes m).blockedThreadsTail = none
  barrier : ∀ b, (k.barriers b).init = 1

/-- The library as it is loaded, with the zeros of C's globals, for a program that initialises
its mutexes and its barriers of two threads at once. -/
def Kernel.loaded : Kernel where
  process :=
    { status := fun _ => .exited, current := 0, masked := false, nodes := fun _ => none, next := 0 }
  isFirstCall := true
  numThreads := 0
  id := fun _ => 0
  stack := fun _ => .null
  exitStatus := fun _ => 0
  regs := fun _ => .start
  armed := false
  mutexes := fun _ => pthreadMutexInit
  barriers := fun _ => pthreadBarrierInit 2
  calling := none

theorem Kernel.loaded_initial : Initial Kernel.loaded :=
  ⟨rfl, rfl, rfl, rfl, fun _ => ⟨rfl, rfl⟩, fun _ => rfl⟩

/-! ### What a step leaves alone -/

/-- `k'` has the mutexes, the timer and the slots of `k`. -/
structure Frame (k k' : Kernel) : Prop where
  mutexes : k'.mutexes = k.mutexes
  isFirstCall : k'.isFirstCall = k.isFirstCall
  numThreads : k'.numThreads = k.numThreads
  armed : k'.armed = k.armed
  stack : ∀ tid, k'.stack tid = .null ↔ k.stack tid = .null

section Frame

variable {k k' : Kernel} {o : Outcome}

theorem Kernel.returns_eq {outcome : Outcome} (returned : k.returns outcome = some (o, k')) :
    o = outcome ∧ k' = { k with calling := none } := by
  rw [Kernel.returns, Option.some.injEq, Prod.mk.injEq] at returned
  exact ⟨returned.1.symm, returned.2.symm⟩

theorem Kernel.schedules_eq {resume : Resume} (called : k.schedules resume = some (o, k')) :
    o = .scheduling ∧ k' = { k with calling := some resume } := by
  rw [Kernel.schedules, Option.some.injEq, Prod.mk.injEq] at called
  exact ⟨called.1.symm, called.2.symm⟩

theorem firstCall_of_later (later : k.isFirstCall = false) : firstCall k = k := by
  rw [firstCall, if_neg (by simp [later])]

/-- `pthread_create` refuses, or takes the first entry without a stack. -/
theorem createThread_eq (created : createThread k = some (o, k')) :
    (maxThreads ≤ k.numThreads ∧ o = .created (-1) none ∧ k' = { k with calling := none }) ∨
    (k.numThreads < maxThreads ∧ freeSlot k.stack < maxThreads ∧
      o = .created 0 (some k.numThreads) ∧
      k' = { k.newThread (freeSlot k.stack) with calling := none }) := by
  -- the three branches of the source, of which the second is not defined
  unfold createThread at created
  split at created
  next full =>
    obtain ⟨rfl, rfl⟩ := Kernel.returns_eq created
    exact Or.inl ⟨full, rfl, rfl⟩
  next room =>
    split at created
    · simp at created
    next slot =>
      obtain ⟨rfl, rfl⟩ := Kernel.returns_eq created
      exact Or.inr ⟨Nat.lt_of_not_le room, Nat.lt_of_not_le slot, rfl, rfl⟩

theorem freeStack_null {thread : Tid} (freed : freeStack k thread = some k') :
    k' = { k with stack := k'.stack } ∧ k.stack thread ≠ .freed ∧
      ∀ tid, k'.stack tid = .null ↔ k.stack tid = .null := by
  unfold freeStack at freed
  split at freed
  next none_ =>
    rw [Option.some.injEq] at freed
    exact freed ▸ ⟨rfl, by simp [none_], fun _ => Iff.rfl⟩
  next held =>
    rw [Option.some.injEq] at freed
    subst freed
    refine ⟨rfl, by simp [held], fun tid => ?_⟩
    by_cases here : tid = thread
    · simp [here, held]
    · simp [here]
  · simp at freed

/-- A round of `pthread_join` frees a stack or calls `schedule`. -/
theorem pthreadJoin_eq {thread : Tid} (joined : pthreadJoin k thread = some (o, k')) :
    thread < maxThreads ∧
    ((k.process.status thread = .exited ∧ o = .joined thread (k.exitStatus thread) ∧
        k' = { k with stack := k'.stack, calling := none } ∧ k.stack thread ≠ .freed ∧
        ∀ tid, k'.stack tid = .null ↔ k.stack tid = .null) ∨
      (k.process.status thread ≠ .exited ∧ o = .scheduling ∧
        k' = { k with calling := some (.join thread) })) := by
  unfold pthreadJoin at joined
  split at joined
  · simp at joined
  next inTable =>
    refine ⟨Nat.lt_of_not_le inTable, ?_⟩
    split at joined
    -- the loop ends: `free`, and the value of the thread
    next exited =>
      split at joined
      · simp at joined
      next freed eq =>
        obtain ⟨rfl, rfl⟩ := Kernel.returns_eq joined
        obtain ⟨same, held, null⟩ := freeStack_null eq
        rw [same]
        exact Or.inl ⟨exited, rfl, rfl, held, null⟩
    next alive =>
      obtain ⟨rfl, rfl⟩ := Kernel.schedules_eq joined
      exact Or.inr ⟨alive, rfl, rfl⟩

theorem pthreadJoin_frame {thread : Tid} (joined : pthreadJoin k thread = some (o, k')) :
    Frame k k' ∧ k'.process = k.process := by
  obtain ⟨-, ⟨-, -, eq, -, null⟩ | ⟨-, -, eq⟩⟩ := pthreadJoin_eq joined
  · rw [eq]
    exact ⟨⟨rfl, rfl, rfl, rfl, null⟩, rfl⟩
  · rw [eq]
    exact ⟨⟨rfl, rfl, rfl, rfl, fun _ => Iff.rfl⟩, rfl⟩

/-- A test of a barrier calls `schedule`, in the loop or after it. -/
theorem testBarrier_eq {b : Nat} (tested : k.testBarrier b = some (o, k')) :
    o = .scheduling ∧ ∃ p barrier again, barrierTest k.process (k.barriers b) =
        some (p, barrier, again) ∧
      k' = { k.setBarrier b barrier with
        process := p, calling := some (if again then .spin b else .yield b) } := by
  unfold Kernel.testBarrier at tested
  split at tested
  · simp at tested
  next p barrier eq =>
    obtain ⟨rfl, rfl⟩ := Kernel.schedules_eq tested
    exact ⟨rfl, p, barrier, true, eq, rfl⟩
  next p barrier eq =>
    obtain ⟨rfl, rfl⟩ := Kernel.schedules_eq tested
    exact ⟨rfl, p, barrier, false, eq, rfl⟩

theorem testBarrier_frame {b : Nat} (tested : k.testBarrier b = some (o, k')) : Frame k k' := by
  obtain ⟨-, p, barrier, again, -, rfl⟩ := testBarrier_eq tested
  exact ⟨rfl, rfl, rfl, rfl, fun _ => Iff.rfl⟩

theorem pthreadBarrierWait_frame {b : Nat} (waited : pthreadBarrierWait k b = some (o, k')) :
    Frame k k' := by
  -- an overflow; a thread that gets blocked; the test of the loop
  unfold pthreadBarrierWait at waited
  dsimp only at waited
  split at waited
  · simp at waited
  · split at waited
    · split at waited
      · simp at waited
      · obtain ⟨rfl, rfl⟩ := Kernel.schedules_eq waited
        exact ⟨rfl, rfl, rfl, rfl, fun _ => Iff.rfl⟩
    · exact { testBarrier_frame waited with }

theorem resume_frame {resume : Resume} (resumed : k.resume resume = some (o, k')) : Frame k k' := by
  cases resume with
  | exit => simp [Kernel.resume] at resumed
  | join thread => exact (pthreadJoin_frame resumed).1
  | blocked b => exact testBarrier_frame resumed
  | spin b => exact testBarrier_frame resumed
  | _ =>
    -- every other call returns to user code
    obtain ⟨-, rfl⟩ := Kernel.returns_eq resumed
    exact ⟨rfl, rfl, rfl, rfl, fun _ => Iff.rfl⟩

/-- A switch: `schedule` chooses a thread, which goes on from its registers. -/
theorem switch_eq {resume : Resume} (switched : k.switch resume = some (o, k')) :
    ∃ p, schedule k.process = some p ∧
      { k with process := p, regs := k.saveRegs resume }.resume (k.saveRegs resume p.current) =
        some (o, k') := by
  unfold Kernel.switch at switched
  split at switched
  · simp at switched
  next p scheduled => exact ⟨p, scheduled, switched⟩

theorem switch_frame {resume : Resume} (switched : k.switch resume = some (o, k')) :
    Frame k k' := by
  obtain ⟨p, -, resumed⟩ := switch_eq switched
  exact { resume_frame resumed with }

theorem afterMutex_eq {m : Nat} {result : Option (Process × Mutex × Progress)}
    {outcome : Int → Outcome} {resume : Resume}
    (after : k.afterMutex m result outcome resume = some (o, k')) :
    ∃ p mutex progress calling, result = some (p, mutex, progress) ∧
      (progress = .schedules → calling = some resume) ∧
      ((∃ value, progress = .returns value) → calling = none) ∧
      k' = { k.setMutex m mutex with process := p, calling } := by
  unfold Kernel.afterMutex at after
  split at after
  · simp at after
  next p mutex value =>
    obtain ⟨rfl, rfl⟩ := Kernel.returns_eq after
    exact ⟨p, mutex, .returns value, none, rfl, by simp, fun _ => rfl, rfl⟩
  next p mutex =>
    obtain ⟨rfl, rfl⟩ := Kernel.schedules_eq after
    exact ⟨p, mutex, .schedules, some resume, rfl, fun _ => rfl, by simp, rfl⟩

/-- What it takes for `event` to lead from `k` to `k'`. -/
def Kernel.Steps (k : Kernel) (event : Event) (o : Outcome) (k' : Kernel) : Prop :=
  match event with
  | .create => k.calling = none ∧ pthreadCreate k = some (o, k')
  | .exit value => k.calling = none ∧ pthreadExit k value = some (o, k')
  | .join thread => k.calling = none ∧ pthreadJoin k thread = some (o, k')
  | .lock m => k.calling = none ∧ k.afterMutex m (pthreadMutexLock k.process (k.mutexes m))
      .locked .lock = some (o, k')
  | .unlock m => k.calling = none ∧ k.afterMutex m (pthreadMutexUnlock k.process (k.mutexes m))
      .unlocked .unlock = some (o, k')
  | .wait b => k.calling = none ∧ pthreadBarrierWait k b = some (o, k')
  | .timer => k.calling = none ∧ k.process.masked = false ∧
      k.schedules (.handler false) = some (o, k')
  | .switch => ∃ resume, k.calling = some resume ∧ k.switch resume = some (o, k')

theorem Kernel.steps_of_step {event : Event} (stepped : k.step event = some (o, k')) :
    k.Steps event o k' := by
  unfold Kernel.step at stepped
  split at stepped
  -- user code calls
  next calling =>
    cases event with
    | timer =>
      rw [Kernel.call] at stepped
      split at stepped
      · simp at stepped
      next unmasked =>
        rw [Bool.not_eq_true] at unmasked
        rw [unmasked] at stepped
        exact ⟨calling, unmasked, stepped⟩
    | switch => simp [Kernel.call] at stepped
    | _ => exact ⟨calling, stepped⟩
  -- a thread at a call of `schedule` can only be switched away from
  next resume calling =>
    split at stepped
    next here =>
      subst here
      exact ⟨resume, calling, stepped⟩
    · simp at stepped

end Frame

end OperatingSys.Threads
