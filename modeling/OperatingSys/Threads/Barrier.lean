import OperatingSys.Threads.Scheduler
import Mathlib.Algebra.Group.Int.Defs
import Mathlib.Algebra.Group.Nat.Defs
import OperatingSys.Threads.Rounds
import OperatingSys.Lib.Machine

/-!
# The barrier (threads.c)

`pthread_barrier_wait` statement by statement, for the `n` threads that use one barrier. A
step is one statement of one thread, and any thread may take the next one. The result `none`
stands for what the source does not define: an access through a null or freed pointer, or an
overflow of `threads_blocked`.
-/

namespace OperatingSys.Threads

/-- `struct my_barrier_t`. -/
structure Barrier where
  count : Int
  threadsBlocked : Int
  blockedOne : Option Nat
  blockedTwo : Option Nat
  init : Int
  serialed : Bool

/-- `pthread_barrier_init`: the `unsigned` argument is stored in an `int`. -/
def pthreadBarrierInit (count : BitVec 32) : Barrier where
  count := count.toInt
  threadsBlocked := 0
  blockedOne := none
  blockedTwo := none
  init := 1
  serialed := false

/-- The list of blocked threads when `b->init != 1`: thread `tid` joins it. -/
def blockOn (p : Process) (b : Barrier) (tid : Tid) : Option (Process × Barrier) :=
  let node : Node := { tid, next := none }
  let q := p.malloc.setNode p.next (some node)
  match b.blockedOne, b.blockedTwo with
  | none, _ => some (q, { b with blockedOne := some p.next })
  -- `b->Blocked_two->next` through a null pointer
  | some _, none => none
  | some _, some two =>
    match q.nodes two with
    | none => none
    | some last =>
      some (q.setNode two (some { last with next := some p.next }),
        { b with blockedTwo := some p.next })

/-- `if (b->init == 0)`: the first thread of the list leaves it. -/
def unblockFrom (p : Process) (b : Barrier) : Option (Process × Barrier) :=
  if b.init = 0 then
    match b.blockedOne with
    | none => none
    | some one =>
      match p.nodes one with
      | none => none
      | some first =>
        some ((p.setStatus first.tid .ready).setNode one none,
          { b with init := 1, blockedOne := first.next })
  else some (p, b)

/-- `PTHREAD_BARRIER_SERIAL_THREAD`. -/
def serialThread : Int := -1

/-- The statement of `pthread_barrier_wait` that a thread executes next; `user` while it is
not in a call. What stands between `lock()` and `unlock()` cannot be interrupted, and each of
the two lists is changed in one step. After `if (!b->serialed)` a thread knows whether it is
the `first`. -/
inductive Point where
  | user
  | arrive
  | checkInit
  | blockLock
  | blockStatus
  | blockNode
  | blockInit
  | blockUnlock
  | blockSchedule
  | test
  | spin
  | wakeLock
  | wake
  | wakeUnlock
  | yield
  | checkSerialed
  | resetCount (first : Bool)
  | clearOne (first : Bool)
  | setInit (first : Bool)
  | clearTwo (first : Bool)
  | setSerialed
  | ret (value : Int)
  deriving DecidableEq

/-- At a call of `schedule`. -/
def Point.schedules : Point → Bool
  | .blockSchedule | .spin | .yield => true
  | _ => false

/-- Past the `while` loop, with `b->threads_blocked=0` still to come. -/
def Point.pastLoop : Point → Bool
  | .wakeLock | .wake | .wakeUnlock | .yield | .checkSerialed | .resetCount _ => true
  | _ => false

/-- The barrier, the threads that use it, how often each has called and what its calls have
returned so far. -/
structure Meeting (n : Nat) where
  process : Process
  barrier : Barrier
  point : Fin n → Point
  calls : Fin n → Nat
  returned : Fin n → List Int

namespace Meeting

variable {n : Nat} (s : Meeting n) (t : Fin n)

def goto (point : Point) : Meeting n := { s with point := Function.update s.point t point }

/-- The threads of a new barrier with count `n`, all in user code. -/
def start (p : Process) (n : Nat) : Meeting n where
  process := p
  barrier := pthreadBarrierInit (BitVec.ofNat 32 n)
  point := fun _ => .user
  calls := fun _ => 0
  returned := fun _ => []

/-- Thread `t` joins the blocked threads. -/
def block : Option (Meeting n) :=
  (blockOn s.process s.barrier t.val).map fun r => { s with process := r.1, barrier := r.2 }

/-- A blocked thread is woken. -/
def unblock : Option (Meeting n) :=
  (unblockFrom s.process s.barrier).map fun r => { s with process := r.1, barrier := r.2 }

/-- One statement of thread `t`. -/
def statement : Option (Meeting n) :=
  match s.point t with
  | .user => some ({ s with calls := Function.update s.calls t (s.calls t + 1) }.goto t .arrive)
  | .arrive =>
    if s.barrier.threadsBlocked = 2 ^ 31 - 1 then none
    else
      some ({ s with barrier.threadsBlocked := s.barrier.threadsBlocked + 1 }.goto t .checkInit)
  | .checkInit => some (s.goto t (if s.barrier.init ≠ 1 then .blockLock else .test))
  | .blockLock => some ({ s with process := s.process.lock }.goto t .blockStatus)
  | .blockStatus =>
    some ({ s with process := s.process.setStatus t.val .blocked }.goto t .blockNode)
  | .blockNode => (s.block t).map (·.goto t .blockInit)
  | .blockInit => some ({ s with barrier.init := 0 }.goto t .blockUnlock)
  | .blockUnlock => some ({ s with process := s.process.unlock }.goto t .blockSchedule)
  | .blockSchedule => some (s.goto t .test)
  | .test => some (s.goto t (if s.barrier.threadsBlocked < s.barrier.count then .spin else .wakeLock))
  | .spin => some (s.goto t .test)
  | .wakeLock => some ({ s with process := s.process.lock }.goto t .wake)
  | .wake => s.unblock.map (·.goto t .wakeUnlock)
  | .wakeUnlock => some ({ s with process := s.process.unlock }.goto t .yield)
  | .yield => some (s.goto t .checkSerialed)
  | .checkSerialed => some (s.goto t (.resetCount !s.barrier.serialed))
  | .resetCount first => some ({ s with barrier.threadsBlocked := 0 }.goto t (.clearOne first))
  | .clearOne first => some ({ s with barrier.blockedOne := none }.goto t (.setInit first))
  | .setInit first => some ({ s with barrier.init := 1 }.goto t (.clearTwo first))
  | .clearTwo first =>
    some ({ s with barrier.blockedTwo := none }.goto t (if first then .setSerialed else .ret 0))
  | .setSerialed => some ({ s with barrier.serialed := true }.goto t (.ret serialThread))
  | .ret value =>
    some ({ s with returned := Function.update s.returned t (value :: s.returned t) }.goto t .user)

/-- The next statement is one of thread `t`, which now is the current thread. -/
def step : Option (Unit × Meeting n) :=
  ({ s with process.current := t.val }.statement t).map ((), ·)

/-- Only the lists of blocked threads differ, and the status of those in them. -/
structure SameMeeting (s s' : Meeting n) : Prop where
  current : s'.process.current = s.process.current
  point : s'.point = s.point
  calls : s'.calls = s.calls
  returned : s'.returned = s.returned
  threadsBlocked : s'.barrier.threadsBlocked = s.barrier.threadsBlocked
  count : s'.barrier.count = s.barrier.count
  serialed : s'.barrier.serialed = s.barrier.serialed

variable {s t} in
theorem block_same {s' : Meeting n} (blocked : s.block t = some s') : SameMeeting s s' := by
  obtain ⟨⟨p, b⟩, joined, rfl⟩ := Option.map_eq_some_iff.mp blocked
  simp only [blockOn] at joined
  split at joined
  · cases joined
    exact ⟨rfl, rfl, rfl, rfl, rfl, rfl, rfl⟩
  · simp at joined
  · split at joined
    · simp at joined
    · cases joined
      exact ⟨rfl, rfl, rfl, rfl, rfl, rfl, rfl⟩

variable {s} in
theorem unblock_same {s' : Meeting n} (unblocked : s.unblock = some s') : SameMeeting s s' := by
  obtain ⟨⟨p, b⟩, left, rfl⟩ := Option.map_eq_some_iff.mp unblocked
  simp only [unblockFrom] at left
  split at left
  · split at left
    · simp at left
    · split at left
      · simp at left
      · cases left
        exact ⟨rfl, rfl, rfl, rfl, rfl, rfl, rfl⟩
  · cases left
    exact ⟨rfl, rfl, rfl, rfl, rfl, rfl, rfl⟩

end Meeting

end OperatingSys.Threads
