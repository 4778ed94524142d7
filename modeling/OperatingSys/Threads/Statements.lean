import OperatingSys.Threads.Kernel

/-!
# The thread library, statement by statement (threads.c)

`SIGALRM` may arrive between any two statements of the library while it is not masked, also in
`schedule` itself, since its handler is installed with `SA_NODEFER`. A step is one statement of
the thread that has the processor, a signal, or a call of the library by user code. What stands
between `lock()` and `unlock()` in the functions of a mutex is one step.

A thread is in at most one call that user code has made. On top of it stand the calls of
`schedule`: the one that the library makes, and those of the handler. The registers that
`setjmp` saves stand for all of these. They are restored as they were saved, as `longjmp` does
it while the function that called `setjmp` has not returned.

The globals are those of `Kernel`, of which `regs` and `calling` are not used here. The result
`none` stands for what the source does not define, and for the end of the process.
-/

namespace OperatingSys.Threads

/-- The statement of `schedule` that comes next; `next` is its `next_tid`. -/
inductive SchedulePoint where
  | enter
  | preempt
  | begin
  | advance (next : Tid)
  | check (next : Tid)
  | test (next : Tid)
  | setjmp (next : Tid)
  | choose (next : Tid)
  | mark
  | jump
  | ret
  deriving DecidableEq

/-- A call of `schedule`, by the handler of `SIGALRM` or by the library. -/
structure Activation where
  point : SchedulePoint
  handler : Bool
  deriving DecidableEq

/-- The statement of `pthread_create` that comes next. -/
inductive CreatePoint where
  | first
  | ready
  | setjmp
  | search
  | limit
  | setPc
  | setR13
  | setR12
  | malloc
  | setReturn
  | setRsp
  | setStatus
  | setTid
  | store
  | count
  deriving DecidableEq

/-- The statement of `pthread_exit` that comes next. -/
inductive ExitPoint where
  | setStatus
  | setValue
  | count
  | alarm
  | schedule
  | exit
  deriving DecidableEq

/-- The statement of `pthread_join` that comes next; `*retval` is `value` in the end. -/
inductive JoinPoint where
  | test
  | free
  | store
  | ret (value : BitVec 64)
  deriving DecidableEq

/-- A call of the library by user code. `pthread_create` has found the entry `tid` and has made
`thread` of it; `ret` stands for the return from any of the calls that have no result but
`value`. -/
inductive Call where
  | create (point : CreatePoint) (tid : Tid) (thread : Nat)
  | exit (point : ExitPoint) (value : BitVec 64)
  | join (point : JoinPoint) (thread : Tid)
  | lock (m : Nat)
  | unlock (m : Nat)
  | wait (b : Nat) (point : Point)
  | ret (value : Int)
  deriving DecidableEq

/-- Where a thread is: in user code (`none`) or in a call, and in which calls of `schedule` on
top of it, the innermost one first. Threads are numbered as they are made, from 0 for the main
thread on; the library does not see these numbers. -/
structure Context where
  thread : Nat
  call : Option Call
  schedules : List Activation
  deriving DecidableEq

/-- The globals, the registers of the threads (`none` where they have not been filled in), the
thread that has the processor, and what its callers know of the library: the number of threads
made so far, the values of the calls of `pthread_exit`, and the thread that each `pthread_create`
has stored an id for. -/
structure Image where
  kernel : Kernel
  regs : Tid → Option Context
  running : Context
  made : Nat
  exits : Nat → Option (BitVec 64)
  ids : List (Nat × Nat)

namespace Image

variable (s : Image)

def status (tid : Tid) : Status := s.kernel.process.status tid

def current : Tid := s.kernel.process.current

def setStatus (tid : Tid) (status : Status) : Image :=
  { s with kernel.process := s.kernel.process.setStatus tid status }

/-- The call of the current thread goes on at `call`. -/
def goto (call : Call) : Image := { s with running.call := some call }

/-- The call of the current thread goes on at `call` once `schedule` has returned. -/
def schedules (call : Call) : Image :=
  { s with running := { s.running with
    call := some call
    schedules := ⟨.enter, false⟩ :: s.running.schedules } }

/-- The current thread is back in user code. -/
def leave : Image := { s with running.call := none }

/-- A statement of `schedule`, called as `a` says, over the calls in `rest`. -/
def scheduleStatement (a : Activation) (rest : List Activation) : Option Image :=
  let at_ (point : SchedulePoint) : Context :=
    { s.running with schedules := { a with point } :: rest }
  match a.point with
  | .enter =>
    some { s with running := at_ (if s.status s.current = .running then .preempt else .begin) }
  | .preempt => some { s.setStatus s.current .ready with running := at_ .begin }
  | .begin => some { s with running := at_ (.advance s.current) }
  | .advance next => some { s with running := at_ (.check (following next)) }
  | .check next =>
    some { s with running := at_ (if s.status next = .ready then .test next else .advance next) }
  | .test next =>
    some { s with
      running := at_ (if s.status s.current ≠ .exited then .setjmp next else .choose next) }
  | .setjmp next =>
    some { s with
      regs := Function.update s.regs s.current (some (at_ .ret))
      running := at_ (.choose next) }
  | .choose next => some { s with kernel.process.current := next, running := at_ .mark }
  | .mark => some { s.setStatus s.current .running with running := at_ .jump }
  | .jump => (s.regs s.current).map fun c => { s with running := c }
  -- the return from a handler sets the mask back
  | .ret =>
    some { s with
      running.schedules := rest
      kernel.process.masked := s.kernel.process.masked && !a.handler }

/-- A statement of `pthread_create`. -/
def createStatement (tid : Tid) (thread : Nat) : CreatePoint → Option Image
  -- no handler is installed before `scheduler_init` has returned
  | .first =>
    if s.kernel.isFirstCall then
      some ({ s with kernel := { schedulerInit s.kernel with isFirstCall := false } }.goto
        (.create .ready tid thread))
    else some (s.goto (.create .search 1 thread))
  | .ready => some ((s.setStatus 0 .ready).goto (.create .setjmp tid thread))
  -- a `longjmp` to here leads to `return 0`
  | .setjmp =>
    some ({ s with regs := Function.update s.regs 0 (some { s.running with call := some (.ret 0) })
      }.goto (.create .search 1 thread))
  | .search =>
    if tid < maxThreads ∧ s.kernel.stack tid ≠ .null then
      some (s.goto (.create .search (tid + 1) thread))
    else some (s.goto (.create .limit tid thread))
  | .limit =>
    if s.kernel.numThreads ≥ maxThreads then some (s.goto (.ret (-1)))
    else some (s.goto (.create .setPc tid thread))
  | .setPc =>
    -- an entry past the end of `threads`
    if tid ≥ maxThreads then none
    else
      some ({ s with regs := Function.update s.regs tid none }.goto (.create .setR13 tid thread))
  | .setR13 => some (s.goto (.create .setR12 tid thread))
  | .setR12 => some (s.goto (.create .malloc tid thread))
  | .malloc =>
    some ({ s with kernel.stack := Function.update s.kernel.stack tid .allocated }.goto
      (.create .setReturn tid thread))
  | .setReturn => some (s.goto (.create .setRsp tid thread))
  -- with the stack pointer the registers are complete
  | .setRsp =>
    some ({ s with
      regs := Function.update s.regs tid (some ⟨s.made, none, []⟩)
      made := s.made + 1 }.goto (.create .setStatus tid s.made))
  | .setStatus => some ((s.setStatus tid .ready).goto (.create .setTid tid thread))
  | .setTid =>
    some ({ s with kernel.id := Function.update s.kernel.id tid s.kernel.numThreads }.goto
      (.create .store tid thread))
  | .store =>
    some ({ s with ids := (s.kernel.numThreads, thread) :: s.ids }.goto (.create .count tid thread))
  | .count => some ({ s with kernel.numThreads := s.kernel.numThreads + 1 }.goto (.ret 0))

/-- A statement of `pthread_exit`. -/
def exitStatement (value : BitVec 64) : ExitPoint → Option Image
  | .setStatus => some ((s.setStatus s.current .exited).goto (.exit .setValue value))
  | .setValue =>
    some ({ s with kernel.exitStatus := Function.update s.kernel.exitStatus s.current value }.goto
      (.exit .count value))
  -- `exited_string++`
  | .count => some (s.goto (.exit .alarm value))
  | .alarm => some ({ s with kernel.armed := false }.goto (.exit .schedule value))
  | .schedule => some (s.schedules (.exit .exit value))
  | .exit => none

/-- A call on mutex `m` that has got as far as `result`. -/
def afterMutex (m : Nat) (result : Option (Process × Mutex × Progress)) (after : Int) :
    Option Image :=
  match result with
  | none => none
  | some (p, mutex, .returns value) =>
    some ({ s with kernel := { s.kernel with process := p }.setMutex m mutex }.goto (.ret value))
  | some (p, mutex, .schedules) =>
    some ({ s with kernel := { s.kernel with process := p }.setMutex m mutex }.schedules
      (.ret after))

end Image

/-- A statement of `pthread_barrier_wait`, as `Meeting` has it, in the current thread. -/
def waitStatement (p : Process) (b : Barrier) (point : Point) :
    Option (Process × Barrier × Point) :=
  let meeting : Meeting (p.current + 1) := ⟨p, b, fun _ => point, fun _ => 0, fun _ => []⟩
  (meeting.statement (Fin.last p.current)).map fun m =>
    (m.process, m.barrier, m.point (Fin.last p.current))

namespace Image

variable (s : Image)

def waitOn (b : Nat) (point : Point) : Option Image :=
  match waitStatement s.kernel.process (s.kernel.barriers b) point with
  | none => none
  | some (p, barrier, next) =>
    let s := { s with kernel := { s.kernel with process := p }.setBarrier b barrier }
    if point.schedules then some (s.schedules (.wait b next))
    else if next = .user then some s.leave
    else some (s.goto (.wait b next))

/-- What `pthread_join` has returned, and for which id. -/
abbrev Joins := Option (Tid × BitVec 64)

/-- A statement of `pthread_join`. -/
def joinStatement (thread : Tid) : JoinPoint → Option (Joins × Image)
  | .test =>
    if thread ≥ maxThreads then none
    else if s.status thread = .exited then some (none, s.goto (.join .free thread))
    else some (none, s.schedules (.join .test thread))
  | .free =>
    (freeStack s.kernel thread).map fun k => (none, { s with kernel := k }.goto (.join .store thread))
  | .store => some (none, s.goto (.join (.ret (s.kernel.exitStatus thread)) thread))
  | .ret value => some (some (thread, value), s.leave)

/-- A statement of the library, in a call by user code. -/
def callStatement : Call → Option (Joins × Image)
  | .create point tid thread => (s.createStatement tid thread point).map (none, ·)
  | .exit point value => (s.exitStatement value point).map (none, ·)
  | .join point thread => s.joinStatement thread point
  | .lock m =>
    (s.afterMutex m (pthreadMutexLock s.kernel.process (s.kernel.mutexes m)) (-1)).map (none, ·)
  | .unlock m =>
    (s.afterMutex m (pthreadMutexUnlock s.kernel.process (s.kernel.mutexes m)) 0).map (none, ·)
  | .wait b point => (s.waitOn b point).map (none, ·)
  | .ret _ => some (none, s.leave)

/-- The next statement of the current thread. -/
def statement : Option (Joins × Image) :=
  match s.running.schedules, s.running.call with
  | a :: rest, _ => (s.scheduleStatement a rest).map (none, ·)
  | [], some call => s.callStatement call
  | [], none => none

/-- The handler of `SIGALRM` is called. -/
def signal : Option Image :=
  if s.kernel.process.masked ∨ s.kernel.isFirstCall then none
  else some { s with running.schedules := ⟨.enter, true⟩ :: s.running.schedules }

end Image

/-- A call by user code. -/
inductive Request where
  | create
  | exit (value : BitVec 64)
  | join (thread : Tid)
  | lock (m : Nat)
  | unlock (m : Nat)
  | wait (b : Nat)
  deriving DecidableEq

/-- The first statement of the call. -/
def Request.call : Request → Call
  | .create => .create .first 0 0
  | .exit value => .exit .setStatus value
  | .join thread => .join .test thread
  | .lock m => .lock m
  | .unlock m => .unlock m
  | .wait b => .wait b .arrive

inductive Input where
  | statement
  | signal
  | request (request : Request)
  deriving DecidableEq

namespace Image

variable (s : Image)

/-- User code makes a call. -/
def request (r : Request) : Option Image :=
  if s.running.call = none ∧ s.running.schedules = [] then
    match r with
    | .exit value =>
      some ({ s with exits := Function.update s.exits s.running.thread (some value) }.goto r.call)
    | _ => some (s.goto r.call)
  else none

def step : Input → Option (Joins × Image)
  | .statement => s.statement
  | .signal => s.signal.map (none, ·)
  | .request r => (s.request r).map (none, ·)

/-- The main thread has just made the first call of `pthread_create`. What it has done with mutexes
and barriers before is in `k`. -/
def start (k : Kernel) : Image where
  kernel := k
  regs := fun _ => none
  running := ⟨0, some (.create .first 0 0), []⟩
  made := 1
  exits := fun _ => none
  ids := []

end Image

end OperatingSys.Threads
