import OperatingSys.Threads.Statements

/-!
# Between `lock()` and `unlock()` (threads.c)

`pthread_mutex_lock` and `pthread_mutex_unlock` statement by statement, in the library as
`Statements` has it otherwise. `SIGALRM` may arrive at any of these statements, too, while it is
not masked, and a thread that is switched away from in the middle of them goes on there.
-/

namespace OperatingSys.Threads

/-- The statement of `pthread_mutex_lock` that comes next after `lock()`, with the values of `n` and
`old_tail` from where they are set. -/
inductive LockPoint where
  | test
  | setLocked
  | setReady
  | unlock
  | setBlocked
  | malloc
  | setTid (n : Nat)
  | testHead (n : Nat)
  | setHead (n : Nat)
  | testTail (n : Nat)
  | linkHead (n : Nat)
  | mallocTail (n : Nat)
  | readTail (n : Nat)
  | setTail (n : Nat) (oldTail : Option Nat)
  | clearNext (n : Nat) (oldTail : Option Nat)
  | linkTail (n oldTail : Nat)
  | schedule
  deriving DecidableEq

/-- The statement of `pthread_mutex_unlock` that comes next after `lock()`, with the value of
`next`. -/
inductive UnlockPoint where
  | test
  | setLocked
  | unlock
  | readNext
  | setReady (next : Option Nat)
  | free (next : Option Nat)
  | setHead (next : Option Nat)
  | testNext (next : Option Nat)
  | clearTail
  | testHead
  | clearLocked
  | unlockWoken
  deriving DecidableEq

/-- A thread that has executed the `lock()` of one of the two functions. -/
inductive Section where
  | lock (point : LockPoint)
  | unlock (point : UnlockPoint)
  deriving DecidableEq

/-- What comes after a statement: another one, or the call has got that far. -/
inductive Following where
  | goto (inside : Section)
  | ends (progress : Progress)
  deriving DecidableEq

/-- The node that a pointer of a mutex leads to; `none` for a null or freed pointer. -/
def Process.deref (p : Process) (pointer : Option Nat) : Option (Nat × Node) :=
  match pointer with
  | none => none
  | some a => (p.nodes a).map (a, ·)

/-- A statement of `pthread_mutex_lock`. -/
def lockStatement (p : Process) (m : Mutex) : LockPoint → Option (Process × Mutex × Following)
  | .test =>
    some (p, m, .goto (.lock (if m.locked = 0 then .setLocked else .setBlocked)))
  | .setLocked => some (p, { m with locked := 1 }, .goto (.lock .setReady))
  | .setReady => some (p.setStatus p.current .ready, m, .goto (.lock .unlock))
  | .unlock => some (p.unlock, m, .ends (.returns 0))
  | .setBlocked => some (p.setStatus p.current .blocked, m, .goto (.lock .malloc))
  | .malloc => some (p.malloc, m, .goto (.lock (.setTid p.next)))
  -- `n->next` holds whatever was there
  | .setTid n =>
    some (p.setNode n (some ⟨p.current, (p.nodes n).bind Node.next⟩), m, .goto (.lock (.testHead n)))
  | .testHead n =>
    some (p, m, .goto (.lock (if m.blockedThreadsHead = none then .setHead n else .testTail n)))
  | .setHead n =>
    some (p, { m with blockedThreadsHead := some n }, .goto (.lock (.clearNext n none)))
  | .testTail n =>
    some (p, m, .goto (.lock (if m.blockedThreadsTail = none then .linkHead n else .mallocTail n)))
  | .linkHead n =>
    (p.deref m.blockedThreadsHead).map fun (head, first) =>
      (p.setNode head (some { first with next := some n }), m, .goto (.lock (.setTail n none)))
  -- the node that `old_tail` is set to first is forgotten
  | .mallocTail n => some (p.malloc, m, .goto (.lock (.readTail n)))
  | .readTail n => some (p, m, .goto (.lock (.setTail n m.blockedThreadsTail)))
  | .setTail n oldTail =>
    some (p, { m with blockedThreadsTail := some n }, .goto (.lock (.clearNext n oldTail)))
  | .clearNext n oldTail =>
    (p.deref (some n)).map fun (_, node) =>
      (p.setNode n (some { node with next := none }), m,
        .goto (.lock (match oldTail with | none => .schedule | some tail => .linkTail n tail)))
  | .linkTail n oldTail =>
    (p.deref (some oldTail)).map fun (_, last) =>
      (p.setNode oldTail (some { last with next := some n }), m, .goto (.lock .schedule))
  | .schedule => some (p, m, .ends .schedules)

/-- A statement of `pthread_mutex_unlock`. Its `schedule(0)` begins as soon as `unlock()` is done: a
signal in between finds the thread as it does at the beginning of `schedule`. -/
def unlockStatement (p : Process) (m : Mutex) : UnlockPoint → Option (Process × Mutex × Following)
  | .test =>
    some (p, m, .goto (.unlock (if m.blockedThreadsHead = none then .setLocked else .readNext)))
  | .setLocked => some (p, { m with locked := 0 }, .goto (.unlock .unlock))
  | .unlock => some (p.unlock, m, .ends (.returns 0))
  | .readNext =>
    (p.deref m.blockedThreadsHead).map fun (_, first) =>
      (p, m, .goto (.unlock (.setReady first.next)))
  | .setReady next =>
    (p.deref m.blockedThreadsHead).map fun (_, first) =>
      (p.setStatus first.tid .ready, m, .goto (.unlock (.free next)))
  | .free next =>
    (p.deref m.blockedThreadsHead).map fun (head, _) =>
      (p.setNode head none, m, .goto (.unlock (.setHead next)))
  | .setHead next =>
    some (p, { m with blockedThreadsHead := next }, .goto (.unlock (.testNext next)))
  | .testNext next =>
    some (p, m, .goto (.unlock (if next = none then .clearTail else .testHead)))
  | .clearTail => some (p, { m with blockedThreadsTail := none }, .goto (.unlock .testHead))
  | .testHead =>
    some (p, m, .goto (.unlock (if m.blockedThreadsHead = none then .clearLocked else .unlockWoken)))
  | .clearLocked => some (p, { m with locked := 0 }, .goto (.unlock .unlockWoken))
  | .unlockWoken => some (p.unlock, m, .ends .schedules)

def sectionStatement (p : Process) (m : Mutex) : Section → Option (Process × Mutex × Following)
  | .lock point => lockStatement p m point
  | .unlock point => unlockStatement p m point

/-- The mutex whose call the current thread is in, the first statement of it after `lock()`, and what
it returns after `schedule`. -/
def Image.mutexCall (s : Image) : Option (Nat × Section × Int) :=
  match s.running.schedules, s.running.call with
  | [], some (.lock m) => some (m, .lock .test, -1)
  | [], some (.unlock m) => some (m, .unlock .test, 0)
  | _, _ => none

/-- The library, and the threads that are between `lock()` and `unlock()` of a mutex. -/
structure Detailed where
  image : Image
  inside : Nat → Option Section

namespace Detailed

/-- No thread is. -/
def outside (s : Image) : Detailed := ⟨s, fun _ => none⟩

variable (d : Detailed)

def setInside (inside : Option Section) : Detailed :=
  { d with inside := Function.update d.inside d.image.running.thread inside }

/-- The next statement of a call on mutex `m`. -/
def mutexStatement (m : Nat) (first : Section) (after : Int) : Option Detailed :=
  match d.inside d.image.running.thread with
  -- `lock()`
  | none => some ({ d with image.kernel.process.masked := true }.setInside (some first))
  | some point =>
    match sectionStatement d.image.kernel.process (d.image.kernel.mutexes m) point with
    | none => none
    | some (p, mutex, .goto next) =>
      some ({ d with
        image.kernel := { d.image.kernel with process := p }.setMutex m mutex }.setInside (some next))
    | some (p, mutex, .ends progress) =>
      (d.image.afterMutex m (some (p, mutex, progress)) after).map fun image =>
        { d with image }.setInside none

/-- As in `Image`, but for the statements of the two functions. -/
def step : Input → Option (Image.Joins × Detailed)
  | .statement =>
    match d.image.mutexCall with
    | some (m, first, after) => (d.mutexStatement m first after).map (none, ·)
    | none => d.image.statement.map fun (joins, image) => (joins, { d with image })
  | input => (d.image.step input).map fun (joins, image) => (joins, { d with image })

end Detailed

end OperatingSys.Threads
