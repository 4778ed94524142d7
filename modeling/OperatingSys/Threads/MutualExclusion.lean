import OperatingSys.Threads.Mutex
import OperatingSys.Lib.Machine

/-!
# Mutual exclusion

Threads that lock and unlock one mutex in turns. A call is one step up to its call of
`schedule`; the timer may switch threads anywhere in user code. A thread that was switched
away from inside a call returns from it as soon as it is switched to.
-/

namespace OperatingSys.Threads

/-- Where a thread is: in user code without the mutex, in `schedule` under
`pthread_mutex_lock`, in user code since `pthread_mutex_lock` returned, or in `schedule` under
`pthread_mutex_unlock`. -/
inductive Place where
  | outside
  | locking
  | holding
  | unlocking
  deriving DecidableEq

/-- The place of a thread once the `schedule` it is in has returned. -/
def Place.resumed : Place → Place
  | .locking => .holding
  | .unlocking => .outside
  | .outside => .outside
  | .holding => .holding

structure System where
  process : Process
  mutex : Mutex
  place : Tid → Place

/-- What the current thread does next. -/
inductive Action where
  | lock
  | unlock
  | timer
  deriving DecidableEq

namespace System

variable (s : System)

def setPlace (tid : Tid) (place : Place) : System :=
  { s with place := Function.update s.place tid place }

/-- `schedule`, until the thread that it switches to is back in user code. -/
def switch : Option System :=
  match schedule s.process with
  | none => none
  | some p => some ({ s with process := p }.setPlace p.current (s.place p.current).resumed)

/-- A call that got to `place` if it returned and to `inside` if it has to wait. -/
def after (outcome : Option (Process × Mutex × Progress)) (place inside : Place) : Option System :=
  match outcome with
  | none => none
  | some (p, m, .returns _) => some ({ s with process := p, mutex := m }.setPlace p.current place)
  | some (p, m, .schedules) =>
    ({ s with process := p, mutex := m }.setPlace p.current inside).switch

end System

/-- One action of the current thread; a thread unlocks only what it has locked. -/
def act (s : System) (action : Action) : Option System :=
  match action, s.place s.process.current with
  | .lock, .outside => s.after (pthreadMutexLock s.process s.mutex) .holding .locking
  | .unlock, .holding => s.after (pthreadMutexUnlock s.process s.mutex) .outside .unlocking
  | .timer, .outside => s.switch
  | .timer, .holding => s.switch
  | _, _ => none

def step (s : System) (action : Action) : Option (Unit × System) := (act s action).map ((), ·)

/-- Nobody has called yet. -/
structure Started (s : System) : Prop where
  mutex : s.mutex = pthreadMutexInit
  outside : ∀ tid, s.place tid = .outside

def MutualExclusion (s : System) : Prop :=
  ∀ t u, s.place t = .holding → s.place u = .holding → t = u

/-- The list of blocked threads has one node. -/
def oneWaiter (p : Process) (m : Mutex) : Bool :=
  match m.blockedThreadsHead with
  | none => false
  | some head =>
    match p.nodes head with
    | none => false
    | some node => node.next.isNone

/-- `pthread_mutex_unlock` is not called while exactly one thread waits. -/
def SparesLastWaiter (s : System) (action : Action) : Prop :=
  action = .unlock → oneWaiter s.process s.mutex = false

instance (s : System) (action : Action) : Decidable (SparesLastWaiter s action) :=
  inferInstanceAs (Decidable (_ → _))

/-! ### The invariant -/

/-- A thread owns the mutex from the moment it gets it, which may be before its call of
`pthread_mutex_lock` returns. -/
def Owner (s : System) (cells : List (Nat × Tid)) (tid : Tid) : Prop :=
  s.place tid = .holding ∨ s.place tid = .locking ∧ tid ∉ cells.map Prod.snd

structure Exclusive (s : System) (cells : List (Nat × Tid)) : Prop where
  queued : Queued s.process s.mutex cells
  distinct : (cells.map Prod.snd).Nodup
  waiting : ∀ tid ∈ cells.map Prod.snd, s.process.status tid = .blocked ∧ s.place tid = .locking
  free : s.mutex.locked = 0 → ∀ tid, ¬ Owner s cells tid
  single : ∀ t u, Owner s cells t → Owner s cells u → t = u

theorem Started.exclusive {s : System} (started : Started s) : Exclusive s [] := by
  have nobody : ∀ tid, ¬ Owner s [] tid := by
    rintro tid (holding | ⟨locking, -⟩)
    · simp [started.outside tid] at holding
    · simp [started.outside tid] at locking
  refine ⟨?_, List.nodup_nil, fun tid member => absurd member List.not_mem_nil,
    fun _ => nobody, fun t _ owner => absurd owner (nobody t)⟩
  rw [started.mutex]
  exact queued_init _

section Invariant

variable {s s' : System} {cells : List (Nat × Tid)} (exclusive : Exclusive s cells)
include exclusive

theorem Exclusive.mutualExclusion : MutualExclusion s := fun t u first second =>
  exclusive.single t u (Or.inl first) (Or.inl second)

theorem Exclusive.not_waiting {tid : Tid} (outside : s.place tid = .outside) :
    tid ∉ cells.map Prod.snd := by
  intro member
  have place := (exclusive.waiting tid member).2
  simp [outside] at place

/-- A switch gives the mutex to nobody. -/
theorem Exclusive.switch (switched : s.switch = some s') : Exclusive s' cells := by
  unfold System.switch at switched
  cases scheduled : schedule s.process with
  | none => simp [scheduled] at switched
  | some p =>
    obtain ⟨chosen, blocked, nodes, next, -⟩ := schedule_spec scheduled
    simp only [scheduled, Option.some.injEq] at switched
    subst switched
    have notWaiting : p.current ∉ cells.map Prod.snd := fun member =>
      chosen (exclusive.waiting _ member).1
    -- the chosen thread is not in the queue: if `schedule` returns to it inside
    -- `pthread_mutex_lock`, it has owned the mutex before
    have owners : ∀ tid, Owner ({ s with process := p }.setPlace p.current
        (s.place p.current).resumed) cells tid → Owner s cells tid := by
      intro tid owner
      by_cases here : tid = p.current
      · subst here
        unfold Owner at owner ⊢
        simp only [System.setPlace, Function.update_self] at owner
        cases place : s.place p.current <;> simp_all [Place.resumed]
      · simpa [Owner, System.setPlace, here] using owner
    refine ⟨{ exclusive.queued with
        linked := nodes ▸ exclusive.queued.linked, allocated := next ▸ exclusive.queued.allocated },
      exclusive.distinct, fun tid member => ?_, fun free tid owner => ?_, fun t u first second => ?_⟩
    · obtain ⟨waits, place⟩ := exclusive.waiting tid member
      have other : tid ≠ p.current := fun here => notWaiting (here ▸ member)
      exact ⟨blocked tid waits, by simpa [System.setPlace, other] using place⟩
    · exact exclusive.free free tid (owners tid owner)
    · exact exclusive.single t u (owners t first) (owners u second)

/-- Taking the mutex while it is free. -/
theorem Exclusive.take (outside : s.place s.process.current = .outside)
    (free : s.mutex.locked = 0) {p : Process} {m : Mutex}
    (status : p.status = Function.update s.process.status s.process.current .ready)
    (queued : Queued p m cells) (locked : m.locked = 1) :
    Exclusive ({ s with process := p, mutex := m }.setPlace s.process.current .holding) cells := by
  have notWaiting := exclusive.not_waiting outside
  -- nobody owned the mutex while it was free
  have owners : ∀ tid, Owner ({ s with process := p, mutex := m }.setPlace s.process.current
      .holding) cells tid → tid = s.process.current := by
    intro tid owner
    by_contra other
    refine exclusive.free free tid ?_
    simpa [Owner, System.setPlace, other] using owner
  refine ⟨queued, exclusive.distinct, fun tid member => ?_, fun zero => ?_, fun t u first second => ?_⟩
  · have other : tid ≠ s.process.current := fun here => notWaiting (here ▸ member)
    simpa [System.setPlace, other, status] using exclusive.waiting tid member
  · exact absurd (locked.symm.trans zero) (by decide)
  · rw [owners t first, owners u second]

/-- Joining the waiting threads. -/
theorem Exclusive.wait (outside : s.place s.process.current = .outside)
    (held : s.mutex.locked ≠ 0) {p : Process} {m : Mutex} {a : Nat}
    (status : p.status = Function.update s.process.status s.process.current .blocked)
    (queued : Queued p m (cells ++ [(a, s.process.current)])) (locked : m.locked = s.mutex.locked) :
    Exclusive ({ s with process := p, mutex := m }.setPlace s.process.current .locking)
      (cells ++ [(a, s.process.current)]) := by
  have notWaiting := exclusive.not_waiting outside
  -- a thread in the queue does not own the mutex
  have owners : ∀ tid, Owner ({ s with process := p, mutex := m }.setPlace s.process.current
      .locking) (cells ++ [(a, s.process.current)]) tid → Owner s cells tid := by
    intro tid owner
    by_cases here : tid = s.process.current
    · simp [Owner, System.setPlace, here] at owner
    · simpa [Owner, System.setPlace, here] using owner
  refine ⟨queued, ?_, fun tid member => ?_, fun zero => ?_, fun t u first second => ?_⟩
  · rw [List.map_append, List.nodup_append]
    refine ⟨exclusive.distinct, by simp, fun tid member other single => ?_⟩
    rw [List.map_singleton, List.mem_singleton] at single
    subst single
    rintro rfl
    exact notWaiting member
  · by_cases here : tid = s.process.current
    · simp [System.setPlace, here, status]
    · have old : tid ∈ cells.map Prod.snd := by simpa [here] using member
      simpa [System.setPlace, here, status] using exclusive.waiting tid old
  · exact absurd (locked.symm.trans zero) held
  · exact exclusive.single t u (owners t first) (owners u second)

theorem Exclusive.lock (outside : s.place s.process.current = .outside)
    (stepped : s.after (pthreadMutexLock s.process s.mutex) .holding .locking = some s') :
    ∃ cells', Exclusive s' cells' := by
  by_cases free : s.mutex.locked = 0
  · simp only [pthreadMutexLock, free, if_true, System.after, Option.some.injEq] at stepped
    subst stepped
    exact ⟨cells, exclusive.take outside free rfl { exclusive.queued with } rfl⟩
  · obtain ⟨p, m, joined, same, queued⟩ := enqueue_spec
      (p := s.process.lock.setStatus s.process.current .blocked) (m := s.mutex)
      { exclusive.queued with }
    have current : p.current = s.process.current := same.current
    simp only [pthreadMutexLock, free, if_false, Process.lock] at stepped
    simp only [Process.lock] at joined
    simp only [joined, System.after, current] at stepped
    exact ⟨_, (exclusive.wait outside free same.status queued same.locked).switch stepped⟩

/-- Giving the mutex up while nobody waits. -/
theorem Exclusive.release (holding : s.place s.process.current = .holding) {p : Process} {m : Mutex}
    (status : p.status = s.process.status) (queued : Queued p m cells) :
    Exclusive ({ s with process := p, mutex := m }.setPlace s.process.current .outside) cells := by
  -- the only owner is the one that gives the mutex up
  have owners : ∀ tid, ¬ Owner ({ s with process := p, mutex := m }.setPlace s.process.current
      .outside) cells tid := by
    intro tid owner
    by_cases here : tid = s.process.current
    · simp [Owner, System.setPlace, here] at owner
    · have before : Owner s cells tid := by simpa [Owner, System.setPlace, here] using owner
      exact here (exclusive.single tid _ before (Or.inl holding))
  refine ⟨queued, exclusive.distinct, fun tid member => ?_, fun _ => owners,
    fun t _ owner => absurd owner (owners t)⟩
  obtain ⟨blocked, place⟩ := exclusive.waiting tid member
  have other : tid ≠ s.process.current := by
    rintro rfl
    simp [holding] at place
  simpa [System.setPlace, other, status] using And.intro blocked place

end Invariant

section HandOver

variable {s s' : System} {cell : Nat × Tid} {rest : List (Nat × Tid)}
  (exclusive : Exclusive s (cell :: rest))
include exclusive

/-- Giving the mutex to the first waiting thread; it is the new owner although it is still in
`pthread_mutex_lock`. -/
theorem Exclusive.handOver (holding : s.place s.process.current = .holding) {p : Process} {m : Mutex}
    (status : p.status = Function.update s.process.status cell.2 .ready)
    (queued : Queued p m rest) (locked : m.locked = s.mutex.locked) :
    Exclusive ({ s with process := p, mutex := m }.setPlace s.process.current .unlocking) rest := by
  obtain ⟨absent, distinct⟩ := List.nodup_cons.mp exclusive.distinct
  -- the old owner goes, and the first of the queue is the new one
  have owners : ∀ tid, Owner ({ s with process := p, mutex := m }.setPlace s.process.current
      .unlocking) rest tid → tid = cell.2 := by
    intro tid owner
    by_contra other
    by_cases here : tid = s.process.current
    · simp [Owner, System.setPlace, here] at owner
    · have before : Owner s (cell :: rest) tid := by
        simpa [Owner, System.setPlace, here, other] using owner
      exact here (exclusive.single tid _ before (Or.inl holding))
  refine ⟨queued, distinct, fun tid member => ?_, fun zero => ?_, fun t u first second => ?_⟩
  · obtain ⟨blocked, place⟩ := exclusive.waiting tid (List.mem_cons_of_mem _ member)
    have other : tid ≠ s.process.current := by
      rintro rfl
      simp [holding] at place
    have other' : tid ≠ cell.2 := by
      rintro rfl
      exact absent member
    simpa [System.setPlace, other, other', status] using And.intro blocked place
  · exact absurd (Or.inl holding) (exclusive.free (locked.symm.trans zero) s.process.current)
  · rw [owners t first, owners u second]

end HandOver

/-- The list has one node exactly if the queue has one element. -/
theorem Queued.oneWaiter_iff {p : Process} {m : Mutex} {cell : Nat × Tid} {rest : List (Nat × Tid)}
    (queued : Queued p m (cell :: rest)) : oneWaiter p m = true ↔ rest = [] := by
  obtain ⟨points, node, here, -, tail⟩ := queued.linked
  simp only [oneWaiter, points, here]
  cases rest with
  | nil => simp [show node.next = none from tail]
  | cons second _ => simp [tail.1]

theorem Exclusive.unlock {s s' : System} {cells : List (Nat × Tid)} (exclusive : Exclusive s cells)
    (holding : s.place s.process.current = .holding)
    (spared : oneWaiter s.process s.mutex = false)
    (stepped : s.after (pthreadMutexUnlock s.process s.mutex) .outside .unlocking = some s') :
    ∃ cells', Exclusive s' cells' := by
  cases cells with
  | nil =>
    have head : s.mutex.blockedThreadsHead = none := exclusive.queued.linked
    simp only [pthreadMutexUnlock, head, System.after, Option.some.injEq] at stepped
    subst stepped
    exact ⟨[], exclusive.release holding rfl
      { exclusive.queued with linked := rfl }⟩
  | cons cell rest =>
    -- with one waiter only, `locked` would be cleared and the mutex handed over at once
    have more : rest ≠ [] := fun last => by
      rw [exclusive.queued.oneWaiter_iff.mpr last] at spared
      exact absurd spared (by decide)
    obtain ⟨p, m, ran, status, current, locked, queued⟩ := pthreadMutexUnlock_spec exclusive.queued
    rw [if_neg more] at locked
    simp only [ran, System.after, current] at stepped
    exact ⟨rest, (exclusive.handOver holding status queued locked).switch stepped⟩

theorem Exclusive.act {s s' : System} {cells : List (Nat × Tid)} (exclusive : Exclusive s cells)
    {action : Action} (spared : SparesLastWaiter s action) (stepped : act s action = some s') :
    ∃ cells', Exclusive s' cells' := by
  unfold Threads.act at stepped
  split at stepped
  next place => exact exclusive.lock place stepped
  next place => exact exclusive.unlock place (spared rfl) stepped
  next => exact ⟨cells, exclusive.switch stepped⟩
  next => exact ⟨cells, exclusive.switch stepped⟩
  next => simp at stepped

/-- **Mutual exclusion.** From the first call on, in every run in which
`pthread_mutex_unlock` is not called while exactly one thread waits, at most one thread is
between the return of its lock and its next unlock. -/
theorem mutualExclusion_of_spares {s : System} (started : Started s) {actions : List Action}
    (spared : Machine.Admits step SparesLastWaiter s actions) :
    Machine.Always step MutualExclusion s actions :=
  Machine.always_of_invariant (fun s => ∃ cells, Exclusive s cells)
    (fun _ ⟨_, exclusive⟩ => exclusive.mutualExclusion)
    (fun s action _ next ⟨_, exclusive⟩ spares stepped => by
      obtain ⟨s', acted, eq⟩ := Option.map_eq_some_iff.mp stepped
      rw [Prod.mk.injEq] at eq
      exact eq.2 ▸ exclusive.act spares acted)
    ⟨[], started.exclusive⟩ spared

/-! ### Runs -/

/-- `n` threads in user code, the first of them running. -/
def userThreads (n : Nat) : System where
  process :=
    { status := fun tid => if tid = 0 then .running else if tid < n then .ready else .empty
      current := 0
      masked := false
      nodes := fun _ => none
      next := 0 }
  mutex := pthreadMutexInit
  place := fun _ => .outside

/-- Two threads wait when the third unlocks. -/
def unlockTwoWaiters : List Action := [.lock, .timer, .lock, .lock, .unlock]

set_option maxRecDepth 10000 in
theorem mutualExclusion_of_spares_two_waiters :
    (∃ t, Machine.run step (userThreads 3) unlockTwoWaiters = some ([(), (), (), (), ()], t)) ∧
      Machine.Always step MutualExclusion (userThreads 3) unlockTwoWaiters :=
  ⟨⟨_, rfl⟩, mutualExclusion_of_spares ⟨rfl, fun _ => rfl⟩ (by decide +kernel)⟩

/-- One thread waits when the other unlocks, which sets `locked` to 0 although the waiting
thread has the mutex now; the other one takes it again. -/
def unlockOneWaiter : List Action := [.lock, .timer, .lock, .unlock, .timer, .lock]

/-- The timer strikes only while `SIGALRM` is not masked. -/
def TimerUnmasked (s : System) (action : Action) : Prop :=
  action = .timer → s.process.masked = false

instance (s : System) (action : Action) : Decidable (TimerUnmasked s action) :=
  inferInstanceAs (Decidable (_ → _))

set_option maxRecDepth 10000 in
theorem mutualExclusion_lost_one_waiter :
    Started (userThreads 2) ∧ Machine.Admits step TimerUnmasked (userThreads 2) unlockOneWaiter ∧
      ¬ Machine.Always step MutualExclusion (userThreads 2) unlockOneWaiter := by
  refine ⟨⟨rfl, fun _ => rfl⟩, by decide +kernel, fun always => ?_⟩
  have last : ∀ t, Machine.run step (userThreads 2) unlockOneWaiter =
      some ([(), (), (), (), (), ()], t) → MutualExclusion t := fun t ran =>
    always.last ran
  exact absurd (last _ rfl 0 1 rfl rfl) (by decide)

end OperatingSys.Threads
