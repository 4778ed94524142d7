import OperatingSys.Threads.Kernel
import Mathlib.Data.Finset.Card

/-!
# Waiting for a mutex

`pthread_mutex_unlock` clears `locked` in two places: if nobody waits, and if it has woken the
last thread that waited. Several threads may then hold the mutex at once, but a thread that
waits always waits for somebody who holds it.
-/

namespace OperatingSys.Threads

/-- The first thread in the queue of mutex `m`. -/
def Kernel.firstWaiter (k : Kernel) (m : Nat) : Option Tid :=
  ((k.mutexes m).blockedThreadsHead.bind k.process.nodes).map Node.tid

/-- A step of the library, or the processor turns to the user code of a thread, whichever
`schedule` would choose. -/
inductive Move where
  | library (event : Event)
  | turn (thread : Tid)
  deriving DecidableEq

def Kernel.move (k : Kernel) : Move → Option (Outcome × Kernel)
  | .library event => k.step event
  | .turn thread => some (.resumed, { k with process.current := thread, calling := none })

/-- The library and the threads that hold mutex `m`: a thread holds it from the moment its
`pthread_mutex_lock` finds it free or a `pthread_mutex_unlock` takes it off the queue, until
it calls `pthread_mutex_unlock`. -/
structure Holding where
  kernel : Kernel
  holders : Finset Tid

/-- The holders of `m` after `move`. -/
def Kernel.holdersAfter (k : Kernel) (m : Nat) (move : Move) (holders : Finset Tid) :
    Finset Tid :=
  match move with
  | .library (.lock m') =>
    if m' = m ∧ (k.mutexes m).locked = 0 then insert k.process.current holders else holders
  | .library (.unlock m') =>
    if m' = m then
      match k.firstWaiter m with
      | none => holders.erase k.process.current
      | some tid => insert tid (holders.erase k.process.current)
    else holders
  | _ => holders

def Holding.step (m : Nat) (h : Holding) (move : Move) : Option (Outcome × Holding) :=
  match h.kernel.move move with
  | none => none
  | some (o, k) => some (o, ⟨k, h.kernel.holdersAfter m move h.holders⟩)

/-- While threads wait, the mutex is locked, somebody holds it, and it is not destroyed. -/
def NoStrandedWaiter (m : Nat) (h : Holding) : Prop :=
  (h.kernel.mutexes m).blockedThreadsHead ≠ none →
    (h.kernel.mutexes m).locked = 1 ∧ h.holders.Nonempty ∧
      pthreadMutexDestroy h.kernel.process (h.kernel.mutexes m) = some (-1, h.kernel.process)

/-- What lock and unlock preserve of a mutex. -/
structure Guarded (mutex : Mutex) (holders : Finset Tid) : Prop where
  locked : mutex.locked = 0 ∨ mutex.locked = 1
  waited : mutex.blockedThreadsHead ≠ none → mutex.locked = 1
  held : mutex.locked = 1 → holders.Nonempty

theorem Guarded.noStrandedWaiter {m : Nat} {h : Holding}
    (guarded : Guarded (h.kernel.mutexes m) h.holders) : NoStrandedWaiter m h := by
  intro waiting
  have locked := guarded.waited waiting
  refine ⟨locked, guarded.held locked, ?_⟩
  -- `locked` is 1, so that `pthread_mutex_destroy` returns at once
  rw [pthreadMutexDestroy, if_pos]
  rw [locked]
  decide

section Mutex

variable {p p' : Process} {mutex mutex' : Mutex} {progress : Progress}

/-- `pthread_mutex_lock` takes the mutex or leaves it locked as it is. -/
theorem pthreadMutexLock_locked
    (ran : pthreadMutexLock p mutex = some (p', mutex', progress)) :
    (mutex.locked = 0 ∧ mutex'.locked = 1) ∨
      (mutex.locked ≠ 0 ∧ mutex'.locked = mutex.locked) := by
  unfold pthreadMutexLock at ran
  dsimp only at ran
  split at ran
  next free =>
    cases ran
    exact Or.inl ⟨free, rfl⟩
  next taken =>
    split at ran
    · simp at ran
    next joined =>
      cases ran
      exact Or.inr ⟨taken, (enqueue_kept joined).2⟩

/-- `pthread_mutex_unlock` clears `locked` unless it leaves somebody waiting. -/
theorem pthreadMutexUnlock_locked
    (ran : pthreadMutexUnlock p mutex = some (p', mutex', progress)) :
    (mutex'.blockedThreadsHead = none ∧ mutex'.locked = 0) ∨
      (mutex'.locked = mutex.locked ∧
        ∃ first, mutex.blockedThreadsHead.bind p.nodes = some first) := by
  unfold pthreadMutexUnlock at ran
  dsimp only at ran
  split at ran
  next empty =>
    cases ran
    exact Or.inl ⟨empty, rfl⟩
  next head points =>
    split at ran
    · simp at ran
    next first here =>
      rw [Option.some.injEq, Prod.mk.injEq, Prod.mk.injEq] at ran
      obtain ⟨-, rfl, -⟩ := ran
      -- the thread that leaves was the last one to wait, or others still do
      by_cases last : first.next = none
      · left
        simp [last]
      · right
        have found : mutex.blockedThreadsHead.bind p.nodes = some first := by
          rw [points, Option.bind_some]
          exact here
        simp [last, found]

end Mutex

section Steps

variable {k k' : Kernel} {o : Outcome} {event : Event}

theorem pthreadCreate_mutexes (created : pthreadCreate k = some (o, k')) :
    k'.mutexes = k.mutexes := by
  have same : (firstCall k).mutexes = k.mutexes := by
    unfold firstCall
    split <;> rfl
  rcases createThread_eq created with ⟨-, -, rfl⟩ | ⟨-, -, -, rfl⟩
  · exact same
  · exact same

/-- A mutex changes only by calls on it. -/
theorem step_mutex (stepped : k.step event = some (o, k')) (m : Nat) :
    (k'.mutexes m = k.mutexes m ∧ ∀ holders, k.holdersAfter m (.library event) holders = holders) ∨
    (event = .lock m ∧ ∃ p progress,
      pthreadMutexLock k.process (k.mutexes m) = some (p, k'.mutexes m, progress)) ∨
    (event = .unlock m ∧ ∃ p progress,
      pthreadMutexUnlock k.process (k.mutexes m) = some (p, k'.mutexes m, progress)) := by
  have steps := Kernel.steps_of_step stepped
  cases event with
  | create => exact Or.inl ⟨by rw [pthreadCreate_mutexes steps.2], fun _ => rfl⟩
  | exit value =>
    obtain ⟨-, rfl⟩ := Kernel.schedules_eq steps.2
    exact Or.inl ⟨rfl, fun _ => rfl⟩
  | join thread => exact Or.inl ⟨by rw [(pthreadJoin_frame steps.2).1.mutexes], fun _ => rfl⟩
  -- a call on another mutex leaves this one and its holders alone
  | lock m' =>
    obtain ⟨p, mutex, progress, calling, ran, -, -, rfl⟩ := afterMutex_eq steps.2
    by_cases here : m' = m
    · subst here
      refine Or.inr (Or.inl ⟨rfl, p, progress, ?_⟩)
      simp only [Kernel.setMutex, Function.update_self]
      exact ran
    · left
      simp [Kernel.setMutex, Function.update_of_ne (Ne.symm here), Kernel.holdersAfter, here]
  | unlock m' =>
    obtain ⟨p, mutex, progress, calling, ran, -, -, rfl⟩ := afterMutex_eq steps.2
    by_cases here : m' = m
    · subst here
      refine Or.inr (Or.inr ⟨rfl, p, progress, ?_⟩)
      simp only [Kernel.setMutex, Function.update_self]
      exact ran
    · left
      simp [Kernel.setMutex, Function.update_of_ne (Ne.symm here), Kernel.holdersAfter, here]
  | wait b => exact Or.inl ⟨by rw [(pthreadBarrierWait_frame steps.2).mutexes], fun _ => rfl⟩
  | timer =>
    obtain ⟨-, rfl⟩ := Kernel.schedules_eq steps.2.2
    exact Or.inl ⟨rfl, fun _ => rfl⟩
  | switch =>
    obtain ⟨resume, -, switched⟩ := steps
    exact Or.inl ⟨by rw [(switch_frame switched).mutexes], fun _ => rfl⟩

/-- Every step keeps the mutex guarded, whoever unlocks it. -/
theorem Guarded.step {m : Nat} {holders : Finset Tid} (guarded : Guarded (k.mutexes m) holders)
    (stepped : k.step event = some (o, k')) :
    Guarded (k'.mutexes m) (k.holdersAfter m (.library event) holders) := by
  rcases step_mutex stepped m with
    ⟨same, unchanged⟩ | ⟨rfl, p, progress, ran⟩ | ⟨rfl, p, progress, ran⟩
  · rw [same, unchanged]
    exact guarded
  -- whoever finds the mutex free holds it; whoever waits finds it locked, and so held
  · rcases pthreadMutexLock_locked ran with ⟨free, locked⟩ | ⟨taken, locked⟩
    · simp only [Kernel.holdersAfter, free, true_and, if_true]
      exact ⟨Or.inr locked, fun _ => locked, fun _ => Finset.insert_nonempty _ _⟩
    · simp only [Kernel.holdersAfter, taken, and_false, if_false]
      have one : (k'.mutexes m).locked = 1 := locked.trans (guarded.locked.resolve_left taken)
      exact ⟨Or.inr one, fun _ => one, fun _ => guarded.held (locked ▸ one)⟩
  · rcases pthreadMutexUnlock_locked ran with ⟨empty, free⟩ | ⟨locked, first, found⟩
    -- nobody waits any more, so that nothing is promised
    · exact ⟨Or.inl free, fun waiting => absurd empty waiting,
        fun one => absurd (free.symm.trans one) (by decide)⟩
    · -- the thread that leaves the queue holds the mutex from now on
      have next : k.firstWaiter m = some first.tid := by
        rw [Kernel.firstWaiter, found, Option.map_some]
      have waited : (k.mutexes m).blockedThreadsHead ≠ none := by
        intro empty
        simp [empty] at found
      have one := locked.trans (guarded.waited waited)
      simp only [Kernel.holdersAfter, if_true, next]
      exact ⟨Or.inr one, fun _ => one, fun _ => Finset.insert_nonempty _ _⟩

theorem Guarded.moved {m : Nat} {holders : Finset Tid} {move : Move}
    (guarded : Guarded (k.mutexes m) holders) (moved : k.move move = some (o, k')) :
    Guarded (k'.mutexes m) (k.holdersAfter m move holders) := by
  cases move with
  | library event => exact guarded.step moved
  | turn thread =>
    rw [Kernel.move, Option.some.injEq, Prod.mk.injEq] at moved
    obtain ⟨-, rfl⟩ := moved
    exact guarded

end Steps

/-- **No stranded waiter.** From an initialised mutex on, whatever the threads do with it and
with the rest of the library, in any order: while a thread waits for the mutex, `locked` is 1,
some thread holds it, and `pthread_mutex_destroy` refuses it. -/
theorem noStrandedWaiter_always {m : Nat} {h : Holding}
    (initialised : h.kernel.mutexes m = pthreadMutexInit) (moves : List Move) :
    Machine.Always (Holding.step m) (NoStrandedWaiter m) h moves := by
  have guarded : Guarded (h.kernel.mutexes m) h.holders := by
    rw [initialised]
    exact ⟨Or.inl rfl, fun waiting => absurd rfl waiting, fun one => absurd one (by decide)⟩
  refine Machine.always_of_invariant (fun h : Holding => Guarded (h.kernel.mutexes m) h.holders)
    (fun _ guarded => guarded.noStrandedWaiter) ?_ guarded (Machine.admits_true moves)
  intro h move o h' guarded _ stepped
  unfold Holding.step at stepped
  split at stepped
  · simp at stepped
  next o' k' moved =>
    rw [Option.some.injEq, Prod.mk.injEq] at stepped
    obtain ⟨-, rfl⟩ := stepped
    exact guarded.moved moved

/-- Thread 1 calls `pthread_mutex_lock` while thread 0 holds the mutex. -/
theorem noStrandedWaiter_always_oneWaits :
    let moves := [.library (.lock 0), .turn 1, .library (.lock 0)]
    Machine.Always (Holding.step 0) (NoStrandedWaiter 0) ⟨Kernel.loaded, ∅⟩ moves ∧
      (Machine.run (Holding.step 0) ⟨Kernel.loaded, ∅⟩ moves).map
        (fun r => r.2.kernel.firstWaiter 0) = some (some 1) :=
  ⟨noStrandedWaiter_always rfl _, by decide⟩

end OperatingSys.Threads
