import OperatingSys.Threads.Census
import OperatingSys.Threads.RoundRobin
import OperatingSys.Threads.ThreadStates
import OperatingSys.Threads.Waiters

/-!
# What a step does to the others

How the table, the queues and the saved registers of the threads change while one of them has the
processor. A thread that does not have it is woken by others, and otherwise stays where it is until
a switch turns to it.
-/

namespace OperatingSys.Threads

open Cyclic

/-- Thread `tid` is in `schedule` under `pthread_mutex_lock`. -/
def Kernel.InLock (k : Kernel) (tid : Tid) : Prop :=
  (tid = k.process.current ∧ k.calling = some .lock ∧ k.process.status tid = .blocked) ∨
    (tid ≠ k.process.current ∧ k.regs tid = .lock ∧
      (k.process.status tid = .blocked ∨ k.process.status tid = .ready))

/-! ### The table -/

section Table

variable {k k' : Kernel} {o : Outcome} {event : Event}

/-- `schedule` serves the first ready thread of the ring, the current one last. -/
theorem schedule_find {p p' : Process} (inTable : p.current < maxThreads)
    (switched : schedule p = some p') : ∃ status : Tid → Status,
      (after maxThreads p.current).find? (fun tid => status tid = .ready) = some p'.current ∧
      ∀ tid, status tid = .ready ↔
        p.status tid = .ready ∨ (tid = p.current ∧ p.status tid = .running) := by
  obtain ⟨q, eq⟩ : ∃ q, q = if p.status p.current = .running then p.setStatus p.current .ready
    else p := ⟨_, rfl⟩
  have same : q.current = p.current ∧ ∀ tid, q.status tid = .ready ↔
      p.status tid = .ready ∨ (tid = p.current ∧ p.status tid = .running) := by
    rw [eq]
    split
    next running =>
      refine ⟨rfl, fun tid => ?_⟩
      by_cases here : tid = p.current
      · simp [Process.setStatus, here, running]
      · simp [Process.setStatus, here]
    next still =>
      refine ⟨rfl, fun tid => ?_⟩
      by_cases here : tid = p.current
      · simp [here, still]
      · simp [here]
  simp only [schedule, ← eq] at switched
  rw [same.1, search_around q.status inTable] at switched
  refine ⟨q.status, ?_, same.2⟩
  split at switched
  · simp at switched
  next found =>
    rw [Option.some.injEq] at switched
    rw [found, ← switched]

/-- What others do to a thread: they wake it, or make a new one of its entry. Only a switch gives
the processor away. -/
theorem Orderly.other_step (orderly : Orderly k) {tid : Tid} (inTable : tid < maxThreads)
    (other : tid ≠ k.process.current) (stepped : k.step event = some (o, k')) :
    (event ≠ .switch → k'.process.current = k.process.current) ∧
      (tid ≠ k'.process.current → k'.process.status tid = k.process.status tid ∨
        (k'.process.status tid = .ready ∧
          (k.process.status tid = .blocked ∨
            (k.process.status tid = .empty ∧ k'.regs tid = .start)))) := by
  have steps := Kernel.steps_of_step stepped
  cases event with
  | create =>
    obtain ⟨-, created⟩ := steps
    rw [pthreadCreate, firstCall_of_later orderly.isFirstCall] at created
    rcases createThread_eq created with ⟨-, -, rfl⟩ | ⟨-, room, -, rfl⟩
    · exact ⟨fun _ => rfl, fun _ => Or.inl rfl⟩
    · refine ⟨fun _ => rfl, fun _ => ?_⟩
      -- a new thread takes an entry of the table whose stack was null, so nobody is there
      by_cases here : tid = freeSlot k.stack
      · obtain ⟨used, null⟩ := freeSlot_null room
        subst here
        exact Or.inr ⟨Function.update_self _ _ _,
          Or.inr ⟨orderly.unused _ room used null, Function.update_self _ _ _⟩⟩
      · exact Or.inl (Function.update_of_ne here _ _)
  | exit value =>
    obtain ⟨-, rfl⟩ := Kernel.schedules_eq steps.2
    exact ⟨fun _ => rfl, fun _ => Or.inl (Function.update_of_ne other _ _)⟩
  | join thread =>
    have quiet := pthreadJoin_quiet orderly.barriers steps.2
    exact ⟨fun _ => quiet.current, fun _ => Or.inl (by rw [quiet.status])⟩
  | lock m =>
    obtain ⟨p, mutex, progress, calling, ran, -, -, rfl⟩ := afterMutex_eq steps.2
    obtain ⟨cells, waiting⟩ := orderly.waiting
    -- whether the mutex was free or not, only the caller changes its own status
    obtain ⟨current, -, ⟨-, status⟩ | ⟨-, -, status⟩⟩ :=
      waiting.lock orderly.inTable (orderly.current_active steps.1).1 ran
    all_goals
      refine ⟨fun _ => current, fun _ => Or.inl ?_⟩
      rw [status]
      exact Function.update_of_ne other _ _
  | unlock m =>
    obtain ⟨p, mutex, progress, calling, ran, -, -, rfl⟩ := afterMutex_eq steps.2
    obtain ⟨cells, waiting⟩ := orderly.waiting
    obtain ⟨current, -, ⟨-, status⟩ | ⟨-, thread, blocked, status⟩⟩ := waiting.unlock ran
    · exact ⟨fun _ => current, fun _ => Or.inl (by rw [status])⟩
    · refine ⟨fun _ => current, fun _ => ?_⟩
      rw [status]
      -- the first of the queue, if there is one, is the only one that an unlock wakes
      by_cases here : tid = thread
      · subst here
        exact Or.inr ⟨Function.update_self _ _ _, Or.inl blocked⟩
      · exact Or.inl (Function.update_of_ne here _ _)
  | wait b =>
    have quiet := pthreadBarrierWait_quiet orderly.barriers steps.2
    exact ⟨fun _ => quiet.current, fun _ => Or.inl (by rw [quiet.status])⟩
  | timer =>
    obtain ⟨-, rfl⟩ := Kernel.schedules_eq steps.2.2
    exact ⟨fun _ => rfl, fun _ => Or.inl rfl⟩
  | switch =>
    obtain ⟨resume, -, switched⟩ := steps
    obtain ⟨p, scheduled, resumed⟩ := switch_eq switched
    have table := schedule_switched scheduled
    have quiet := resume_quiet (k := { k with process := p, regs := k.saveRegs resume })
      orderly.barriers resumed
    refine ⟨fun kept => absurd rfl kept, fun away => Or.inl ?_⟩
    -- `schedule` writes the status of the thread that it leaves and of the one that it picks
    rw [quiet.current] at away
    rw [quiet.status]
    change p.status tid = _
    rw [table.status, if_neg away, if_neg (fun here => other here.1)]

/-- Only `schedule` gives the processor away. -/
theorem Orderly.current_step (orderly : Orderly k) (stepped : k.step event = some (o, k'))
    (stays : event ≠ .switch) : k'.process.current = k.process.current := by
  -- seen from any other thread
  obtain ⟨tid, inTable, other⟩ : ∃ tid < maxThreads, tid ≠ k.process.current := by
    by_cases main : k.process.current = 0
    · exact ⟨1, by decide, by simp [main]⟩
    · exact ⟨0, by decide, Ne.symm main⟩
  exact (orderly.other_step inTable other stepped).1 stays

end Table

theorem runnable_iff {p : Process} {tid : Tid} :
    runnable p tid = true ↔ p.status tid = .running ∨ p.status tid = .ready := by
  simp [runnable]

/-! ### The queues -/

section Waiting

variable {p p' : Process} {mutexes : Nat → Mutex} {cells : Nat → List (Nat × Tid)} {m : Nat}
  {mutex' : Mutex} {progress : Progress} (waiting : Waiting p mutexes cells)
include waiting

/-- `pthread_mutex_lock` leaves the queues alone or puts the caller at the end of one. -/
theorem Waiting.lock_cells (inTable : p.current < maxThreads)
    (active : p.status p.current ≠ .blocked)
    (ran : pthreadMutexLock p (mutexes m) = some (p', mutex', progress)) :
    Waiting p' (Function.update mutexes m mutex') cells ∨
      (progress = .schedules ∧ p'.current = p.current ∧ p'.status p.current = .blocked ∧
        Waiting p' (Function.update mutexes m mutex')
          (Function.update cells m (cells m ++ [(p.next, p.current)]))) := by
  unfold pthreadMutexLock at ran
  dsimp only at ran
  split at ran
  · cases ran
    left
    exact waiting.congr rfl rfl (update_pointers rfl rfl) fun tid _ =>
      update_blocked_iff active (by decide) tid
  · split at ran
    · simp at ran
    next joined =>
      cases ran
      obtain ⟨status, current, waiting'⟩ := waiting.join inTable active joined
      refine Or.inr ⟨rfl, current, ?_, waiting'⟩
      rw [status, Function.update_self]

/-- `pthread_mutex_unlock` leaves the queues alone or takes the first thread off one. -/
theorem Waiting.unlock_cells
    (ran : pthreadMutexUnlock p (mutexes m) = some (p', mutex', progress)) :
    (cells m = [] ∧ Waiting p' (Function.update mutexes m mutex') cells) ∨
      ∃ cell rest, cells m = cell :: rest ∧ p'.status cell.2 = .ready ∧
        Waiting p' (Function.update mutexes m mutex') (Function.update cells m rest) := by
  cases nodes : cells m with
  | nil =>
    have empty : (mutexes m).blockedThreadsHead = none := (nodes ▸ waiting.queued m).linked
    simp only [pthreadMutexUnlock, empty] at ran
    cases ran
    exact Or.inl ⟨rfl, waiting.congr rfl rfl (update_pointers empty.symm rfl) fun _ _ => Iff.rfl⟩
  | cons cell rest =>
    obtain ⟨status, -, -, waiting'⟩ := waiting.leave nodes ran
    refine Or.inr ⟨cell, rest, rfl, ?_, waiting'⟩
    rw [status, Function.update_self]

end Waiting

section Queues

variable {k k' : Kernel} {o : Outcome} {event : Event} {tid : Tid}

theorem Waiting.queue_eq {cells : Nat → List (Nat × Tid)}
    (waiting : Waiting k.process k.mutexes cells) (m : Nat) :
    k.queue m = (cells m).map Prod.snd :=
  (waiting.queued m).linked.follow_eq (waiting.queued m).length_le

/-- The queues hang on the nodes and the mutexes alone. -/
theorem Kernel.queue_congr (nodes : k'.process.nodes = k.process.nodes)
    (next : k'.process.next = k.process.next) (mutexes : k'.mutexes = k.mutexes) (m : Nat) :
    k'.queue m = k.queue m := by
  rw [Kernel.queue, Kernel.queue, nodes, next, mutexes]

theorem Quiet.queue (quiet : Quiet k k') (m : Nat) : k'.queue m = k.queue m :=
  Kernel.queue_congr quiet.nodes quiet.next quiet.mutexes m

/-- Threads join a queue at its end and leave it at its front, and only by calls on its mutex. -/
theorem Orderly.queue_step (orderly : Orderly k) (stepped : k.step event = some (o, k')) (m : Nat) :
    (event = .unlock m ∧ ∃ first, k.queue m = first :: k'.queue m ∧
        k'.process.status first = .ready) ∨
      (event = .lock m ∧ k'.queue m = k.queue m ++ [k.process.current] ∧
        k'.InLock k.process.current) ∨
      (k'.queue m = k.queue m ∧ (event = .unlock m → k.queue m = [])) := by
  obtain ⟨cells, waiting⟩ := orderly.waiting
  have steps := Kernel.steps_of_step stepped
  cases event with
  | create =>
    obtain ⟨-, created⟩ := steps
    rw [pthreadCreate, firstCall_of_later orderly.isFirstCall] at created
    rcases createThread_eq created with ⟨-, -, rfl⟩ | ⟨-, -, -, rfl⟩
    · exact Or.inr (Or.inr ⟨rfl, by simp⟩)
    · exact Or.inr (Or.inr ⟨Kernel.queue_congr rfl rfl rfl m, by simp⟩)
  | exit value =>
    obtain ⟨-, rfl⟩ := Kernel.schedules_eq steps.2
    exact Or.inr (Or.inr ⟨Kernel.queue_congr rfl rfl rfl m, by simp⟩)
  | join thread =>
    exact Or.inr (Or.inr ⟨(pthreadJoin_quiet orderly.barriers steps.2).queue m, by simp⟩)
  | lock m' =>
    obtain ⟨p, mutex, progress, calling, ran, scheduled, -, rfl⟩ := afterMutex_eq steps.2
    -- either the lists stay as they are, or the caller puts its node at the end of one
    rcases waiting.lock_cells orderly.inTable (orderly.current_active steps.1).1 ran with
      same | ⟨rfl, current, blocked, joined⟩
    · refine Or.inr (Or.inr ⟨?_, by simp⟩)
      rw [Waiting.queue_eq (k := { k.setMutex m' mutex with process := p, calling }) same,
        waiting.queue_eq]
    · have queue := Waiting.queue_eq (k := { k.setMutex m' mutex with process := p, calling }) joined m
      -- lists of other mutexes share no node with this one
      by_cases here : m' = m
      · subst here
        rw [Function.update_self, List.map_append, ← waiting.queue_eq] at queue
        exact Or.inr (Or.inl ⟨rfl, queue, Or.inl ⟨current.symm, scheduled rfl, blocked⟩⟩)
      · rw [Function.update_of_ne (Ne.symm here), ← waiting.queue_eq] at queue
        exact Or.inr (Or.inr ⟨queue, by simp⟩)
  | unlock m' =>
    obtain ⟨p, mutex, progress, calling, ran, -, -, rfl⟩ := afterMutex_eq steps.2
    -- either nobody waits, or the head of the list is woken and taken off
    rcases waiting.unlock_cells ran with ⟨empty, same⟩ | ⟨cell, rest, first, ready, left⟩
    · refine Or.inr (Or.inr ⟨?_, ?_⟩)
      · rw [Waiting.queue_eq (k := { k.setMutex m' mutex with process := p, calling }) same,
          waiting.queue_eq]
      · rintro ⟨⟩
        rw [waiting.queue_eq, empty, List.map_nil]
    · have queue := Waiting.queue_eq (k := { k.setMutex m' mutex with process := p, calling }) left m
      by_cases here : m' = m
      · subst here
        rw [Function.update_self] at queue
        refine Or.inl ⟨rfl, cell.2, ?_, ready⟩
        rw [waiting.queue_eq, first, List.map_cons, queue]
      · rw [Function.update_of_ne (Ne.symm here), ← waiting.queue_eq] at queue
        refine Or.inr (Or.inr ⟨queue, ?_⟩)
        rintro ⟨⟩
        exact absurd rfl here
  | wait b =>
    exact Or.inr (Or.inr ⟨(pthreadBarrierWait_quiet orderly.barriers steps.2).queue m, by simp⟩)
  | timer =>
    obtain ⟨-, rfl⟩ := Kernel.schedules_eq steps.2.2
    exact Or.inr (Or.inr ⟨rfl, by simp⟩)
  | switch =>
    obtain ⟨resume, -, switched⟩ := steps
    obtain ⟨p, scheduled, resumed⟩ := switch_eq switched
    have table := schedule_switched scheduled
    have quiet := resume_quiet (k := { k with process := p, regs := k.saveRegs resume })
      orderly.barriers resumed
    -- a switch moves no node, neither in `schedule` nor in what the thread resumes
    have same : ({ k with process := p, regs := k.saveRegs resume } : Kernel).queue m = k.queue m := by
      simp only [Kernel.queue, table.nodes, table.next]
    exact Or.inr (Or.inr ⟨(quiet.queue m).trans same, by simp⟩)

theorem Kernel.saveRegs_of_ne {resume : Resume} (other : tid ≠ k.process.current) :
    k.saveRegs resume tid = k.regs tid := by
  unfold Kernel.saveRegs
  split
  · rfl
  · exact Function.update_of_ne other _ _

/-- What the others do leaves the registers of a thread alone. -/
theorem Orderly.regs_step (orderly : Orderly k) (other : tid ≠ k.process.current)
    (used : k.process.status tid ≠ .empty) (stepped : k.step event = some (o, k')) :
    k'.regs tid = k.regs tid := by
  have steps := Kernel.steps_of_step stepped
  cases event with
  | create =>
    obtain ⟨-, created⟩ := steps
    rw [pthreadCreate, firstCall_of_later orderly.isFirstCall] at created
    rcases createThread_eq created with ⟨-, -, rfl⟩ | ⟨-, room, -, rfl⟩
    · rfl
    · refine Function.update_of_ne ?_ _ _
      -- a new thread gets the registers of an entry that is not in use
      rintro rfl
      obtain ⟨first, null⟩ := freeSlot_null room
      exact used (orderly.unused _ room first null)
  | exit value =>
    obtain ⟨-, rfl⟩ := Kernel.schedules_eq steps.2
    rfl
  | join thread => rw [(pthreadJoin_quiet orderly.barriers steps.2).regs]
  | lock m =>
    obtain ⟨p, mutex, progress, calling, -, -, -, rfl⟩ := afterMutex_eq steps.2
    rfl
  | unlock m =>
    obtain ⟨p, mutex, progress, calling, -, -, -, rfl⟩ := afterMutex_eq steps.2
    rfl
  | wait b => rw [(pthreadBarrierWait_quiet orderly.barriers steps.2).regs]
  | timer =>
    obtain ⟨-, rfl⟩ := Kernel.schedules_eq steps.2.2
    rfl
  | switch =>
    obtain ⟨resume, -, switched⟩ := steps
    obtain ⟨p, -, resumed⟩ := switch_eq switched
    rw [(resume_quiet (k := { k with process := p, regs := k.saveRegs resume })
      orderly.barriers resumed).regs]
    exact Kernel.saveRegs_of_ne other

/-- A thread stays in `pthread_mutex_lock` until a switch turns to it, and then returns from it. -/
theorem Orderly.inLock_step (orderly : Orderly k) (inTable : tid < maxThreads)
    (inLock : k.InLock tid) (stepped : k.step event = some (o, k')) :
    (event = .switch ∧ k'.process.current = tid ∧ o = .locked (-1) ∧
        k.process.status tid = .ready) ∨
      (k'.InLock tid ∧ (event = .switch → k'.process.current ≠ tid)) := by
  have steps := Kernel.steps_of_step stepped
  rcases inLock with ⟨here, calling, blocked⟩ | ⟨other, regs, status⟩
  -- it is at its call of `schedule`, which does not choose it
  · cases event with
    | switch =>
      obtain ⟨resume, called, switched⟩ := steps
      obtain rfl : resume = .lock := Option.some.inj (called.symm.trans calling)
      obtain ⟨p, scheduled, resumed⟩ := switch_eq switched
      obtain ⟨chosen, stays, -⟩ := schedule_spec scheduled
      have quiet := resume_quiet (k := { k with process := p, regs := k.saveRegs .lock })
        orderly.barriers resumed
      have current : k'.process.current = p.current := quiet.current
      have other : tid ≠ k'.process.current := by
        rintro rfl
        exact chosen (current ▸ blocked)
      refine Or.inr ⟨Or.inr ⟨other, ?_, Or.inl ?_⟩, fun _ => Ne.symm other⟩
      · rw [quiet.regs]
        change k.saveRegs .lock tid = .lock
        rw [Kernel.saveRegs, ← here, blocked, if_neg (by decide), Function.update_self]
      · rw [quiet.status]
        exact stays tid blocked
    | _ =>
      have idle := steps.1
      simp [calling] at idle
  -- it has been switched away from
  · have used : k.process.status tid ≠ .empty := by
      rcases status with blocked | ready
      · simp [blocked]
      · simp [ready]
    obtain ⟨stays, keeps⟩ := orderly.other_step inTable other stepped
    by_cases turn : k'.process.current = tid
    · left
      obtain rfl : event = .switch := by
        by_contra kept
        exact other (turn.symm.trans (stays kept))
      obtain ⟨resume, -, switched⟩ := steps
      obtain ⟨p, scheduled, resumed⟩ := switch_eq switched
      have current : k'.process.current = p.current :=
        (resume_quiet (k := { k with process := p, regs := k.saveRegs resume })
          orderly.barriers resumed).current
      rw [← current, turn, Kernel.saveRegs_of_ne other, regs] at resumed
      obtain ⟨rfl, -⟩ := Kernel.returns_eq resumed
      refine ⟨rfl, turn, rfl, status.resolve_left ?_⟩
      rw [← turn, current]
      exact (schedule_spec scheduled).1
    · refine Or.inr ⟨Or.inr ⟨Ne.symm turn, ?_, ?_⟩, fun _ => turn⟩
      · rw [orderly.regs_step other used stepped, regs]
      · rcases keeps (Ne.symm turn) with same | ⟨woken, -⟩
        · rwa [same]
        · exact Or.inr woken

/-! ### Every reachable state -/

/-- What holds from the first `pthread_create` on: the threads have the first entries of the table,
and whoever is in a queue is in `pthread_mutex_lock`. -/
structure Regular (k : Kernel) : Prop where
  orderly : Orderly k
  filled : Filled k
  table : k.numThreads ≤ maxThreads
  current : k.process.current < k.numThreads
  inLock : ∀ m, ∀ tid ∈ k.queue m, k.InLock tid

theorem Orderly.queue_blocked (orderly : Orderly k) {m : Nat} (member : tid ∈ k.queue m) :
    tid < maxThreads ∧ k.process.status tid = .blocked := by
  obtain ⟨cells, waiting⟩ := orderly.waiting
  rw [waiting.queue_eq] at member
  have inTable := waiting.inTable m tid member
  exact ⟨inTable, (waiting.blocked tid inTable).mpr ⟨m, member⟩⟩

/-- An entry past `num_threads` is empty. -/
theorem Regular.used (regular : Regular k) (inTable : tid < maxThreads)
    (used : k.process.status tid ≠ .empty) : tid < k.numThreads := by
  by_contra past
  have below : 1 ≤ tid := Nat.le_trans regular.filled.positive (Nat.le_of_not_lt past)
  have null := (regular.filled.stack tid below inTable).mpr (Nat.le_of_not_lt past)
  exact used (regular.orderly.unused tid inTable (Nat.one_le_iff_ne_zero.mp below) null)

theorem Regular.threads_step (regular : Regular k) (stepped : k.step event = some (o, k')) :
    Filled k' ∧ k'.numThreads ≤ maxThreads ∧ k.numThreads ≤ k'.numThreads := by
  by_cases create : event = .create
  · subst create
    have created := (Kernel.steps_of_step stepped).2
    rw [pthreadCreate, firstCall_of_later regular.orderly.isFirstCall] at created
    rcases createThread_eq created with ⟨-, -, rfl⟩ | ⟨room, -, -, rfl⟩
    · exact ⟨⟨regular.filled.positive, regular.filled.stack⟩, regular.table, Nat.le_refl _⟩
    · exact ⟨regular.filled.newThread room, room, Nat.le_succ _⟩
  · obtain ⟨-, number, stack⟩ := step_slots stepped create
    refine ⟨⟨number ▸ regular.filled.positive, fun tid lower inTable => ?_⟩, number ▸ regular.table,
      Nat.le_of_eq number.symm⟩
    rw [stack tid, number, regular.filled.stack tid lower inTable]

/-- A switch turns to the first ready thread of the ring of all threads. -/
theorem Regular.switch_find (regular : Regular k) {n : Nat} (enough : k.numThreads ≤ n)
    (table : n ≤ maxThreads) (stepped : k.step .switch = some (o, k')) :
    (after n k.process.current).find? (runnable k.process) = some k'.process.current := by
  obtain ⟨resume, -, switched⟩ := Kernel.steps_of_step stepped
  obtain ⟨p, scheduled, resumed⟩ := switch_eq switched
  obtain ⟨status, found, ready⟩ := schedule_find regular.orderly.inTable scheduled
  have current : k'.process.current = p.current :=
    (resume_quiet (k := { k with process := p, regs := k.saveRegs resume })
      regular.orderly.barriers resumed).current
  rw [current, ← found, ← find?_after_of_le table (Nat.lt_of_lt_of_le regular.current enough)]
  · apply List.find?_congr
    intro tid member
    have inTable := List.mem_range.mp ((after_perm _).mem_iff.mp member)
    rw [Bool.eq_iff_iff, decide_eq_true_eq, ready, runnable_iff]
    constructor
    · rintro (running | ready)
      · exact Or.inr ⟨regular.orderly.running tid inTable running, running⟩
      · exact Or.inl ready
    · rintro (ready | ⟨-, running⟩)
      · exact Or.inr ready
      · exact Or.inl running
  · intro tid inTable runs
    refine Nat.lt_of_lt_of_le (regular.used inTable ?_) enough
    rcases runnable_iff.mp runs with running | ready
    · simp [running]
    · simp [ready]

theorem Regular.step (regular : Regular k) (stepped : k.step event = some (o, k')) :
    Regular k' := by
  obtain ⟨filled, table, more⟩ := regular.threads_step stepped
  have current : k'.process.current < k'.numThreads := by
    refine Nat.lt_of_lt_of_le ?_ more
    by_cases switch : event = .switch
    · subst switch
      have found := regular.switch_find (Nat.le_refl _) regular.table stepped
      exact List.mem_range.mp ((after_perm _).mem_iff.mp (List.mem_of_find?_eq_some found))
    · rw [regular.orderly.current_step stepped switch]
      exact regular.current
  refine ⟨(regular.orderly.step stepped).1, filled, table, current, fun m tid member => ?_⟩
  -- those who were in the queue are still in the call, since nobody blocked is switched to
  have stays : tid ∈ k.queue m → k'.InLock tid := by
    intro old
    obtain ⟨inTable, blocked⟩ := regular.orderly.queue_blocked old
    rcases regular.orderly.inLock_step inTable (regular.inLock m tid old) stepped with
      ⟨-, -, -, ready⟩ | ⟨kept, -⟩
    · simp [blocked] at ready
    · exact kept
  rcases regular.orderly.queue_step stepped m with
    ⟨-, first, split, -⟩ | ⟨-, joined, inLock⟩ | ⟨same, -⟩
  · exact stays (by rw [split]; exact List.mem_cons_of_mem _ member)
  · rw [joined, List.mem_append, List.mem_singleton] at member
    rcases member with old | rfl
    · exact stays old
    · exact inLock
  · exact stays (same ▸ member)

theorem Regular.of_mem (regular : Regular k) {m i : Nat} (waits : (k.queue m)[i]? = some tid) :
    tid < maxThreads ∧ k.process.status tid = .blocked ∧ k.InLock tid := by
  have member := List.mem_of_getElem? waits
  obtain ⟨inTable, blocked⟩ := regular.orderly.queue_blocked member
  exact ⟨inTable, blocked, regular.inLock m tid member⟩

/-- A call of `pthread_mutex_unlock` takes a waiting thread one place ahead, the first one out of
the queue. -/
theorem Regular.place_step (regular : Regular k) (stepped : k.step event = some (o, k')) {m i : Nat}
    (waits : (k.queue m)[i]? = some tid) :
    k'.InLock tid ∧ (event = .switch → k'.process.current ≠ tid) ∧
      ((event ≠ .unlock m ∧ (k'.queue m)[i]? = some tid) ∨
        (event = .unlock m ∧ 0 < i ∧ (k'.queue m)[i - 1]? = some tid) ∨
        (event = .unlock m ∧ i = 0 ∧ k'.process.status tid = .ready)) := by
  obtain ⟨inTable, blocked, inLock⟩ := regular.of_mem waits
  have stays : k'.InLock tid ∧ (event = .switch → k'.process.current ≠ tid) := by
    rcases regular.orderly.inLock_step inTable inLock stepped with ⟨-, -, -, ready⟩ | kept
    · simp [blocked] at ready
    · exact kept
  refine ⟨stays.1, stays.2, ?_⟩
  rcases regular.orderly.queue_step stepped m with
    ⟨unlock, first, split, ready⟩ | ⟨rfl, joined, -⟩ | ⟨same, nobody⟩
  · rw [split] at waits
    cases i with
    | zero =>
      rw [List.getElem?_cons_zero, Option.some.injEq] at waits
      exact Or.inr (Or.inr ⟨unlock, rfl, waits ▸ ready⟩)
    | succ i =>
      rw [List.getElem?_cons_succ] at waits
      exact Or.inr (Or.inl ⟨unlock, Nat.succ_pos i, waits⟩)
  · refine Or.inl ⟨by simp, ?_⟩
    rw [joined, List.getElem?_append_left (List.getElem?_eq_some_iff.mp waits).1]
    exact waits
  · refine Or.inl ⟨fun unlock => ?_, same ▸ waits⟩
    rw [nobody unlock] at waits
    simp at waits

/-- Threads are added, and none is taken away. -/
theorem Regular.threads_run (regular : Regular k) {events : List Event} {outputs : List Outcome}
    {last : Kernel} (ran : Machine.run Kernel.step k events = some (outputs, last)) :
    k.numThreads ≤ last.numThreads ∧ Regular last := by
  induction events generalizing k outputs with
  | nil =>
    simp only [Machine.run, Option.some.injEq, Prod.mk.injEq] at ran
    obtain ⟨-, rfl⟩ := ran
    exact ⟨Nat.le_refl _, regular⟩
  | cons event rest ih =>
    obtain ⟨o, k', os, stepped, later, -⟩ := Machine.run_cons_eq_some ran
    obtain ⟨more, final⟩ := ih (regular.step stepped) later
    exact ⟨Nat.le_trans (regular.threads_step stepped).2.2 more, final⟩

end Queues

/-! ### From the first call on -/

section Initial

variable {k₀ k k' : Kernel} {o : Outcome}

/-- Nobody waits yet. -/
theorem Initial.regular (initial : Initial k₀) (created : k₀.step .create = some (o, k)) :
    Regular k := by
  have orderly := initial.orderly created
  have call := (Kernel.steps_of_step created).2
  have head : ∀ m, (k.mutexes m).blockedThreadsHead = none := by
    rw [pthreadCreate_mutexes call]
    exact fun m => (initial.mutex m).1
  have first : Filled (firstCall k₀) := Filled.firstCall fun later => by
    simp [initial.isFirstCall] at later
  have one : (firstCall k₀).numThreads = 1 ∧ (firstCall k₀).process.current = 0 := by
    simp [firstCall, initial.isFirstCall, schedulerInit, initial.current]
  have nobody : ∀ m, ∀ tid ∈ k.queue m, k.InLock tid := by
    intro m tid member
    rw [Kernel.queue, head] at member
    cases fuel : k.process.next with
    | zero => simp [fuel, LinkedList.follow] at member
    | succ _ => simp [fuel, LinkedList.follow] at member
  rcases createThread_eq call with ⟨full, -, rfl⟩ | ⟨room, -, -, rfl⟩
  · rw [one.1] at full
    exact absurd full (by decide)
  · refine ⟨orderly, first.newThread room, room, ?_, nobody⟩
    change (firstCall k₀).process.current < (firstCall k₀).numThreads + 1
    rw [one.1, one.2]
    decide

theorem Initial.reaches_regular (initial : Initial k₀) (created : k₀.step .create = some (o, k))
    (reached : Machine.Reaches Kernel.step (fun _ _ => True) k k') : Regular k' :=
  reached.invariant Regular (fun _ _ _ _ regular _ stepped => regular.step stepped)
    (initial.regular created)

end Initial

end OperatingSys.Threads
