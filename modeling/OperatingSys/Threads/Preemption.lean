import OperatingSys.Threads.ThreadStates

/-!
# Preemption

The timer interrupts user code as long as it runs and `SIGALRM` is not masked. `pthread_exit`
stops the timer and nothing starts it again. A `pthread_mutex_lock` that has to wait leaves
`SIGALRM` masked when it calls `schedule`, and only the return from a signal handler sets the
mask back.
-/

namespace OperatingSys.Threads

/-- User code can be interrupted. -/
def Preemptible (k : Kernel) : Prop :=
  k.calling = none → k.armed = true ∧ k.process.masked = false

/-- Where `schedule`, called at `resume`, goes on: at the registers of the thread it chooses. -/
def Kernel.target (k : Kernel) (resume : Resume) : Option Resume :=
  (schedule k.process).map fun p => k.saveRegs resume p.current

/-- A thread that goes on there returns to user code. It does not from a `pthread_join` of a
thread that has not exited, and not from the loop of a barrier. -/
def Kernel.leaves (k : Kernel) : Resume → Bool
  | .join thread =>
    thread < maxThreads && k.process.status thread = .exited && k.stack thread ≠ .freed
  | .exit | .blocked _ | .spin _ => false
  | .start | .create | .handler _ | .lock | .unlock | .yield _ => true

/-- Where a switch back to user code goes on. -/
def Kernel.continues (k : Kernel) (event : Event) : Option Resume :=
  if event = .switch then (k.calling.bind k.target).filter k.leaves else none

/-- The timer has interrupted the thread. -/
def Resume.interrupted : Resume → Bool
  | .handler _ => true
  | _ => false

/-- If `schedule` switches to a thread that returns to user code, then nobody has exited yet,
and if `SIGALRM` is masked, as it is after a `pthread_mutex_lock` that has to wait, then the
thread is one that the timer has interrupted. -/
def KeepsPreemption (k : Kernel) (event : Event) : Prop :=
  ∀ point ∈ k.continues event, (∀ tid < maxThreads, k.process.status tid ≠ .exited) ∧
    (k.process.masked = true → point.interrupted = true)

instance (k : Kernel) (event : Event) : Decidable (KeepsPreemption k event) :=
  inferInstanceAs (Decidable (∀ point ∈ k.continues event, _))

/-! ### The way back to user code -/

section Resume

variable {k k' : Kernel} {o : Outcome} {point : Resume}

/-- What `leaves` says, and the mask in user code. -/
theorem resume_leaves (unmasked : ∀ masked, point = .handler masked → masked = false)
    (resumed : k.resume point = some (o, k')) :
    (k'.calling = none ↔ k.leaves point = true) ∧
      (k'.calling = none → k'.process.masked = (k.process.masked && !point.interrupted)) := by
  cases point with
  | exit => simp [Kernel.resume] at resumed
  -- `pthread_join` returns if the thread has exited, and else calls `schedule` again
  | join thread =>
    obtain ⟨inTable, ⟨exited, -, eq, held, -⟩ | ⟨alive, -, eq⟩⟩ := pthreadJoin_eq resumed
    · rw [eq]
      simp [Kernel.leaves, inTable, exited, held, Resume.interrupted]
    · rw [eq]
      simp [Kernel.leaves, alive]
  | blocked b =>
    obtain ⟨-, p, barrier, again, -, rfl⟩ := testBarrier_eq resumed
    simp [Kernel.leaves]
  | spin b =>
    obtain ⟨-, p, barrier, again, -, rfl⟩ := testBarrier_eq resumed
    simp [Kernel.leaves]
  -- the return from the handler sets the mask back to what it was
  | handler masked =>
    obtain ⟨-, rfl⟩ := Kernel.returns_eq resumed
    simp [Kernel.leaves, Resume.interrupted, unmasked masked rfl]
  -- the other calls return with the mask as the switch left it
  | _ =>
    obtain ⟨-, rfl⟩ := Kernel.returns_eq resumed
    simp [Kernel.leaves, Resume.interrupted, Kernel.setBarrier]

theorem resume_of_leaves (leaves : k.leaves point = true) : k.resume point ≠ none := by
  cases point with
  | exit => simp [Kernel.leaves] at leaves
  | join thread =>
    simp only [Kernel.leaves, Bool.and_eq_true, decide_eq_true_eq] at leaves
    obtain ⟨⟨inTable, exited⟩, held⟩ := leaves
    rw [Kernel.resume, pthreadJoin, if_neg (Nat.not_le_of_lt inTable), if_pos exited, freeStack]
    -- a stack that is freed for the second time is not defined, and `leaves` excludes it
    cases stack : k.stack thread with
    | null => simp [Kernel.returns]
    | allocated => simp [Kernel.returns]
    | freed => exact absurd stack held
  | blocked b => simp [Kernel.leaves] at leaves
  | spin b => simp [Kernel.leaves] at leaves
  | _ => simp [Kernel.resume, Kernel.returns]

/-- Only the timer calls the handler. -/
theorem resume_calling (resumed : k.resume point = some (o, k')) (masked : Bool) :
    k'.calling ≠ some (.handler masked) := by
  cases point with
  | exit => simp [Kernel.resume] at resumed
  | join thread =>
    obtain ⟨-, ⟨-, -, eq, -⟩ | ⟨-, -, eq⟩⟩ := pthreadJoin_eq resumed
    · rw [eq]
      simp
    · rw [eq]
      simp
  | blocked b =>
    obtain ⟨-, p, barrier, again, -, rfl⟩ := testBarrier_eq resumed
    cases again <;> simp
  | spin b =>
    obtain ⟨-, p, barrier, again, -, rfl⟩ := testBarrier_eq resumed
    cases again <;> simp
  | _ =>
    obtain ⟨-, rfl⟩ := Kernel.returns_eq resumed
    simp

end Resume

/-! ### The mask after a call -/

section Mask

variable {k k' : Kernel} {o : Outcome} {p p' : Process} {mutex mutex' : Mutex} {value : Int}

theorem pthreadMutexLock_masked
    (ran : pthreadMutexLock p mutex = some (p', mutex', .returns value)) : p'.masked = false := by
  unfold pthreadMutexLock at ran
  dsimp only at ran
  split at ran
  · cases ran
    rfl
  -- the branch that waits does not return, and it leaves the mask set
  · split at ran <;> simp at ran

theorem pthreadMutexUnlock_masked {progress : Progress}
    (ran : pthreadMutexUnlock p mutex = some (p', mutex', progress)) : p'.masked = false := by
  unfold pthreadMutexUnlock at ran
  dsimp only at ran
  split at ran
  · cases ran
    rfl
  · split at ran
    · simp at ran
    · cases ran
      rfl

theorem afterMutex_returned {m : Nat} {result : Option (Process × Mutex × Progress)}
    {outcome : Int → Outcome} {resume : Resume}
    (after : k.afterMutex m result outcome resume = some (o, k')) :
    (k'.calling = some resume) ∨ (k'.calling = none ∧
      ∃ value, result = some (k'.process, k'.mutexes m, .returns value)) := by
  obtain ⟨p, mutex, progress, calling, ran, scheduled, returned, rfl⟩ := afterMutex_eq after
  cases progress with
  | schedules => exact Or.inl (scheduled rfl)
  | returns value =>
    refine Or.inr ⟨returned ⟨value, rfl⟩, value, ?_⟩
    simp only [Kernel.setMutex, Function.update_self]
    exact ran

/-- `pthread_barrier_wait` does not return before it has called `schedule`. -/
theorem pthreadBarrierWait_calling {b : Nat} (waited : pthreadBarrierWait k b = some (o, k')) :
    k'.calling ≠ none ∧ ∀ masked, k'.calling ≠ some (.handler masked) := by
  unfold pthreadBarrierWait at waited
  dsimp only at waited
  split at waited
  · simp at waited
  · split at waited
    · split at waited
      · simp at waited
      · obtain ⟨-, rfl⟩ := Kernel.schedules_eq waited
        simp
    · obtain ⟨-, p, barrier, again, -, rfl⟩ := testBarrier_eq waited
      cases again <;> simp

/-- Where a step leaves the current thread, if it calls the handler of `SIGALRM`. -/
theorem step_called {event : Event} (stepped : k.step event = some (o, k')) (masked : Bool)
    (called : k'.calling = some (.handler masked)) : masked = false := by
  have steps := Kernel.steps_of_step stepped
  cases event with
  | create =>
    rcases createThread_eq steps.2 with ⟨-, -, rfl⟩ | ⟨-, -, -, rfl⟩
    · simp at called
    · simp at called
  | exit value =>
    obtain ⟨-, rfl⟩ := Kernel.schedules_eq steps.2
    simp at called
  | join thread =>
    have resumed : k.resume (.join thread) = some (o, k') := steps.2
    exact absurd called (resume_calling resumed masked)
  | lock m =>
    rcases afterMutex_returned steps.2 with scheduled | ⟨returned, -⟩
    · simp [scheduled] at called
    · simp [returned] at called
  | unlock m =>
    rcases afterMutex_returned steps.2 with scheduled | ⟨returned, -⟩
    · simp [scheduled] at called
    · simp [returned] at called
  | wait b =>
    exact absurd called ((pthreadBarrierWait_calling steps.2).2 masked)
  | timer =>
    obtain ⟨-, -, scheduled⟩ := steps
    obtain ⟨-, rfl⟩ := Kernel.schedules_eq scheduled
    simpa using called.symm
  | switch =>
    obtain ⟨resume, -, switched⟩ := steps
    obtain ⟨p, -, resumed⟩ := switch_eq switched
    exact absurd called (resume_calling resumed masked)

end Mask

/-! ### The invariant -/

/-- The timer runs until somebody exits, and the handler of `SIGALRM` returns to where it is not
masked. -/
structure Timed (k : Kernel) : Prop extends Orderly k where
  armed : k.armed = true ↔ ∀ tid < maxThreads, k.process.status tid ≠ .exited
  saved : ∀ tid < maxThreads, k.process.status tid ≠ .empty →
    ∀ masked, k.regs tid = .handler masked → masked = false
  called : ∀ masked, k.calling = some (.handler masked) → masked = false

section Timed

variable {k k' : Kernel} {o : Outcome}

/-- A step in which no thread begins or ends, and which saves no registers. -/
theorem Timed.sameLives (timed : Timed k) (orderly : Orderly k') (lives : SameLives k k')
    (armed : k'.armed = k.armed) (regs : k'.regs = k.regs)
    (called : ∀ masked, k'.calling = some (.handler masked) → masked = false) : Timed k' := by
  refine { orderly with armed := ?_, saved := fun tid inTable used => ?_, called }
  · rw [armed, timed.armed, lives.nobody_exited]
  · rw [regs]
    exact timed.saved tid inTable (mt (lives.iff rfl tid).mpr used)

/-- The registers at which a thread that is chosen goes on. -/
theorem Timed.target (timed : Timed k) {resume : Resume} (calling : k.calling = some resume)
    {tid : Tid} (inTable : tid < maxThreads) (used : k.process.status tid ≠ .empty) :
    ∀ masked, k.saveRegs resume tid = .handler masked → masked = false := by
  intro masked saved
  unfold Kernel.saveRegs at saved
  split at saved
  · exact timed.saved tid inTable used masked saved
  -- the registers saved just now, or those saved earlier
  · by_cases here : tid = k.process.current
    · rw [here, Function.update_self] at saved
      exact timed.called masked (saved ▸ calling)
    · rw [Function.update_of_ne here] at saved
      exact timed.saved tid inTable used masked saved

theorem Timed.switch (timed : Timed k) {resume : Resume} (calling : k.calling = some resume)
    (switched : k.switch resume = some (o, k')) : Timed k' := by
  obtain ⟨orderly, lives, -⟩ := timed.toOrderly.switch switched
  obtain ⟨p, scheduled, resumed⟩ := switch_eq switched
  have quiet := resume_quiet (k := { k with process := p, regs := k.saveRegs resume })
    timed.barriers resumed
  refine { orderly with
    armed := ?_
    saved := fun tid inTable used => ?_
    called := fun masked called => absurd called (resume_calling resumed masked) }
  · rw [(switch_frame switched).armed, timed.armed, lives.nobody_exited]
  · rw [quiet.regs]
    exact timed.target calling inTable (mt (lives.iff rfl tid).mpr used)

theorem Timed.create (timed : Timed k) (calling : k.calling = none)
    (created : createThread k = some (o, k')) : Timed k' := by
  have orderly := (timed.toOrderly.create created calling).1
  rcases createThread_eq created with ⟨-, -, rfl⟩ | ⟨-, room, -, rfl⟩
  · exact timed.sameLives orderly (fun _ => Or.inl rfl) rfl rfl (by simp)
  · obtain ⟨used, null⟩ := freeSlot_null room
    have empty := timed.unused _ room used null
    -- the new thread has the registers of its start
    refine { orderly with armed := ?_, saved := fun tid inTable used => ?_, called := by simp }
    · refine timed.armed.trans (forall_congr' fun tid => forall_congr' fun _ => ?_)
      by_cases here : tid = freeSlot k.stack
      · simp [Kernel.newThread, Process.setStatus, here, empty]
      · simp [Kernel.newThread, Process.setStatus, here]
    · by_cases here : tid = freeSlot k.stack
      · simp [Kernel.newThread, here]
      · simp only [Kernel.newThread, Process.setStatus, Function.update_of_ne here] at used ⊢
        exact timed.saved tid inTable used

theorem Timed.exit (timed : Timed k) {value : BitVec 64} (calling : k.calling = none)
    (exited : pthreadExit k value = some (o, k')) : Timed k' := by
  have orderly := timed.toOrderly.exit calling exited
  obtain ⟨-, alive⟩ := timed.toOrderly.current_active calling
  obtain ⟨-, rfl⟩ := Kernel.schedules_eq exited
  refine { orderly with armed := ?_, saved := fun tid inTable used => ?_, called := by simp }
  -- the timer is off, and there is somebody who has exited
  · simp only [Bool.false_eq_true, false_iff, not_forall, Classical.not_not]
    exact ⟨k.process.current, timed.inTable, by simp [Process.setStatus]⟩
  · by_cases here : tid = k.process.current
    · subst here
      refine timed.saved _ inTable fun empty => ?_
      simp [empty, Status.alive] at alive
    · simp only [Process.setStatus, Function.update_of_ne here] at used
      exact timed.saved tid inTable used

theorem Timed.step (timed : Timed k) {event : Event} (stepped : k.step event = some (o, k')) :
    Timed k' := by
  have called := step_called stepped
  have orderly := (timed.toOrderly.step stepped).1
  have steps := Kernel.steps_of_step stepped
  -- the alarm is set in the first call and stopped in `pthread_exit`, and nowhere else
  cases event with
  | create =>
    obtain ⟨calling, created⟩ := steps
    rw [pthreadCreate, firstCall_of_later timed.isFirstCall] at created
    exact timed.create calling created
  | exit value => exact timed.exit steps.1 steps.2
  | join thread =>
    have quiet := pthreadJoin_quiet timed.barriers steps.2
    exact timed.sameLives orderly (fun tid => Or.inl (by rw [quiet.status])) quiet.armed quiet.regs
      called
  | lock m =>
    have lives := (timed.toOrderly.lock steps.1 steps.2).2
    obtain ⟨p, mutex, progress, calling, -, -, -, rfl⟩ := afterMutex_eq steps.2
    exact timed.sameLives orderly lives rfl rfl called
  | unlock m =>
    have lives := (timed.toOrderly.unlock steps.1 steps.2).2
    obtain ⟨p, mutex, progress, calling, -, -, -, rfl⟩ := afterMutex_eq steps.2
    exact timed.sameLives orderly lives rfl rfl called
  | wait b =>
    have quiet := pthreadBarrierWait_quiet timed.barriers steps.2
    exact timed.sameLives orderly (fun tid => Or.inl (by rw [quiet.status])) quiet.armed quiet.regs
      called
  | timer =>
    obtain ⟨-, -, scheduled⟩ := steps
    obtain ⟨-, rfl⟩ := Kernel.schedules_eq scheduled
    exact timed.sameLives orderly (fun _ => Or.inl rfl) rfl rfl called
  | switch =>
    obtain ⟨resume, calling, switched⟩ := steps
    exact timed.switch calling switched

theorem Preemptible.create (preemptible : Preemptible k) (calling : k.calling = none)
    (created : createThread k = some (o, k')) : Preemptible k' := by
  intro _
  rcases createThread_eq created with ⟨-, -, rfl⟩ | ⟨-, -, -, rfl⟩
  · exact preemptible calling
  · exact preemptible calling

/-- A call by user code that can be interrupted leads back to such code, or to `schedule`. -/
theorem Preemptible.call {event : Event} (timed : Timed k) (preemptible : Preemptible k)
    (stepped : k.step event = some (o, k')) (other : event ≠ .switch) : Preemptible k' := by
  intro returned
  have steps := Kernel.steps_of_step stepped
  cases event with
  | create =>
    obtain ⟨calling, created⟩ := steps
    rw [pthreadCreate, firstCall_of_later timed.isFirstCall] at created
    exact preemptible.create calling created returned
  -- no user code before the next switch
  | exit value =>
    obtain ⟨-, rfl⟩ := Kernel.schedules_eq steps.2
    simp at returned
  | join thread =>
    obtain ⟨frame, same⟩ := pthreadJoin_frame steps.2
    rw [frame.armed, same]
    exact preemptible steps.1
  | lock m =>
    rcases afterMutex_returned steps.2 with scheduled | ⟨-, value, ran⟩
    · simp [scheduled] at returned
    -- on this branch `lock()` has its `unlock()`
    · refine ⟨?_, pthreadMutexLock_masked ran⟩
      obtain ⟨p, mutex, progress, calling, -, -, -, rfl⟩ := afterMutex_eq steps.2
      exact (preemptible steps.1).1
  | unlock m =>
    rcases afterMutex_returned steps.2 with scheduled | ⟨-, value, ran⟩
    · simp [scheduled] at returned
    · refine ⟨?_, pthreadMutexUnlock_masked ran⟩
      obtain ⟨p, mutex, progress, calling, -, -, -, rfl⟩ := afterMutex_eq steps.2
      exact (preemptible steps.1).1
  | wait b => exact absurd returned (pthreadBarrierWait_calling steps.2).1
  | timer =>
    obtain ⟨-, -, scheduled⟩ := steps
    obtain ⟨-, rfl⟩ := Kernel.schedules_eq scheduled
    simp at returned
  | switch => exact absurd rfl other

/-- `schedule` does not decide which calls return. -/
theorem Switched.leaves {p : Process} {regs : Tid → Resume} (table : Switched k.process p)
    (point : Resume) : { k with process := p, regs }.leaves point = k.leaves point := by
  cases point with
  | join thread =>
    have exited : p.status thread = .exited ↔ k.process.status thread = .exited :=
      table.status_iff (by decide) (by decide) thread
    simp only [Kernel.leaves, exited]
  | _ => rfl

/-- A switch leads to user code that can be interrupted, or not, as `KeepsPreemption` says. -/
theorem Timed.switch_preemptible (timed : Timed k) (stepped : k.step .switch = some (o, k')) :
    Preemptible k' ↔ KeepsPreemption k .switch := by
  obtain ⟨resume, calling, switched⟩ := Kernel.steps_of_step stepped
  obtain ⟨p, scheduled, resumed⟩ := switch_eq switched
  have table := schedule_switched scheduled
  -- the chosen thread has registers of its own
  have used : k.process.status p.current ≠ .empty := by
    rcases table.active with ready | running
    · simp [ready]
    · simp [running]
  obtain ⟨returns, mask⟩ :=
    resume_leaves (timed.target calling (table.inTable timed.inTable) used) resumed
  rw [table.leaves] at returns
  have continues : k.continues .switch =
      (some (k.saveRegs resume p.current)).filter k.leaves := by
    simp only [Kernel.continues, if_true, calling, Option.bind_some, Kernel.target, scheduled,
      Option.map_some]
  unfold Preemptible KeepsPreemption
  rw [continues, returns]
  -- either the thread stays in the library, and nothing is asked, or it is back in user code
  cases leaves : k.leaves (k.saveRegs resume p.current) with
  | false => simp [Option.filter, leaves]
  | true =>
    rw [mask (returns.mpr leaves), (switch_frame switched).armed, timed.armed]
    simp [Option.filter, leaves, table.masked]

/-- A switch that is not defined does not lead to user code. -/
theorem keepsPreemption_of_none {event : Event} (undefined : k.step event = none) :
    KeepsPreemption k event := by
  intro point member
  unfold Kernel.continues at member
  split at member
  next switch =>
    rw [Option.mem_def, Option.filter_eq_some_iff, Option.bind_eq_some_iff] at member
    obtain ⟨⟨resume, calling, target⟩, leaves⟩ := member
    rw [Kernel.target, Option.map_eq_some_iff] at target
    obtain ⟨p, scheduled, rfl⟩ := target
    -- a switch to a thread that leaves the library is defined
    have undefined : k.switch resume = none := by
      unfold Kernel.step at undefined
      rw [calling] at undefined
      dsimp only at undefined
      rwa [if_pos switch] at undefined
    rw [Kernel.switch, scheduled] at undefined
    refine absurd undefined (resume_of_leaves ?_)
    rw [(schedule_switched scheduled).leaves]
    exact leaves
  next => simp at member

theorem Initial.timed {k₀ : Kernel} (initial : Initial k₀)
    (created : k₀.step .create = some (o, k)) : Timed k ∧ Preemptible k := by
  have calling := initial.firstCall_calling
  have started : Timed (firstCall k₀) := by
    refine { initial.firstCall_orderly with
      armed := ?_
      saved := fun tid inTable used => ?_
      called := by simp [calling] }
    · have armed : (firstCall k₀).armed = true := by
        rw [firstCall, if_pos initial.isFirstCall]
        rfl
      refine iff_of_true armed fun tid inTable => ?_
      rw [firstCall_status initial.isFirstCall inTable]
      split <;> simp
    -- the only entry in use is that of the main thread
    · have main : tid = 0 := by
        by_contra other
        exact used ((firstCall_status initial.isFirstCall inTable).trans (if_neg other))
      simp [firstCall, initial.isFirstCall, main]
  have created := (Kernel.steps_of_step created).2
  refine ⟨started.create calling created, Preemptible.create (fun _ => ?_) calling created⟩
  rw [firstCall, if_pos initial.isFirstCall]
  exact ⟨rfl, initial.masked⟩

end Timed

/-- **Preemption.** From the first `pthread_create` on, user code can be interrupted in every
state of a run if and only if each switch of the run keeps it so. -/
theorem preemptible_always_iff {k₀ k : Kernel} {o : Outcome} (initial : Initial k₀)
    (created : k₀.step .create = some (o, k)) (events : List Event) :
    Machine.Always Kernel.step Preemptible k events ↔
      Machine.Admits Kernel.step KeepsPreemption k events := by
  obtain ⟨timed, preemptible⟩ := initial.timed created
  refine Machine.always_iff_admits Timed (fun k event o k' timed preemptible _ stepped => ?_)
    (fun k event undefined => keepsPreemption_of_none undefined) timed preemptible
    (Machine.admits_true events)
  refine ⟨?_, fun _ => timed.step stepped⟩
  by_cases switch : event = .switch
  · subst switch
    exact timed.switch_preemptible stepped
  · have vacuous : KeepsPreemption k event := by
      simp [KeepsPreemption, Kernel.continues, switch]
    exact iff_of_true (preemptible.call timed stepped switch) vacuous

/-- Threads 1 and 2 get the processor in turn, and thread 2 locks and unlocks a mutex. -/
theorem preemptible_always_iff_locked :
    ∃ o k, Kernel.loaded.step .create = some (o, k) ∧
      Machine.Always Kernel.step Preemptible k
        [.create, .timer, .switch, .timer, .switch, .lock 0, .unlock 0] := by
  have kept : ((Kernel.loaded.step .create).all fun r => decide (Machine.Admits Kernel.step
      KeepsPreemption r.2 [.create, .timer, .switch, .timer, .switch, .lock 0, .unlock 0])) =
      true := by decide
  cases created : Kernel.loaded.step .create with
  | none => exact absurd created (by decide)
  | some result =>
    refine ⟨result.1, result.2, rfl, ?_⟩
    rw [created, Option.all_some, decide_eq_true_iff] at kept
    exact (preemptible_always_iff Kernel.loaded_initial created _).mpr kept

/-- A run from the first `pthread_create` on that ends in user code which cannot be
interrupted. -/
theorem not_always_preemptible {k₀ k : Kernel} {o : Outcome} {events : List Event}
    (created : k₀.step .create = some (o, k))
    (ends : (Machine.run Kernel.step k₀ (.create :: events)).map
      (fun r => (r.2.calling, r.2.armed && !r.2.process.masked)) = some (none, false)) :
    ¬ Machine.Always Kernel.step Preemptible k events := by
  -- the last state of the run contradicts the property
  intro always
  rw [Option.map_eq_some_iff] at ends
  obtain ⟨⟨outputs, k'⟩, ran, ends⟩ := ends
  rw [Prod.mk.injEq] at ends
  obtain ⟨o', k'', os, created', later, -⟩ := Machine.run_cons_eq_some ran
  obtain ⟨rfl, rfl⟩ : o = o' ∧ k = k'' := by simpa using created.symm.trans created'
  obtain ⟨armed, unmasked⟩ := always.last later ends.1
  simp [armed, unmasked] at ends

/-- Thread 1 exits, and thread 2 runs without a timer. Or thread 1 waits for a mutex that the
main thread holds, and thread 2 runs with `SIGALRM` masked. -/
theorem preemption_lost : ∃ o k, Kernel.loaded.step .create = some (o, k) ∧
    ¬ Machine.Always Kernel.step Preemptible k
      [.create, .timer, .switch, .exit 0, .switch] ∧
    ¬ Machine.Always Kernel.step Preemptible k
      [.create, .lock 0, .timer, .switch, .lock 0, .switch] := by
  cases created : Kernel.loaded.step .create with
  | none => exact absurd created (by decide)
  | some result =>
    exact ⟨result.1, result.2, rfl, not_always_preemptible created (by decide),
      not_always_preemptible created (by decide)⟩

end OperatingSys.Threads
