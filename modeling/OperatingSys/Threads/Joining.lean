import OperatingSys.Threads.Creating

/-!
# Joining a thread

`pthread_join` polls the status of a thread and returns its `exit_status`, which `pthread_exit`
sets only after the status. A thread that a signal interrupts between the two has exited, so
that `schedule` does not save its registers and nobody sets its value any more.
-/

namespace OperatingSys.Threads

/-- A `pthread_join` that returns for an id that a `pthread_create` has stored returns the value
with which the thread of that `pthread_create` has called `pthread_exit`. -/
def JoinDelivers (s : Image) (input : Input) : Prop :=
  ∀ id value s', s.step input = some (some (id, value), s') →
    ∀ thread, (id, thread) ∈ s.ids → s.exits thread = some value

/-! ### Steps -/

section Steps

variable {s s' : Image} {joins : Image.Joins}

/-- A statement in a call, while no `schedule` is on top of it. -/
theorem Settled.call (settled : Settled s) (idle : s.running.schedules = []) {call : Call}
    (here : s.running.call = some call) (spares : s.SparesThreads)
    (ran : s.callStatement call = some (joins, s')) :
    Settled s' ∧ ∀ id value, joins = some (id, value) → s.exits id = some value := by
  -- only `pthread_join` returns a value
  have silent : ∀ {next : Option Image}, next.map (none, ·) = some (joins, s') →
      (next = some s' → Settled s') →
      Settled s' ∧ ∀ id value, joins = some (id, value) → s.exits id = some value := by
    intro next eq settles
    obtain ⟨s'', stepped, pair⟩ := Option.map_eq_some_iff.mp eq
    obtain ⟨rfl, rfl⟩ := Prod.mk.inj pair
    exact ⟨settles stepped, by simp⟩
  cases call with
  | create point tid thread => exact silent ran (settled.create idle here spares)
  | exit point value => exact silent ran (settled.exit idle here)
  | join point thread => exact settled.join idle here ran
  | lock m => exact silent ran (settled.lock idle here)
  | unlock m => exact silent ran (settled.unlock idle here)
  | wait b point => exact silent ran (settled.wait idle here)
  | ret value =>
    cases ran
    exact ⟨settled.moves idle rfl (fun _ => Iff.rfl) (Or.inl idle) (by simp [here])
      (by rw [here]; rfl) trivial (by rw [here]; rfl) rfl, by simp⟩

/-- A signal that spares the switch. -/
theorem Settled.signal (settled : Settled s) (spares : s.SparesSwitch)
    (signalled : s.signal = some s') : Settled s' := by
  unfold Image.signal at signalled
  split at signalled
  · simp at signalled
  next open_ =>
    cases signalled
    rw [not_or, Bool.not_eq_true] at open_
    refine settled.sameThreads ?_ (settled.toControl.interrupted spares open_.1)
      (settled.toControl.sameThreads rfl rfl rfl rfl (fun _ => Or.inl rfl) rfl rfl rfl rfl
        fun _ _ => rfl)
    refine settled.toValues.stored fun idle value call => ?_
    simpa only [Image.SparesSwitch, idle, call] using spares

/-- Every undisturbed step from a settled state leads to one, or will once `schedule` has jumped, and
what `pthread_join` returns is the value of `pthread_exit`. -/
theorem soon_settled_step {input : Input} (soon : s.Soon Settled) (undisturbed : Undisturbed s input)
    (stepped : s.step input = some (joins, s')) :
    s'.Soon Settled ∧ ∀ id value, joins = some (id, value) →
      Settled s ∧ s.exits id = some value := by
  -- in user code, or in a call, nothing is on its way
  have now : s.running.schedules = [] → Settled s := by
    intro idle
    refine (soon_iff ?_).mp soon
    rw [Image.switching, idle]
  have later : ∀ {s'}, Settled s' → s'.Soon Settled := fun settled =>
    (soon_iff settled.switching).mpr settled
  cases input with
  | statement =>
    cases schedules : s.running.schedules with
    | cons a rest =>
      simp only [Image.step, Image.statement, schedules] at stepped
      obtain ⟨s'', ran, pair⟩ := Option.map_eq_some_iff.mp stepped
      obtain ⟨rfl, rfl⟩ := Prod.mk.inj pair
      refine ⟨soon.scheduled (fun _ settled => settled.toControl) ?_ schedules undisturbed ran,
        by simp⟩
      intro s s' settled busy control same
      exact settled.sameThreads (settled.toValues.stored fun idle => absurd idle busy) control same
    | nil =>
      cases call : s.running.call with
      | none => simp [Image.step, Image.statement, schedules, call] at stepped
      | some call =>
        simp only [Image.step, Image.statement, schedules, call] at stepped
        obtain ⟨settled', values⟩ := (now schedules).call schedules call undisturbed stepped
        exact ⟨later settled', fun id value eq => ⟨now schedules, values id value eq⟩⟩
  | signal =>
    obtain ⟨s'', signalled, pair⟩ := Option.map_eq_some_iff.mp stepped
    obtain ⟨rfl, rfl⟩ := Prod.mk.inj pair
    have settled : Settled s := (soon_iff (switching_of_spares undisturbed)).mp soon
    exact ⟨later (settled.signal undisturbed signalled), by simp⟩
  | request r =>
    obtain ⟨s'', requested, pair⟩ := Option.map_eq_some_iff.mp stepped
    obtain ⟨rfl, rfl⟩ := Prod.mk.inj pair
    have idle : s.running.schedules = [] := by
      unfold Image.request at requested
      split at requested
      next user => exact user.2
      · simp at requested
    exact ⟨later ((now idle).request idle requested), by simp⟩

end Steps

/-- The main thread after `scheduler_init`. -/
def Image.initialised (k : Kernel) : Image :=
  { Image.start k with
    kernel := { schedulerInit k with isFirstCall := false }
    running := ⟨0, some (.create .ready 0 0), []⟩ }

theorem Initial.settled {k : Kernel} (initial : Initial k) : Settled (Image.initialised k) := by
  have current : (Image.initialised k).current = 0 := initial.current
  have status : ∀ tid < maxThreads, (Image.initialised k).status tid =
      if tid = 0 then .ready else .empty := by
    intro tid inTable
    simp [Image.status, Image.initialised, schedulerInit, inTable]
  have call : (Image.initialised k).callOf 0 = some (.create .ready 0 0) := by
    rw [Image.callOf, current, if_pos rfl]
    rfl
  -- the main thread is the only one
  have live : ∀ tid, (Image.initialised k).Live tid → tid = 0 := by
    rintro tid (rfl | ⟨inTable, alive⟩)
    · exact current
    · rw [status tid inTable] at alive
      by_contra other
      simp [other, Status.alive] at alive
  have main : (Image.initialised k).status (Image.initialised k).current = .ready := by
    rw [current]
    exact status 0 (by decide)
  have control : Control (Image.initialised k) := by
    refine ⟨rfl, by rw [current]; decide, by simp [main], current.symm, fun tid inTable other alive => ?_,
      fun a member => absurd member List.not_mem_nil,
      fun _ a member => absurd member List.not_mem_nil,
      fun _ a member => absurd member List.not_mem_nil, by simp [main], ?_⟩
    · exact absurd ((live tid (Or.inr ⟨inTable, alive⟩)).trans current.symm) other
    · intro next handler rest eq
      exact absurd eq (by simp [Image.initialised])
  refine { control with
    exited := fun tid inTable gone => ?_
    called := fun tid alive => ?_
    sound := fun tid alive => ?_
    isFirstCall := rfl
    waiting := ⟨fun _ => [], initial.waiting fun tid inTable => ?_⟩
    barriers := initial.barrier
    entries := ⟨none, ?_, fun tid alive filling member => ?_, by simp⟩ }
  · rw [status tid inTable] at gone
    split at gone <;> simp at gone
  · rw [live tid alive, call]
    rfl
  · rw [live tid alive, call]
    refine ⟨rfl, fun other inTable apart => ?_⟩
    rw [status other inTable, if_neg apart]
  · have shown := status tid inTable
    unfold Image.status at shown
    rw [shown]
    split <;> simp
  · refine ⟨Nat.le_refl 1, (by decide : 1 ≤ maxThreads), fun tid first inTable => ?_,
      fun tid inTable first => ?_, rfl, fun _ _ => rfl,
      by simp [Image.initialised, Image.start], by simp⟩
    · simp [Image.initialised, schedulerInit, inTable, Filling.part]
      exact first
    · rw [status tid inTable, if_neg (Nat.ne_of_gt first)]
  · rw [live tid alive, call] at member
    simp [Call.filling, CreatePoint.filling] at member

/-- Before the first statement no handler is installed. -/
theorem Initial.step_start {k : Kernel} (initial : Initial k) {input : Input} {joins : Image.Joins}
    {s' : Image} (stepped : (Image.start k).step input = some (joins, s')) :
    joins = none ∧ s' = Image.initialised k := by
  cases input with
  | signal => simp [Image.step, Image.signal, Image.start, initial.isFirstCall] at stepped
  | request r => simp [Image.step, Image.request, Image.start] at stepped
  | statement =>
    have first : (Image.start k).createStatement 0 0 .first = some (Image.initialised k) := by
      simp [Image.createStatement, Image.start, initial.isFirstCall, Image.initialised, Image.goto]
    have eq : (Image.start k).step .statement = some (none, Image.initialised k) :=
      congrArg (Option.map (none, ·)) first
    rw [eq, Option.some.injEq, Prod.mk.injEq] at stepped
    exact ⟨stepped.1.symm, stepped.2.symm⟩

/-- **Joining.** From the first `pthread_create` on, whatever the threads call and whenever
`SIGALRM` arrives, as long as it spares the two places in `pthread_exit` and `schedule`, as
`schedule` switches to threads that can run and as no two threads fill entries at once: a
`pthread_join` that returns for an id from `pthread_create` returns the value with which that
thread has called `pthread_exit`. -/
theorem joinDelivers_of_undisturbed {k : Kernel} (initial : Initial k) {inputs : List Input}
    (undisturbed : Machine.Admits Image.step Undisturbed (Image.start k) inputs) :
    Machine.Admits Image.step JoinDelivers (Image.start k) inputs := by
  have delivers : ∀ s input, (s = Image.start k ∨ s.Soon Settled) → Undisturbed s input →
      JoinDelivers s input := by
    intro s input inv spares id value s' stepped thread member
    rcases inv with rfl | soon
    · simp [Image.start] at member
    · obtain ⟨settled, called⟩ := (soon_settled_step soon spares stepped).2 id value rfl
      obtain ⟨creator, entries⟩ := settled.entries
      -- the id is the index of the entry, and the number of the thread
      have same : thread = id := entries.slots.ids (id, thread) member
      rw [same]
      exact called
  refine Machine.admits_of_invariant (fun s => s = Image.start k ∨ s.Soon Settled) delivers ?_
    (Or.inl rfl) undisturbed
  intro s input joins s' inv spares stepped
  rcases inv with rfl | soon
  · obtain ⟨-, rfl⟩ := initial.step_start stepped
    exact Or.inr ((soon_iff initial.settled.switching).mpr initial.settled)
  · exact Or.inr (soon_settled_step soon spares stepped).1

/-- `n` statements. -/
def statements (n : Nat) : List Input := List.replicate n .statement

/-- The main thread creates thread 1, which gets the processor at a signal. -/
def createOne : List Input := statements 16 ++ [.signal] ++ statements 9

/-- Thread 1 exits with 7, and the main thread joins it. -/
theorem joinDelivers_of_undisturbed_seven :
    let inputs := createOne ++ [.request (.exit 7)] ++ statements 266 ++ [.request (.join 1)] ++
      statements 4
    Machine.Admits Image.step JoinDelivers (Image.start Kernel.loaded) inputs ∧
      (Machine.run Image.step (Image.start Kernel.loaded) inputs).map
        (fun r => (r.1.getLast?, r.2.ids)) = some (some (some (1, 7)), [(1, 1)]) :=
  ⟨joinDelivers_of_undisturbed Kernel.loaded_initial (by decide +kernel), by decide +kernel⟩

/-- Thread 1 calls `pthread_exit` with 7, and `SIGALRM` arrives once its status is set. Its value never
is, and the main thread gets 0. -/
def interruptedExit : List Input :=
  createOne ++ [.request (.exit 7)] ++ statements 1 ++ [.signal] ++ statements 261 ++
    [.request (.join 1)] ++ statements 3

theorem join_loses_value :
    ¬ Machine.Admits Image.step JoinDelivers (Image.start Kernel.loaded)
      (interruptedExit ++ [.statement]) := by
  have ran : (Machine.run Image.step (Image.start Kernel.loaded) interruptedExit).map
      (fun r => ((r.2.step .statement).map Prod.fst, r.2.ids, r.2.exits 1)) =
      some (some (some (1, 0)), [(1, 1)], some 7) := by decide +kernel
  intro delivers
  obtain ⟨⟨outputs, s⟩, reached, shown⟩ := Option.map_eq_some_iff.mp ran
  obtain ⟨stepped, ids, exits⟩ : (s.step .statement).map Prod.fst = some (some (1, 0)) ∧
      s.ids = [(1, 1)] ∧ s.exits 1 = some 7 := by simpa using shown
  obtain ⟨⟨joins, s'⟩, step, rfl⟩ := Option.map_eq_some_iff.mp stepped
  have value := (delivers.of_append reached).1 1 0 s' step 1 (by simp [ids])
  rw [exits] at value
  exact absurd value (by decide)

end OperatingSys.Threads
