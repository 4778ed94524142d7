import OperatingSys.Threads.Turns

/-!
# A round of the barrier

What becomes of the threads that wait at a barrier under the scheduler of the library, when
`SIGALRM` arrives in user code only. When the last thread arrives, those that spin in the loop of
`pthread_barrier_wait` stand before it in the ring. Each of them finds the counter full before the
first one to leave resets it.
-/

namespace OperatingSys.Threads

open Cyclic

/-- The barrier whose `pthread_barrier_wait` a thread is in. -/
def Resume.barrier : Resume → Option Nat
  | .blocked b | .spin b | .yield b => some b
  | _ => none

/-- Where a thread goes on after `schedule`: `none` for one in user code. -/
def Kernel.point (k : Kernel) (tid : Tid) : Option Resume :=
  if tid = k.process.current then k.calling else some (k.regs tid)

/-- Thread `tid` can run, and goes on at `r`. -/
def Kernel.At (k : Kernel) (tid : Tid) (r : Resume) : Prop :=
  runnable k.process tid = true ∧ k.point tid = some r

/-- Nobody is in a call on barrier `b`, and nobody is counted. -/
structure Kernel.BarrierIdle (k : Kernel) (b : Nat) : Prop where
  counter : (k.barriers b).threadsBlocked = 0
  nobody : ∀ tid < maxThreads, ∀ r, r.barrier = some b → ¬ k.At tid r

/-! ### The calls -/

section Calls

variable {k k' : Kernel} {o : Outcome} (initialised : ∀ b, (k.barriers b).init = 1)
include initialised

/-- The test of the loop, on a barrier that has not been destroyed. -/
theorem testBarrier_spec {b : Nat} (tested : k.testBarrier b = some (o, k')) :
    k'.barriers = k.barriers ∧ k'.calling =
      some (if (k.barriers b).threadsBlocked < (k.barriers b).count then .spin b else .yield b) := by
  obtain ⟨-, p, barrier, again, test, rfl⟩ := testBarrier_eq tested
  unfold barrierTest at test
  split at test
  next more =>
    cases test
    simp [Kernel.setBarrier, more]
  next full =>
    rw [unblockFrom, if_neg (by rw [initialised b]; decide)] at test
    cases test
    simp [Kernel.setBarrier, full]

theorem pthreadBarrierWait_spec {b : Nat} (waited : pthreadBarrierWait k b = some (o, k')) :
    k'.barriers = Function.update k.barriers b { k.barriers b with
        threadsBlocked := (k.barriers b).threadsBlocked + 1 } ∧
      k'.calling = some (if (k.barriers b).threadsBlocked + 1 < (k.barriers b).count then .spin b
        else .yield b) := by
  unfold pthreadBarrierWait at waited
  dsimp only at waited
  split at waited
  · simp at waited
  · rw [if_neg (by rw [initialised b]; decide)] at waited
    obtain ⟨barriers, calling⟩ := testBarrier_spec (fun b' => by
      by_cases here : b' = b
      · simp [Kernel.setBarrier, here, initialised b]
      · simp [Kernel.setBarrier, here, initialised b']) waited
    rw [barriers, calling]
    simp [Kernel.setBarrier]

/-- A thread that goes on elsewhere leaves the barrier alone. -/
theorem resume_elsewhere {r : Resume} {b : Nat} (elsewhere : r.barrier ≠ some b)
    (resumed : k.resume r = some (o, k')) : k'.barriers b = k.barriers b ∧
      ∀ r', k'.calling = some r' → r'.barrier ≠ some b := by
  cases r with
  | exit => simp [Kernel.resume] at resumed
  | join thread =>
    obtain ⟨-, ⟨-, -, eq, -, -⟩ | ⟨-, -, eq⟩⟩ := pthreadJoin_eq resumed
    · rw [eq]
      exact ⟨rfl, by simp⟩
    · rw [eq]
      exact ⟨rfl, by simp [Resume.barrier]⟩
  | blocked b' =>
    obtain ⟨barriers, calling⟩ := testBarrier_spec initialised resumed
    rw [barriers, calling]
    refine ⟨rfl, ?_⟩
    split <;> simpa [Resume.barrier] using elsewhere
  | spin b' =>
    obtain ⟨barriers, calling⟩ := testBarrier_spec initialised resumed
    rw [barriers, calling]
    refine ⟨rfl, ?_⟩
    split <;> simpa [Resume.barrier] using elsewhere
  | yield b' =>
    obtain ⟨-, rfl⟩ := Kernel.returns_eq resumed
    have other : b ≠ b' := by simpa [Resume.barrier, eq_comm] using elsewhere
    exact ⟨Function.update_of_ne other _ _, by simp⟩
  | _ =>
    obtain ⟨-, rfl⟩ := Kernel.returns_eq resumed
    exact ⟨rfl, by simp⟩

omit initialised in
/-- The end of `pthread_barrier_wait`. -/
theorem resume_yield {b : Nat} (resumed : k.resume (.yield b) = some (o, k')) :
    (k'.barriers b).threadsBlocked = 0 ∧ (k'.barriers b).count = (k.barriers b).count ∧
      k'.calling = none := by
  obtain ⟨-, rfl⟩ := Kernel.returns_eq resumed
  refine ⟨?_, ?_, rfl⟩
  all_goals
    simp only [Kernel.setBarrier, Function.update_self, barrierLeave]
    split <;> rfl

end Calls

/-! ### One step -/

section Step

variable {k k' : Kernel} {o : Outcome} {event : Event} {b : Nat}

/-- Other calls than those on the barrier leave it alone. -/
theorem Orderly.call_elsewhere (orderly : Orderly k) (stepped : k.step event = some (o, k'))
    (stays : event ≠ .switch) (elsewhere : event ≠ .wait b) :
    k.calling = none ∧ k'.barriers b = k.barriers b ∧
      ∀ r, k'.calling = some r → r.barrier ≠ some b := by
  have steps := Kernel.steps_of_step stepped
  -- of all calls only the wait takes a barrier, and there `b` is another one
  cases event with
  | create =>
    obtain ⟨calling, created⟩ := steps
    rw [pthreadCreate, firstCall_of_later orderly.isFirstCall] at created
    rcases createThread_eq created with ⟨-, -, rfl⟩ | ⟨-, -, -, rfl⟩
    · exact ⟨calling, rfl, by simp⟩
    · exact ⟨calling, rfl, by simp⟩
  | exit value =>
    obtain ⟨-, rfl⟩ := Kernel.schedules_eq steps.2
    exact ⟨steps.1, rfl, by simp [Resume.barrier]⟩
  | join thread =>
    exact ⟨steps.1, resume_elsewhere (r := .join thread) orderly.barriers (by simp [Resume.barrier])
      steps.2⟩
  | lock m =>
    obtain ⟨p, mutex, progress, calling, -, scheduled, returned, rfl⟩ := afterMutex_eq steps.2
    refine ⟨steps.1, rfl, fun r called => ?_⟩
    cases progress with
    | returns value => simp [returned ⟨value, rfl⟩] at called
    | schedules =>
      obtain rfl : Resume.lock = r := Option.some.inj ((scheduled rfl).symm.trans called)
      simp [Resume.barrier]
  | unlock m =>
    obtain ⟨p, mutex, progress, calling, -, scheduled, returned, rfl⟩ := afterMutex_eq steps.2
    refine ⟨steps.1, rfl, fun r called => ?_⟩
    cases progress with
    | returns value => simp [returned ⟨value, rfl⟩] at called
    | schedules =>
      obtain rfl : Resume.unlock = r := Option.some.inj ((scheduled rfl).symm.trans called)
      simp [Resume.barrier]
  | wait b' =>
    have other : b ≠ b' := by
      rintro rfl
      exact elsewhere rfl
    obtain ⟨barriers, calling⟩ := pthreadBarrierWait_spec orderly.barriers steps.2
    refine ⟨steps.1, by rw [barriers, Function.update_of_ne other], fun r called => ?_⟩
    rw [calling, Option.some.injEq] at called
    rw [← called]
    -- whether it spins or is the last of its round, the caller is at its own barrier
    split <;> simpa [Resume.barrier] using Ne.symm other
  | timer =>
    obtain ⟨-, rfl⟩ := Kernel.schedules_eq steps.2.2
    exact ⟨steps.1, rfl, by simp [Resume.barrier]⟩
  | switch => exact absurd rfl stays

/-- No call moves a thread other than the caller, and none that can run starts to wait at a
barrier. -/
theorem Regular.at_call (regular : Regular k) (stepped : k.step event = some (o, k'))
    (stays : event ≠ .switch) {tid : Tid} (inTable : tid < maxThreads)
    (other : tid ≠ k.process.current) {r : Resume} (waits : r.barrier = some b) :
    k'.At tid r ↔ k.At tid r := by
  obtain ⟨same, changed⟩ := regular.orderly.other_step inTable other stepped
  have current := same stays
  have status := changed (by rw [current]; exact other)
  unfold Kernel.At Kernel.point
  rw [current, if_neg other, if_neg other, runnable_iff, runnable_iff]
  rcases status with unchanged | ⟨ready, before⟩
  · rw [unchanged]
    refine and_congr_right fun active => ?_
    rw [regular.orderly.regs_step other _ stepped]
    rcases active with running | ready
    · simp [running]
    · simp [ready]
  -- a thread that becomes ready has left the queue of a mutex, or is new
  · have away : k'.regs tid ≠ r := by
      rcases before with blocked | ⟨-, new⟩
      · rw [regular.orderly.regs_step other (by simp [blocked]) stepped]
        obtain ⟨m, one, -⟩ := (regular.orderly.threadStates.blocked tid inTable).mp blocked
        rcases regular.inLock m tid (List.count_pos_iff.mp (one ▸ Nat.one_pos)) with
          ⟨here, -⟩ | ⟨-, regs, -⟩
        · exact absurd here other
        · rintro rfl
          rw [regs] at waits
          simp [Resume.barrier] at waits
      · rintro rfl
        rw [new] at waits
        simp [Resume.barrier] at waits
    constructor
    · rintro ⟨-, here⟩
      exact absurd (Option.some.inj here) away
    · rintro ⟨active, -⟩
      rcases before with blocked | ⟨empty, -⟩
      · simp [blocked] at active
      · simp [empty] at active

/-- A switch moves the thread that it turns to, and nobody else. -/
theorem Orderly.switch_turn (orderly : Orderly k) (stepped : k.step .switch = some (o, k')) :
    (∃ r q, k.At k'.process.current r ∧ q.barriers = k.barriers ∧
        Kernel.resume q r = some (o, k') ∧
        ∀ r', k'.calling = some r' → k'.At k'.process.current r') ∧
      ∀ tid, tid ≠ k'.process.current → ∀ r, k'.At tid r ↔ k.At tid r := by
  obtain ⟨resume, called, switched⟩ := Kernel.steps_of_step stepped
  obtain ⟨p, scheduled, resumed⟩ := switch_eq switched
  have table := schedule_switched scheduled
  have quiet := resume_quiet (k := { k with process := p, regs := k.saveRegs resume })
    orderly.barriers resumed
  have current : k'.process.current = p.current := quiet.current
  -- the registers of a thread that can run tell where it was
  have saved : ∀ tid, runnable k.process tid = true →
      k.point tid = some (k.saveRegs resume tid) := by
    intro tid active
    by_cases here : tid = k.process.current
    · have alive : k.process.status k.process.current ≠ .exited := by
        rw [← here]
        rcases runnable_iff.mp active with running | ready
        · simp [running]
        · simp [ready]
      rw [Kernel.point, if_pos here, called, Kernel.saveRegs, if_neg alive, here,
        Function.update_self]
    · rw [Kernel.point, if_neg here, Kernel.saveRegs_of_ne here]
  have chosen : runnable k.process k'.process.current = true := by
    rw [current, runnable_iff]
    exact table.active.symm
  refine ⟨⟨k.saveRegs resume p.current, { k with process := p, regs := k.saveRegs resume },
    ⟨chosen, ?_⟩, rfl, resumed, fun r' called => ⟨?_, ?_⟩⟩, fun tid other r => ?_⟩
  · rw [← current]
    exact saved _ chosen
  · rw [runnable_iff, quiet.status, current]
    exact Or.inl (by rw [table.status, if_pos rfl])
  · rw [Kernel.point, if_pos rfl, called]
  · have active : runnable k'.process tid = true ↔ runnable k.process tid = true := by
      rw [runnable_iff, runnable_iff, quiet.status]
      change p.status tid = _ ∨ p.status tid = _ ↔ _
      rw [table.status, if_neg (current ▸ other)]
      split
      next stopped => simp [stopped.2]
      next => exact Iff.rfl
    have point : k'.point tid = some (k.saveRegs resume tid) := by
      rw [Kernel.point, if_neg other, quiet.regs]
    unfold Kernel.At
    rw [active, point]
    exact and_congr_right fun runs => by rw [saved tid runs]

end Step

/-! ### The round -/

section Round

variable {k k' : Kernel} {o : Outcome} {event : Event} {b n ring : Nat}

/-- Before the last of `n` threads arrives: the calls that were made are counted, and nobody has got
past the loop. -/
structure Gathering (k : Kernel) (b n calls : Nat) : Prop where
  count : (k.barriers b).count = n
  counter : (k.barriers b).threadsBlocked = calls
  more : calls < n
  spins : ∀ tid < maxThreads, ∀ r, r.barrier = some b → k.At tid r → r = .spin b

/-- Afterwards, in a ring of `ring` threads: those in the loop find the counter full, and they come
before those that are past it. Whoever leaves resets the counter. -/
structure Opened (k : Kernel) (b n ring : Nat) : Prop where
  count : (k.barriers b).count = n
  inside : ∀ tid < ring, ∀ r, r.barrier = some b → k.At tid r → r = .spin b ∨ r = .yield b
  full : ∀ tid < ring, k.At tid (.spin b) → (n : Int) ≤ (k.barriers b).threadsBlocked
  order : ∀ tid < ring, ∀ other < ring, k.At tid (.spin b) → k.At other (.yield b) →
    Before ring k.process.current tid other
  reset : (∀ tid < ring, ∀ r, r.barrier = some b → ¬ k.At tid r) →
    (k.barriers b).threadsBlocked = 0

theorem Gathering.congr {calls : Nat} (gathering : Gathering k b n calls)
    (barrier : k'.barriers b = k.barriers b)
    (same : ∀ tid < maxThreads, ∀ r, r.barrier = some b → k'.At tid r → k.At tid r) :
    Gathering k' b n calls := by
  refine ⟨barrier ▸ gathering.count, barrier ▸ gathering.counter, gathering.more,
    fun tid inTable r waits there => ?_⟩
  exact gathering.spins tid inTable r waits (same tid inTable r waits there)

theorem Opened.congr (opened : Opened k b n ring) (barrier : k'.barriers b = k.barriers b)
    (order : ∀ tid < ring, ∀ other < ring, k.At tid (.spin b) → k.At other (.yield b) →
      Before ring k'.process.current tid other)
    (same : ∀ tid < ring, ∀ r, r.barrier = some b → (k'.At tid r ↔ k.At tid r)) :
    Opened k' b n ring := by
  refine ⟨barrier ▸ opened.count, fun tid inTable r waits there => ?_,
    fun tid inTable there => ?_, fun tid inTable other inTable' there there' => ?_,
    fun nobody => ?_⟩
  · exact opened.inside tid inTable r waits ((same tid inTable r waits).mp there)
  · rw [barrier]
    exact opened.full tid inTable ((same tid inTable _ rfl).mp there)
  · exact order tid inTable other inTable' ((same tid inTable _ rfl).mp there)
      ((same other inTable' _ rfl).mp there')
  · rw [barrier]
    exact opened.reset fun tid inTable r waits there =>
      nobody tid inTable r waits ((same tid inTable r waits).mpr there)

/-- What calls elsewhere leave alone. -/
theorem Regular.elsewhere (regular : Regular k) (stepped : k.step event = some (o, k'))
    (stays : event ≠ .switch) (elsewhere : event ≠ .wait b) :
    k'.barriers b = k.barriers b ∧
      ∀ tid < maxThreads, ∀ r, r.barrier = some b → (k'.At tid r ↔ k.At tid r) := by
  obtain ⟨idle, barrier, called⟩ := regular.orderly.call_elsewhere stepped stays elsewhere
  have current := regular.orderly.current_step stepped stays
  refine ⟨barrier, fun tid inTable r waits => ?_⟩
  by_cases here : tid = k.process.current
  · subst here
    constructor
    · rintro ⟨-, there⟩
      rw [Kernel.point, if_pos current.symm] at there
      exact absurd waits (called r there)
    · rintro ⟨-, there⟩
      rw [Kernel.point, if_pos rfl, idle] at there
      simp at there
  · exact regular.at_call stepped stays inTable here waits

/-- A call of `pthread_barrier_wait`: the caller is in the loop, or past it if it is the last one. -/
theorem Regular.wait (regular : Regular k) (stepped : k.step (.wait b) = some (o, k')) :
    (k'.barriers b).count = (k.barriers b).count ∧
      (k'.barriers b).threadsBlocked = (k.barriers b).threadsBlocked + 1 ∧
      (∀ r, k'.At k.process.current r ↔ r =
        if (k.barriers b).threadsBlocked + 1 < (k.barriers b).count then .spin b else .yield b) ∧
      ∀ tid < maxThreads, tid ≠ k.process.current → ∀ r, r.barrier = some b →
        (k'.At tid r ↔ k.At tid r) := by
  obtain ⟨idle, waited⟩ := Kernel.steps_of_step stepped
  obtain ⟨barriers, calling⟩ := pthreadBarrierWait_spec regular.orderly.barriers waited
  have current := regular.orderly.current_step stepped (by simp)
  have active : runnable k'.process k.process.current = true := by
    rw [runnable_iff, (pthreadBarrierWait_quiet regular.orderly.barriers waited).status]
    exact (regular.orderly.active idle).symm
  refine ⟨by rw [barriers, Function.update_self], by rw [barriers, Function.update_self],
    fun r => ?_, fun tid inTable other r waits =>
      regular.at_call stepped (by simp) inTable other waits⟩
  rw [Kernel.At, Kernel.point, if_pos current.symm, calling, Option.some.injEq]
  exact ⟨fun there => there.2.symm, fun here => ⟨active, here.symm⟩⟩

theorem Gathering.wait {calls : Nat} (gathering : Gathering k b n calls) (regular : Regular k)
    (enough : k.numThreads ≤ ring) (table : ring ≤ maxThreads)
    (stepped : k.step (.wait b) = some (o, k')) :
    Gathering k' b n (calls + 1) ∨ (Opened k' b n ring ∧ calls + 1 = n) := by
  obtain ⟨count, counter, caller, others⟩ := regular.wait stepped
  have more := gathering.more
  rw [gathering.counter, gathering.count] at caller
  rw [gathering.counter] at counter
  rw [gathering.count] at count
  -- those who called before spin as they did
  have spins : ∀ tid < maxThreads, tid ≠ k.process.current → ∀ r, r.barrier = some b →
      k'.At tid r → r = .spin b := fun tid inTable other r waits there =>
    gathering.spins tid inTable r waits ((others tid inTable other r waits).mp there)
  by_cases last : (calls : Int) + 1 < n
  · rw [if_pos last] at caller
    refine Or.inl ⟨count, by rw [counter]; push_cast; rfl, by omega,
      fun tid inTable r waits there => ?_⟩
    by_cases here : tid = k.process.current
    · exact (caller r).mp (here ▸ there)
    · exact spins tid inTable here r waits there
  · rw [if_neg last] at caller
    refine Or.inr ⟨⟨count, fun tid inTable r waits there => ?_, fun tid inTable there => ?_,
      fun tid inTable other inTable' there there' => ?_, fun nobody => ?_⟩, by omega⟩
    · by_cases here : tid = k.process.current
      · exact Or.inr ((caller r).mp (here ▸ there))
      · exact Or.inl (spins tid (Nat.lt_of_lt_of_le inTable table) here r waits there)
    · rw [counter]
      omega
    -- the one that has just arrived is the only one past the loop
    · have last : other = k.process.current := by
        by_contra apart
        simpa using spins other (Nat.lt_of_lt_of_le inTable' table) apart _ rfl there'
      have apart : tid ≠ k.process.current := by
        rintro rfl
        simpa using (caller _).mp there
      rw [last, regular.orderly.current_step stepped (by simp)]
      exact before_self inTable apart (Nat.lt_of_lt_of_le regular.current enough)
    · exact absurd ((caller _).mpr rfl)
        (nobody _ (Nat.lt_of_lt_of_le regular.current enough) _ rfl)

/-- A turn of a thread in the loop leaves the barrier as it is. -/
theorem Gathering.switch {calls : Nat} (gathering : Gathering k b n calls) (regular : Regular k)
    (stepped : k.step .switch = some (o, k')) : Gathering k' b n calls := by
  obtain ⟨⟨r, q, here, barriers, resumed, -⟩, others⟩ := regular.orderly.switch_turn stepped
  have inTable' := (regular.step stepped).orderly.inTable
  have initialised : ∀ b, (q.barriers b).init = 1 := by
    rw [barriers]
    exact regular.orderly.barriers
  by_cases waits : r.barrier = some b
  · obtain rfl := gathering.spins _ inTable' r waits here
    obtain ⟨same, calling⟩ := testBarrier_spec initialised resumed
    rw [barriers, gathering.counter, gathering.count, if_pos (by exact_mod_cast gathering.more)]
      at calling
    refine gathering.congr (by rw [same, barriers]) fun tid inTable r' waits' there => ?_
    by_cases turn : tid = k'.process.current
    · have point := there.2
      rw [Kernel.point, if_pos turn, calling, Option.some.injEq] at point
      rw [turn, ← point]
      exact here
    · exact (others tid turn r').mp there
  · obtain ⟨same, calling⟩ := resume_elsewhere initialised waits resumed
    refine gathering.congr (by rw [same, barriers]) fun tid inTable r' waits' there => ?_
    by_cases turn : tid = k'.process.current
    · have point := there.2
      rw [Kernel.point, if_pos turn] at point
      exact absurd waits' (calling r' point)
    · exact (others tid turn r').mp there

/-- How many turns of others, at most, a thread at the barrier has to wait for until it has left. -/
def Kernel.remaining (k : Kernel) (b ring : Nat) (tid : Tid) : Nat :=
  distance ring k.process.current tid +
    if k.point tid = some (.spin b) then ring else 0

theorem remaining_lt {tid : Tid} (inTable : tid < ring) {r : Resume}
    (found : (after ring k.process.current).find? (runnable k.process) =
      some k'.process.current) (other : k'.process.current ≠ tid) (before : k.At tid r)
    (there : k'.At tid r) : k'.remaining b ring tid < k.remaining b ring tid := by
  rw [Kernel.remaining, Kernel.remaining, before.2, there.2]
  exact Nat.add_lt_add_right (distance_next found inTable before.1 other) _

section Turn

variable {r : Resume} (opened : Opened k b n ring)
  (found : (after ring k.process.current).find? (runnable k.process) =
    some k'.process.current)
  (others : ∀ tid, tid ≠ k'.process.current → ∀ r, k'.At tid r ↔ k.At tid r)
  (here : k.At k'.process.current r)
include opened found others here

/-- A turn of a thread that is elsewhere. -/
theorem Opened.turn_elsewhere (waits : r.barrier ≠ some b) (same : k'.barriers b = k.barriers b)
    (calling : ∀ r', k'.calling = some r' → r'.barrier ≠ some b) : Opened k' b n ring := by
  -- the thread was not at the barrier and is not now
  have away : ∀ r', r'.barrier = some b → ¬ k'.At k'.process.current r' ∧
      ¬ k.At k'.process.current r' := by
    intro r' waits'
    constructor
    · rintro ⟨-, point⟩
      rw [Kernel.point, if_pos rfl] at point
      exact calling r' point waits'
    · rintro ⟨-, point⟩
      rw [here.2, Option.some.injEq] at point
      exact waits (point ▸ waits')
  refine opened.congr same (fun tid inTable other inTable' there there' => ?_)
    fun tid inTable r' waits' => ?_
  · have apart : k'.process.current ≠ tid := by
      rintro rfl
      exact (away _ rfl).2 there
    exact before_next found there.1 apart inTable' there'.1
      (opened.order tid inTable other inTable' there there')
  · by_cases turn : tid = k'.process.current
    · subst turn
      exact ⟨fun there => absurd there (away r' waits').1,
        fun there => absurd there (away r' waits').2⟩
    · exact others tid turn r'

omit here in
/-- A thread in the loop gets past it, and goes to the end of the ring. -/
theorem Opened.turn_spin (inTable' : k'.process.current < ring)
    (same : k'.barriers b = k.barriers b) (there : k'.At k'.process.current (.yield b)) :
    Opened k' b n ring := by
  have now : ∀ r', k'.At k'.process.current r' → r' = .yield b := by
    rintro r' ⟨-, point⟩
    rw [there.2, Option.some.injEq] at point
    exact point.symm
  have apart : ∀ tid, k'.At tid (.spin b) → tid ≠ k'.process.current := by
    rintro tid spins rfl
    simpa using now _ spins
  refine ⟨same ▸ opened.count, fun tid inTable r' waits at_ => ?_, fun tid inTable at_ => ?_,
    fun tid inTable other inTable'' at_ at_' => ?_, fun nobody => ?_⟩
  · by_cases turn : tid = k'.process.current
    · exact Or.inr (now r' (turn ▸ at_))
    · exact opened.inside tid inTable r' waits ((others tid turn r').mp at_)
  · rw [same]
    exact opened.full tid inTable ((others tid (apart tid at_) _).mp at_)
  · by_cases last : other = k'.process.current
    · rw [last]
      exact before_self inTable (apart tid at_) inTable'
    · have before := (others tid (apart tid at_) _).mp at_
      have before' := (others other last _).mp at_'
      exact before_next found before.1 (Ne.symm (apart tid at_)) inTable'' before'.1
        (opened.order tid inTable other inTable'' before before')
  · exact absurd there (nobody _ inTable' _ rfl)

/-- When the first thread leaves, nobody is in the loop any more. -/
theorem Opened.turn_yield (inTable' : k'.process.current < ring) (past : r = .yield b)
    (count : (k'.barriers b).count = n) (reset : (k'.barriers b).threadsBlocked = 0)
    (calling : k'.calling = none) : Opened k' b n ring := by
  subst past
  have gone : ∀ r', ¬ k'.At k'.process.current r' := by
    rintro r' ⟨-, point⟩
    rw [Kernel.point, if_pos rfl, calling] at point
    simp at point
  have empty : ∀ tid < ring, ¬ k'.At tid (.spin b) := by
    intro tid inTable at_
    have turn : tid ≠ k'.process.current := by
      rintro rfl
      exact gone _ at_
    have before := (others tid turn _).mp at_
    exact ne_of_before found before.1 (opened.order tid inTable _ inTable' before here) rfl
  refine ⟨count, fun tid inTable r' waits at_ => ?_, fun tid inTable at_ => ?_,
    fun tid inTable _ _ at_ => absurd at_ (empty tid inTable), fun _ => reset⟩
  · by_cases turn : tid = k'.process.current
    · exact absurd (turn ▸ at_) (gone r')
    · exact opened.inside tid inTable r' waits ((others tid turn r').mp at_)
  · exact absurd at_ (empty tid inTable)

end Turn

/-- A turn of a thread at the barrier gets it past the loop or out, and the others ahead. -/
theorem Opened.switch (opened : Opened k b n ring) (regular : Regular k)
    (enough : k.numThreads ≤ ring) (table : ring ≤ maxThreads) (stepped : k.step .switch = some (o, k')) :
    Opened k' b n ring ∧ ∀ tid < ring, ∀ r, r.barrier = some b → k'.At tid r →
      ∃ r', r'.barrier = some b ∧ k.At tid r' ∧ k'.remaining b ring tid < k.remaining b ring tid := by
  obtain ⟨⟨r, q, here, barriers, resumed, called⟩, others⟩ := regular.orderly.switch_turn stepped
  have found := regular.switch_find enough table stepped
  have inTable' : k'.process.current < ring :=
    List.mem_range.mp ((after_perm _).mem_iff.mp (List.mem_of_find?_eq_some found))
  have initialised : ∀ b, (q.barriers b).init = 1 := by
    rw [barriers]
    exact regular.orderly.barriers
  -- the threads that do not get the turn
  have ahead : ∀ tid < ring, ∀ r', r'.barrier = some b → k'.At tid r' →
      tid ≠ k'.process.current →
      ∃ r', r'.barrier = some b ∧ k.At tid r' ∧ k'.remaining b ring tid < k.remaining b ring tid := by
    intro tid inTable r' waits there other
    have before := (others tid other r').mp there
    exact ⟨r', waits, before, remaining_lt inTable found (Ne.symm other) before there⟩
  by_cases waits : r.barrier = some b
  · rcases opened.inside _ inTable' r waits here with rfl | rfl
    · obtain ⟨same, calling⟩ := testBarrier_spec initialised resumed
      have full := opened.full _ inTable' here
      rw [barriers, opened.count, if_neg (Int.not_lt.mpr full)] at calling
      have there := called _ calling
      refine ⟨opened.turn_spin found others inTable' (by rw [same, barriers]) there,
        fun tid inTable r' waits' at_ => ?_⟩
      by_cases turn : tid = k'.process.current
      · subst turn
        refine ⟨.spin b, rfl, here, ?_⟩
        rw [Kernel.remaining, Kernel.remaining, here.2, there.2, if_neg (by simp), if_pos rfl]
        have short := distance_lt (a := k'.process.current) inTable
        omega
      · exact ahead tid inTable r' waits' at_ turn
    · obtain ⟨reset, count, calling⟩ := resume_yield resumed
      rw [barriers, opened.count] at count
      refine ⟨opened.turn_yield found others here inTable' rfl count reset calling,
        fun tid inTable r' waits' at_ => ?_⟩
      have turn : tid ≠ k'.process.current := by
        rintro rfl
        have point := at_.2
        rw [Kernel.point, if_pos rfl, calling] at point
        simp at point
      exact ahead tid inTable r' waits' at_ turn
  · obtain ⟨same, calling⟩ := resume_elsewhere initialised waits resumed
    refine ⟨opened.turn_elsewhere found others here waits (by rw [same, barriers]) calling,
      fun tid inTable r' waits' at_ => ?_⟩
    have turn : tid ≠ k'.process.current := by
      rintro rfl
      have point := at_.2
      rw [Kernel.point, if_pos rfl] at point
      exact calling r' point waits'
    exact ahead tid inTable r' waits' at_ turn

/-- What happens elsewhere changes nothing for the threads at the barrier. -/
theorem Opened.elsewhere (opened : Opened k b n ring) (regular : Regular k)
    (table : ring ≤ maxThreads) (stepped : k.step event = some (o, k')) (stays : event ≠ .switch)
    (elsewhere : event ≠ .wait b) :
    Opened k' b n ring ∧ ∀ tid < ring, ∀ r, r.barrier = some b → k'.At tid r →
      k.At tid r ∧ k'.remaining b ring tid = k.remaining b ring tid := by
  obtain ⟨barrier, same⟩ := regular.elsewhere stepped stays elsewhere
  have current := regular.orderly.current_step stepped stays
  refine ⟨opened.congr barrier (by rw [current]; exact opened.order) fun tid below =>
    same tid (Nat.lt_of_lt_of_le below table), fun tid below r waits there => ?_⟩
  have before := (same tid (Nat.lt_of_lt_of_le below table) r waits).mp there
  refine ⟨before, ?_⟩
  rw [Kernel.remaining, Kernel.remaining, current, there.2, before.2]

end Round

/-! ### Runs -/

section Runs

variable {k last : Kernel} {outputs : List Outcome} {b n : Nat}

/-- Every switch brings those who are still at the barrier closer to its end. -/
theorem Opened.run {events : List Event} (opened : Opened k b n last.numThreads)
    (regular : Regular k) (ran : Machine.run Kernel.step k events = some (outputs, last))
    (quiet : events.count (.wait b) = 0) :
    Opened last b n last.numThreads ∧
      ∀ tid < last.numThreads, ∀ r, r.barrier = some b → last.At tid r →
        ∃ r', r'.barrier = some b ∧ k.At tid r' ∧
          last.remaining b last.numThreads tid + events.count .switch ≤
            k.remaining b last.numThreads tid := by
  -- induction on the run: a switch brings everybody closer, and the other steps take nobody back
  induction events generalizing k outputs with
  | nil =>
    simp only [Machine.run, Option.some.injEq, Prod.mk.injEq] at ran
    obtain ⟨-, rfl⟩ := ran
    exact ⟨opened, fun tid _ r waits there => ⟨r, waits, there, Nat.le_refl _⟩⟩
  | cons event rest ih =>
    obtain ⟨enough, final⟩ := regular.threads_run ran
    obtain ⟨o, k', os, stepped, later, -⟩ := Machine.run_cons_eq_some ran
    have elsewhere : event ≠ .wait b := by
      rintro rfl
      rw [List.count_cons_self] at quiet
      exact absurd quiet (Nat.succ_ne_zero _)
    rw [List.count_cons_of_ne elsewhere] at quiet
    by_cases switch : event = .switch
    · subst switch
      obtain ⟨opened', closer⟩ := opened.switch regular enough final.table stepped
      obtain ⟨ends, bound⟩ := ih opened' (regular.step stepped) later quiet
      refine ⟨ends, fun tid below r waits there => ?_⟩
      obtain ⟨r', waits', there', fewer⟩ := bound tid below r waits there
      obtain ⟨r'', waits'', there'', less⟩ := closer tid below r' waits' there'
      refine ⟨r'', waits'', there'', ?_⟩
      rw [List.count_cons_self]
      omega
    · obtain ⟨opened', same⟩ := opened.elsewhere regular final.table stepped switch elsewhere
      obtain ⟨ends, bound⟩ := ih opened' (regular.step stepped) later quiet
      refine ⟨ends, fun tid below r waits there => ?_⟩
      obtain ⟨r', waits', there', fewer⟩ := bound tid below r waits there
      obtain ⟨there'', equal⟩ := same tid below r' waits' there'
      refine ⟨r', waits', there'', ?_⟩
      rw [List.count_cons_of_ne switch, ← equal]
      exact fewer

/-- In two circles everybody leaves. -/
theorem Opened.idle {events : List Event} (opened : Opened k b n last.numThreads)
    (regular : Regular k) (ran : Machine.run Kernel.step k events = some (outputs, last))
    (quiet : events.count (.wait b) = 0) (turns : 2 * last.numThreads ≤ events.count .switch) :
    last.BarrierIdle b := by
  obtain ⟨ends, bound⟩ := opened.run regular ran quiet
  have nobody : ∀ tid < last.numThreads, ∀ r, r.barrier = some b → ¬ last.At tid r := by
    intro tid below r waits there
    obtain ⟨-, -, -, fewer⟩ := bound tid below r waits there
    have most : k.remaining b last.numThreads tid < 2 * last.numThreads := by
      have short := distance_lt (a := k.process.current) below
      rw [Kernel.remaining]
      split <;> omega
    omega
  refine ⟨ends.reset nobody, fun tid inTable r waits there => ?_⟩
  -- entries past `num_threads` hold no thread that can run
  refine nobody tid ((regular.threads_run ran).2.used inTable ?_) r waits there
  rcases runnable_iff.mp there.1 with running | ready
  · simp [running]
  · simp [ready]

/-- With the last call the barrier opens. -/
theorem Gathering.opens {calls : Nat} {front back : List Event} (gathering : Gathering k b n calls)
    (regular : Regular k) (ran : Machine.run Kernel.step k (front ++ back) = some (outputs, last))
    (all : calls + front.count (.wait b) = n) (quiet : back.count (.wait b) = 0) :
    ∃ mid rest outputs', Opened mid b n last.numThreads ∧ Regular mid ∧
      Machine.run Kernel.step mid rest = some (outputs', last) ∧ rest.count (.wait b) = 0 ∧
      back.count .switch ≤ rest.count .switch := by
  -- induction on the run up to the last call: only the waits on this barrier count
  induction front generalizing k outputs calls with
  | nil =>
    have more := gathering.more
    rw [List.count_nil] at all
    omega
  | cons event rest ih =>
    obtain ⟨enough, final⟩ := regular.threads_run ran
    rw [List.cons_append] at ran
    obtain ⟨o, k', os, stepped, later, -⟩ := Machine.run_cons_eq_some ran
    have regular' := regular.step stepped
    by_cases arrives : event = .wait b
    · subst arrives
      rw [List.count_cons_self] at all
      rcases gathering.wait regular enough final.table stepped with more | ⟨opened, full⟩
      · exact ih more regular' later (by omega)
      · refine ⟨k', rest ++ back, os, opened, regular', later, ?_, ?_⟩
        · rw [List.count_append, quiet]
          omega
        · rw [List.count_append]
          exact Nat.le_add_left _ _
    · rw [List.count_cons_of_ne arrives] at all
      by_cases switch : event = .switch
      · subst switch
        exact ih (gathering.switch regular stepped) regular' later all
      · obtain ⟨barrier, same⟩ := regular.elsewhere stepped switch arrives
        exact ih (gathering.congr barrier fun tid inTable r waits =>
          (same tid inTable r waits).mp) regular' later all

end Runs

/-- **A barrier opens.** In every state after the first `pthread_create` in which a barrier of count
`n` is idle, whatever the threads do, with calls that no signal interrupts: once
`pthread_barrier_wait` has been called `n` times, and unless it is called again before, all calls
have returned after two circles of the scheduler, and the barrier is idle as before. -/
theorem barrier_opens {k₀ k k' last : Kernel} {o : Outcome} (initial : Initial k₀)
    (created : k₀.step .create = some (o, k))
    (reached : Machine.Reaches Kernel.step (fun _ _ => True) k k') {b n : Nat}
    (idle : k'.BarrierIdle b) (count : (k'.barriers b).count = n) (positive : 0 < n)
    {front back : List Event} {outputs : List Outcome}
    (ran : Machine.run Kernel.step k' (front ++ back) = some (outputs, last))
    (arrivals : front.count (.wait b) = n) (quiet : back.count (.wait b) = 0)
    (turns : 2 * last.numThreads ≤ back.count .switch) : last.BarrierIdle b := by
  have regular := initial.reaches_regular created reached
  have gathering : Gathering k' b n 0 := ⟨count, idle.counter, positive,
    fun tid inTable r waits there => absurd there (idle.nobody tid inTable r waits)⟩
  obtain ⟨mid, rest, outputs', opened, regular', later, quiet', enough⟩ :=
    gathering.opens regular ran (by omega) quiet
  exact opened.idle regular' later quiet' (Nat.le_trans turns enough)

/-- The two threads of barrier 0, which thread 1 is the last to reach. -/
theorem barrier_opens_two :
    ∃ outputs k' outputs' last, Machine.run Kernel.step Kernel.loaded [.create] = some (outputs, k') ∧
      Machine.run Kernel.step k' ([.wait 0, .switch, .wait 0] ++
        [.switch, .switch, .timer, .switch, .timer, .switch]) = some (outputs', last) ∧
      last.BarrierIdle 0 := by
  have facts : (Machine.run Kernel.step Kernel.loaded [.create]).map (fun r =>
      (decide (∀ tid < maxThreads, (r.2.point tid).bind Resume.barrier = none),
        (r.2.barriers 0).threadsBlocked, (r.2.barriers 0).count, (Machine.run Kernel.step r.2
          ([.wait 0, .switch, .wait 0] ++ [.switch, .switch, .timer, .switch, .timer, .switch])).map
            fun r => r.2.numThreads)) = some (true, 0, 2, some 2) := by decide +kernel
  obtain ⟨⟨outputs, k'⟩, ran, facts⟩ := Option.map_eq_some_iff.mp facts
  simp only [Prod.mk.injEq, decide_eq_true_eq] at facts
  obtain ⟨nobody, counter, count, facts⟩ := facts
  obtain ⟨⟨outputs', last⟩, ran', two⟩ := Option.map_eq_some_iff.mp facts
  obtain ⟨o, k, rest, created, later, -⟩ := Machine.run_cons_eq_some ran
  refine ⟨outputs, k', outputs', last, ran, ran', barrier_opens (n := 2) Kernel.loaded_initial created
    ⟨_, rest, Machine.admits_true _, later⟩ ⟨counter, fun tid inTable r waits there => ?_⟩ count
    (by decide) ran' (by decide) (by decide) (by rw [two]; decide)⟩
  have away := nobody tid inTable
  rw [there.2, Option.bind_some, waits] at away
  simp at away

end OperatingSys.Threads
