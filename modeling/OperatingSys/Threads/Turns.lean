import OperatingSys.Threads.Waking

/-!
# Waiting for a turn

How long a thread can be kept from the processor when `SIGALRM` arrives in user code only, never
inside of a call or of `schedule`. A ready thread is passed by each other thread at most once before
its turn comes, whatever these do with it. A thread in the queue of a mutex is passed by nobody: as
many calls of `pthread_mutex_unlock` as there are threads up to it make it ready, and its
`pthread_mutex_lock` returns in its next turn.
-/

namespace OperatingSys.Threads

open Cyclic

/-- The threads that the switches of a run turn to. -/
def Kernel.turnsOf (k : Kernel) : List Event → List Tid
  | [] => []
  | event :: rest =>
    match k.step event with
    | none => []
    | some (_, k') =>
      if event = .switch then k'.process.current :: k'.turnsOf rest else k'.turnsOf rest

/-- The first switch of the run that turns to thread `tid` leads back to its code, with `outcome`. -/
def Kernel.ReturnsTo (k : Kernel) (tid : Tid) (outcome : Outcome) (events : List Event) : Prop :=
  ∃ front back outputs k' k'', events = front ++ .switch :: back ∧
    Machine.run Kernel.step k front = some (outputs, k') ∧ tid ∉ k.turnsOf front ∧
    k'.step .switch = some (outcome, k'') ∧ k''.process.current = tid

/-! ### Turns -/

section Turns

variable {k k' last : Kernel} {o : Outcome} {event : Event} {events : List Event}
  {outputs : List Outcome} {tid : Tid}

/-- A ready thread stays ready until it gets the processor. -/
theorem Orderly.ready_step (orderly : Orderly k) (inTable : tid < maxThreads)
    (ready : k.process.status tid = .ready) (other : tid ≠ k.process.current)
    (stepped : k.step event = some (o, k')) (away : tid ≠ k'.process.current) :
    k'.process.status tid = .ready := by
  rcases (orderly.other_step inTable other stepped).2 away with same | ⟨woken, -⟩
  · rw [same, ready]
  · exact woken

theorem Kernel.length_turnsOf
    (ran : Machine.run Kernel.step k events = some (outputs, last)) :
    (k.turnsOf events).length = events.count .switch := by
  induction events generalizing k outputs with
  | nil => rfl
  | cons event rest ih =>
    obtain ⟨o, k', os, stepped, later, -⟩ := Machine.run_cons_eq_some ran
    simp only [Kernel.turnsOf, stepped]
    by_cases switch : event = .switch
    · subst switch
      rw [if_pos rfl, List.length_cons, List.count_cons_self, ih later]
    · rw [if_neg switch, List.count_cons_of_ne switch, ih later]

/-- The threads that get their turns before `tid` stand before it in the ring, in that order. -/
theorem Regular.turns_sublist (regular : Regular k) (inTable : tid < maxThreads)
    (ready : k.process.status tid = .ready) (other : tid ≠ k.process.current)
    (ran : Machine.run Kernel.step k events = some (outputs, last)) :
    ((k.turnsOf events).takeWhile (· ≠ tid)).Sublist
      ((after last.numThreads k.process.current).takeWhile (· ≠ tid)) := by
  induction events generalizing k outputs with
  | nil => exact List.nil_sublist _
  | cons event rest ih =>
    obtain ⟨o, k', os, stepped, later, -⟩ := Machine.run_cons_eq_some ran
    have regular' := regular.step stepped
    have waits := regular.orderly.ready_step inTable ready other stepped
    simp only [Kernel.turnsOf, stepped]
    by_cases switch : event = .switch
    · subst switch
      rw [if_pos rfl]
      by_cases here : tid = k'.process.current
      · rw [← here, List.takeWhile_cons_of_neg (by simp)]
        exact List.nil_sublist _
      -- the ring from the thread that gets the turn is the rest of the ring
      · obtain ⟨more, final⟩ := regular.threads_run ran
        have below : tid < last.numThreads :=
          Nat.lt_of_lt_of_le (regular.used inTable (by simp [ready])) more
        obtain ⟨passed, -, split⟩ := takeWhile_after (regular.switch_find more final.table stepped)
          below (runnable_iff.mpr (Or.inr ready)) (Ne.symm here)
        rw [List.takeWhile_cons_of_pos (by simpa using Ne.symm here), split]
        exact ((ih regular' (waits here) here later).cons_cons _).trans
          (List.sublist_append_right _ _)
    · have current := regular.orderly.current_step stepped switch
      rw [if_neg switch, ← current]
      exact ih regular' (waits (current ▸ other)) (current ▸ other) later

/-- Two of `n` threads are not in the ring before `tid`: itself and the one that the ring ends
with. -/
theorem ring_before {n a i : Nat} (below : a < n) (below' : i < n) (other : i ≠ a) :
    ((after n a).takeWhile (· ≠ i)).Nodup ∧ ((after n a).takeWhile (· ≠ i)).length + 1 < n := by
  have nodup : (after n a).Nodup := (after_perm a).nodup_iff.mpr List.nodup_range
  refine ⟨(List.takeWhile_prefix _).sublist.nodup nodup, ?_⟩
  obtain ⟨front, split⟩ := List.getLast?_eq_some_iff.mp (getLast?_after below)
  have member := mem_after (a := a) below'
  have size := congrArg List.length split
  rw [split, List.mem_append, List.mem_singleton] at member
  rw [length_after, List.length_append, List.length_singleton] at size
  obtain ⟨near, far, rfl, absent⟩ := List.eq_append_cons_of_mem (member.resolve_right other)
  rw [split, List.append_assoc, List.cons_append, takeWhile_ne_cons absent]
  rw [List.length_append, List.length_cons] at size
  omega

/-- A list of enough turns has a turn of its own for whoever is passed by few. -/
theorem mem_take_of_short {turns : List Tid} {n : Nat}
    (short : (turns.takeWhile (· ≠ tid)).length < n) (enough : n ≤ turns.length) :
    tid ∈ turns.take n := by
  by_contra absent
  have before : (turns.take n).length ≤ (turns.takeWhile (· ≠ tid)).length := by
    conv_rhs => rw [← List.take_append_drop n turns]
    rw [takeWhile_ne absent, List.length_append]
    exact Nat.le_add_right _ _
  rw [List.length_take, Nat.min_eq_left enough] at before
  exact absurd short (Nat.not_lt_of_le before)

/-- A ready thread waits for no more turns than there are other threads. -/
theorem Regular.gets_turn (regular : Regular k) (inTable : tid < maxThreads)
    (ready : k.process.status tid = .ready) (other : tid ≠ k.process.current)
    (ran : Machine.run Kernel.step k events = some (outputs, last)) :
    ((k.turnsOf events).takeWhile (· ≠ tid)).Nodup ∧
      (last.numThreads - 1 ≤ (k.turnsOf events).length →
        tid ∈ (k.turnsOf events).take (last.numThreads - 1)) := by
  have more := (regular.threads_run ran).1
  have sublist := regular.turns_sublist inTable ready other ran
  obtain ⟨nodup, short⟩ := ring_before (Nat.lt_of_lt_of_le regular.current more)
    (Nat.lt_of_lt_of_le (regular.used inTable (by simp [ready])) more) other
  exact ⟨sublist.nodup nodup, mem_take_of_short
    (Nat.lt_of_le_of_lt sublist.length_le (Nat.lt_sub_of_add_lt short))⟩

end Turns

/-! ### From the queue to the return -/

section Returns

variable {k k' last : Kernel} {o outcome : Outcome} {outputs : List Outcome} {tid : Tid}

theorem Kernel.ReturnsTo.cons {event : Event} {events : List Event}
    (stepped : k.step event = some (o, k')) (away : event = .switch → k'.process.current ≠ tid)
    (returns : k'.ReturnsTo tid outcome events) : k.ReturnsTo tid outcome (event :: events) := by
  obtain ⟨front, back, outputs, k₁, k₂, rfl, ran, absent, switched, current⟩ := returns
  refine ⟨event :: front, back, o :: outputs, k₁, k₂, rfl, by simp only [Machine.run, stepped, ran],
    ?_, switched, current⟩
  simp only [Kernel.turnsOf, stepped]
  by_cases switch : event = .switch
  · rw [if_pos switch, List.mem_cons, not_or]
    exact ⟨Ne.symm (away switch), absent⟩
  · rw [if_neg switch]
    exact absent

/-- The next turn of a thread in `pthread_mutex_lock` ends the call. -/
theorem Regular.returns_of_turn (regular : Regular k) (inTable : tid < maxThreads)
    (inLock : k.InLock tid) {events : List Event}
    (ran : Machine.run Kernel.step k events = some (outputs, last))
    (turn : tid ∈ k.turnsOf events) : k.ReturnsTo tid (.locked (-1)) events := by
  induction events generalizing k outputs with
  | nil => exact absurd turn List.not_mem_nil
  | cons event rest ih =>
    obtain ⟨o, k', os, stepped, later, -⟩ := Machine.run_cons_eq_some ran
    rcases regular.orderly.inLock_step inTable inLock stepped with
      ⟨rfl, current, rfl, -⟩ | ⟨kept, away⟩
    · exact ⟨[], rest, [], k, k', rfl, rfl, List.not_mem_nil, stepped, current⟩
    · refine Kernel.ReturnsTo.cons stepped away (ih (regular.step stepped) kept later ?_)
      simp only [Kernel.turnsOf, stepped] at turn
      split at turn
      next switch => exact (List.mem_cons.mp turn).resolve_left (Ne.symm (away switch))
      · exact turn

/-- A waiting thread moves up by one place with every call of `pthread_mutex_unlock`. -/
theorem Regular.place (regular : Regular k) {m i : Nat} (waits : (k.queue m)[i]? = some tid)
    {events : List Event} (ran : Machine.run Kernel.step k events = some (outputs, last))
    (few : events.count (.unlock m) ≤ i) :
    (last.queue m)[i - events.count (.unlock m)]? = some tid := by
  induction events generalizing k outputs i with
  | nil =>
    simp only [Machine.run, Option.some.injEq, Prod.mk.injEq] at ran
    obtain ⟨-, rfl⟩ := ran
    exact waits
  | cons event rest ih =>
    obtain ⟨o, k', os, stepped, later, -⟩ := Machine.run_cons_eq_some ran
    rcases (regular.place_step stepped waits).2.2 with
      ⟨other, still⟩ | ⟨rfl, -, ahead⟩ | ⟨rfl, rfl, -⟩
    · rw [List.count_cons_of_ne other] at few ⊢
      exact ih (regular.step stepped) still later few
    · rw [List.count_cons_self] at few ⊢
      rw [Nat.add_comm, ← Nat.sub_sub]
      exact ih (regular.step stepped) ahead later (by omega)
    · rw [List.count_cons_self] at few
      exact absurd few (Nat.not_succ_le_zero _)

/-- Once it has been handed the mutex, a thread returns in its next turn. -/
theorem Regular.returns (regular : Regular k) {m i : Nat} (waits : (k.queue m)[i]? = some tid)
    {front back : List Event}
    (ran : Machine.run Kernel.step k (front ++ back) = some (outputs, last))
    (handed : i < front.count (.unlock m)) (turns : last.numThreads - 1 ≤ back.count .switch) :
    k.ReturnsTo tid (.locked (-1)) (front ++ back) := by
  induction front generalizing k outputs i with
  | nil => exact absurd handed (Nat.not_lt_zero _)
  | cons event rest ih =>
    rw [List.cons_append] at ran ⊢
    obtain ⟨o, k', os, stepped, later, -⟩ := Machine.run_cons_eq_some ran
    obtain ⟨inLock, away, place⟩ := regular.place_step stepped waits
    have regular' := regular.step stepped
    refine Kernel.ReturnsTo.cons stepped away ?_
    rcases place with ⟨other, still⟩ | ⟨rfl, ahead, next⟩ | ⟨rfl, rfl, ready⟩
    · rw [List.count_cons_of_ne other] at handed
      exact ih regular' still later handed
    · rw [List.count_cons_self] at handed
      exact ih regular' next later (by omega)
    -- it has left the queue and is ready
    · have other : tid ≠ k'.process.current := by
        rcases inLock with ⟨-, -, blocked⟩ | ⟨other, -⟩
        · simp [ready] at blocked
        · exact other
      have inTable := (regular.of_mem waits).1
      refine regular'.returns_of_turn inTable inLock later (List.mem_of_mem_take
        ((regular'.gets_turn inTable ready other later).2 ?_))
      rw [Kernel.length_turnsOf later, List.count_append]
      exact Nat.le_trans turns (Nat.le_add_left _ _)

end Returns

/-- **Nobody starves.** In every state after the first `pthread_create`, whatever the threads do from
then on, with calls that no signal interrupts: before a ready thread gets the processor no other
thread gets it twice, and so it is its turn in one of as many switches as there are other threads. -/
theorem ready_thread_gets_turn {k₀ k k' last : Kernel} {o : Outcome} (initial : Initial k₀)
    (created : k₀.step .create = some (o, k))
    (reached : Machine.Reaches Kernel.step (fun _ _ => True) k k') {tid : Tid}
    (inTable : tid < maxThreads) (ready : k'.process.status tid = .ready)
    (other : tid ≠ k'.process.current) {events : List Event} {outputs : List Outcome}
    (ran : Machine.run Kernel.step k' events = some (outputs, last)) :
    ((k'.turnsOf events).takeWhile (· ≠ tid)).Nodup ∧
      (last.numThreads - 1 ≤ events.count .switch →
        tid ∈ (k'.turnsOf events).take (last.numThreads - 1)) := by
  rw [← Kernel.length_turnsOf ran]
  exact (initial.reaches_regular created reached).gets_turn inTable ready other ran

/-- Thread 2 is ready while the main thread runs. -/
theorem ready_thread_gets_turn_third :
    ∃ outputs k' outputs' last,
      Machine.run Kernel.step Kernel.loaded [.create, .create] = some (outputs, k') ∧
      Machine.run Kernel.step k' [.timer, .switch, .timer, .switch] = some (outputs', last) ∧
      2 ∈ (k'.turnsOf [.timer, .switch, .timer, .switch]).take 2 := by
  have facts : (Machine.run Kernel.step Kernel.loaded [.create, .create]).map (fun r =>
      (r.2.process.status 2, r.2.process.current, (Machine.run Kernel.step r.2
        [.timer, .switch, .timer, .switch]).map fun r => r.2.numThreads)) =
      some (.ready, 0, some 3) := by decide +kernel
  obtain ⟨⟨outputs, k'⟩, ran, facts⟩ := Option.map_eq_some_iff.mp facts
  simp only [Prod.mk.injEq] at facts
  obtain ⟨ready, current, facts⟩ := facts
  obtain ⟨⟨outputs', last⟩, ran', three⟩ := Option.map_eq_some_iff.mp facts
  obtain ⟨o, k, rest, created, later, -⟩ := Machine.run_cons_eq_some ran
  have turn := (ready_thread_gets_turn Kernel.loaded_initial created
    ⟨_, rest, Machine.admits_true _, later⟩ (by decide) ready (by simp [current]) ran').2
  rw [three] at turn
  exact ⟨outputs, k', outputs', last, ran, ran', turn (by decide)⟩

/-- **A lock is granted in order, and in time.** In every state after the first `pthread_create`, a
thread that waits at place `i` of the queue of a mutex keeps its place but for moving up by one with
every call of `pthread_mutex_unlock`, whatever the threads do, with calls that no signal
interrupts. Once that has been called more than `i` times, its own `pthread_mutex_lock` returns in
its first turn, after no more switches than there are other threads. -/
theorem lock_returns {k₀ k k' last : Kernel} {o : Outcome} (initial : Initial k₀)
    (created : k₀.step .create = some (o, k))
    (reached : Machine.Reaches Kernel.step (fun _ _ => True) k k') {m i : Nat} {tid : Tid}
    (waits : (k'.queue m)[i]? = some tid) {front back : List Event} {outputs : List Outcome}
    (ran : Machine.run Kernel.step k' (front ++ back) = some (outputs, last)) :
    ((front ++ back).count (.unlock m) ≤ i →
      (last.queue m)[i - (front ++ back).count (.unlock m)]? = some tid) ∧
    (i < front.count (.unlock m) → last.numThreads - 1 ≤ back.count .switch →
      k'.ReturnsTo tid (.locked (-1)) (front ++ back)) := by
  have regular := initial.reaches_regular created reached
  exact ⟨regular.place waits ran, regular.returns waits ran⟩

/-- Thread 1 waits for mutex 0 when the main thread calls `pthread_mutex_unlock`. -/
theorem lock_returns_second :
    ∃ outputs k' outputs' last, Machine.run Kernel.step Kernel.loaded
        [.create, .lock 0, .timer, .switch, .lock 0, .switch] = some (outputs, k') ∧
      Machine.run Kernel.step k' ([.unlock 0] ++ [.switch]) = some (outputs', last) ∧
      k'.ReturnsTo 1 (.locked (-1)) ([.unlock 0] ++ [.switch]) := by
  have facts : (Machine.run Kernel.step Kernel.loaded
      [.create, .lock 0, .timer, .switch, .lock 0, .switch]).map (fun r => (r.2.queue 0,
        (Machine.run Kernel.step r.2 [.unlock 0, .switch]).map fun r => r.2.numThreads)) =
      some ([1], some 2) := by decide +kernel
  obtain ⟨⟨outputs, k'⟩, ran, facts⟩ := Option.map_eq_some_iff.mp facts
  simp only [Prod.mk.injEq] at facts
  obtain ⟨queue, facts⟩ := facts
  obtain ⟨⟨outputs', last⟩, ran', two⟩ := Option.map_eq_some_iff.mp facts
  change Machine.run Kernel.step k' ([.unlock 0] ++ [.switch]) = _ at ran'
  obtain ⟨o, k, rest, created, later, -⟩ := Machine.run_cons_eq_some ran
  have returns := (lock_returns Kernel.loaded_initial created
    ⟨_, rest, Machine.admits_true _, later⟩ (i := 0) (by rw [queue]; rfl) ran').2
  rw [two] at returns
  exact ⟨outputs, k', outputs', last, ran, ran', returns (by decide) (by decide)⟩

end OperatingSys.Threads
