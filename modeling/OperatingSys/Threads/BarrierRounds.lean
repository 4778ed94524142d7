import OperatingSys.Threads.Barrier

/-!
# Rounds of the barrier

The statements of `pthread_barrier_wait` are steps of a counter that every leaver resets. From
that follow when a thread may return, and when an arrival can be lost.
-/

namespace OperatingSys.Threads

/-- What a statement means for the counter. -/
def Point.phase : Point → Phase
  | .user => .idle
  | .arrive => .called
  | .checkInit | .blockLock | .blockStatus | .blockNode | .blockInit | .blockUnlock
  | .blockSchedule | .test | .spin => .waiting
  | .wakeLock | .wake | .wakeUnlock | .yield | .checkSerialed | .resetCount _ => .leaving
  | .clearOne _ | .setInit _ | .clearTwo _ | .setSerialed | .ret _ => .done

namespace Meeting

variable {n : Nat}

def rounds (s : Meeting n) : Rounds (Fin n) where
  counter := s.barrier.threadsBlocked
  phase := fun t => (s.point t).phase
  returns := fun t => (s.returned t).length

theorem rounds_goto (s : Meeting n) (t : Fin n) (point : Point) :
    (s.goto t point).rounds = s.rounds.setPhase t point.phase := by
  simp only [rounds, goto, Rounds.setPhase, Rounds.mk.injEq, and_true, true_and]
  funext u
  by_cases self : u = t
  · subst self
    simp
  · simp [self]

/-- What one statement of thread `t` does to the counter: nothing, or one step. -/
structure Moves (s : Meeting n) (t : Fin n) (s' : Meeting n) : Prop where
  count : s'.barrier.count = s.barrier.count
  calls : ∀ u, s'.calls u = s.calls u + if u = t ∧ (s.point t).phase = .idle then 1 else 0
  nonneg : 0 ≤ s.barrier.threadsBlocked → 0 ≤ s'.barrier.threadsBlocked
  rounds : s.barrier.count = n →
    ((s.point t).phase ≠ .idle ∧ s'.rounds = s.rounds) ∨ Rounds.Step s.rounds t s'.rounds

variable {s s₁ s' : Meeting n} {t : Fin n}

/-- A statement that touches neither the counter nor the calls and stays in its phase. -/
private theorem quiet {old new : Point} (before : s.point t = old) (rounds : s₁.rounds = s.rounds)
    (calls : s₁.calls = s.calls) (count : s₁.barrier.count = s.barrier.count)
    (same : old.phase = new.phase) (busy : old.phase ≠ .idle) : Moves s t (s₁.goto t new) where
  count := count
  calls := fun u => by
    rw [before, if_neg (fun both => busy both.2), Nat.add_zero]
    exact congrFun calls u
  nonneg := fun nonneg => by
    have counter : s₁.rounds.counter = s.rounds.counter := by rw [rounds]
    exact Int.le_trans nonneg (Int.le_of_eq counter.symm)
  rounds := fun _ => by
    rw [before]
    refine Or.inl ⟨busy, ?_⟩
    rw [rounds_goto, rounds, ← same, ← before]
    simp [Rounds.setPhase, Meeting.rounds]

private theorem SameMeeting.rounds_eq (same : SameMeeting s s') : s'.rounds = s.rounds := by
  simp only [rounds, same.point, same.returned, same.threadsBlocked]

theorem statement_moves (stepped : s.statement t = some s') : Moves s t s' := by
  cases point : s.point t with
  | user =>
    simp only [statement, point, Option.some.injEq] at stepped
    subst stepped
    refine ⟨rfl, fun u => ?_, id, fun _ => Or.inr ?_⟩
    · by_cases self : u = t
      · simp [goto, self, point, Point.phase]
      · simp [goto, self]
    · rw [rounds_goto]
      exact .call (by simp [rounds, point, Point.phase])
  | arrive =>
    simp only [statement, point] at stepped
    split at stepped
    · simp at stepped
    · rw [Option.some.injEq] at stepped
      subst stepped
      refine ⟨rfl, fun u => by simp [goto, point, Point.phase], fun old => ?_, fun _ => Or.inr ?_⟩
      · exact Int.le_add_one old
      · rw [rounds_goto]
        exact .arrive (by simp [rounds, point, Point.phase])
  -- neither branch of `if (b->init != 1)` changes the phase
  | checkInit =>
    simp only [statement, point, Option.some.injEq] at stepped
    subst stepped
    refine quiet point rfl rfl rfl ?_ (by decide)
    split <;> rfl
  | blockLock | blockStatus | blockInit | blockUnlock | blockSchedule | spin | wakeLock | wakeUnlock
  | yield | checkSerialed | clearOne | setInit | setSerialed =>
    simp only [statement, point, Option.some.injEq] at stepped
    subst stepped
    refine quiet point ?_ ?_ ?_ ?_ ?_
    exacts [rfl, rfl, rfl, rfl, Phase.noConfusion]
  | blockNode =>
    simp only [statement, point, Option.map_eq_some_iff] at stepped
    obtain ⟨s₁, blocked, rfl⟩ := stepped
    have same := block_same blocked
    exact quiet point same.rounds_eq same.calls same.count rfl (by decide)
  | wake =>
    simp only [statement, point, Option.map_eq_some_iff] at stepped
    obtain ⟨s₁, unblocked, rfl⟩ := stepped
    have same := unblock_same unblocked
    exact quiet point same.rounds_eq same.calls same.count rfl (by decide)
  -- the loop goes on, or the thread leaves it because it sees the counter full
  | test =>
    simp only [statement, point, Option.some.injEq] at stepped
    subst stepped
    by_cases short : s.barrier.threadsBlocked < s.barrier.count
    · rw [if_pos short]
      exact quiet point rfl rfl rfl rfl (by decide)
    · rw [if_neg short]
      refine ⟨rfl, fun u => by simp [goto, point, Point.phase], id, fun full => Or.inr ?_⟩
      rw [rounds_goto]
      refine .leave (by simp [rounds, point, Point.phase]) ?_
      rw [Fintype.card_fin, ← full]
      exact Int.not_lt.mp short
  | resetCount first =>
    simp only [statement, point, Option.some.injEq] at stepped
    subst stepped
    refine ⟨rfl, fun u => by simp [goto, point, Point.phase], fun _ => Int.le_refl 0,
      fun _ => Or.inr ?_⟩
    rw [rounds_goto]
    exact .reset (by simp [rounds, point, Point.phase])
  | clearTwo first =>
    simp only [statement, point, Option.some.injEq] at stepped
    subst stepped
    refine quiet point rfl rfl rfl ?_ Phase.noConfusion
    cases first <;> rfl
  | ret value =>
    simp only [statement, point, Option.some.injEq] at stepped
    subst stepped
    refine ⟨rfl, fun u => by simp [goto, point, Point.phase], id, fun _ => Or.inr ?_⟩
    -- the value goes on the list of returned values, which the rounds only count
    have finished : ({ s with returned := Function.update s.returned t (value :: s.returned t) }.goto
        t .user).rounds = { s.rounds.setPhase t .idle with
          returns := Function.update s.rounds.returns t (s.rounds.returns t + 1) } := by
      rw [rounds_goto, Rounds.setPhase, Rounds.setPhase, Rounds.mk.injEq]
      refine ⟨rfl, rfl, ?_⟩
      funext u
      by_cases self : u = t
      · simp [rounds, self]
      · simp [rounds, self]
    rw [finished]
    exact .finish (by simp [rounds, point, Point.phase])

/-- The threads as parties of the counter. -/
structure Tracks (s : Meeting n) : Prop where
  count : s.barrier.count = n
  calls : ∀ u, s.calls u = s.rounds.calls u

theorem Tracks.moves (tracks : Tracks s) (moves : Moves s t s') : Tracks s' := by
  refine ⟨moves.count.trans tracks.count, fun u => ?_⟩
  rw [moves.calls, tracks.calls]
  rcases moves.rounds tracks.count with ⟨busy, same⟩ | step
  · rw [if_neg (fun both => busy both.2), Nat.add_zero, same]
  · exact (step.calls_eq u).symm

/-- A step is one statement. -/
theorem step_moves {o : Unit} (stepped : s.step t = some (o, s')) : Moves s t s' := by
  obtain ⟨next, stated, eq⟩ := Option.map_eq_some_iff.mp stepped
  rw [Prod.mk.injEq] at eq
  rw [← eq.2]
  have moves := statement_moves stated
  exact ⟨moves.count, moves.calls, moves.nonneg, moves.rounds⟩

theorem start_count {p : Process} (small : n < 2 ^ 31) : (start p n).barrier.count = n := by
  have fits : (BitVec.ofNat 32 n).toNat = n := by
    rw [BitVec.toNat_ofNat]
    omega
  simp only [start, pthreadBarrierInit]
  rw [BitVec.toInt_eq_toNat_of_lt (by omega), fits]

theorem start_tracks {p : Process} (small : n < 2 ^ 31) : Tracks (start p n) :=
  ⟨start_count small, fun _ => rfl⟩

theorem start_orderly (p : Process) (n : Nat) : Rounds.Orderly (start p n).rounds ∅ where
  counted := rfl
  inside := fun t member => absurd member (Finset.notMem_empty t)
  behind := fun _ _ => Nat.le_refl 0
  ahead := fun _ u member => absurd member (Finset.notMem_empty u)
  together := fun _ _ _ => Nat.le_refl 0

/-! ### Safety -/

/-- No thread has returned from more calls than any thread has made. -/
def NoEarlyReturn (s : Meeting n) : Prop := ∀ t u, (s.returned t).length ≤ s.calls u

/-- **Barrier safety.** Whatever the order in which the threads execute their statements, a
thread returns from its `r`-th call only after all `n` threads have made theirs. -/
theorem barrier_no_early_return (p : Process) {n : Nat} (small : n < 2 ^ 31)
    (order : List (Fin n)) : Machine.Always step NoEarlyReturn (start p n) order := by
  refine Machine.always_of_invariant
    (fun s => Tracks s ∧ ∃ present, Rounds.Orderly s.rounds present) ?_ ?_
    ⟨start_tracks small, ∅, start_orderly p n⟩ (Machine.admits_true order)
  · rintro s ⟨tracks, present, orderly⟩ t u
    rw [tracks.calls]
    exact orderly.returns_le_calls t u
  · rintro s t o s' ⟨tracks, present, orderly⟩ - stepped
    have moves := step_moves stepped
    refine ⟨tracks.moves moves, ?_⟩
    rcases moves.rounds tracks.count with ⟨-, same⟩ | step
    · exact ⟨present, same ▸ orderly⟩
    · exact ⟨_, orderly.step step⟩

/-! ### Lost arrivals -/

/-- All threads are in the `while` loop of the same round, and the counter lets none out. -/
def Stuck (s : Meeting n) : Prop :=
  (∀ t, s.point t = .test ∨ s.point t = .spin) ∧ (∀ t u, s.calls t = s.calls u) ∧
    s.barrier.threadsBlocked < s.barrier.count

/-- Nothing that the threads do from there changes that. -/
theorem Stuck.step {o : Unit} (stuck : Stuck s) (stepped : s.step t = some (o, s')) : Stuck s' := by
  obtain ⟨waiting, round, short⟩ := stuck
  obtain ⟨next, stated, eq⟩ := Option.map_eq_some_iff.mp stepped
  rw [Prod.mk.injEq] at eq
  obtain ⟨-, rfl⟩ := eq
  have moved : ∃ point, (point = .test ∨ point = .spin) ∧
      next = { s with process.current := t.val }.goto t point := by
    rcases waiting t with point | point
    · refine ⟨.spin, Or.inr rfl, ?_⟩
      simp only [statement, point, short, if_true, Option.some.injEq] at stated
      exact stated.symm
    · refine ⟨.test, Or.inl rfl, ?_⟩
      simp only [statement, point, Option.some.injEq] at stated
      exact stated.symm
  obtain ⟨point, still, rfl⟩ := moved
  refine ⟨fun u => ?_, round, short⟩
  by_cases self : u = t
  · simpa [goto, self] using still
  · simpa [goto, self] using waiting u

/-- A thread does not execute `threads_blocked++` while another one is past the loop of its
own call and has not reset `threads_blocked` yet. -/
def Patient (s : Meeting n) (t : Fin n) : Prop :=
  s.point t = .arrive → ∀ u, (s.point u).pastLoop = false

instance (s : Meeting n) (t : Fin n) : Decidable (Patient s t) :=
  inferInstanceAs (Decidable (_ → _))

end Meeting

theorem Point.pastLoop_iff (point : Point) : point.pastLoop = true ↔ point.phase = .leaving := by
  cases point <;> simp [Point.pastLoop, Point.phase]

theorem Point.phase_called {point : Point} (called : point.phase = .called) : point = .arrive := by
  cases point <;> simp_all [Point.phase]

namespace Meeting

variable {n : Nat}

theorem start_lossless (p : Process) (n : Nat) : Rounds.Lossless (start p n).rounds ∅ where
  lost := fun _ waiting => absurd waiting Phase.noConfusion
  level := fun _ _ waiting => absurd waiting Phase.noConfusion

/-- **No lost arrival** in every run in which no thread arrives while another one has yet to
reset the counter. -/
theorem barrier_not_stuck_of_patient (p : Process) {n : Nat} (unsigned : n < 2 ^ 32)
    {order : List (Fin n)} (patient : Machine.Admits step Patient (start p n) order) :
    Machine.Always step (fun s => ¬ Stuck s) (start p n) order := by
  by_cases small : n < 2 ^ 31
  · refine Machine.always_of_invariant
      (fun s => Tracks s ∧ ∃ present, Rounds.Orderly s.rounds present ∧
        Rounds.Lossless s.rounds present) ?_ ?_
      ⟨start_tracks small, ∅, start_orderly p n, start_lossless p n⟩ patient
    · rintro s ⟨tracks, present, orderly, lossless⟩ ⟨waiting, round, short⟩
      have full := lossless.not_stuck orderly
        (fun t => by rcases waiting t with point | point <;> simp [rounds, point, Point.phase])
        (fun t u => by rw [← tracks.calls, ← tracks.calls, round t u])
      rw [Fintype.card_fin, ← tracks.count] at full
      exact absurd short (Int.not_lt.mpr full)
    · rintro s t o s' ⟨tracks, present, orderly, lossless⟩ patient stepped
      have moves := step_moves stepped
      refine ⟨tracks.moves moves, ?_⟩
      rcases moves.rounds tracks.count with ⟨-, same⟩ | step
      · exact ⟨present, same ▸ orderly, same ▸ lossless⟩
      · refine ⟨_, orderly.step step, lossless.step orderly step fun called u leaving => ?_⟩
        have early := patient (Point.phase_called called) u
        rw [(Point.pastLoop_iff _).mpr leaving] at early
        exact absurd early (by decide)
  · -- the count is stored as a negative number, and nobody ever waits
    refine Machine.always_of_invariant
      (fun s => s.barrier.count < 0 ∧ 0 ≤ s.barrier.threadsBlocked) ?_ ?_ ⟨?_, Int.le_refl 0⟩
      patient
    · rintro s ⟨negative, nonneg⟩ ⟨-, -, short⟩
      omega
    · rintro s t o s' ⟨negative, nonneg⟩ - stepped
      have moves := step_moves stepped
      exact ⟨moves.count ▸ negative, moves.nonneg nonneg⟩
    · have fits : (BitVec.ofNat 32 n).toNat = n := by
        rw [BitVec.toNat_ofNat]
        omega
      simp only [start, pthreadBarrierInit]
      rw [BitVec.toInt_eq_toNat_cond, fits, if_neg (by omega)]
      omega

/-! ### Runs of two threads -/

/-- A process whose first thread runs. -/
def idleProcess : Process where
  status := fun tid => if tid = 0 then .running else .ready
  current := 0
  masked := false
  nodes := fun _ => none
  next := 0

/-- Both threads finish a round before one of them calls again. -/
def twoRounds : List (Fin 2) :=
  -- one waits, the other arrives and leaves the loop, the one leaves it
  List.replicate 4 0 ++ List.replicate 7 1 ++ List.replicate 5 0 ++
  -- each resets the counter and returns
  List.replicate 8 1 ++ List.replicate 7 0 ++
  -- both arrive again
  List.replicate 4 1 ++ List.replicate 3 0

/-- Two rounds that both threads leave. -/
def twoWholeRounds : List (Fin 2) :=
  twoRounds ++ List.replicate 4 0 ++ List.replicate 12 1 ++ List.replicate 7 0

theorem barrier_no_early_return_two_rounds :
    ∃ t, Machine.run step (start idleProcess 2) twoRounds = some (List.replicate 38 (), t) ∧
      t.returned 0 = [0] ∧ t.returned 1 = [serialThread] ∧
      Machine.Always step NoEarlyReturn (start idleProcess 2) twoRounds :=
  ⟨_, rfl, rfl, rfl, barrier_no_early_return idleProcess (by decide) twoRounds⟩

theorem barrier_not_stuck_of_patient_two_rounds :
    ∃ t, Machine.run step (start idleProcess 2) twoRounds = some (List.replicate 38 (), t) ∧
      t.calls 0 = 2 ∧ t.calls 1 = 2 ∧
      Machine.Always step (fun s => ¬ Stuck s) (start idleProcess 2) twoRounds :=
  ⟨_, rfl, rfl, rfl, barrier_not_stuck_of_patient idleProcess (by decide) (by decide)⟩

/-- Threads are switched only at calls of `schedule`. -/
def SwitchesAtSchedule (s : Meeting n) (t : Fin n) : Prop :=
  ∀ u : Fin n, u.val = s.process.current → u ≠ t → (s.point u).schedules = true

instance (s : Meeting n) (t : Fin n) : Decidable (SwitchesAtSchedule s t) :=
  inferInstanceAs (Decidable (∀ _ : Fin n, _))

/-- The second thread to leave resets the counter after the first one has arrived again. -/
def lostArrival : List (Fin 2) :=
  List.replicate 4 0 ++ List.replicate 7 1 ++ List.replicate 5 0 ++ List.replicate 12 1 ++
    List.replicate 11 0

theorem barrier_stuck_two_threads :
    Machine.Admits step SwitchesAtSchedule (start idleProcess 2) lostArrival ∧
      ¬ Machine.Always step (fun s => ¬ Stuck s) (start idleProcess 2) lostArrival := by
  refine ⟨by decide, fun always => ?_⟩
  have last : ∀ t, Machine.run step (start idleProcess 2) lostArrival =
      some (List.replicate 39 (), t) → ¬ Stuck t := fun t ran =>
    always.last ran
  refine last _ rfl ⟨?_, ?_, ?_⟩ <;> decide

end Meeting

end OperatingSys.Threads
