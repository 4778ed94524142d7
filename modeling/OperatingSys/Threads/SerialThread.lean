import OperatingSys.Threads.BarrierRounds

/-!
# The serial thread

`pthread_barrier_wait` picks the thread that returns `PTHREAD_BARRIER_SERIAL_THREAD` by a flag
of the barrier that is set once and never cleared. With switches at calls of `schedule` only,
the flag is read and set in one go, so that one thread is picked in the first round; in every
later round none is.
-/

namespace OperatingSys.Threads

/-! ### A flag that is set once -/

/-- How far a party is with its call: it has not looked at the flag, it is about to, it knows
whether it is the `first`, or it is about to return a value. -/
inductive Stage where
  | outside
  | choosing
  | chosen (first : Bool)
  | leaving (value : Int)
  deriving DecidableEq

/-- The flag, where each party is, and what its calls have returned, the last one first. -/
structure Election (T : Type) where
  flag : Bool
  stage : T → Stage
  returned : T → List Int

namespace Election

variable {T : Type} [DecidableEq T] {e e' : Election T} {t : T}

def setStage (e : Election T) (t : T) (stage : Stage) : Election T :=
  { e with stage := Function.update e.stage t stage }

/-- One step of party `t`. -/
inductive Step (e : Election T) (t : T) : Election T → Prop where
  | come (before : e.stage t = .outside) : Step e t (e.setStage t .choosing)
  | choose (before : e.stage t = .choosing) : Step e t (e.setStage t (.chosen !e.flag))
  | pass (before : e.stage t = .chosen false) : Step e t (e.setStage t (.leaving 0))
  | win (before : e.stage t = .chosen true) :
    Step e t { e.setStage t (.leaving serialThread) with flag := true }
  | finish {value : Int} (before : e.stage t = .leaving value) :
    Step e t { e.setStage t .outside with
      returned := Function.update e.returned t (value :: e.returned t) }

/-- The flag is still clear: nobody has returned, or learnt that it is not the first. -/
structure Undecided (e : Election T) : Prop where
  flag : e.flag = false
  returned : ∀ u, e.returned u = []
  stage : ∀ u, e.stage u = .outside ∨ e.stage u = .choosing ∨ e.stage u = .chosen true

/-- All that the party has returned or is about to return is 0. -/
def OnlyZeros (stage : Stage) (returned : List Int) : Prop :=
  (∀ value ∈ returned, value = 0) ∧ ∀ value, stage = .leaving value → value = 0

/-- The party returns the serial value first, and 0 ever after. -/
def SerialFirst (stage : Stage) (returned : List Int) : Prop :=
  (returned = [] ∧ stage = .leaving serialThread) ∨
    ∃ later, returned = later ++ [serialThread] ∧ OnlyZeros stage later

/-- The flag is set, and `winner` has set it. -/
structure Decided (e : Election T) (winner : T) : Prop where
  flag : e.flag = true
  stage : ∀ u, e.stage u ≠ .chosen true
  serial : SerialFirst (e.stage winner) (e.returned winner)
  others : ∀ u, u ≠ winner → OnlyZeros (e.stage u) (e.returned u)

/-- The other parties do not move. -/
theorem Step.other (step : Step e t e') {u : T} (other : u ≠ t) :
    e'.stage u = e.stage u ∧ e'.returned u = e.returned u := by
  cases step <;> simp [setStage, other]

/-- With the others outside, the flag is read and set by one party. -/
theorem Undecided.step (undecided : Undecided e) (alone : ∀ u, u ≠ t → e.stage u = .outside)
    (step : Step e t e') : Undecided e' ∨ Decided e' t := by
  have others : ∀ u, u ≠ t → e'.stage u = .outside ∧ e'.returned u = [] := fun u other => by
    rw [(step.other other).1, (step.other other).2]
    exact ⟨alone u other, undecided.returned u⟩
  -- as long as the flag is clear, it is enough to know where `t` is
  have still : e'.flag = false → e'.returned t = [] →
      (e'.stage t = .outside ∨ e'.stage t = .choosing ∨ e'.stage t = .chosen true) →
      Undecided e' := by
    intro flag returned stage
    refine ⟨flag, fun u => ?_, fun u => ?_⟩
    · by_cases self : u = t
      · exact self ▸ returned
      · exact (others u self).2
    · by_cases self : u = t
      · exact self ▸ stage
      · exact Or.inl (others u self).1
  cases step with
  | come before =>
    exact Or.inl (still undecided.flag (undecided.returned t) (Or.inr (Or.inl (by simp [setStage]))))
  | choose before =>
    refine Or.inl (still undecided.flag (undecided.returned t) (Or.inr (Or.inr ?_)))
    simp [setStage, undecided.flag]
  | pass before =>
    have stage := undecided.stage t
    simp [before] at stage
  | win before =>
    refine Or.inr ⟨rfl, fun u => ?_, Or.inl ⟨undecided.returned t, by simp [setStage]⟩,
      fun u other => ?_⟩
    · by_cases self : u = t
      · simp [setStage, self]
      · rw [(others u self).1]
        exact Stage.noConfusion
    · obtain ⟨stage, returned⟩ := others u other
      rw [OnlyZeros, stage, returned]
      exact ⟨fun value member => absurd member List.not_mem_nil, fun value => Stage.noConfusion⟩
  | finish before =>
    have stage := undecided.stage t
    simp [before] at stage

/-- Once the flag is set, a party adds nothing but zeros to what it has returned. -/
theorem Step.adds_zeros (step : Step e t e') (flag : e.flag = true)
    (stage : e.stage t ≠ .chosen true) :
    e'.flag = true ∧ e'.stage t ≠ .chosen true ∧ ∃ new, e'.returned t = new ++ e.returned t ∧
      ∀ later, OnlyZeros (e.stage t) later → OnlyZeros (e'.stage t) (new ++ later) := by
  cases step with
  | come before =>
    refine ⟨flag, by simp [setStage], [], rfl, fun later zeros => ⟨zeros.1, ?_⟩⟩
    simp [setStage]
  | choose before =>
    refine ⟨flag, by simp [setStage, flag], [], rfl, fun later zeros => ⟨zeros.1, ?_⟩⟩
    simp [setStage]
  | pass before =>
    refine ⟨flag, by simp [setStage], [], rfl, fun later zeros => ⟨zeros.1, ?_⟩⟩
    simp [setStage]
  | win before => exact absurd before stage
  | finish before =>
    rename_i value
    refine ⟨flag, by simp [setStage], [value], by simp, fun later zeros => ⟨?_, ?_⟩⟩
    · simpa using ⟨zeros.2 value before, zeros.1⟩
    · simp [setStage]

/-- Once the flag is set, every party returns 0 from then on. -/
theorem Decided.step {winner : T} (decided : Decided e winner) (step : Step e t e') :
    Decided e' winner := by
  obtain ⟨flag, stage, new, returned, zeros⟩ := step.adds_zeros decided.flag (decided.stage t)
  refine ⟨flag, fun u => ?_, ?_, fun u other => ?_⟩
  · by_cases self : u = t
    · exact self ▸ stage
    · rw [(step.other self).1]
      exact decided.stage u
  · by_cases self : winner = t
    · subst self
      rcases decided.serial with ⟨nothing, pending⟩ | ⟨later, before, onlyZeros⟩
      -- the party that has set the flag returns from that call
      · cases step with
        | finish finishing =>
          rw [pending] at finishing
          obtain rfl := Stage.leaving.inj finishing
          refine Or.inr ⟨[], by simp [nothing], ?_⟩
          exact ⟨fun value member => absurd member List.not_mem_nil, by simp [setStage]⟩
        | come before | choose before | pass before | win before => simp [pending] at before
      · exact Or.inr ⟨new ++ later, by rw [returned, before, List.append_assoc], zeros later onlyZeros⟩
    · rw [(step.other self).1, (step.other self).2]
      exact decided.serial
  · by_cases self : u = t
    · subst self
      rw [returned]
      exact zeros _ (decided.others u other)
    · rw [(step.other self).1, (step.other self).2]
      exact decided.others u other

end Election

/-! ### The flag of the barrier -/

/-- What a statement means for the choice of the serial thread. -/
def Point.stage : Point → Stage
  | .checkSerialed => .choosing
  | .resetCount first | .clearOne first | .setInit first | .clearTwo first => .chosen first
  | .setSerialed => .chosen true
  | .ret value => .leaving value
  | _ => .outside

/-- A thread that may be switched away from: at a call of `schedule`, or in user code. -/
def Point.switches (point : Point) : Bool := point.schedules || point = .user

theorem Point.stage_of_switches {point : Point} (switches : point.switches = true) :
    point.stage = .outside := by
  cases point <;> simp_all [Point.switches, Point.schedules, Point.stage]

namespace Meeting

variable {n : Nat} {s s₁ s' : Meeting n} {t : Fin n}

def election (s : Meeting n) : Election (Fin n) where
  flag := s.barrier.serialed
  stage := fun t => (s.point t).stage
  returned := s.returned

theorem election_goto (s : Meeting n) (t : Fin n) (point : Point) :
    (s.goto t point).election = s.election.setStage t point.stage := by
  simp only [election, goto, Election.setStage, Election.mk.injEq, and_true, true_and]
  funext u
  by_cases self : u = t
  · subst self
    simp
  · simp [self]

/-- What one statement of thread `t` does to the choice: nothing, or one step. -/
structure Elects (s : Meeting n) (t : Fin n) (s' : Meeting n) : Prop where
  current : s'.process.current = s.process.current
  election : s'.election = s.election ∨ Election.Step s.election t s'.election

/-- A statement that touches neither the flag nor what was returned, and stays in its stage. -/
private theorem uninvolved {old new : Point} (before : s.point t = old)
    (election : s₁.election = s.election) (current : s₁.process.current = s.process.current)
    (same : old.stage = new.stage) : Elects s t (s₁.goto t new) where
  current := current
  election := by
    left
    rw [election_goto, election, ← same, ← before]
    simp [Election.setStage, Meeting.election]

private theorem SameMeeting.election_eq (same : SameMeeting s s') : s'.election = s.election := by
  simp only [election, same.point, same.returned, same.serialed]

theorem statement_elects (stepped : s.statement t = some s') : Elects s t s' := by
  cases point : s.point t with
  | arrive =>
    simp only [statement, point] at stepped
    split at stepped
    · simp at stepped
    · rw [Option.some.injEq] at stepped
      subst stepped
      exact uninvolved point rfl rfl rfl
  | checkInit =>
    simp only [statement, point, Option.some.injEq] at stepped
    subst stepped
    refine uninvolved point rfl rfl ?_
    split <;> rfl
  | test =>
    simp only [statement, point, Option.some.injEq] at stepped
    subst stepped
    refine uninvolved point rfl rfl ?_
    split <;> rfl
  | user | blockLock | blockStatus | blockInit | blockUnlock | blockSchedule | spin | wakeLock
  | wakeUnlock | resetCount | clearOne | setInit =>
    simp only [statement, point, Option.some.injEq] at stepped
    subst stepped
    refine uninvolved point ?_ ?_ ?_
    exacts [rfl, rfl, rfl]
  | blockNode =>
    simp only [statement, point, Option.map_eq_some_iff] at stepped
    obtain ⟨s₁, blocked, rfl⟩ := stepped
    have same := block_same blocked
    exact uninvolved point same.election_eq same.current rfl
  | wake =>
    simp only [statement, point, Option.map_eq_some_iff] at stepped
    obtain ⟨s₁, unblocked, rfl⟩ := stepped
    have same := unblock_same unblocked
    exact uninvolved point same.election_eq same.current rfl
  | yield =>
    simp only [statement, point, Option.some.injEq] at stepped
    subst stepped
    refine ⟨rfl, Or.inr ?_⟩
    rw [election_goto]
    exact .come (by simp [election, point, Point.stage])
  -- `if (!b->serialed)`
  | checkSerialed =>
    simp only [statement, point, Option.some.injEq] at stepped
    subst stepped
    refine ⟨rfl, Or.inr ?_⟩
    rw [election_goto]
    exact .choose (by simp [election, point, Point.stage])
  | clearTwo first =>
    simp only [statement, point, Option.some.injEq] at stepped
    subst stepped
    cases first with
    | true => exact uninvolved point rfl rfl rfl
    | false =>
      refine ⟨rfl, Or.inr ?_⟩
      rw [election_goto]
      exact .pass (by simp [election, point, Point.stage])
  -- `b->serialed=true`
  | setSerialed =>
    simp only [statement, point, Option.some.injEq] at stepped
    subst stepped
    refine ⟨rfl, Or.inr ?_⟩
    rw [election_goto]
    exact .win (by simp [election, point, Point.stage])
  | ret value =>
    simp only [statement, point, Option.some.injEq] at stepped
    subst stepped
    refine ⟨rfl, Or.inr ?_⟩
    rw [election_goto]
    exact .finish (by simp [election, point, Point.stage])

/-! ### Runs -/

/-- A thread gives way to another one only at a call of `schedule` or in user code. -/
def Cooperative (s : Meeting n) (t : Fin n) : Prop :=
  ∀ u : Fin n, u.val = s.process.current → u ≠ t → (s.point u).switches = true

instance (s : Meeting n) (t : Fin n) : Decidable (Cooperative s t) :=
  inferInstanceAs (Decidable (∀ _ : Fin n, _))

/-- What the call of thread `t` in round `k` has returned, if it has. -/
def returnedIn (s : Meeting n) (k : Nat) (t : Fin n) : Option Int := (s.returned t).reverse[k]?

/-- One call of round `k` has returned `PTHREAD_BARRIER_SERIAL_THREAD` and all the others 0. -/
def OneSerial (s : Meeting n) (k : Nat) : Prop :=
  ∃ t, s.returnedIn k t = some serialThread ∧ ∀ u, u ≠ t → s.returnedIn k u = some 0

/-- Only the current thread is past its last call of `schedule`, and the flag has been set by
one thread or not at all. -/
structure Elected (s : Meeting n) : Prop where
  alone : ∀ u : Fin n, u.val ≠ s.process.current → (s.point u).stage = .outside
  flag : Election.Undecided s.election ∨ ∃ winner, Election.Decided s.election winner

theorem start_elected (p : Process) (n : Nat) : Elected (start p n) where
  alone := fun _ _ => rfl
  flag := Or.inl ⟨rfl, fun _ => rfl, fun _ => Or.inl rfl⟩

theorem Elected.step {o : Unit} (elected : Elected s) (cooperative : Cooperative s t)
    (stepped : s.step t = some (o, s')) : Elected s' := by
  obtain ⟨next, stated, eq⟩ := Option.map_eq_some_iff.mp stepped
  rw [Prod.mk.injEq] at eq
  obtain ⟨-, rfl⟩ := eq
  obtain ⟨current, election⟩ := statement_elects stated
  have alone : ∀ u, u ≠ t → s.election.stage u = .outside := by
    intro u other
    by_cases running : u.val = s.process.current
    · exact Point.stage_of_switches (cooperative u running other)
    · exact elected.alone u running
  refine ⟨fun u elsewhere => ?_, ?_⟩
  · have other : u ≠ t := fun same => elsewhere (by rw [current, same])
    have kept : next.election.stage u = s.election.stage u := by
      rcases election with same | moved
      · rw [same]
        rfl
      · exact (moved.other other).1
    exact kept.trans (alone u other)
  · rcases election with same | moved
    · rw [same]
      exact elected.flag
    · rcases elected.flag with undecided | ⟨winner, decided⟩
      · rcases undecided.step alone moved with still | won
        · exact Or.inl still
        · exact Or.inr ⟨t, won⟩
      · exact Or.inr ⟨winner, decided.step moved⟩

private theorem reverse_zeros {values : List Int} (zeros : ∀ value ∈ values, value = 0) {k : Nat}
    (below : k < values.length) : values.reverse[k]? = some 0 := by
  have inside : k < values.reverse.length := by rwa [List.length_reverse]
  rw [List.getElem?_eq_getElem inside, Option.some.injEq]
  exact zeros _ (List.mem_reverse.mp (List.getElem_mem inside))

/-- In a round that all threads have left, one has returned the serial value exactly if it is
the first round. -/
theorem Elected.oneSerial_iff (elected : Elected s) (some_ : 0 < n) {k : Nat}
    (left : ∀ t, k < (s.returned t).length) : OneSerial s k ↔ k = 0 := by
  rcases elected.flag with undecided | ⟨winner, decided⟩
  · have none_ := left ⟨0, some_⟩
    have empty : s.returned ⟨0, some_⟩ = [] := undecided.returned ⟨0, some_⟩
    simp [empty] at none_
  · have others : ∀ u, u ≠ winner → s.returnedIn k u = some 0 := fun u other =>
      reverse_zeros (decided.others u other).1 (left u)
    rcases decided.serial with ⟨empty, -⟩ | ⟨later, returned, zeros, -⟩
    · have none_ := left winner
      have empty' : s.returned winner = [] := empty
      simp [empty'] at none_
    · have returned' : s.returned winner = later ++ [serialThread] := returned
      have values : (s.returned winner).reverse = serialThread :: later.reverse := by
        rw [returned', List.reverse_append]
        rfl
      cases k with
      | zero =>
        refine iff_of_true ⟨winner, ?_, others⟩ rfl
        rw [returnedIn, values]
        rfl
      -- from the second round on, every thread has returned 0
      | succ k =>
        have last : s.returnedIn (k + 1) winner = some 0 := by
          have below := left winner
          rw [returned', List.length_append, List.length_singleton, Nat.add_lt_add_iff_right] at below
          rw [returnedIn, values, List.getElem?_cons_succ]
          exact reverse_zeros zeros below
        refine iff_of_false ?_ (Nat.succ_ne_zero k)
        rintro ⟨t, serial, -⟩
        by_cases self : t = winner
        · rw [self, last] at serial
          exact absurd serial (by decide)
        · rw [others t self] at serial
          exact absurd serial (by decide)

/-- **The serial thread.** With switches at calls of `schedule` and in user code only, in
whatever order: of the calls of a round that all threads have left, one has returned
`PTHREAD_BARRIER_SERIAL_THREAD` and the others 0 if and only if it is the first round of the
barrier. -/
theorem oneSerial_iff_first_round (p : Process) {n : Nat} (some_ : 0 < n) {order : List (Fin n)}
    (cooperative : Machine.Admits step Cooperative (start p n) order) :
    Machine.Always step
      (fun s => ∀ k, (∀ t, k < (s.returned t).length) → (OneSerial s k ↔ k = 0))
      (start p n) order :=
  Machine.always_of_invariant Elected (fun _ elected _ left => elected.oneSerial_iff some_ left)
    (fun _ _ _ _ elected cooperative stepped => elected.step cooperative stepped)
    (start_elected p n) cooperative

/-- A thread starts a round only after all threads have returned from the one before. -/
def RoundByRound (s : Meeting n) (t : Fin n) : Prop :=
  s.point t = .user → ∀ u, s.calls t ≤ (s.returned u).length

instance (s : Meeting n) (t : Fin n) : Decidable (RoundByRound s t) :=
  inferInstanceAs (Decidable (_ → _))

theorem oneSerial_iff_first_round_two_threads :
    Machine.Always step
      (fun s => ∀ k, (∀ t, k < (s.returned t).length) → (OneSerial s k ↔ k = 0))
      (start idleProcess 2) twoWholeRounds :=
  oneSerial_iff_first_round idleProcess (by decide) (by decide +kernel)

/-- What the two threads have returned from their rounds, the last one first. -/
private theorem twoWholeRounds_returned :
    (Machine.run step (start idleProcess 2) twoWholeRounds).map
      (fun result => (result.2.returned 0, result.2.returned 1)) =
      some ([0, 0], [0, serialThread]) := by
  decide +kernel

/-- Both threads return 0 from the second round. -/
theorem second_round_without_serial :
    Machine.Admits step Cooperative (start idleProcess 2) twoWholeRounds ∧
      Machine.Admits step RoundByRound (start idleProcess 2) twoWholeRounds ∧
      ∃ outputs s, Machine.run step (start idleProcess 2) twoWholeRounds = some (outputs, s) ∧
        s.returned 0 = [0, 0] ∧ s.returned 1 = [0, serialThread] ∧
        (∀ t, 1 < (s.returned t).length) ∧ ¬ OneSerial s 1 := by
  refine ⟨by decide +kernel, by decide +kernel, ?_⟩
  obtain ⟨⟨outputs, s⟩, ran, values⟩ := Option.map_eq_some_iff.mp twoWholeRounds_returned
  simp only [Prod.mk.injEq] at values
  obtain ⟨first, second⟩ := values
  refine ⟨outputs, s, ran, first, second, fun t => ?_, ?_⟩
  · match t with
    | 0 => simp [first]
    | 1 => simp [second]
  · rintro ⟨t, serial, -⟩
    match t with
    | 0 =>
      rw [returnedIn, first] at serial
      exact absurd serial (by decide)
    | 1 =>
      rw [returnedIn, second] at serial
      exact absurd serial (by decide)

end Meeting

end OperatingSys.Threads
