import OperatingSys.Threads.Scheduler
import OperatingSys.Lib.Cyclic
import Mathlib.Data.List.Find

/-!
# Round robin (threads.c)

The search of `schedule` goes once around the table. The threads that can run stand in a
line, in cyclic order from the one after the current thread, which is the last of them. A
call of `schedule` serves the first of the line and sends it to the back.
-/

namespace OperatingSys.Threads

open Cyclic

/-- The thread runs or could be chosen to. -/
def runnable (p : Process) (tid : Tid) : Bool :=
  p.status tid = .running || p.status tid = .ready

/-- The entries of the table whose threads are runnable. -/
def runnableThreads (p : Process) : List Tid := (List.range maxThreads).filter (runnable p)

/-- That many calls of `schedule`, one after the other, and the threads they select. -/
def turns : (calls : Nat) → Process → Option (List Tid × Process)
  | 0, p => some ([], p)
  | calls + 1, p =>
    match schedule p with
    | none => none
    | some p =>
      match turns calls p with
      | none => none
      | some (chosen, last) => some (p.current :: chosen, last)

/-! ### The search as a walk around the table -/

theorem following_eq {tid : Tid} (inTable : tid < maxThreads) :
    following tid = (tid + 1) % maxThreads := by
  rw [following]
  split
  next last =>
    rw [last]
    rfl
  next inner =>
    rw [Nat.mod_eq_of_lt]
    exact Nat.add_lt_of_lt_sub (Nat.lt_of_le_of_ne (Nat.le_sub_one_of_lt inTable) inner)

theorem search_eq_find (status : Tid → Status) (rounds : Nat) {tid : Tid}
    (inTable : tid < maxThreads) :
    search status rounds tid =
      ((List.range rounds).map fun d => (tid + 1 + d) % maxThreads).find?
        fun tid => status tid = .ready := by
  induction rounds generalizing tid with
  | zero => rfl
  | succ rounds ih =>
    have shifted : ∀ d,
        (following tid + 1 + d) % maxThreads = (tid + 1 + (d + 1)) % maxThreads := by
      intro d
      rw [following_eq inTable, Nat.add_assoc, Nat.mod_add_mod, Nat.add_comm 1 d]
    rw [search, List.range_succ_eq_map, List.map_cons, List.map_map, List.find?_cons, Nat.add_zero,
      ← following_eq inTable, ih (following_lt inTable)]
    simp only [shifted]
    by_cases ready : status (following tid) = .ready
    · simp [ready]
    · simp only [ready, if_false, decide_false]
      rfl

theorem search_around (status : Tid → Status) {tid : Tid} (inTable : tid < maxThreads) :
    search status maxThreads tid =
      (after maxThreads tid).find? fun tid => status tid = .ready := by
  have walk : (List.range maxThreads).map (fun d => (tid + 1 + d) % maxThreads) =
      after maxThreads tid := by
    apply List.ext_getElem
    · simp
    · intro i _ _
      rw [getElem_after, List.getElem_map, List.getElem_range]
  rw [search_eq_find status maxThreads inTable, walk]

/-! ### One call -/

/-- The current thread is one of the table, it can run, and no other one does. -/
structure Scheduled (p : Process) : Prop where
  inTable : p.current < maxThreads
  alone : ∀ tid < maxThreads, tid ≠ p.current → p.status tid ≠ .running
  active : p.status p.current = .running ∨ p.status p.current = .ready

/-- The table once the current thread is ready too. -/
theorem schedule_demoted {p : Process}
    (active : p.status p.current = .running ∨ p.status p.current = .ready) :
    (if p.status p.current = .running then p.setStatus p.current .ready else p) =
      p.setStatus p.current .ready := by
  split
  · rfl
  next still =>
    have ready := active.resolve_left still
    rw [Process.setStatus, ← ready, Function.update_eq_self]

section Call

variable {p : Process}

theorem Scheduled.runnable_iff (scheduled : Scheduled p) {tid : Tid} (inTable : tid < maxThreads) :
    runnable p tid = true ↔ (p.setStatus p.current .ready).status tid = .ready := by
  simp only [runnable, Bool.or_eq_true, decide_eq_true_eq, Process.setStatus, Function.update_apply]
  by_cases here : tid = p.current
  · simp [here, scheduled.active]
  · simp [here, scheduled.alone tid inTable here]

/-- `schedule` serves the first of the line. -/
theorem Scheduled.schedule_eq (scheduled : Scheduled p) :
    ∃ tid, (after maxThreads p.current).find? (runnable p) = some tid ∧
      schedule p = some
        { (p.setStatus p.current .ready).setStatus tid .running with current := tid } := by
  have same : search (p.setStatus p.current .ready).status maxThreads p.current =
      (after maxThreads p.current).find? (runnable p) := by
    rw [search_around _ scheduled.inTable]
    apply List.find?_congr
    intro tid member
    have inTable := List.mem_range.mp ((after_perm _).mem_iff.mp member)
    rw [Bool.eq_iff_iff, decide_eq_true_eq]
    exact (scheduled.runnable_iff inTable).symm
  -- the current thread itself is a candidate
  have some_ : ((after maxThreads p.current).find? (runnable p)).isSome := by
    rw [List.find?_isSome]
    refine ⟨p.current, (after_perm _).mem_iff.mpr (List.mem_range.mpr scheduled.inTable), ?_⟩
    simpa [runnable] using scheduled.active
  obtain ⟨tid, found⟩ := Option.isSome_iff_exists.mp some_
  refine ⟨tid, found, ?_⟩
  have current : (p.setStatus p.current .ready).current = p.current := rfl
  simp only [schedule, schedule_demoted scheduled.active, current, same, found]

/-- What calls of `schedule` do to a table, however many: one thread runs, those that could
be chosen are ready. -/
structure Turned (p p' : Process) : Prop where
  scheduled : Scheduled p'
  runnable_eq : ∀ tid < maxThreads, runnable p' tid = runnable p tid
  process_eq : p' =
    { (p.setStatus p.current .ready).setStatus p'.current .running with current := p'.current }

theorem Scheduled.turned (scheduled : Scheduled p) {tid : Tid} (inTable : tid < maxThreads)
    (waits : runnable p tid = true) {p' : Process}
    (eq : p' = { (p.setStatus p.current .ready).setStatus tid .running with current := tid }) :
    Turned p p' := by
  have current : p'.current = tid := by rw [eq]
  have status : ∀ other, p'.status other =
      if other = tid then .running else if other = p.current then .ready else p.status other := by
    intro other
    rw [eq]
    simp only [Process.setStatus, Function.update_apply]
  refine ⟨⟨current ▸ inTable, ?_, Or.inl ?_⟩, ?_, ?_⟩
  · intro other below apart
    rw [status, if_neg (current ▸ apart)]
    split
    · simp
    next away => exact scheduled.alone other below away
  · rw [status, current, if_pos rfl]
  · intro other _
    by_cases here : other = tid
    · rw [here, waits]
      simp [runnable, status]
    · by_cases old : other = p.current
      · have before : runnable p other = true := by simpa [old, runnable] using scheduled.active
        rw [before]
        simp [runnable, status, old]
      · simp [runnable, status, here, old]
  · rw [current]
    exact eq

theorem Scheduled.step (scheduled : Scheduled p) :
    ∃ p' rest, schedule p = some p' ∧ Turned p p' ∧
      line maxThreads (runnable p) p.current = p'.current :: rest ∧
      line maxThreads (runnable p') p'.current = rest ++ [p'.current] := by
  obtain ⟨tid, found, called⟩ := scheduled.schedule_eq
  obtain ⟨rest, before, later⟩ := line_next found
  have inTable := List.mem_range.mp ((after_perm _).mem_iff.mp (List.mem_of_find?_eq_some found))
  have turned := scheduled.turned inTable (List.find?_some found) rfl
  refine ⟨_, rest, called, turned, before, ?_⟩
  rw [line_congr turned.runnable_eq]
  exact later

theorem Scheduled.getLast?_line (scheduled : Scheduled p) :
    (line maxThreads (runnable p) p.current).getLast? = some p.current := by
  apply Cyclic.getLast?_line scheduled.inTable
  simpa [runnable] using scheduled.active

/-! ### Several calls -/

/-- Only where the switches end matters for the table. -/
theorem Turned.trans {q r : Process} (scheduled : Scheduled p) (first : Turned p q)
    (second : Turned q r) : Turned p r := by
  refine ⟨second.scheduled, ?_, ?_⟩
  · intro tid below
    rw [second.runnable_eq tid below, first.runnable_eq tid below]
  · -- a thread that has had its turn is ready again, as it was or as the first call made it
    have chosen : runnable p q.current = true := by
      rw [← first.runnable_eq _ first.scheduled.inTable]
      simpa [runnable] using first.scheduled.active
    have ready := (scheduled.runnable_iff first.scheduled.inTable).mp chosen
    have back : q.setStatus q.current .ready =
        { p.setStatus p.current .ready with current := q.current } := by
      rw [first.process_eq]
      simp only [Process.setStatus, Function.update_idem, Process.mk.injEq, and_self, and_true]
      exact Function.update_eq_self_iff.mpr ready.symm
    have ends := second.process_eq
    rw [back] at ends
    exact ends

theorem Scheduled.turns (scheduled : Scheduled p) {calls : Nat}
    (within : calls ≤ (line maxThreads (runnable p) p.current).length) :
    ∃ p', turns calls p = some ((line maxThreads (runnable p) p.current).take calls, p') ∧
      (0 < calls → Turned p p') ∧
      line maxThreads (runnable p') p'.current =
        (line maxThreads (runnable p) p.current).rotate calls := by
  induction calls generalizing p with
  | zero => exact ⟨p, by simp [Threads.turns], by simp, by simp⟩
  | succ calls ih =>
    obtain ⟨q, rest, called, turned, before, later⟩ := scheduled.step
    rw [before, List.length_cons] at within
    obtain ⟨p', ran, more, final⟩ := ih turned.scheduled (by rw [later]; simp; omega)
    refine ⟨p', ?_, fun _ => ?_, ?_⟩
    · rw [later, List.take_append_of_le_length (by omega)] at ran
      simp only [Threads.turns, called, ran, before, List.take_succ_cons]
    · cases calls with
      | zero =>
        simp only [Threads.turns, Option.some.injEq, Prod.mk.injEq] at ran
        exact ran.2 ▸ turned
      | succ calls => exact turned.trans scheduled (more (Nat.succ_pos calls))
    · rw [final, later, before, List.rotate_cons_succ]

/-- The next thread by its distance from the current one. -/
theorem Scheduled.nearest (scheduled : Scheduled p) :
    ∃ d, 0 < d ∧ d ≤ maxThreads ∧
      (p.setStatus p.current .ready).status ((p.current + d) % maxThreads) = .ready ∧
      (∀ e, 0 < e → e < d →
        (p.setStatus p.current .ready).status ((p.current + e) % maxThreads) ≠ .ready) ∧
      schedule p = some
        { (p.setStatus p.current .ready).setStatus ((p.current + d) % maxThreads) .running with
          current := (p.current + d) % maxThreads } := by
  obtain ⟨tid, found, called⟩ := scheduled.schedule_eq
  have bounded : ∀ k, (p.current + k) % maxThreads < maxThreads := by
    intro k
    exact Nat.mod_lt _ (by decide)
  obtain ⟨waits, i, below, here, earlier⟩ := List.find?_eq_some_iff_getElem.mp found
  rw [getElem_after, Nat.add_assoc, Nat.add_comm 1 i] at here
  subst here
  refine ⟨i + 1, Nat.succ_pos i, ?_, (scheduled.runnable_iff (bounded _)).mp waits, ?_, called⟩
  · rw [length_after] at below
    exact below
  · intro e positive before ready
    have passed := earlier (e - 1) (by omega)
    have waiting := (scheduled.runnable_iff (bounded _)).mpr ready
    rw [getElem_after, Nat.add_assoc, Nat.add_sub_of_le positive, waiting] at passed
    simp at passed

end Call

/-- Scheduling is round robin: `schedule` selects the first ready thread after the current
one, the current one last, and in as many calls as threads are runnable each has its turn. -/
theorem schedule_round_robin (p : Process) (inTable : p.current < maxThreads)
    (alone : ∀ tid < maxThreads, tid ≠ p.current → p.status tid ≠ .running)
    (active : p.status p.current = .running ∨ p.status p.current = .ready) :
    (∃ d, 0 < d ∧ d ≤ maxThreads ∧
      (p.setStatus p.current .ready).status ((p.current + d) % maxThreads) = .ready ∧
      (∀ e, 0 < e → e < d →
        (p.setStatus p.current .ready).status ((p.current + e) % maxThreads) ≠ .ready) ∧
      schedule p = some
        { (p.setStatus p.current .ready).setStatus ((p.current + d) % maxThreads) .running with
          current := (p.current + d) % maxThreads }) ∧
    ∃ chosen, turns (runnableThreads p).length p =
        some (chosen, p.setStatus p.current .running) ∧
      (∀ tid, chosen.count tid = if tid ∈ runnableThreads p then 1 else 0) ∧
      chosen.getLast? = some p.current := by
  have scheduled : Scheduled p := ⟨inTable, alone, active⟩
  refine ⟨scheduled.nearest, ?_⟩
  have everyone : (line maxThreads (runnable p) p.current).Perm (runnableThreads p) :=
    line_perm (runnable p) p.current
  have last := scheduled.getLast?_line
  obtain ⟨p', ran, turned, final⟩ := scheduled.turns (Nat.le_refl _)
  rw [List.take_length, everyone.length_eq] at ran
  rw [List.rotate_length] at final
  have some_ : 0 < (line maxThreads (runnable p) p.current).length := by
    rw [List.length_pos_iff]
    intro none_
    simp [none_] at last
  have turned := turned some_
  -- the line stands as it did, and so its last thread is the same
  have same : p'.current = p.current := by
    have last' := turned.scheduled.getLast?_line
    rw [final, last, Option.some.injEq] at last'
    exact last'.symm
  have ends : p' = p.setStatus p.current .running := by
    rw [turned.process_eq, same]
    simp [Process.setStatus]
  refine ⟨_, ends ▸ ran, ?_, last⟩
  intro tid
  have nodup : (runnableThreads p).Nodup := List.nodup_range.filter _
  rw [everyone.count_eq, nodup.count]

/-- Threads 3 and 127 are ready while thread 126 runs. -/
def threeRunnable : Process where
  status := fun tid =>
    if tid = 126 then .running else if tid = 3 ∨ tid = 127 then .ready
    else if tid = 5 then .blocked else .empty
  current := 126
  masked := false
  nodes := fun _ => none
  next := 0

theorem schedule_round_robin_wraps :
    runnableThreads threeRunnable = [3, 126, 127] ∧
    ∃ chosen, turns (runnableThreads threeRunnable).length threeRunnable =
        some (chosen, threeRunnable.setStatus 126 .running) ∧
      (∀ tid, chosen.count tid = if tid ∈ runnableThreads threeRunnable then 1 else 0) ∧
      chosen.getLast? = some 126 := by
  refine ⟨by decide, ?_⟩
  exact (schedule_round_robin threeRunnable (by decide) (by decide) (by decide)).2

end OperatingSys.Threads
