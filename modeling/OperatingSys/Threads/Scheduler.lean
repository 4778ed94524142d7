import Mathlib.Logic.Function.Basic

/-!
# The scheduler (threads.c)

The table of threads and the switch from one to the next. The registers that `setjmp` saves
stand for where a thread continues; the models of the library calls keep that themselves.
-/

namespace OperatingSys.Threads

abbrev Tid := Nat

def maxThreads : Nat := 128

/-- `enum thread_status`. -/
inductive Status where
  | exited
  | running
  | ready
  | empty
  | blocked
  deriving DecidableEq

/-- `struct Node`. -/
structure Node where
  tid : Tid
  next : Option Nat

/-- The globals of threads.c, the `SIGALRM` mask and the heap of list nodes. Nodes `next`,
`next + 1`, … have not been allocated yet. -/
structure Process where
  status : Tid → Status
  current : Tid
  masked : Bool
  nodes : Nat → Option Node
  next : Nat

namespace Process

variable (p : Process)

def setStatus (tid : Tid) (status : Status) : Process :=
  { p with status := Function.update p.status tid status }

def setNode (a : Nat) (node : Option Node) : Process :=
  { p with nodes := Function.update p.nodes a node }

/-- `malloc` of a node; what it holds is stored later. -/
def malloc : Process := { p with next := p.next + 1 }

/-- `lock()`. -/
def lock : Process := { p with masked := true }

/-- `unlock()`. -/
def unlock : Process := { p with masked := false }

end Process

/-- `next_tid` in the next round of the search. -/
def following (tid : Tid) : Tid := if tid = maxThreads - 1 then 0 else tid + 1

/-- The search of `schedule`, for `rounds` rounds. -/
def search (status : Tid → Status) : (rounds : Nat) → Tid → Option Tid
  | 0, _ => none
  | rounds + 1, tid =>
    if status (following tid) = .ready then some (following tid)
    else search status rounds (following tid)

/-- `schedule`. After `maxThreads` rounds the search has seen every entry, so that it then
goes on for ever: `none`. -/
def schedule (p : Process) : Option Process :=
  let p := if p.status p.current = .running then p.setStatus p.current .ready else p
  match search p.status maxThreads p.current with
  | none => none
  | some tid => some { p.setStatus tid .running with current := tid }

theorem search_ready {status : Tid → Status} {rounds : Nat} {tid found : Tid}
    (hit : search status rounds tid = some found) : status found = .ready := by
  induction rounds generalizing tid with
  | zero => simp [search] at hit
  | succ rounds ih =>
    rw [search] at hit
    split at hit
    next ready =>
      rw [Option.some.injEq] at hit
      rw [← hit]
      exact ready
    · exact ih hit

theorem following_lt {tid : Nat} (inTable : tid < maxThreads) : following tid < maxThreads := by
  unfold following
  by_cases last : tid = maxThreads - 1
  · rw [if_pos last]
    decide
  · rw [if_neg last]
    exact Nat.add_lt_of_lt_sub (Nat.lt_of_le_of_ne (Nat.le_sub_one_of_lt inTable) last)

theorem search_lt {status : Tid → Status} {rounds : Nat} {tid found : Tid}
    (hit : search status rounds tid = some found) (inTable : tid < maxThreads) :
    found < maxThreads := by
  induction rounds generalizing tid with
  | zero => simp [search] at hit
  | succ rounds ih =>
    rw [search] at hit
    split at hit
    · rw [Option.some.injEq] at hit
      exact hit ▸ following_lt inTable
    · exact ih hit (following_lt inTable)

/-- The table after a switch: the chosen thread could run and now does, the one that was
running has become ready, the others are as they were. -/
structure Switched (p p' : Process) : Prop where
  chosen : p.status p'.current = .ready ∨
    (p'.current = p.current ∧ p.status p.current = .running)
  status : ∀ tid, p'.status tid = if tid = p'.current then .running
    else if tid = p.current ∧ p.status tid = .running then .ready else p.status tid
  nodes : p'.nodes = p.nodes
  next : p'.next = p.next
  masked : p'.masked = p.masked
  inTable : p.current < maxThreads → p'.current < maxThreads

theorem schedule_switched {p p' : Process} (switched : schedule p = some p') : Switched p p' := by
  -- the table once the current thread is no longer running
  obtain ⟨q, eq⟩ : ∃ q, q = if p.status p.current = .running then p.setStatus p.current .ready
    else p := ⟨_, rfl⟩
  have status : ∀ tid, q.status tid =
      if tid = p.current ∧ p.status tid = .running then .ready else p.status tid := by
    intro tid
    rw [eq]
    split
    next running =>
      by_cases here : tid = p.current
      · simp [here, running, Process.setStatus]
      · simp [here, Process.setStatus]
    next still =>
      by_cases here : tid = p.current
      · simp [here, still]
      · simp [here]
  have rest : q.nodes = p.nodes ∧ q.next = p.next ∧ q.masked = p.masked ∧
      q.current = p.current := by
    rw [eq]
    split <;> exact ⟨rfl, rfl, rfl, rfl⟩
  simp only [schedule, ← eq] at switched
  cases found : search q.status maxThreads q.current with
  | none => simp [found] at switched
  | some tid =>
    have ready := search_ready found
    simp only [found, Option.some.injEq] at switched
    subst switched
    refine ⟨?_, fun tid' => ?_, rest.1, rest.2.1, rest.2.2.1, fun inTable => ?_⟩
    · rw [status] at ready
      split at ready
      next here => exact Or.inr ⟨here.1, here.1 ▸ here.2⟩
      next => exact Or.inl ready
    · simp only [Process.setStatus, Function.update_apply]
      split
      · rfl
      · exact status tid'
    · exact search_lt found (rest.2.2.2 ▸ inTable)

theorem Switched.active {p p' : Process} (table : Switched p p') :
    p.status p'.current = .ready ∨ p.status p'.current = .running := by
  rcases table.chosen with ready | ⟨same, running⟩
  · exact Or.inl ready
  · exact Or.inr (same ▸ running)

/-- A switch is between ready and running only. -/
theorem Switched.status_iff {p p' : Process} (table : Switched p p') {status : Status}
    (ready : status ≠ .ready) (running : status ≠ .running) (tid : Tid) :
    p'.status tid = status ↔ p.status tid = status := by
  rw [table.status]
  by_cases here : tid = p'.current
  · subst here
    rw [if_pos rfl]
    rcases table.active with before | before
    · simp [before, Ne.symm ready, Ne.symm running]
    · simp [before, Ne.symm running]
  · rw [if_neg here]
    split
    next stopped => simp [stopped.2, Ne.symm ready, Ne.symm running]
    next => exact Iff.rfl

/-- A blocked thread is not chosen and stays blocked, and only the table changes. -/
theorem schedule_spec {p p' : Process} (switched : schedule p = some p') :
    p.status p'.current ≠ .blocked ∧
    (∀ tid, p.status tid = .blocked → p'.status tid = .blocked) ∧
    p'.nodes = p.nodes ∧ p'.next = p.next ∧ p'.masked = p.masked := by
  have table := schedule_switched switched
  have chosen : p.status p'.current ≠ .blocked := by
    rcases table.active with ready | running
    · simp [ready]
    · simp [running]
  exact ⟨chosen, fun tid => (table.status_iff (by decide) (by decide) tid).mpr, table.nodes,
    table.next, table.masked⟩

end OperatingSys.Threads
