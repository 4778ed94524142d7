import OperatingSys.Threads.Mutex
import OperatingSys.Lib.Machine

/-!
# The threads that wait for a mutex are served in order of arrival

What the linked list of a mutex is for: a line of threads, to which `pthread_mutex_lock` adds
at the back while the mutex is held and from which `pthread_mutex_unlock` serves at the front.
The calls are taken up to their call of `schedule`. All that happens between two calls,
`schedule` included, is an arbitrary change of the table of threads and of the current thread.
-/

namespace OperatingSys.Threads

open LinkedList

/-- A mutex and the process whose threads call on it. -/
structure Contended where
  process : Process
  mutex : Mutex

/-- A call by the current thread, or what happens between two calls. -/
inductive Visit where
  | lock
  | unlock
  | reschedule (status : Tid → Status) (current : Tid)

namespace Contended

/-- A call, with how far it gets. -/
def finish : Option (Process × Mutex × Progress) → Option (Option Progress × Contended)
  | none => none
  | some (p, m, progress) => some (some progress, ⟨p, m⟩)

def visit (s : Contended) : Visit → Option (Option Progress × Contended)
  | .lock => finish (pthreadMutexLock s.process s.mutex)
  | .unlock => finish (pthreadMutexUnlock s.process s.mutex)
  | .reschedule status current =>
    some (none, { s with process := { s.process with status := status, current := current } })

/-- A switch of threads is such a change. -/
theorem visit_schedule {s : Contended} {p : Process} (switched : schedule s.process = some p) :
    s.visit (.reschedule p.status p.current) = some (none, ⟨p, s.mutex⟩) := by
  obtain ⟨-, -, nodes, next, masked⟩ := schedule_spec switched
  simp only [visit, ← nodes, ← next, ← masked]

end Contended

/-- The line of threads, with everyone who ever had to wait. The first `served` of them have
been made ready again. -/
structure Fifo where
  status : Tid → Status
  current : Tid
  held : Bool
  arrived : List Tid
  served : Nat

namespace Fifo

/-- A mutex on which nobody has called. -/
def fresh (p : Process) : Fifo where
  status := p.status
  current := p.current
  held := false
  arrived := []
  served := 0

def waiting (f : Fifo) : List Tid := f.arrived.drop f.served

/-- What the line does at a call. -/
def visit (f : Fifo) : Visit → Option Progress × Fifo
  | .lock =>
    if f.held then
      (some .schedules, { f with
        status := Function.update f.status f.current .blocked
        arrived := f.arrived ++ [f.current] })
    else
      (some (.returns 0), { f with
        status := Function.update f.status f.current .ready
        held := true })
  | .unlock =>
    match f.waiting with
    | [] => (some (.returns 0), { f with held := false })
    | longest :: rest =>
      (some .schedules, { f with
        status := Function.update f.status longest .ready
        served := f.served + 1
        held := !rest.isEmpty })
  | .reschedule status current => (none, { f with status := status, current := current })

/-- Nobody is served who has not come. -/
def Sound (f : Fifo) : Prop := f.served ≤ f.arrived.length

theorem Sound.waiting_append {f : Fifo} (sound : f.Sound) (tid : Tid) :
    (f.arrived ++ [tid]).drop f.served = f.waiting ++ [tid] :=
  List.drop_append_of_le_length sound

theorem waiting_served {f : Fifo} {longest : Tid} {rest : List Tid}
    (line : f.waiting = longest :: rest) :
    f.arrived.drop (f.served + 1) = rest ∧ f.served < f.arrived.length := by
  have size : f.arrived.length - f.served = rest.length + 1 := by
    rw [← List.length_drop, ← List.length_cons (a := longest), ← line, waiting]
  constructor
  · rw [← List.drop_drop, ← waiting, line, List.drop_one, List.tail_cons]
  · omega

/-- Who waits does not call: a thread locks only when it is not in the line. -/
def Patient : Fifo → List Visit → Prop
  | _, [] => True
  | f, v :: rest => (v = .lock → f.current ∉ f.waiting) ∧ Patient (f.visit v).2 rest

theorem Sound.visit {f : Fifo} (sound : f.Sound) (v : Visit) : (f.visit v).2.Sound := by
  cases v with
  | lock =>
    rw [Fifo.visit]
    split
    · rw [Sound, List.length_append]
      exact Nat.le_add_right_of_le sound
    · exact sound
  | unlock =>
    rw [Fifo.visit]
    split
    · exact sound
    next front => exact (waiting_served front).2
  | reschedule status current => exact sound

/-- Nobody stands in the line twice. -/
theorem nodup_visit {f : Fifo} (sound : f.Sound) (distinct : f.waiting.Nodup) {v : Visit}
    (patient : v = .lock → f.current ∉ f.waiting) : (f.visit v).2.waiting.Nodup := by
  cases v with
  | lock =>
    rw [visit]
    split
    · rw [waiting, sound.waiting_append, List.nodup_append]
      refine ⟨distinct, by simp, ?_⟩
      rintro tid member other single rfl
      rw [List.mem_singleton] at single
      exact patient rfl (single ▸ member)
    · exact distinct
  | unlock =>
    rw [visit]
    split
    · exact distinct
    next front =>
      rw [waiting, (waiting_served front).1]
      rw [front] at distinct
      exact distinct.of_cons
  | reschedule status current => exact distinct

theorem Patient.nodup {f : Fifo} {visits : List Visit} (patient : f.Patient visits)
    (sound : f.Sound) (distinct : f.waiting.Nodup) :
    (Machine.total visit f visits).2.waiting.Nodup := by
  induction visits generalizing f with
  | nil => exact distinct
  | cons v rest ih =>
    exact ih patient.2 (sound.visit v) (nodup_visit sound distinct patient.1)

end Fifo

/-- The list of the mutex holds the line. -/
structure Represents (s : Contended) (f : Fifo) (cells : List (Nat × Tid)) : Prop where
  queued : Queued s.process s.mutex cells
  waiting : cells.map Prod.snd = f.waiting
  held : f.held = true ↔ s.mutex.locked ≠ 0
  status : f.status = s.process.status
  current : f.current = s.process.current
  sound : f.Sound
  busy : cells ≠ [] → s.mutex.locked ≠ 0

theorem represents_fresh (p : Process) : Represents ⟨p, pthreadMutexInit⟩ (Fifo.fresh p) [] where
  queued := queued_init p
  waiting := rfl
  held := by simp [Fifo.fresh, pthreadMutexInit]
  status := rfl
  current := rfl
  sound := Nat.le_refl 0
  busy := fun some_ => absurd rfl some_

/-! ### One visit -/

section Visit

variable {s : Contended} {f : Fifo} {cells : List (Nat × Tid)} (line : Represents s f cells)
include line

theorem Represents.lock :
    ∃ s' cells', s.visit .lock = some ((f.visit .lock).1, s') ∧
      Represents s' (f.visit .lock).2 cells' := by
  by_cases free : s.mutex.locked = 0
  · have idle : f.held = false := by
      rw [← Bool.not_eq_true, line.held]
      exact not_not.mpr free
    refine ⟨⟨(s.process.lock.setStatus s.process.current .ready).unlock,
      { s.mutex with locked := 1 }⟩, cells, ?_, ?_⟩
    · simp only [Contended.visit, pthreadMutexLock, free, if_true, Contended.finish, Fifo.visit,
        idle, Bool.false_eq_true, if_false]
      rfl
    · simp only [Fifo.visit, idle, Bool.false_eq_true, if_false]
      refine ⟨?_, line.waiting, by simp, ?_, line.current, line.sound, by simp⟩
      · exact line.queued.congr (fun _ _ => rfl) (Nat.le_refl _) rfl rfl
      · rw [line.status, line.current]
        rfl
  · have held := line.held.mpr free
    -- the thread is blocked before it joins the list
    have queued : Queued (s.process.lock.setStatus s.process.current .blocked) s.mutex cells :=
      line.queued.congr (fun _ _ => rfl) (Nat.le_refl _) rfl rfl
    obtain ⟨p', m', joined, kept, longer⟩ := enqueue_spec queued
    refine ⟨⟨p', m'⟩, cells ++ [(s.process.next, s.process.current)], ?_, ?_⟩
    · have current : s.process.lock.current = s.process.current := rfl
      simp only [Contended.visit, pthreadMutexLock, free, if_false, current, joined,
        Contended.finish, Fifo.visit, held, if_true]
    · have sound := line.sound.visit .lock
      simp only [Fifo.visit, held, if_true] at sound ⊢
      refine ⟨longer, ?_, ?_, ?_, ?_, sound, fun _ => kept.locked ▸ free⟩
      · rw [List.map_append, line.waiting, ← line.current]
        exact (line.sound.waiting_append f.current).symm
      · rw [kept.locked]
        simpa using free
      · rw [kept.status, line.status, line.current]
        rfl
      · rw [kept.current, line.current]
        rfl

theorem Represents.unlock :
    ∃ s' cells', s.visit .unlock = some ((f.visit .unlock).1, s') ∧
      Represents s' (f.visit .unlock).2 cells' := by
  cases cells with
  | nil =>
    have head : s.mutex.blockedThreadsHead = none := line.queued.linked
    have nobody : f.waiting = [] := line.waiting.symm
    refine ⟨⟨s.process.lock.unlock, { s.mutex with locked := 0 }⟩, [], ?_, ?_⟩
    · simp only [Contended.visit, pthreadMutexUnlock, head, Contended.finish, Fifo.visit, nobody]
    · simp only [Fifo.visit, nobody]
      refine ⟨?_, nobody.symm, by simp, line.status, line.current, line.sound, by simp⟩
      exact line.queued.congr (fun _ _ => rfl) (Nat.le_refl _) rfl rfl
  | cons cell rest =>
    obtain ⟨p', m', ran, status, current, locked, queued⟩ := pthreadMutexUnlock_spec line.queued
    have front : f.waiting = cell.2 :: rest.map Prod.snd := line.waiting.symm
    obtain ⟨remaining, more⟩ := Fifo.waiting_served front
    refine ⟨⟨p', m'⟩, rest, ?_, ?_⟩
    · simp only [Contended.visit, ran, Contended.finish, Fifo.visit, front]
    · simp only [Fifo.visit, front]
      have busy := line.busy (List.cons_ne_nil cell rest)
      refine ⟨queued, ?_, ?_, ?_, ?_, more, ?_⟩
      · rw [Fifo.waiting, remaining]
      · rw [locked]
        cases rest with
        | nil => simp
        | cons _ _ => simpa using busy
      · rw [status, line.status]
      · rw [current, line.current]
      · intro others
        rw [locked, if_neg others]
        exact busy

/-- A visit does to the list what it does to the line. -/
theorem Represents.visit (v : Visit) :
    ∃ s' cells', s.visit v = some ((f.visit v).1, s') ∧ Represents s' (f.visit v).2 cells' := by
  cases v with
  | lock => exact line.lock
  | unlock => exact line.unlock
  | reschedule status current =>
    refine ⟨_, cells, rfl, ?_, line.waiting, line.held, rfl, rfl, line.sound, line.busy⟩
    exact line.queued.congr (fun _ _ => rfl) (Nat.le_refl _) rfl rfl

end Visit

/-! ### Any number of visits -/

theorem represents_run (p : Process) (visits : List Visit) :
    ∃ s cells, Machine.run Contended.visit ⟨p, pthreadMutexInit⟩ visits =
        some ((Machine.total Fifo.visit (Fifo.fresh p) visits).1, s) ∧
      Represents s (Machine.total Fifo.visit (Fifo.fresh p) visits).2 cells := by
  obtain ⟨s, ran, cells, line⟩ := Machine.simulation
    (fun s f => ∃ cells, Represents s f cells) Fifo.visit
    (by
      rintro s f v ⟨cells, line⟩ -
      obtain ⟨s', cells', visited, line'⟩ := line.visit v
      exact ⟨s', visited, cells', line'⟩)
    ⟨[], represents_fresh p⟩ (Machine.admits_true visits)
  exact ⟨s, cells, ran, line⟩

/-- The list of blocked threads is a first-in first-out queue: whatever calls have been made,
it holds the threads that have come and not been served, in the order they came. -/
theorem mutex_fifo (p : Process) (visits : List Visit) :
    ∃ s cells, Machine.run Contended.visit ⟨p, pthreadMutexInit⟩ visits =
        some ((Machine.total Fifo.visit (Fifo.fresh p) visits).1, s) ∧
      Linked Node.tid Node.next s.process.nodes s.mutex.blockedThreadsHead cells ∧
      cells.map Prod.snd = (Machine.total Fifo.visit (Fifo.fresh p) visits).2.waiting ∧
      (s.mutex.blockedThreadsTail = none → cells.length ≤ 1) ∧
      (∀ a, s.mutex.blockedThreadsTail = some a → ∃ front tid, cells = front ++ [(a, tid)]) ∧
      ((Fifo.fresh p).Patient visits → (cells.map Prod.snd).Nodup) ∧
      ∀ longest rest, (Machine.total Fifo.visit (Fifo.fresh p) visits).2.waiting =
          longest :: rest →
        ∃ s' cells', s.visit .unlock = some (some .schedules, s') ∧
          s'.process.status = Function.update s.process.status longest .ready ∧
          Linked Node.tid Node.next s'.process.nodes s'.mutex.blockedThreadsHead cells' ∧
          cells'.map Prod.snd = rest := by
  obtain ⟨s, cells, ran, line⟩ := represents_run p visits
  refine ⟨s, cells, ran, line.queued.linked, line.waiting, ?_, ?_, ?_, ?_⟩
  · intro absent
    rcases line.queued.tail with ⟨-, short⟩ | ⟨front, cell, -, named⟩
    · exact short
    · simp [absent] at named
  · intro a points
    rcases line.queued.tail with ⟨absent, -⟩ | ⟨front, cell, eq, named⟩
    · simp [absent] at points
    · rw [points, Option.some.injEq] at named
      exact ⟨front, cell.2, named ▸ eq⟩
  · -- nobody comes twice, so nobody is in the queue twice
    intro patient
    rw [line.waiting]
    exact patient.nodup (Nat.le_refl 0) List.nodup_nil
  · intro longest rest front
    obtain ⟨s', cells', visited, line'⟩ := line.unlock
    have served := (Fifo.waiting_served front).1
    simp only [Fifo.visit, front] at visited line'
    refine ⟨s', cells', visited, ?_, line'.queued.linked, ?_⟩
    · rw [← line'.status, line.status]
    · rw [line'.waiting, Fifo.waiting]
      exact served

end OperatingSys.Threads
