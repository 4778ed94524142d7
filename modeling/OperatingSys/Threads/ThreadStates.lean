import OperatingSys.Threads.Kernel
import Mathlib.Data.List.Perm.Subperm

/-!
# The states of the threads

The status of a thread in the table and its place in the queues of the mutexes. The queues
are where the blocked threads are: a thread gets blocked when it joins one, and it is ready
again when it leaves it.
-/

namespace OperatingSys.Threads

open LinkedList Search

/-- The threads in the queue of mutex `m`, in order of arrival. -/
def Kernel.queue (k : Kernel) (m : Nat) : List Tid :=
  follow Node.tid Node.next k.process.nodes k.process.next (k.mutexes m).blockedThreadsHead

/-- `tid` occurs in one queue, once. -/
def WaitsOnce (k : Kernel) (tid : Tid) : Prop :=
  ∃ m, (k.queue m).count tid = 1 ∧ ∀ m', m' ≠ m → tid ∉ k.queue m'

structure ThreadStates (k : Kernel) : Prop where
  running : ∀ tid < maxThreads, k.process.status tid = .running → tid = k.process.current
  blocked : ∀ tid < maxThreads, k.process.status tid = .blocked ↔ WaitsOnce k tid
  others : ∀ tid < maxThreads, k.process.status tid ≠ .blocked → ∀ m, tid ∉ k.queue m

/-- `schedule` does not choose `tid`. -/
def NotChosen (tid : Tid) (k : Kernel) (event : Event) : Prop :=
  event = .switch → ∀ o k', k.step event = some (o, k') → k'.process.current ≠ tid

/-- `tid` stays exited for the whole run and is not chosen again. -/
def StaysExited (tid : Tid) (k : Kernel) (events : List Event) : Prop :=
  Machine.Always Kernel.step (fun k => k.process.status tid = .exited) k events ∧
    Machine.Admits Kernel.step (NotChosen tid) k events

/-! ### The queues -/

/-- The nodes of all queues: the threads in them are the blocked ones, each in one place. -/
structure Waiting (p : Process) (mutexes : Nat → Mutex) (cells : Nat → List (Nat × Tid)) :
    Prop where
  queued : ∀ m, Queued p (mutexes m) (cells m)
  once : ∀ m, ((cells m).map Prod.snd).Nodup
  apart : ∀ m m' tid, tid ∈ (cells m).map Prod.snd → tid ∈ (cells m').map Prod.snd → m = m'
  inTable : ∀ m, ∀ tid ∈ (cells m).map Prod.snd, tid < maxThreads
  blocked : ∀ tid < maxThreads,
    p.status tid = .blocked ↔ ∃ m, tid ∈ (cells m).map Prod.snd

/-- A list without repetitions is no longer than the number of nodes there are. -/
theorem Queued.length_le {p : Process} {m : Mutex} {cells : List (Nat × Tid)}
    (queued : Queued p m cells) : cells.length ≤ p.next := by
  -- the addresses of the nodes are distinct numbers below `next`
  have inside : cells.map Prod.fst ⊆ List.range p.next := by
    intro a member
    obtain ⟨cell, here, rfl⟩ := List.mem_map.mp member
    exact List.mem_range.mpr (queued.allocated cell here)
  have short := (List.subperm_of_subset queued.nodup inside).length_le
  rwa [List.length_map, List.length_range] at short

/-- A change of `locked` alone. -/
theorem update_pointers {mutexes : Nat → Mutex} {m : Nat} {mutex : Mutex}
    (head : mutex.blockedThreadsHead = (mutexes m).blockedThreadsHead)
    (tail : mutex.blockedThreadsTail = (mutexes m).blockedThreadsTail) (m' : Nat) :
    (Function.update mutexes m mutex m').blockedThreadsHead = (mutexes m').blockedThreadsHead ∧
      (Function.update mutexes m mutex m').blockedThreadsTail =
        (mutexes m').blockedThreadsTail := by
  by_cases here : m' = m
  · subst here
    simp [head, tail]
  · simp [here]

/-- A thread that is not blocked gets another status. -/
theorem update_blocked_iff {table : Tid → Status} {thread : Tid} {status : Status}
    (before : table thread ≠ .blocked) (after : status ≠ .blocked) (tid : Tid) :
    Function.update table thread status tid = .blocked ↔ table tid = .blocked := by
  by_cases here : tid = thread
  · subst here
    simp [before, after]
  · simp [here]

section Waiting

variable {p p' : Process} {mutexes : Nat → Mutex} {cells : Nat → List (Nat × Tid)}
  (waiting : Waiting p mutexes cells)
include waiting

/-- Two queues share no node, since a node names one thread. -/
theorem Waiting.nodes_apart {m m' : Nat} (other : m' ≠ m) {cell cell' : Nat × Tid}
    (member : cell ∈ cells m) (member' : cell' ∈ cells m') : cell'.1 ≠ cell.1 := by
  -- a shared node would put its thread into both queues
  intro same
  obtain ⟨node, here, holds⟩ := (waiting.queued m).linked.lookup member
  obtain ⟨node', here', holds'⟩ := (waiting.queued m').linked.lookup member'
  rw [same, here, Option.some.injEq] at here'
  have tids : cell'.2 = cell.2 := by rw [← holds, ← holds', here']
  exact other (waiting.apart m' m cell'.2 (List.mem_map_of_mem member')
    (tids ▸ List.mem_map_of_mem member))

/-- Only who is blocked matters, and the nodes with the pointers to them. -/
theorem Waiting.congr {mutexes' : Nat → Mutex} (nodes : p'.nodes = p.nodes)
    (next : p'.next = p.next)
    (pointers : ∀ m, (mutexes' m).blockedThreadsHead = (mutexes m).blockedThreadsHead ∧
      (mutexes' m).blockedThreadsTail = (mutexes m).blockedThreadsTail)
    (blocked : ∀ tid < maxThreads, p'.status tid = .blocked ↔ p.status tid = .blocked) :
    Waiting p' mutexes' cells where
  queued m := (waiting.queued m).congr (fun _ _ => by rw [nodes]) (Nat.le_of_eq next.symm)
    (pointers m).1 (pointers m).2
  once := waiting.once
  apart := waiting.apart
  inTable := waiting.inTable
  blocked tid inTable := (blocked tid inTable).trans (waiting.blocked tid inTable)

theorem Waiting.blocked_iff (m : Nat) {tid : Tid} (inTable : tid < maxThreads) :
    p.status tid = .blocked ↔
      tid ∈ (cells m).map Prod.snd ∨ ∃ m', m' ≠ m ∧ tid ∈ (cells m').map Prod.snd := by
  rw [waiting.blocked tid inTable]
  constructor
  · rintro ⟨m', member⟩
    by_cases same : m' = m
    · exact Or.inl (same ▸ member)
    · exact Or.inr ⟨m', same, member⟩
  · rintro (member | ⟨m', -, member⟩)
    · exact ⟨m, member⟩
    · exact ⟨m', member⟩

/-- What is done to the nodes of one queue, and to new ones, leaves the other queues alone. -/
theorem Waiting.others {m m' : Nat} (other : m' ≠ m) (next : p.next ≤ p'.next)
    (frame : ∀ a < p.next, (∀ cell ∈ cells m, cell.1 ≠ a) → p'.nodes a = p.nodes a) :
    Queued p' (mutexes m') (cells m') := by
  refine (waiting.queued m').congr (fun cell member => ?_) next rfl rfl
  apply frame cell.1 ((waiting.queued m').allocated cell member)
  intro cell' member' same
  exact waiting.nodes_apart other member' member same.symm

/-- One queue is replaced by another. -/
theorem Waiting.replace {m : Nat} {mutex' : Mutex} {queue : List (Nat × Tid)}
    (others : ∀ m', m' ≠ m → Queued p' (mutexes m') (cells m')) (queued : Queued p' mutex' queue)
    (once : (queue.map Prod.snd).Nodup)
    (apart : ∀ tid ∈ queue.map Prod.snd, tid < maxThreads ∧
      ∀ m', m' ≠ m → tid ∉ (cells m').map Prod.snd)
    (blocked : ∀ tid < maxThreads, p'.status tid = .blocked ↔
      tid ∈ queue.map Prod.snd ∨ ∃ m', m' ≠ m ∧ tid ∈ (cells m').map Prod.snd) :
    Waiting p' (Function.update mutexes m mutex') (Function.update cells m queue) := by
  have here : Function.update cells m queue m = queue := Function.update_self _ _ _
  have there : ∀ {m'}, m' ≠ m → Function.update cells m queue m' = cells m' := fun other =>
    Function.update_of_ne other _ _
  refine ⟨fun m' => ?_, fun m' => ?_, fun m₁ m₂ tid first second => ?_, fun m' tid member => ?_,
    fun tid inTable => ?_⟩
  · by_cases same : m' = m
    · subst same
      rw [here, Function.update_self]
      exact queued
    · rw [there same, Function.update_of_ne same]
      exact others m' same
  · by_cases same : m' = m
    · subst same
      rw [here]
      exact once
    · rw [there same]
      exact waiting.once m'
  · -- a thread in two queues is in two old ones, or in the new one and an old one
    by_cases same₁ : m₁ = m
    · by_cases same₂ : m₂ = m
      · exact same₁.trans same₂.symm
      · rw [same₁, here] at first
        rw [there same₂] at second
        exact absurd second ((apart tid first).2 m₂ same₂)
    · rw [there same₁] at first
      by_cases same₂ : m₂ = m
      · rw [same₂, here] at second
        exact absurd first ((apart tid second).2 m₁ same₁)
      · rw [there same₂] at second
        exact waiting.apart m₁ m₂ tid first second
  · by_cases same : m' = m
    · rw [same, here] at member
      exact (apart tid member).1
    · rw [there same] at member
      exact waiting.inTable m' tid member
  · rw [blocked tid inTable]
    constructor
    · rintro (member | ⟨m', other, member⟩)
      · exact ⟨m, by rwa [here]⟩
      · exact ⟨m', by rwa [there other]⟩
    · rintro ⟨m', member⟩
      by_cases same : m' = m
      · rw [same, here] at member
        exact Or.inl member
      · rw [there same] at member
        exact Or.inr ⟨m', same, member⟩

/-- The current thread gets blocked and joins a queue. -/
theorem Waiting.join {m : Nat} {mutex' : Mutex} (inTable : p.current < maxThreads)
    (active : p.status p.current ≠ .blocked)
    (joined : enqueue (p.lock.setStatus p.current .blocked) (mutexes m) = some (p', mutex')) :
    p'.status = Function.update p.status p.current .blocked ∧ p'.current = p.current ∧
    Waiting p' (Function.update mutexes m mutex')
      (Function.update cells m (cells m ++ [(p.next, p.current)])) := by
  have start : Queued (p.lock.setStatus p.current .blocked) (mutexes m) (cells m) :=
    (waiting.queued m).congr (fun _ _ => rfl) (Nat.le_refl _) rfl rfl
  obtain ⟨q, mutex, ran, same, queued⟩ := enqueue_spec start
  obtain ⟨rfl, rfl⟩ : q = p' ∧ mutex = mutex' := by simpa using ran.symm.trans joined
  obtain ⟨next, frame⟩ := enqueue_frame joined
  -- a thread that is not blocked is in no queue yet
  have absent : ∀ m', p.current ∉ (cells m').map Prod.snd := fun m' member =>
    active ((waiting.blocked p.current inTable).mpr ⟨m', member⟩)
  have members : ∀ tid, tid ∈ (cells m ++ [(p.next, p.current)]).map Prod.snd ↔
      tid ∈ (cells m).map Prod.snd ∨ tid = p.current := by simp
  refine ⟨same.status, same.current, waiting.replace (fun m' other => ?_) queued ?_
    (fun tid member => ?_) fun tid inTable' => ?_⟩
  · refine waiting.others other next fun a old apart => ?_
    apply frame a (Nat.ne_of_lt old)
    · intro points
      obtain ⟨cell, member, eq⟩ := (waiting.queued m).head_mem points
      exact apart cell member eq
    · intro points
      obtain ⟨cell, member, eq⟩ := (waiting.queued m).tail_mem points
      exact apart cell member eq
  · rw [List.map_append, List.nodup_append]
    refine ⟨waiting.once m, by simp, fun tid member other single => ?_⟩
    rw [List.map_singleton, List.mem_singleton] at single
    rw [single]
    rintro rfl
    exact absent m member
  · rcases (members tid).mp member with old | rfl
    · exact ⟨waiting.inTable m tid old, fun m' other member' =>
        other (waiting.apart m' m tid member' old)⟩
    · exact ⟨inTable, fun m' _ => absent m'⟩
  · rw [members, same.status, Process.setStatus]
    by_cases here : tid = p.current
    · simp [here]
    · simp only [Function.update_of_ne here, here, or_false]
      exact waiting.blocked_iff m inTable'

/-- The first thread of a queue leaves it and is ready. -/
theorem Waiting.leave {m : Nat} {mutex' : Mutex} {progress : Progress} {cell : Nat × Tid}
    {rest : List (Nat × Tid)} (first : cells m = cell :: rest)
    (ran : pthreadMutexUnlock p (mutexes m) = some (p', mutex', progress)) :
    p'.status = Function.update p.status cell.2 .ready ∧ p'.current = p.current ∧
    progress = .schedules ∧
    Waiting p' (Function.update mutexes m mutex') (Function.update cells m rest) := by
  have start : Queued p (mutexes m) (cell :: rest) := first ▸ waiting.queued m
  obtain ⟨q, mutex, ran', status, current, -, queued⟩ := pthreadMutexUnlock_spec start
  obtain ⟨rfl, rfl, rfl⟩ : q = p' ∧ mutex = mutex' ∧ Progress.schedules = progress := by
    simpa using ran'.symm.trans ran
  obtain ⟨next, frame⟩ := pthreadMutexUnlock_frame ran
  have members : ∀ tid, tid ∈ (cells m).map Prod.snd ↔
      tid = cell.2 ∨ tid ∈ rest.map Prod.snd := by
    intro tid
    rw [first, List.map_cons, List.mem_cons]
  have once := waiting.once m
  rw [first, List.map_cons, List.nodup_cons] at once
  -- the thread is in no other place: it was in its queue once, and in no other queue
  have elsewhere : ∀ m', m' ≠ m → cell.2 ∉ (cells m').map Prod.snd := fun m' other member =>
    other (waiting.apart m' m cell.2 member ((members _).mpr (Or.inl rfl)))
  refine ⟨status, current, rfl, waiting.replace (fun m' other => ?_) queued once.2
    (fun tid member => ?_) fun tid inTable => ?_⟩
  · refine waiting.others other (Nat.le_of_eq next.symm) fun a _ apart => ?_
    apply frame a
    intro points
    obtain ⟨head, member, eq⟩ := (waiting.queued m).head_mem points
    exact apart head member eq
  · have old := (members tid).mpr (Or.inr member)
    exact ⟨waiting.inTable m tid old, fun m' other member' =>
      other (waiting.apart m' m tid member' old)⟩
  · rw [status]
    by_cases here : tid = cell.2
    · subst here
      simp only [Function.update_self, reduceCtorEq, false_iff]
      rintro (member | ⟨m', other, member⟩)
      · exact once.1 member
      · exact elsewhere m' other member
    · rw [Function.update_of_ne here, waiting.blocked_iff m inTable, members]
      simp only [here, false_or]

/-- `pthread_mutex_lock` by a thread that is not blocked. -/
theorem Waiting.lock {m : Nat} {mutex' : Mutex} {progress : Progress}
    (inTable : p.current < maxThreads) (active : p.status p.current ≠ .blocked)
    (ran : pthreadMutexLock p (mutexes m) = some (p', mutex', progress)) :
    p'.current = p.current ∧ (∃ cells', Waiting p' (Function.update mutexes m mutex') cells') ∧
      ((progress = .returns 0 ∧ p'.status = Function.update p.status p.current .ready) ∨
        (progress = .schedules ∧ p'.masked = true ∧
          p'.status = Function.update p.status p.current .blocked)) := by
  unfold pthreadMutexLock at ran
  dsimp only at ran
  split at ran
  -- the mutex is free
  · cases ran
    refine ⟨rfl, ⟨cells, waiting.congr rfl rfl (update_pointers rfl rfl) fun tid _ => ?_⟩,
      Or.inl ⟨rfl, rfl⟩⟩
    exact update_blocked_iff active (by decide) tid
  -- the mutex is taken: the current thread joins its queue
  · split at ran
    · simp at ran
    next joined =>
      cases ran
      obtain ⟨status, current, waiting'⟩ := waiting.join inTable active joined
      exact ⟨current, ⟨_, waiting'⟩, Or.inr ⟨rfl, (enqueue_kept joined).1, status⟩⟩

/-- `pthread_mutex_unlock`, whoever calls it. -/
theorem Waiting.unlock {m : Nat} {mutex' : Mutex} {progress : Progress}
    (ran : pthreadMutexUnlock p (mutexes m) = some (p', mutex', progress)) :
    p'.current = p.current ∧ (∃ cells', Waiting p' (Function.update mutexes m mutex') cells') ∧
      ((progress = .returns 0 ∧ p'.status = p.status) ∨
        (progress = .schedules ∧ ∃ tid, p.status tid = .blocked ∧
          p'.status = Function.update p.status tid .ready)) := by
  cases nodes : cells m with
  -- nobody waits, so that only `locked` changes
  | nil =>
    have empty : (mutexes m).blockedThreadsHead = none := (nodes ▸ waiting.queued m).linked
    simp only [pthreadMutexUnlock, empty] at ran
    cases ran
    refine ⟨rfl, ⟨cells, ?_⟩, Or.inl ⟨rfl, rfl⟩⟩
    exact waiting.congr rfl rfl (update_pointers empty.symm rfl) fun _ _ => Iff.rfl
  -- the first thread of the queue, which was blocked, gets ready
  | cons cell rest =>
    obtain ⟨status, current, rfl, waiting'⟩ := waiting.leave nodes ran
    have member : cell.2 ∈ (cells m).map Prod.snd := by simp [nodes]
    exact ⟨current, ⟨_, waiting'⟩, Or.inr ⟨rfl, cell.2,
      (waiting.blocked _ (waiting.inTable m _ member)).mpr ⟨m, member⟩, status⟩⟩

end Waiting

/-! ### Steps that only touch the barriers and the mask -/

/-- `k'` has the threads and the queues of `k`. -/
structure Quiet (k k' : Kernel) : Prop extends Frame k k' where
  status : k'.process.status = k.process.status
  current : k'.process.current = k.process.current
  nodes : k'.process.nodes = k.process.nodes
  next : k'.process.next = k.process.next
  regs : k'.regs = k.regs
  barriers : ∀ b, (k'.barriers b).init = 1

section Quiet

variable {k k' : Kernel} {o : Outcome} (initialised : ∀ b, (k.barriers b).init = 1)
include initialised

theorem pthreadJoin_quiet {thread : Tid} (joined : pthreadJoin k thread = some (o, k')) :
    Quiet k k' := by
  obtain ⟨-, ⟨-, -, eq, -, null⟩ | ⟨-, -, eq⟩⟩ := pthreadJoin_eq joined
  · rw [eq]
    exact ⟨⟨rfl, rfl, rfl, rfl, null⟩, rfl, rfl, rfl, rfl, rfl, initialised⟩
  · rw [eq]
    exact ⟨⟨rfl, rfl, rfl, rfl, fun _ => Iff.rfl⟩, rfl, rfl, rfl, rfl, rfl, initialised⟩

/-- A barrier that has not been destroyed blocks nobody, so there is nobody to wake. -/
theorem testBarrier_quiet {b : Nat} (tested : k.testBarrier b = some (o, k')) : Quiet k k' := by
  obtain ⟨-, p, barrier, again, test, eq⟩ := testBarrier_eq tested
  -- `b->init` is 1, so that the branch that wakes a thread is not taken
  have kept : barrier = k.barriers b ∧ ∃ masked, p = { k.process with masked } := by
    unfold barrierTest at test
    split at test
    · cases test
      exact ⟨rfl, _, rfl⟩
    · rw [unblockFrom, if_neg (by rw [initialised b]; decide)] at test
      cases test
      exact ⟨rfl, _, rfl⟩
  obtain ⟨rfl, masked, rfl⟩ := kept
  rw [eq]
  refine ⟨⟨rfl, rfl, rfl, rfl, fun _ => Iff.rfl⟩, rfl, rfl, rfl, rfl, rfl, fun b' => ?_⟩
  rw [Kernel.setBarrier, Function.update_eq_self]
  exact initialised b'

theorem pthreadBarrierWait_quiet {b : Nat} (waited : pthreadBarrierWait k b = some (o, k')) :
    Quiet k k' := by
  unfold pthreadBarrierWait at waited
  dsimp only at waited
  split at waited
  · simp at waited
  -- nor is the branch that blocks the caller
  · rw [if_neg (by rw [initialised b]; decide)] at waited
    refine { testBarrier_quiet (fun b' => ?_) waited with }
    by_cases here : b' = b
    · simp [Kernel.setBarrier, here, initialised b]
    · simp [Kernel.setBarrier, here, initialised b']

theorem resume_quiet {resume : Resume} (resumed : k.resume resume = some (o, k')) :
    Quiet k k' := by
  cases resume with
  | exit => simp [Kernel.resume] at resumed
  | join thread => exact pthreadJoin_quiet initialised resumed
  | blocked b => exact testBarrier_quiet initialised resumed
  | spin b => exact testBarrier_quiet initialised resumed
  | yield b =>
    obtain ⟨rfl, rfl⟩ := Kernel.returns_eq resumed
    refine ⟨⟨rfl, rfl, rfl, rfl, fun _ => Iff.rfl⟩, rfl, rfl, rfl, rfl, rfl, fun b' => ?_⟩
    by_cases here : b' = b
    · -- the first thread to leave and the others reset the barrier alike
      simp only [Kernel.setBarrier, here, Function.update_self, barrierLeave]
      split <;> rfl
    · simp [Kernel.setBarrier, here, initialised b']
  | _ =>
    obtain ⟨rfl, rfl⟩ := Kernel.returns_eq resumed
    exact ⟨⟨rfl, rfl, rfl, rfl, fun _ => Iff.rfl⟩, rfl, rfl, rfl, rfl, rfl, initialised⟩

end Quiet

/-! ### The invariant -/

/-- What holds from the first `pthread_create` on. -/
structure Orderly (k : Kernel) : Prop where
  isFirstCall : k.isFirstCall = false
  inTable : k.process.current < maxThreads
  waiting : ∃ cells, Waiting k.process k.mutexes cells
  running : ∀ tid < maxThreads, k.process.status tid = .running → tid = k.process.current
  unused : ∀ tid < maxThreads, tid ≠ 0 → k.stack tid = .null → k.process.status tid = .empty
  active : k.calling = none →
    k.process.status k.process.current = .ready ∨ k.process.status k.process.current = .running
  barriers : ∀ b, (k.barriers b).init = 1

/-- The thread runs, or may run later. -/
def Status.alive : Status → Bool
  | .running | .ready | .blocked => true
  | .exited | .empty => false

/-- A status outside of `kind` can only have been there before. -/
theorem Status.eq_iff_of_same {kind : Status → Bool} {before after status : Status}
    (same : after = before ∨ (kind before = true ∧ kind after = true))
    (outside : kind status = false) : after = status ↔ before = status := by
  rcases same with rfl | ⟨inside, inside'⟩
  · exact Iff.rfl
  · constructor
    · rintro rfl
      simp [outside] at inside'
    · rintro rfl
      simp [outside] at inside

/-- No thread begins or ends. -/
def SameLives (k k' : Kernel) : Prop :=
  ∀ tid, k'.process.status tid = k.process.status tid ∨
    ((k.process.status tid).alive = true ∧ (k'.process.status tid).alive = true)

/-- Nobody who has exited comes back. -/
def KeepsExited (k k' : Kernel) : Prop :=
  ∀ tid, k.process.status tid = .exited → k'.process.status tid = .exited

section Lives

variable {k k' : Kernel}

theorem SameLives.update {thread : Tid} {status : Status}
    (changed : k'.process.status = Function.update k.process.status thread status)
    (before : (k.process.status thread).alive = true) (after : status.alive = true) :
    SameLives k k' := by
  intro tid
  rw [changed]
  by_cases here : tid = thread
  · subst here
    rw [Function.update_self]
    exact Or.inr ⟨before, after⟩
  · exact Or.inl (Function.update_of_ne here _ _)

/-- Whether a thread has exited, or whether its entry is empty, does not change. -/
theorem SameLives.iff (same : SameLives k k') {status : Status} (dead : status.alive = false)
    (tid : Tid) : k'.process.status tid = status ↔ k.process.status tid = status :=
  Status.eq_iff_of_same (same tid) dead

theorem SameLives.nobody_exited (same : SameLives k k') :
    (∀ tid < maxThreads, k'.process.status tid ≠ .exited) ↔
      ∀ tid < maxThreads, k.process.status tid ≠ .exited :=
  forall_congr' fun tid => forall_congr' fun _ => not_congr (same.iff rfl tid)

theorem SameLives.keepsExited (same : SameLives k k') : KeepsExited k k' := fun tid =>
  (same.iff rfl tid).mpr

theorem Switched.sameLives {p : Process} {regs : Tid → Resume} (table : Switched k.process p) :
    SameLives k { k with process := p, regs } := by
  have active : ∀ {status : Status}, ¬ status.alive = true →
      status ≠ .ready ∧ status ≠ .running := by
    intro status dead
    constructor
    · rintro rfl
      exact dead rfl
    · rintro rfl
      exact dead rfl
  intro tid
  by_cases before : (k.process.status tid).alive = true
  · right
    refine ⟨before, ?_⟩
    by_contra dead
    have same := (table.status_iff (active dead).1 (active dead).2 tid).mp rfl
    exact dead (same ▸ before)
  · exact Or.inl ((table.status_iff (active before).1 (active before).2 tid).mpr rfl)

end Lives

theorem freeSlot_null {stack : Tid → Stack} (room : freeSlot stack < maxThreads) :
    freeSlot stack ≠ 0 ∧ stack (freeSlot stack) = .null := by
  unfold freeSlot at *
  split at room
  · exact absurd room (Nat.lt_irrefl _)
  next i found =>
    obtain ⟨-, null, -⟩ := firstIndex_eq_some.mp found
    exact ⟨Nat.succ_ne_zero i, by simpa using null⟩

section Orderly

variable {k k' : Kernel} {o : Outcome} (orderly : Orderly k)
include orderly

theorem Orderly.threadStates : ThreadStates k := by
  obtain ⟨cells, waiting⟩ := orderly.waiting
  -- following the pointers for `next` steps meets all nodes
  have queue : ∀ m, k.queue m = (cells m).map Prod.snd := fun m =>
    (waiting.queued m).linked.follow_eq (waiting.queued m).length_le
  refine ⟨orderly.running, fun tid inTable => ?_, fun tid inTable other m member => ?_⟩
  · rw [waiting.blocked tid inTable]
    constructor
    · rintro ⟨m, member⟩
      refine ⟨m, ?_, fun m' other member' => ?_⟩
      · rw [queue]
        exact List.count_eq_one_of_mem (waiting.once m) member
      · rw [queue] at member'
        exact other (waiting.apart m' m tid member' member)
    · rintro ⟨m, one, -⟩
      rw [queue] at one
      exact ⟨m, List.count_pos_iff.mp (one ▸ Nat.one_pos)⟩
  · rw [queue] at member
    exact other ((waiting.blocked tid inTable).mpr ⟨m, member⟩)

theorem Orderly.quiet (quiet : Quiet k k')
    (active : k'.calling = none → k.process.status k.process.current = .ready ∨
      k.process.status k.process.current = .running) : Orderly k' := by
  obtain ⟨cells, waiting⟩ := orderly.waiting
  refine ⟨quiet.isFirstCall.trans orderly.isFirstCall, quiet.current ▸ orderly.inTable,
    ⟨cells, ?_⟩, ?_, fun tid inTable used null => ?_, ?_, quiet.barriers⟩
  · rw [quiet.mutexes]
    exact waiting.congr quiet.nodes quiet.next (fun _ => ⟨rfl, rfl⟩)
      fun _ _ => by rw [quiet.status]
  · rw [quiet.status, quiet.current]
    exact orderly.running
  · rw [quiet.status]
    exact orderly.unused tid inTable used ((quiet.stack tid).mp null)
  · rw [quiet.status, quiet.current]
    exact active

/-- A thread in user code has an entry of its own: the first one, or one with a stack. -/
theorem Orderly.current_used (calling : k.calling = none)
    (null : k.stack k.process.current = .null) : k.process.current = 0 := by
  -- an entry without a stack is empty, and the current thread is not
  by_contra other
  have empty := orderly.unused _ orderly.inTable other null
  rcases orderly.active calling with ready | running
  · simp [ready] at empty
  · simp [running] at empty

theorem Orderly.current_active (calling : k.calling = none) :
    k.process.status k.process.current ≠ .blocked ∧
      (k.process.status k.process.current).alive = true := by
  rcases orderly.active calling with ready | running
  · simp [ready, Status.alive]
  · simp [running, Status.alive]

/-- The current thread, in user code, gets another status. -/
theorem Orderly.relabel {status : Status} (calling : k.calling = none)
    (relabelled : k'.process.status = Function.update k.process.status k.process.current status)
    (current : k'.process.current = k.process.current)
    (waiting : ∃ cells, Waiting k'.process k'.mutexes cells)
    (active : k'.calling = none → status = .ready) (isFirstCall : k'.isFirstCall = k.isFirstCall)
    (stack : k'.stack = k.stack) (barriers : k'.barriers = k.barriers) : Orderly k' := by
  refine ⟨isFirstCall.trans orderly.isFirstCall, current ▸ orderly.inTable, waiting,
    fun tid inTable running => ?_, fun tid inTable used null => ?_, fun returned => ?_,
    barriers ▸ orderly.barriers⟩
  · rw [relabelled] at running
    by_cases here : tid = k.process.current
    · exact here.trans current.symm
    · rw [Function.update_of_ne here] at running
      exact current ▸ orderly.running tid inTable running
  · rw [stack] at null
    -- entries without a stack are not the current one
    have other : tid ≠ k.process.current := by
      rintro rfl
      exact used (orderly.current_used calling null)
    rw [relabelled, Function.update_of_ne other]
    exact orderly.unused tid inTable used null
  · rw [relabelled, current, Function.update_self]
    exact Or.inl (active returned)

theorem Orderly.exit {value : BitVec 64} (calling : k.calling = none)
    (exited : pthreadExit k value = some (o, k')) : Orderly k' := by
  obtain ⟨-, rfl⟩ := Kernel.schedules_eq exited
  obtain ⟨cells, waiting⟩ := orderly.waiting
  refine orderly.relabel calling rfl rfl ⟨cells, ?_⟩ (by simp) rfl rfl rfl
  exact waiting.congr rfl rfl (fun _ => ⟨rfl, rfl⟩) fun tid _ =>
    update_blocked_iff (orderly.current_active calling).1 (by decide) tid

theorem Orderly.lock {m : Nat} (calling : k.calling = none)
    (locked : k.afterMutex m (pthreadMutexLock k.process (k.mutexes m)) .locked .lock =
      some (o, k')) : Orderly k' ∧ SameLives k k' := by
  obtain ⟨p, mutex, progress, after, ran, scheduled, -, rfl⟩ := afterMutex_eq locked
  obtain ⟨cells, waiting⟩ := orderly.waiting
  obtain ⟨unblocked, alive⟩ := orderly.current_active calling
  obtain ⟨current, waiting', ⟨rfl, status⟩ | ⟨rfl, -, status⟩⟩ :=
    waiting.lock orderly.inTable unblocked ran
  · exact ⟨orderly.relabel calling status current waiting' (fun _ => rfl) rfl rfl rfl,
      SameLives.update status alive rfl⟩
  · refine ⟨orderly.relabel calling status current waiting' (fun returned => ?_) rfl rfl rfl,
      SameLives.update status alive rfl⟩
    simp [scheduled rfl] at returned

theorem Orderly.unlock {m : Nat} (calling : k.calling = none)
    (unlocked : k.afterMutex m (pthreadMutexUnlock k.process (k.mutexes m)) .unlocked .unlock =
      some (o, k')) : Orderly k' ∧ SameLives k k' := by
  obtain ⟨p, mutex, progress, after, ran, scheduled, -, rfl⟩ := afterMutex_eq unlocked
  obtain ⟨cells, waiting⟩ := orderly.waiting
  obtain ⟨current, waiting', ⟨rfl, status⟩ | ⟨rfl, thread, blocked, status⟩⟩ := waiting.unlock ran
  · refine ⟨⟨orderly.isFirstCall, current ▸ orderly.inTable, waiting', ?_, ?_, fun _ => ?_,
      orderly.barriers⟩, fun tid => Or.inl (congrFun status tid)⟩
    · rw [status, current]
      exact orderly.running
    · rw [status]
      exact orderly.unused
    · rw [status, current]
      exact orderly.active calling
  · have lives : SameLives k { k.setMutex m mutex with process := p, calling := after } :=
      SameLives.update status (by simp [blocked, Status.alive]) rfl
    refine ⟨⟨orderly.isFirstCall, current ▸ orderly.inTable, waiting',
      fun tid inTable running => ?_, fun tid inTable used null => ?_, fun returned => ?_,
      orderly.barriers⟩, lives⟩
    · rw [status] at running
      by_cases here : tid = thread
      · simp [here] at running
      · rw [Function.update_of_ne here] at running
        exact current ▸ orderly.running tid inTable running
    · exact (lives.iff rfl tid).mpr (orderly.unused tid inTable used null)
    · simp [scheduled rfl] at returned

/-- A switch chooses a thread that was ready, or the current one again. -/
theorem Orderly.switch {resume : Resume} (switched : k.switch resume = some (o, k')) :
    Orderly k' ∧ SameLives k k' ∧ (k.process.status k'.process.current).alive = true := by
  obtain ⟨p, scheduled, resumed⟩ := switch_eq switched
  have table := schedule_switched scheduled
  obtain ⟨cells, waiting⟩ := orderly.waiting
  have quiet := resume_quiet (k := { k with process := p, regs := k.saveRegs resume })
    orderly.barriers resumed
  have lives : SameLives k { k with process := p, regs := k.saveRegs resume } := table.sameLives
  -- first the table after `schedule`, then what the chosen thread does
  refine ⟨Orderly.quiet (k := { k with process := p, regs := k.saveRegs resume }) ⟨orderly.isFirstCall,
    table.inTable orderly.inTable, ⟨cells, ?_⟩, fun tid inTable running => ?_,
    fun tid inTable used null => ?_, fun _ => ?_, orderly.barriers⟩ quiet fun _ => ?_,
    fun tid => ?_, ?_⟩
  · exact waiting.congr table.nodes table.next (fun _ => ⟨rfl, rfl⟩) fun tid _ =>
      table.status_iff (by decide) (by decide) tid
  -- whoever else was running has been made ready
  · by_contra other
    rw [table.status, if_neg other] at running
    split at running
    · simp at running
    next still => exact still ⟨orderly.running tid inTable running, running⟩
  · exact (lives.iff rfl tid).mpr (orderly.unused tid inTable used null)
  · exact Or.inr (by simp [table.status])
  · exact Or.inr (by simp [table.status])
  · rw [quiet.status]
    exact lives tid
  · rw [quiet.current]
    rcases table.active with ready | running
    · simp [ready, Status.alive]
    · simp [running, Status.alive]

/-- A new thread gets an entry that nobody has used. -/
theorem Orderly.create (created : createThread k = some (o, k')) (calling : k.calling = none) :
    Orderly k' ∧ KeepsExited k k' := by
  rcases createThread_eq created with ⟨-, -, rfl⟩ | ⟨-, room, -, rfl⟩
  · exact ⟨{ orderly with active := fun _ => orderly.active calling }, fun _ exited => exited⟩
  · obtain ⟨cells, waiting⟩ := orderly.waiting
    obtain ⟨used, null⟩ := freeSlot_null room
    have empty := orderly.unused _ room used null
    -- the entry was empty, so that it is nobody's that runs or waits
    have active : k.process.current ≠ freeSlot k.stack := by
      intro same
      rw [← same] at empty
      rcases orderly.active calling with ready | running
      · simp [ready] at empty
      · simp [running] at empty
    refine ⟨⟨orderly.isFirstCall, orderly.inTable, ⟨cells, ?_⟩, fun tid inTable running => ?_,
      fun tid inTable used null => ?_, fun _ => ?_, orderly.barriers⟩, fun tid exited => ?_⟩
    · refine waiting.congr rfl rfl (fun _ => ⟨rfl, rfl⟩) fun tid _ => ?_
      by_cases here : tid = freeSlot k.stack
      · simp [Kernel.newThread, Process.setStatus, here, empty]
      · simp [Kernel.newThread, Process.setStatus, here]
    · by_cases here : tid = freeSlot k.stack
      · simp [Kernel.newThread, Process.setStatus, here] at running
      · simp only [Kernel.newThread, Process.setStatus, Function.update_of_ne here] at running
        exact orderly.running tid inTable running
    · by_cases here : tid = freeSlot k.stack
      · simp [Kernel.newThread, here] at null
      · simp only [Kernel.newThread, Process.setStatus, Function.update_of_ne here] at null ⊢
        exact orderly.unused tid inTable used null
    · simp only [Kernel.newThread, Process.setStatus, Function.update_of_ne active]
      exact orderly.active calling
    · have here : tid ≠ freeSlot k.stack := by
        rintro rfl
        simp [empty] at exited
      simp only [Kernel.newThread, Process.setStatus, Function.update_of_ne here]
      exact exited

theorem Orderly.step {event : Event} (stepped : k.step event = some (o, k')) :
    Orderly k' ∧ KeepsExited k k' ∧
      (event = .switch → (k.process.status k'.process.current).alive = true) := by
  have steps := Kernel.steps_of_step stepped
  -- only `pthread_exit` makes a thread EXITED, and no call takes that from one
  cases event with
  | create =>
    obtain ⟨calling, created⟩ := steps
    rw [pthreadCreate, firstCall_of_later orderly.isFirstCall] at created
    obtain ⟨kept, exited⟩ := orderly.create created calling
    exact ⟨kept, exited, by simp⟩
  | exit value =>
    refine ⟨orderly.exit steps.1 steps.2, fun tid exited => ?_, by simp⟩
    obtain ⟨-, rfl⟩ := Kernel.schedules_eq steps.2
    by_cases here : tid = k.process.current
    · simp [Process.setStatus, here]
    · simp only [Process.setStatus, Function.update_of_ne here]
      exact exited
  | join thread =>
    have quiet := pthreadJoin_quiet orderly.barriers steps.2
    exact ⟨orderly.quiet quiet fun _ => orderly.active steps.1,
      fun tid exited => by rw [quiet.status, exited], by simp⟩
  | lock m =>
    obtain ⟨kept, lives⟩ := orderly.lock steps.1 steps.2
    exact ⟨kept, lives.keepsExited, by simp⟩
  | unlock m =>
    obtain ⟨kept, lives⟩ := orderly.unlock steps.1 steps.2
    exact ⟨kept, lives.keepsExited, by simp⟩
  | wait b =>
    have quiet := pthreadBarrierWait_quiet orderly.barriers steps.2
    exact ⟨orderly.quiet quiet fun _ => orderly.active steps.1,
      fun tid exited => by rw [quiet.status, exited], by simp⟩
  | timer =>
    obtain ⟨calling, -, scheduled⟩ := steps
    obtain ⟨-, rfl⟩ := Kernel.schedules_eq scheduled
    exact ⟨{ orderly with active := fun _ => orderly.active calling }, fun _ exited => exited,
      by simp⟩
  | switch =>
    obtain ⟨resume, -, switched⟩ := steps
    obtain ⟨kept, lives, chosen⟩ := orderly.switch switched
    exact ⟨kept, lives.keepsExited, fun _ => chosen⟩

/-- From an orderly state on, who has exited is never heard of again. -/
theorem Orderly.staysExited {tid : Tid} (exited : k.process.status tid = .exited)
    (events : List Event) : StaysExited tid k events := by
  have carried : ∀ k, ∀ event o k', (Orderly k ∧ k.process.status tid = .exited) → True →
      Kernel.step k event = some (o, k') → Orderly k' ∧ k'.process.status tid = .exited := by
    rintro k event o k' ⟨orderly, exited⟩ - stepped
    obtain ⟨kept, keeps, -⟩ := orderly.step stepped
    exact ⟨kept, keeps tid exited⟩
  constructor
  · exact Machine.always_of_invariant _ (fun _ inv => inv.2) carried ⟨orderly, exited⟩
      (Machine.admits_true events)
  -- what is chosen is alive, and `tid` is not
  · refine Machine.admits_of_invariant _ ?_ carried ⟨orderly, exited⟩ (Machine.admits_true events)
    rintro k event ⟨orderly, exited⟩ - rfl o k' stepped same
    have alive := (orderly.step stepped).2.2 rfl
    simp [same, exited, Status.alive] at alive

end Orderly

/-! ### The first call -/

section First

variable {k₀ k : Kernel} {o : Outcome}

theorem firstCall_status (first : k₀.isFirstCall = true) {tid : Tid} (inTable : tid < maxThreads) :
    (firstCall k₀).process.status tid = if tid = 0 then .ready else .empty := by
  simp [firstCall, first, schedulerInit, inTable]

/-- Nobody waits. -/
theorem Initial.waiting (initial : Initial k₀) {p : Process}
    (unblocked : ∀ tid < maxThreads, p.status tid ≠ .blocked) :
    Waiting p k₀.mutexes fun _ => [] := by
  refine ⟨fun m => ⟨(initial.mutex m).1, List.nodup_nil, by simp,
    Or.inl ⟨(initial.mutex m).2, Nat.zero_le 1⟩⟩, fun _ => List.nodup_nil, by simp, by simp,
    fun tid inTable => ?_⟩
  simp [unblocked tid inTable]

/-- The first `pthread_create` clears the table. -/
theorem Initial.firstCall_orderly (initial : Initial k₀) : Orderly (firstCall k₀) := by
  have status : ∀ tid < maxThreads, (firstCall k₀).process.status tid =
      if tid = 0 then .ready else .empty := fun tid inTable =>
    firstCall_status initial.isFirstCall inTable
  have current : (firstCall k₀).process.current = 0 := by
    rw [firstCall, if_pos initial.isFirstCall]
    exact initial.current
  have rest : (firstCall k₀).isFirstCall = false ∧ (firstCall k₀).mutexes = k₀.mutexes ∧
      (firstCall k₀).barriers = k₀.barriers := by
    rw [firstCall, if_pos initial.isFirstCall]
    exact ⟨rfl, rfl, rfl⟩
  -- no thread waits, and none but the main thread has an entry
  refine ⟨rest.1, ?_, ⟨fun _ => [], ?_⟩, fun tid inTable running => ?_,
    fun tid inTable used _ => ?_, fun _ => ?_, rest.2.2 ▸ initial.barrier⟩
  · rw [current]
    decide
  · rw [rest.2.1]
    refine initial.waiting fun tid inTable => ?_
    rw [status tid inTable]
    split <;> simp
  · rw [status tid inTable] at running
    split at running <;> simp at running
  · exact (status tid inTable).trans (if_neg used)
  · left
    rw [current]
    exact status 0 (by decide)

theorem Initial.firstCall_calling (initial : Initial k₀) : (firstCall k₀).calling = none := by
  rw [firstCall, if_pos initial.isFirstCall]
  exact initial.calling

theorem Initial.orderly (initial : Initial k₀) (created : k₀.step .create = some (o, k)) :
    Orderly k := by
  obtain ⟨-, created⟩ := Kernel.steps_of_step created
  exact (initial.firstCall_orderly.create created initial.firstCall_calling).1

end First

/-- **The states of the threads.** In every state after the first `pthread_create`, whatever the
threads call and whenever the timer interrupts them: at most the current thread is running, the
blocked threads are those in a queue, each once in one queue, and a thread that has exited stays
so and is not chosen again. -/
theorem threadStates_always {k₀ k k' : Kernel} {o : Outcome} (initial : Initial k₀)
    (created : k₀.step .create = some (o, k))
    (reached : Machine.Reaches Kernel.step (fun _ _ => True) k k') :
    ThreadStates k' ∧ ∀ tid < maxThreads, k'.process.status tid = .exited →
      ∀ events, StaysExited tid k' events := by
  have orderly : Orderly k' := by
    refine reached.invariant Orderly (fun _ _ _ _ orderly _ stepped => ?_)
      (initial.orderly created)
    exact (orderly.step stepped).1
  exact ⟨orderly.threadStates, fun tid _ exited events => orderly.staysExited exited events⟩

/-- Thread 1 gets the processor and exits, and thread 2 gets it next. -/
theorem threadStates_always_exits :
    ∃ outputs k', Machine.run Kernel.step Kernel.loaded
        [.create, .create, .timer, .switch, .exit 7, .switch] = some (outputs, k') ∧
      k'.process.status 1 = .exited ∧ ThreadStates k' ∧
      StaysExited 1 k' [.timer, .switch, .join 1] := by
  have exits : (Machine.run Kernel.step Kernel.loaded
      [.create, .create, .timer, .switch, .exit 7, .switch]).map (fun r => r.2.process.status 1) =
      some .exited := by decide
  obtain ⟨⟨outputs, k'⟩, ran, exited⟩ := Option.map_eq_some_iff.mp exits
  obtain ⟨o, k, rest, created, later, -⟩ := Machine.run_cons_eq_some ran
  obtain ⟨states, gone⟩ := threadStates_always Kernel.loaded_initial created
    ⟨_, rest, Machine.admits_true _, later⟩
  exact ⟨outputs, k', ran, exited, states, gone 1 (by decide) exited _⟩

end OperatingSys.Threads
