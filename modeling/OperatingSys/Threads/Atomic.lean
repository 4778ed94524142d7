import OperatingSys.Lib.Stuttering
import OperatingSys.Threads.Critical
import OperatingSys.Threads.Pointers

/-!
# What stands between `lock()` and `unlock()` is one step

No signal arrives while `SIGALRM` is masked, so that a thread in one of the two functions of a mutex
keeps the processor from `lock()` to `unlock()` or to its call of `schedule`. What it does in between
amounts to the function as `Mutex` has it, in one step.
-/

namespace OperatingSys.Threads

/-! ### A section by itself -/

/-- How many statements are left at most. -/
def LockPoint.left : LockPoint → Nat
  | .test => 12
  | .setLocked => 3
  | .setReady => 2
  | .unlock => 1
  | .setBlocked => 11
  | .malloc => 10
  | .setTid _ => 9
  | .testHead _ => 8
  | .setHead _ => 4
  | .testTail _ => 7
  | .linkHead _ => 5
  | .mallocTail _ => 6
  | .readTail _ => 5
  | .setTail _ _ => 4
  | .clearNext _ _ => 3
  | .linkTail _ _ => 2
  | .schedule => 1

def UnlockPoint.left : UnlockPoint → Nat
  | .test => 10
  | .setLocked => 2
  | .unlock => 1
  | .readNext => 9
  | .setReady _ => 8
  | .free _ => 7
  | .setHead _ => 6
  | .testNext _ => 5
  | .clearTail => 4
  | .testHead => 3
  | .clearLocked => 2
  | .unlockWoken => 1

def Section.left : Section → Nat
  | .lock point => point.left
  | .unlock point => point.left

/-- The section from `point` on, for that many statements. -/
def runSection : (fuel : Nat) → Process → Mutex → Section → Option (Process × Mutex × Progress)
  | 0, _, _, _ => none
  | fuel + 1, p, m, point =>
    match sectionStatement p m point with
    | none => none
    | some (p, m, .goto next) => runSection fuel p m next
    | some (p, m, .ends progress) => some (p, m, progress)

section Statements

variable {p p' : Process} {m m' : Mutex} {point next : Section}

/-- Every statement leads closer to the end, and none before it touches the mask. -/
theorem lockStatement_goto {point : LockPoint}
    (ran : lockStatement p m point = some (p', m', .goto next)) :
    next.left < point.left ∧ p'.masked = p.masked := by
  cases point with
  | unlock => simp [lockStatement] at ran
  | schedule => simp [lockStatement] at ran
  -- the branches
  | test =>
    cases ran
    refine ⟨?_, rfl⟩
    split <;> simp [Section.left, LockPoint.left]
  | testHead n =>
    cases ran
    refine ⟨?_, rfl⟩
    split <;> simp [Section.left, LockPoint.left]
  | testTail n =>
    cases ran
    refine ⟨?_, rfl⟩
    split <;> simp [Section.left, LockPoint.left]
  -- the accesses through a pointer
  | linkHead n =>
    obtain ⟨_, -, eq⟩ := Option.map_eq_some_iff.mp ran
    cases eq
    simp [Section.left, LockPoint.left, Process.setNode]
  | clearNext n oldTail =>
    obtain ⟨_, -, eq⟩ := Option.map_eq_some_iff.mp ran
    cases eq
    refine ⟨?_, rfl⟩
    split <;> simp [Section.left, LockPoint.left]
  | linkTail n oldTail =>
    obtain ⟨_, -, eq⟩ := Option.map_eq_some_iff.mp ran
    cases eq
    simp [Section.left, LockPoint.left, Process.setNode]
  | _ =>
    cases ran
    exact ⟨by simp [Section.left, LockPoint.left], rfl⟩

theorem unlockStatement_goto {point : UnlockPoint}
    (ran : unlockStatement p m point = some (p', m', .goto next)) :
    next.left < point.left ∧ p'.masked = p.masked := by
  cases point with
  | unlock => simp [unlockStatement] at ran
  | unlockWoken => simp [unlockStatement] at ran
  | test =>
    cases ran
    refine ⟨?_, rfl⟩
    split <;> simp [Section.left, UnlockPoint.left]
  | testNext next =>
    cases ran
    refine ⟨?_, rfl⟩
    split <;> simp [Section.left, UnlockPoint.left]
  | testHead =>
    cases ran
    refine ⟨?_, rfl⟩
    split <;> simp [Section.left, UnlockPoint.left]
  | readNext =>
    obtain ⟨_, -, eq⟩ := Option.map_eq_some_iff.mp ran
    cases eq
    simp [Section.left, UnlockPoint.left]
  | setReady next =>
    obtain ⟨_, -, eq⟩ := Option.map_eq_some_iff.mp ran
    cases eq
    simp [Section.left, UnlockPoint.left, Process.setStatus]
  | free next =>
    obtain ⟨_, -, eq⟩ := Option.map_eq_some_iff.mp ran
    cases eq
    simp [Section.left, UnlockPoint.left, Process.setNode]
  | _ =>
    cases ran
    exact ⟨by simp [Section.left, UnlockPoint.left], rfl⟩

theorem sectionStatement_goto (ran : sectionStatement p m point = some (p', m', .goto next)) :
    next.left < point.left ∧ p'.masked = p.masked := by
  cases point with
  | lock point => exact lockStatement_goto ran
  | unlock point => exact unlockStatement_goto ran

theorem Section.left_pos (point : Section) : 0 < point.left := by
  cases point with
  | lock point => cases point <;> exact Nat.succ_pos _
  | unlock point => cases point <;> exact Nat.succ_pos _

/-- More fuel than there are statements makes no difference. -/
theorem runSection_enough {fuel fuel' : Nat} (enough : point.left ≤ fuel)
    (enough' : point.left ≤ fuel') : runSection fuel p m point = runSection fuel' p m point := by
  have positive := point.left_pos
  induction fuel generalizing p m point fuel' with
  | zero => omega
  | succ fuel ih =>
    cases fuel' with
    | zero => omega
    | succ fuel' =>
      rw [runSection, runSection]
      cases ran : sectionStatement p m point with
      | none => rfl
      | some result =>
        obtain ⟨p', m', following⟩ := result
        cases following with
        | ends progress => rfl
        | goto next =>
          have less := (sectionStatement_goto ran).1
          exact ih (by omega) (by omega) next.left_pos

/-- The rest of a section after a statement. -/
theorem runSection_goto (ran : sectionStatement p m point = some (p', m', .goto next)) :
    runSection point.left p m point = runSection next.left p' m' next := by
  have less := (sectionStatement_goto ran).1
  obtain ⟨fuel, eq⟩ := Nat.exists_eq_add_of_lt point.left_pos
  rw [eq, Nat.zero_add, runSection, ran]
  exact runSection_enough (by omega) (Nat.le_refl _)

/-- `pthread_mutex_unlock` as a whole. -/
theorem runSection_unlock :
    runSection 10 p.lock m (.unlock .test) = pthreadMutexUnlock p m := by
  cases head : m.blockedThreadsHead with
  | none =>
    simp [runSection, sectionStatement, unlockStatement, pthreadMutexUnlock, head]
  | some a =>
    cases first : p.nodes a with
    | none =>
      simp [runSection, sectionStatement, unlockStatement, pthreadMutexUnlock, Process.deref,
        Process.lock, head, first]
    | some node =>
      cases last : node.next with
      | none =>
        simp [runSection, sectionStatement, unlockStatement, pthreadMutexUnlock, Process.deref,
          Process.lock, Process.setStatus, head, first, last]
      | some b =>
        simp [runSection, sectionStatement, unlockStatement, pthreadMutexUnlock, Process.deref,
          Process.lock, Process.setStatus, head, first, last]

/-- `pthread_mutex_lock` as a whole: the memory that `malloc` returns is not in the list. -/
theorem runSection_lock (head : m.blockedThreadsHead ≠ some p.next)
    (tail : m.blockedThreadsTail ≠ some p.next) :
    runSection 12 p.lock m (.lock .test) = pthreadMutexLock p m := by
  by_cases free : m.locked = 0
  · simp [runSection, sectionStatement, lockStatement, pthreadMutexLock, free]
  · -- The cases are the branches of the source: no list, a head without a tail, and both. The cell
    -- that is dereferenced may be missing.
    cases first : m.blockedThreadsHead with
    | none =>
      simp [runSection, sectionStatement, lockStatement, pthreadMutexLock, enqueue, Process.deref,
        Process.lock, Process.setStatus, Process.malloc, Process.setNode, free, first]
    | some a =>
      have apart : a ≠ p.next := by
        rintro rfl
        exact head first
      cases last : m.blockedThreadsTail with
      | none =>
        cases node : p.nodes a with
        | none =>
          simp [runSection, sectionStatement, lockStatement, pthreadMutexLock, enqueue,
            Process.deref, Process.lock, Process.setStatus, Process.malloc, Process.setNode, free,
            first, last, node, apart]
        | some node' =>
          simp [runSection, sectionStatement, lockStatement, pthreadMutexLock, enqueue,
            Process.deref, Process.lock, Process.setStatus, Process.malloc, Process.setNode, free,
            first, last, node, apart, Ne.symm apart]
          rw [Function.update_comm (Ne.symm apart), Function.update_idem]
      | some t =>
        have apart' : t ≠ p.next := by
          rintro rfl
          exact tail last
        cases node : p.nodes t with
        | none =>
          simp [runSection, sectionStatement, lockStatement, pthreadMutexLock, enqueue,
            Process.deref, Process.lock, Process.setStatus, Process.malloc, Process.setNode, free,
            first, last, node, apart']
        | some node' =>
          simp [runSection, sectionStatement, lockStatement, pthreadMutexLock, enqueue,
            Process.deref, Process.lock, Process.setStatus, Process.malloc, Process.setNode, free,
            first, last, node, apart']

end Statements

/-! ### The library with and without the sections -/

/-- The function that a section belongs to, in one step. -/
def Section.whole (p : Process) (m : Mutex) : Section → Option (Process × Mutex × Progress)
  | .lock _ => pthreadMutexLock p m
  | .unlock _ => pthreadMutexUnlock p m

namespace Detailed

/-- The current thread of `s` is at `point`, and has got so far with `p` and with mutex `m`. -/
def within (s : Image) (point : Section) (m : Nat) (p : Process) (mutex : Mutex) : Detailed where
  image := { s with kernel := { s.kernel with process := p }.setMutex m mutex }
  inside := Function.update (fun _ => none) s.running.thread (some point)

/-- `d` is `s`, or it is on its way to what the next statement of `s` leads to, and no signal
interrupts it. -/
def Completes (d : Detailed) (s : Image) : Prop :=
  d = outside s ∨ (d.image.kernel.process.masked = true ∧ ∀ joins s',
    s.statement = some (joins, s') → ∃ n, Machine.run step d (List.replicate n .statement) =
      some (List.replicate n none, outside s'))

/-- What `d` and `s` have to do with each other. -/
def Follows (d : Detailed) (s : Image) : Prop :=
  d = outside s ∨ ∃ point m first after p mutex, d = within s point m p mutex ∧
    s.mutexCall = some (m, first, after) ∧ p.masked = true ∧
    runSection point.left p mutex point = first.whole s.kernel.process (s.kernel.mutexes m)

end Detailed

section Sections

variable {s s' : Image} {d d' : Detailed} {m : Nat} {first point : Section} {after : Int}
  {p : Process} {mutex : Mutex} {joins : Image.Joins}

theorem Image.mutexCall_eq (call : s.mutexCall = some (m, first, after)) :
    s.running.schedules = [] ∧
      ((s.running.call = some (.lock m) ∧ first = .lock .test ∧ after = -1) ∨
        (s.running.call = some (.unlock m) ∧ first = .unlock .test ∧ after = 0)) := by
  unfold Image.mutexCall at call
  split at call
  next schedules here =>
    cases call
    exact ⟨schedules, Or.inl ⟨here, rfl, rfl⟩⟩
  next schedules here =>
    cases call
    exact ⟨schedules, Or.inr ⟨here, rfl, rfl⟩⟩
  · simp at call

/-- In one step, a call on a mutex does what its function does. -/
theorem Image.statement_of_mutexCall (call : s.mutexCall = some (m, first, after)) :
    s.statement = (s.afterMutex m (first.whole s.kernel.process (s.kernel.mutexes m)) after).map
      (none, ·) := by
  obtain ⟨schedules, ⟨here, rfl, rfl⟩ | ⟨here, rfl, rfl⟩⟩ := Image.mutexCall_eq call
  · simp only [Image.statement, schedules, here]
    rfl
  · simp only [Image.statement, schedules, here]
    rfl

/-- Statement by statement it does the same. -/
theorem runSection_whole (bounded : Bounded s.kernel) (call : s.mutexCall = some (m, first, after)) :
    runSection first.left s.kernel.process.lock (s.kernel.mutexes m) first =
      first.whole s.kernel.process (s.kernel.mutexes m) := by
  obtain ⟨-, ⟨-, rfl, -⟩ | ⟨-, rfl, -⟩⟩ := Image.mutexCall_eq call
  · obtain ⟨head, tail⟩ := bounded.mutexes m
    exact runSection_lock (fun here => Nat.lt_irrefl _ (head _ here))
      fun here => Nat.lt_irrefl _ (tail _ here)
  · exact runSection_unlock

theorem step_of_mutexCall (call : d.image.mutexCall = some (m, first, after)) :
    d.step .statement = (d.mutexStatement m first after).map (none, ·) := by
  simp only [Detailed.step, call]

/-- `lock()`. -/
theorem step_outside (call : s.mutexCall = some (m, first, after)) :
    (Detailed.outside s).step .statement =
      some (none, .within s first m s.kernel.process.lock (s.kernel.mutexes m)) := by
  rw [step_of_mutexCall call]
  simp [Detailed.mutexStatement, Detailed.outside, Detailed.within, Detailed.setInside,
    Kernel.setMutex, Process.lock]

/-- What a section has changed so far is in what it changes in the end. -/
theorem afterMutex_within {p' : Process} {mutex' : Mutex} {progress : Progress} :
    (Detailed.within s point m p mutex).image.afterMutex m (some (p', mutex', progress)) after =
      s.afterMutex m (some (p', mutex', progress)) after := by
  cases progress <;>
    simp [Detailed.within, Image.afterMutex, Kernel.setMutex, Image.goto, Image.schedules]

/-- A statement after `lock()`. -/
theorem step_within (call : s.mutexCall = some (m, first, after)) :
    (Detailed.within s point m p mutex).step .statement =
      match sectionStatement p mutex point with
      | none => none
      | some (p, mutex, .goto next) => some (none, .within s next m p mutex)
      | some (p, mutex, .ends progress) =>
        (s.afterMutex m (some (p, mutex, progress)) after).map fun s' => (none, .outside s') := by
  have inside : (Detailed.within s point m p mutex).inside
      (Detailed.within s point m p mutex).image.running.thread = some point := by
    simp [Detailed.within]
  have process : (Detailed.within s point m p mutex).image.kernel.process = p := rfl
  have mutexes : (Detailed.within s point m p mutex).image.kernel.mutexes m = mutex := by
    simp [Detailed.within, Kernel.setMutex]
  rw [step_of_mutexCall call, Detailed.mutexStatement, inside, process, mutexes]
  dsimp only
  cases ran : sectionStatement p mutex point with
  | none => rfl
  | some result =>
    obtain ⟨p', mutex', following⟩ := result
    cases following with
    | goto next =>
      simp [Detailed.within, Detailed.setInside, Kernel.setMutex]
    | ends progress =>
      dsimp only
      rw [afterMutex_within, Option.map_map]
      cases progress <;>
        simp [Detailed.within, Detailed.setInside, Detailed.outside, Image.afterMutex, Image.goto,
          Image.schedules]

/-- Outside of the sections the two agree. -/
theorem step_elsewhere {input : Input} (elsewhere : input = .statement → s.mutexCall = none) :
    (Detailed.outside s).step input =
      (s.step input).map fun (joins, s') => (joins, .outside s') := by
  cases input with
  | statement =>
    have none_ : (Detailed.outside s).image.mutexCall = none := elsewhere rfl
    simp only [Detailed.step, none_]
    rfl
  | signal => rfl
  | request r => rfl

/-- In a section no signal arrives, and its thread makes no call. -/
theorem step_within_undefined {input : Input} (call : s.mutexCall = some (m, first, after))
    (masked : p.masked = true) (other : input ≠ .statement) :
    (Detailed.within s point m p mutex).step input = none := by
  cases input with
  | statement => exact absurd rfl other
  | signal =>
    have held : (Detailed.within s point m p mutex).image.kernel.process.masked = true := masked
    simp [Detailed.step, Image.step, Image.signal, held]
  | request r =>
    have busy : (Detailed.within s point m p mutex).image.running.call ≠ none := by
      change s.running.call ≠ none
      obtain ⟨-, ⟨here, -⟩ | ⟨here, -⟩⟩ := Image.mutexCall_eq call
      · simp [here]
      · simp [here]
    simp [Detailed.step, Image.step, Image.request, busy]

/-- The rest of a section leads where the whole call leads in one step. -/
theorem run_within (call : s.mutexCall = some (m, first, after))
    (rest : runSection point.left p mutex point = first.whole s.kernel.process (s.kernel.mutexes m))
    (ran : s.statement = some (joins, s')) :
    joins = none ∧ ∃ n, Machine.run Detailed.step (.within s point m p mutex)
      (List.replicate n .statement) = some (List.replicate n none, .outside s') := by
  -- by induction on the statements that are left
  induction left : point.left using Nat.strong_induction_on generalizing point p mutex with
  | _ left_ ih =>
    subst left
    rw [Image.statement_of_mutexCall call, ← rest] at ran
    obtain ⟨s₁, ended, eq⟩ := Option.map_eq_some_iff.mp ran
    cases eq
    refine ⟨rfl, ?_⟩
    have stepped : (Detailed.within s point m p mutex).step .statement = _ := step_within call
    obtain ⟨fuel, positive⟩ := Nat.exists_eq_add_of_lt point.left_pos
    cases statement : sectionStatement p mutex point with
    | none =>
      rw [positive, Nat.zero_add, runSection, statement] at ended
      simp [Image.afterMutex] at ended
    | some result =>
      obtain ⟨p', mutex', following⟩ := result
      rw [statement] at stepped
      cases following with
      | goto next =>
        obtain ⟨-, n, later⟩ := ih next.left (sectionStatement_goto statement).1
          ((runSection_goto statement).symm.trans rest) rfl
        refine ⟨n + 1, ?_⟩
        simp only [List.replicate_succ, Machine.run, stepped, later]
      | ends progress =>
        rw [positive, Nat.zero_add, runSection, statement] at ended
        refine ⟨1, ?_⟩
        simp only [List.replicate_one, Machine.run, stepped, ended, Option.map_some]

/-- A statement of the finer library is one of the coarser, or one inside of it. -/
theorem Detailed.Follows.step {input : Input} (follows : d.Follows s) (bounded : Bounded s.kernel)
    (stepped : d.step input = some (joins, d')) :
    (joins = none ∧ d'.Follows s) ∨ ∃ s', s.step input = some (joins, s') ∧ d'.Follows s' := by
  -- Outside the sections both take the same step. Inside one, the library with whole calls waits
  -- until the last statement.
  rcases follows with rfl | ⟨point, m, first, after, p, mutex, rfl, call, masked, rest⟩
  · by_cases enters : input = .statement ∧ s.mutexCall ≠ none
    · obtain ⟨rfl, called⟩ := enters
      obtain ⟨⟨m, first, after⟩, call⟩ := Option.ne_none_iff_exists'.mp called
      rw [step_outside call] at stepped
      cases stepped
      exact Or.inl ⟨rfl, Or.inr ⟨first, m, first, after, _, _, rfl, call, rfl,
        runSection_whole bounded call⟩⟩
    · rw [step_elsewhere fun here => by_contra fun called => enters ⟨here, called⟩] at stepped
      obtain ⟨⟨joins', s'⟩, ran, eq⟩ := Option.map_eq_some_iff.mp stepped
      cases eq
      exact Or.inr ⟨s', ran, Or.inl rfl⟩
  · by_cases statement : input = .statement
    · subst statement
      rw [step_within call] at stepped
      cases ran : sectionStatement p mutex point with
      | none => simp [ran] at stepped
      | some result =>
        obtain ⟨p', mutex', following⟩ := result
        rw [ran] at stepped
        cases following with
        | goto next =>
          cases stepped
          refine Or.inl ⟨rfl, Or.inr ⟨next, m, first, after, p', mutex', rfl, call, ?_, ?_⟩⟩
          · rw [(sectionStatement_goto ran).2, masked]
          · rw [← runSection_goto ran, rest]
        | ends progress =>
          obtain ⟨s', ended, eq⟩ := Option.map_eq_some_iff.mp stepped
          cases eq
          refine Or.inr ⟨s', ?_, Or.inl rfl⟩
          -- the statement that ends the section: what was left of it is what the whole call does
          obtain ⟨fuel, positive⟩ := Nat.exists_eq_add_of_lt point.left_pos
          rw [positive, Nat.zero_add, runSection, ran] at rest
          change s.statement = _
          rw [Image.statement_of_mutexCall call, ← rest, ended]
          rfl
    · rw [step_within_undefined call masked statement] at stepped
      simp at stepped

theorem Detailed.Follows.completes (follows : d.Follows s) : d.Completes s := by
  rcases follows with same | ⟨point, m, first, after, p, mutex, rfl, call, masked, rest⟩
  · exact Or.inl same
  · exact Or.inr ⟨masked, fun joins s' ran => (run_within call rest ran).2⟩

/-- A step of the coarser library is one or more of the finer. -/
theorem Image.expands {input : Input} (bounded : Bounded s.kernel)
    (stepped : s.step input = some (joins, s')) : ∃ inputs outputs, [input].Sublist inputs ∧
      Machine.run Detailed.step (.outside s) inputs = some (outputs, .outside s') ∧
      outputs.reduceOption = [joins].reduceOption := by
  by_cases enters : input = .statement ∧ s.mutexCall ≠ none
  · obtain ⟨rfl, called⟩ := enters
    obtain ⟨⟨m, first, after⟩, call⟩ := Option.ne_none_iff_exists'.mp called
    obtain ⟨rfl, n, later⟩ := run_within call (runSection_whole bounded call) stepped
    refine ⟨.statement :: List.replicate n .statement, none :: List.replicate n none, by simp, ?_, ?_⟩
    · simp only [Machine.run, step_outside call, later]
    · simp [List.reduceOption_replicate_none]
  · have ran := step_elsewhere fun here => by_contra fun called => enters ⟨here, called⟩
    refine ⟨[input], [joins], List.Sublist.refl _, ?_, rfl⟩
    simp only [Machine.run, ran, stepped, Option.map_some]

end Sections

/-- **Critical sections are atomic.** From the first `pthread_create` on, with no mutex or barrier
used before: whatever the threads call and wherever the signals arrive, a run of the library in which
`pthread_mutex_lock` and `pthread_mutex_unlock` are executed statement by statement is a run in
which each of them is one step from `lock()` on, and every run of that kind is one of the other. What
`pthread_join` returns is the same. -/
theorem critical_sections_atomic {k : Kernel} (unused : k.Unused) :
    (∀ inputs joins d,
      Machine.run Detailed.step (.outside (Image.start k)) inputs = some (joins, d) →
      ∃ inputs' joins' s, inputs'.Sublist inputs ∧
        Machine.run Image.step (Image.start k) inputs' = some (joins', s) ∧
        joins'.reduceOption = joins.reduceOption ∧ d.Completes s) ∧
    ∀ inputs joins s, Machine.run Image.step (Image.start k) inputs = some (joins, s) →
      ∃ inputs' joins', inputs.Sublist inputs' ∧
        Machine.run Detailed.step (.outside (Image.start k)) inputs' = some (joins', .outside s) ∧
        joins'.reduceOption = joins.reduceOption := by
  have bounded : Bounded (Image.start k).kernel := unused.bounded
  constructor
  · intro inputs joins d ran
    obtain ⟨inputs', joins', s, fewer, ran', same, follows, -⟩ := Machine.follows_run
      (R := fun d s => d.Follows s ∧ Bounded s.kernel) (fun d s input o d' related stepped => by
        obtain ⟨follows, bounded⟩ := related
        rcases follows.step bounded stepped with ⟨rfl, still⟩ | ⟨s', stepped', follows'⟩
        · exact Or.inl ⟨rfl, still, bounded⟩
        · exact Or.inr ⟨s', stepped', follows', bounded.step stepped'⟩)
      ⟨Or.inl rfl, bounded⟩ ran
    exact ⟨inputs', joins', s, fewer, ran', same, follows.completes⟩
  · intro inputs joins s ran
    obtain ⟨inputs', joins', d, more, ran', same, rfl, -⟩ := Machine.expands_run
      (R := fun d s => d = Detailed.outside s ∧ Bounded s.kernel)
      (fun d s input o s' related stepped => by
        obtain ⟨rfl, bounded⟩ := related
        obtain ⟨inputs, outputs, one, ran, same⟩ := Image.expands bounded stepped
        exact ⟨inputs, outputs, .outside s', one, ran, same, rfl, bounded.step stepped⟩)
      ⟨rfl, bounded⟩ ran
    exact ⟨inputs', joins', more, ran', same⟩

/-- The main thread creates a thread and calls `pthread_mutex_lock`, which has set `locked`. -/
theorem critical_sections_atomic_lock :
    ∃ joins d, Machine.run Detailed.step (.outside (Image.start Kernel.loaded))
        (List.replicate 16 .statement ++ .request (.lock 0) :: List.replicate 3 .statement) =
          some (joins, d) ∧
      d.inside 0 = some (.lock .setReady) ∧
      ∃ inputs' joins' s, Machine.run Image.step (Image.start Kernel.loaded) inputs' =
        some (joins', s) ∧ d.Completes s := by
  have facts : (Machine.run Detailed.step (.outside (Image.start Kernel.loaded))
      (List.replicate 16 .statement ++ .request (.lock 0) :: List.replicate 3 .statement)).map
        (fun r => r.2.inside 0) = some (some (.lock .setReady)) := by decide +kernel
  obtain ⟨⟨joins, d⟩, ran, inside⟩ := Option.map_eq_some_iff.mp facts
  obtain ⟨inputs', joins', s, -, ran', -, completes⟩ :=
    (critical_sections_atomic ⟨fun _ => rfl, fun _ => ⟨rfl, rfl⟩, fun _ => ⟨rfl, rfl⟩⟩).1 _ _ _ ran
  exact ⟨joins, d, ran, inside, inputs', joins', s, ran', completes⟩

end OperatingSys.Threads
