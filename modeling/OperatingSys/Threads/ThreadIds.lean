import OperatingSys.Threads.Census
import OperatingSys.Threads.ThreadStates

/-!
# Ids and entries

`pthread_create` looks for an entry without a stack, and it makes the id of the new thread from
`num_threads`, which it counts separately. `pthread_join` takes the id for the index of the
entry. The two agree, since the entries are filled from the front and never given back.
-/

namespace OperatingSys.Threads

open Search

/-- The library, and what `pthread_create` has done: the entries that it has initialised and the
ids that it has stored for them, the latest first. -/
structure Roster where
  kernel : Kernel
  births : List (Tid × Nat)

namespace Roster

def record (r : Roster) : Event → Outcome → List (Tid × Nat)
  | .create, .created 0 (some id) => (freeSlot (firstCall r.kernel).stack, id) :: r.births
  | _, _ => r.births

def step (r : Roster) (event : Event) : Option (Outcome × Roster) :=
  match r.kernel.step event with
  | none => none
  | some (o, k) => some (o, ⟨k, r.record event o⟩)

end Roster

/-- A call of `pthread_create`, `pthread_exit` or `pthread_join`, an interrupt by the timer or a
switch. -/
def Event.isThread : Event → Bool
  | .create | .exit _ | .join _ | .timer | .switch => true
  | .lock _ | .unlock _ | .wait _ => false

/-- Before the first `pthread_create`, with the zeros that C's globals start with: `TS_EXITED` is
one of them. -/
structure Unstarted (k : Kernel) : Prop where
  isFirstCall : k.isFirstCall = true
  current : k.process.current = 0
  masked : k.process.masked = false
  mutex : ∀ m, (k.mutexes m).blockedThreadsHead = none ∧ (k.mutexes m).blockedThreadsTail = none
  barrier : ∀ b, (k.barriers b).init = 1
  id : k.id 0 = 0
  status : ∀ tid < maxThreads, k.process.status tid = .exited

/-- The entries of `k'` are those of `k`, all but one. -/
structure SameEntries (k k' : Kernel) (except : Tid) : Prop where
  status : ∀ tid, tid ≠ except → k'.process.status tid = k.process.status tid
  id : ∀ tid, tid ≠ except → k'.id tid = k.id tid
  stack : ∀ tid, tid ≠ except → k'.stack tid = k.stack tid
  regs : ∀ tid, tid ≠ except → k'.regs tid = k.regs tid
  exitStatus : ∀ tid, tid ≠ except → k'.exitStatus tid = k.exitStatus tid

/-! ### The search for an entry -/

/-- The loop of `pthread_create` from `tid` on: the entries whose `stack` it reads, and `tid`
after it. -/
def slotSearch (stack : Tid → Stack) : (fuel tid : Nat) → List Nat × Nat
  | 0, tid => ([], tid)
  | fuel + 1, tid =>
    if tid < maxThreads then
      if stack tid = .null then ([tid], tid)
      else
        let (reads, last) := slotSearch stack fuel (tid + 1)
        (tid :: reads, last)
    else ([], tid)

/-- A search that began at `start` has stopped at the first free entry, or past the last one. -/
structure Searched (stack : Tid → Stack) (start : Nat) (result : List Nat × Nat) : Prop where
  reads : ∀ i ∈ result.1, start ≤ i ∧ i < maxThreads
  first : start ≤ result.2
  last : result.2 ≤ maxThreads
  free : result.2 < maxThreads → stack result.2 = .null
  used : ∀ i, start ≤ i → i < result.2 → stack i ≠ .null

theorem slotSearch_searched (stack : Tid → Stack) {fuel tid : Nat}
    (enough : maxThreads ≤ tid + fuel) (inTable : tid ≤ maxThreads) :
    Searched stack tid (slotSearch stack fuel tid) := by
  have nothing : ∀ i, tid ≤ i → i < tid → stack i ≠ .null := by
    intro i lower upper
    exact absurd lower (Nat.not_le_of_lt upper)
  induction fuel generalizing tid with
  | zero =>
    have full : tid = maxThreads := Nat.le_antisymm inTable enough
    refine ⟨by simp [slotSearch], Nat.le_refl _, inTable, fun below => ?_, nothing⟩
    exact absurd full (Nat.ne_of_lt below)
  | succ fuel ih =>
    rw [slotSearch]
    split
    next below =>
      split
      next null =>
        refine ⟨fun i member => ?_, Nat.le_refl _, inTable, fun _ => null, nothing⟩
        rw [List.mem_singleton.mp member]
        exact ⟨Nat.le_refl _, below⟩
      next held =>
        have later := ih (by omega) below (by omega)
        refine ⟨fun i member => ?_, Nat.le_of_succ_le later.first, later.last, later.free,
          fun i lower upper => ?_⟩
        · rcases List.mem_cons.mp member with rfl | more
          · exact ⟨Nat.le_refl _, below⟩
          · have bounds := later.reads i more
            exact ⟨Nat.le_of_succ_le bounds.1, bounds.2⟩
        · by_cases here : i = tid
          · rw [here]
            exact held
          · exact later.used i (Nat.lt_of_le_of_ne lower (Ne.symm here)) upper
    next past =>
      refine ⟨by simp, Nat.le_refl _, inTable, fun below => absurd below past, nothing⟩

theorem Searched.eq_freeSlot {stack : Tid → Stack} {result : List Nat × Nat}
    (searched : Searched stack 1 result) : result.2 = freeSlot stack := by
  have first := searched.first
  have last := searched.last
  have index : result.2 - 1 + 1 = result.2 := Nat.sub_add_cancel first
  rw [freeSlot]
  split
  next none_ =>
    have held := firstIndex_eq_none.mp none_
    by_contra other
    have below : result.2 < maxThreads := Nat.lt_of_le_of_ne last other
    have here := held (result.2 - 1) (by omega)
    rw [index, searched.free below] at here
    simp at here
  next i found =>
    obtain ⟨below, null, earlier⟩ := firstIndex_eq_some.mp found
    rw [decide_eq_true_iff] at null
    rcases Nat.lt_trichotomy result.2 (i + 1) with before | here | behind
    · have held := earlier (result.2 - 1) (by omega)
      rw [index, searched.free (by omega)] at held
      simp at held
    · exact here
    · exact absurd null (searched.used (i + 1) (Nat.le_add_left 1 i) behind)

/-- The loop stops where `freeSlot` says, and it reads entries of the table only. -/
theorem slotSearch_eq (stack : Tid → Stack) :
    (slotSearch stack maxThreads 1).2 = freeSlot stack ∧
      ∀ i ∈ (slotSearch stack maxThreads 1).1, 1 ≤ i ∧ i < maxThreads := by
  have searched := slotSearch_searched stack (Nat.le_add_left maxThreads 1) (by decide)
  exact ⟨searched.eq_freeSlot, searched.reads⟩

/-! ### The ids -/

section Ids

variable {k k' : Kernel} {o : Outcome}

theorem pthreadJoin_id {thread : Tid} (joined : pthreadJoin k thread = some (o, k')) :
    k'.id = k.id := by
  obtain ⟨-, ⟨-, -, eq, -⟩ | ⟨-, -, eq⟩⟩ := pthreadJoin_eq joined
  · rw [eq]
  · rw [eq]

theorem resume_id {resume : Resume} (resumed : k.resume resume = some (o, k')) :
    k'.id = k.id := by
  have tested : ∀ {b : Nat}, k.testBarrier b = some (o, k') → k'.id = k.id := by
    intro b tested
    obtain ⟨-, p, barrier, again, -, rfl⟩ := testBarrier_eq tested
    rfl
  cases resume with
  | exit => simp [Kernel.resume] at resumed
  | join thread => exact pthreadJoin_id resumed
  | blocked b => exact tested resumed
  | spin b => exact tested resumed
  | _ =>
    obtain ⟨-, rfl⟩ := Kernel.returns_eq resumed
    rfl

/-- Only `pthread_create` sets ids. -/
theorem step_id {event : Event} (stepped : k.step event = some (o, k'))
    (plain : event.isThread = true) (other : event ≠ .create) : k'.id = k.id := by
  have steps := Kernel.steps_of_step stepped
  cases event with
  | create => exact absurd rfl other
  | exit value =>
    obtain ⟨-, rfl⟩ := Kernel.schedules_eq steps.2
    rfl
  | join thread => exact pthreadJoin_id steps.2
  | timer =>
    obtain ⟨-, rfl⟩ := Kernel.schedules_eq steps.2.2
    rfl
  | switch =>
    obtain ⟨resume, -, switched⟩ := steps
    obtain ⟨p, -, resumed⟩ := switch_eq switched
    have same := resume_id resumed
    exact same
  | _ => simp [Event.isThread] at plain

/-! ### Before the first call -/

theorem Unstarted.initial (unstarted : Unstarted k) (calling : k.calling = none) : Initial k :=
  ⟨unstarted.isFirstCall, unstarted.current, unstarted.masked, calling, unstarted.mutex,
    unstarted.barrier⟩

/-- Every thread seems to have exited: `pthread_join` returns, and `schedule` finds nobody. -/
theorem Unstarted.step (unstarted : Unstarted k) {event : Event}
    (stepped : k.step event = some (o, k')) (plain : event.isThread = true)
    (other : event ≠ .create) : Unstarted k' := by
  have steps := Kernel.steps_of_step stepped
  cases event with
  | create => exact absurd rfl other
  | exit value =>
    obtain ⟨-, rfl⟩ := Kernel.schedules_eq steps.2
    refine { unstarted with status := fun tid inTable => ?_ }
    by_cases here : tid = k.process.current
    · exact here ▸ Function.update_self _ _ _
    · exact (Function.update_of_ne here _ _).trans (unstarted.status tid inTable)
  | join thread =>
    obtain ⟨inTable, ⟨-, -, eq, -⟩ | ⟨alive, -⟩⟩ := pthreadJoin_eq steps.2
    · rw [eq]
      exact { unstarted with }
    · exact absurd (unstarted.status thread inTable) alive
  | timer =>
    obtain ⟨-, rfl⟩ := Kernel.schedules_eq steps.2.2
    exact { unstarted with }
  | switch =>
    obtain ⟨resume, -, switched⟩ := steps
    obtain ⟨p, scheduled, -⟩ := switch_eq switched
    have table := schedule_switched scheduled
    have inTable : k.process.current < maxThreads := by
      rw [unstarted.current]
      decide
    have gone := unstarted.status p.current (table.inTable inTable)
    rcases table.active with ready | running
    · simp [ready] at gone
    · simp [running] at gone
  | _ => simp [Event.isThread] at plain

end Ids

/-- A new thread changes its own entry only. -/
theorem newThread_sameEntries (k : Kernel) (id : Nat) :
    SameEntries k { k.newThread id with calling := none } id where
  status _ other := Function.update_of_ne other _ _
  id _ other := Function.update_of_ne other _ _
  stack _ other := Function.update_of_ne other _ _
  regs _ other := Function.update_of_ne other _ _
  exitStatus _ _ := rfl

/-! ### The invariant -/

/-- The ids are the indices of the entries, those given away as well as the others, and the
threads there are have the ids below `num_threads`. -/
structure Registered (r : Roster) : Prop where
  phase : Unstarted r.kernel ∨ Orderly r.kernel
  filled : Filled (firstCall r.kernel)
  bounded : (firstCall r.kernel).numThreads ≤ maxThreads
  ids : ∀ tid < maxThreads, (firstCall r.kernel).id tid = tid
  births : ∀ birth, birth ∈ r.births ↔
    birth.1 = birth.2 ∧ 1 ≤ birth.2 ∧ birth.2 < (firstCall r.kernel).numThreads
  distinct : (r.births.map Prod.snd).Nodup

theorem firstCall_unstarted {k : Kernel} (first : k.isFirstCall = true) :
    (firstCall k).numThreads = 1 ∧ ∀ tid < maxThreads, (firstCall k).id tid = tid := by
  rw [firstCall, if_pos first]
  refine ⟨rfl, fun tid inTable => ?_⟩
  simp [schedulerInit, inTable]

theorem Unstarted.registered {k : Kernel} (unstarted : Unstarted k) : Registered ⟨k, []⟩ := by
  obtain ⟨number, ids⟩ := firstCall_unstarted unstarted.isFirstCall
  refine ⟨Or.inl unstarted, Filled.firstCall fun later => ?_, ?_, ids, fun birth => ?_,
    List.nodup_nil⟩
  · simp [unstarted.isFirstCall] at later
  · rw [number]
    decide
  · rw [number]
    simp only [List.not_mem_nil, false_iff]
    omega

section Registered

variable {r : Roster} (registered : Registered r)
include registered

/-- `pthread_create` refuses, and leaves all as it was, or it makes a thread of the next entry. -/
theorem Registered.create (calling : r.kernel.calling = none) :
    r.kernel.step .create = some (.created (-1) none, r.kernel) ∨
    ∃ id, id = (firstCall r.kernel).numThreads ∧ id < maxThreads ∧
      freeSlot (firstCall r.kernel).stack = id ∧
      r.kernel.step .create = some (.created 0 (some id),
        { (firstCall r.kernel).newThread id with calling := none }) := by
  have called : r.kernel.step .create = createThread (firstCall r.kernel) := by
    rw [Kernel.step, calling]
    rfl
  rw [called, createThread]
  by_cases full : (firstCall r.kernel).numThreads ≥ maxThreads
  · left
    -- the first call does not find the table full
    have later : r.kernel.isFirstCall = false := by
      cases first : r.kernel.isFirstCall with
      | false => rfl
      | true =>
        rw [(firstCall_unstarted first).1] at full
        exact absurd full (by decide)
    rw [if_pos full, firstCall_of_later later, Kernel.returns]
    congr 2
    exact Kernel.ext rfl rfl rfl rfl rfl rfl rfl rfl rfl rfl calling.symm
  · right
    have room := Nat.lt_of_not_le full
    have slot := registered.filled.freeSlot_eq room
    refine ⟨_, rfl, room, slot, ?_⟩
    rw [if_neg full, slot, if_neg full, Kernel.returns]

theorem Registered.newThread {id : Nat} (calling : r.kernel.calling = none)
    (next : id = (firstCall r.kernel).numThreads) (room : id < maxThreads)
    (slot : freeSlot (firstCall r.kernel).stack = id)
    (created : r.kernel.step .create = some (.created 0 (some id),
      { (firstCall r.kernel).newThread id with calling := none })) :
    Registered ⟨{ (firstCall r.kernel).newThread id with calling := none },
      (freeSlot (firstCall r.kernel).stack, id) :: r.births⟩ := by
  have done : firstCall { (firstCall r.kernel).newThread id with calling := none } = _ :=
    firstCall_of_later firstCall_isFirstCall
  have filled := registered.filled.newThread (next ▸ room)
  rw [slot] at filled ⊢
  -- the identifier, the entry of the table and the number of threads so far are one number
  refine ⟨Or.inr ?_, ?_, ?_, ?_, ?_, ?_⟩
  · rcases registered.phase with unstarted | orderly
    · exact (unstarted.initial calling).orderly created
    · exact (orderly.step created).1
  · rw [done]
    exact filled
  · rw [done]
    exact next ▸ room
  · intro tid inTable
    rw [done]
    by_cases here : tid = id
    · simp [Kernel.newThread, here, next]
    · simp only [Kernel.newThread, Function.update_of_ne here]
      exact registered.ids tid inTable
  · rintro ⟨entry, thread⟩
    rw [done, List.mem_cons, registered.births, Prod.mk.injEq]
    simp only [Kernel.newThread, ← next]
    have positive := registered.filled.positive
    rw [← next] at positive
    constructor
    · rintro (⟨rfl, rfl⟩ | ⟨same, lower, below⟩)
      · exact ⟨rfl, positive, Nat.lt_succ_self _⟩
      · exact ⟨same, lower, Nat.lt_succ_of_lt below⟩
    · rintro ⟨rfl, lower, below⟩
      rcases Nat.lt_succ_iff_lt_or_eq.mp below with before | rfl
      · exact Or.inr ⟨rfl, lower, before⟩
      · exact Or.inl ⟨rfl, rfl⟩
  · rw [List.map_cons, List.nodup_cons]
    -- earlier identifiers are below the counter, which is the new one
    refine ⟨fun member => ?_, registered.distinct⟩
    obtain ⟨birth, old, same⟩ := List.mem_map.mp member
    have below := ((registered.births birth).mp old).2.2
    rw [same, ← next] at below
    exact Nat.lt_irrefl id below

theorem Registered.step {r' : Roster} {event : Event} {o : Outcome}
    (plain : event.isThread = true) (stepped : r.step event = some (o, r')) : Registered r' := by
  unfold Roster.step at stepped
  split at stepped
  · simp at stepped
  next o' k' ran =>
    rw [Option.some.injEq, Prod.mk.injEq] at stepped
    obtain ⟨-, rfl⟩ := stepped
    -- only `pthread_create` makes an identifier or takes an entry
    by_cases create : event = .create
    · subst create
      have calling := (Kernel.steps_of_step ran).1
      rcases registered.create calling with refused | ⟨id, next, room, slot, created⟩
      · rw [refused, Option.some.injEq, Prod.mk.injEq] at ran
        obtain ⟨rfl, rfl⟩ := ran
        exact registered
      · have new := registered.newThread calling next room slot created
        rw [created, Option.some.injEq, Prod.mk.injEq] at ran
        obtain ⟨rfl, rfl⟩ := ran
        exact new
    · have births : r.record event o' = r.births := by
        cases event with
        | create => exact absurd rfl create
        | _ => rfl
      obtain ⟨isFirstCall, numThreads, stack⟩ := step_slots ran create
      obtain ⟨filled, number⟩ := registered.filled.congr isFirstCall numThreads stack
      rw [births]
      refine ⟨?_, filled, number ▸ registered.bounded, ?_, ?_, registered.distinct⟩
      · rcases registered.phase with unstarted | orderly
        · exact Or.inl (unstarted.step ran plain create)
        · exact Or.inr (orderly.step ran).1
      · -- before the first call the identifiers are those that it will set
        cases first : r.kernel.isFirstCall with
        | true => exact (firstCall_unstarted (isFirstCall.trans first)).2
        | false =>
          have ids := registered.ids
          rw [firstCall_of_later first] at ids
          rw [firstCall_of_later (isFirstCall.trans first), step_id ran plain create]
          exact ids
      · rw [number]
        exact registered.births

/-- Once there is a thread, the first call is over. -/
theorem Registered.started {birth : Tid × Nat} (member : birth ∈ r.births) :
    firstCall r.kernel = r.kernel := by
  obtain ⟨-, lower, below⟩ := (registered.births birth).mp member
  apply firstCall_of_later
  cases first : r.kernel.isFirstCall with
  | false => rfl
  | true =>
    rw [(firstCall_unstarted first).1] at below
    omega

/-- A thread of the table in user code is the main thread or one that `pthread_create` made. -/
theorem Registered.self (calling : r.kernel.calling = none) :
    (r.kernel.process.current = 0 ∧ pthreadSelf r.kernel = 0) ∨
      ∃ birth ∈ r.births, birth.1 = r.kernel.process.current ∧ pthreadSelf r.kernel = birth.2 := by
  rcases registered.phase with unstarted | orderly
  · left
    rw [pthreadSelf, unstarted.current]
    exact ⟨rfl, unstarted.id⟩
  · have later := firstCall_of_later orderly.isFirstCall
    have ids := registered.ids _ orderly.inTable
    rw [later] at ids
    by_cases main : r.kernel.process.current = 0
    · left
      rw [pthreadSelf, ids]
      exact ⟨main, main⟩
    · right
      refine ⟨(r.kernel.process.current, r.kernel.process.current), ?_, rfl, ids⟩
      have positive : 1 ≤ r.kernel.process.current := Nat.one_le_iff_ne_zero.mpr main
      rw [registered.births, later]
      refine ⟨rfl, positive, ?_⟩
      -- its entry has a stack, and those from `num_threads` on have none
      by_contra past
      have filled := registered.filled
      rw [later] at filled
      have null := (filled.stack _ positive orderly.inTable).mpr (Nat.le_of_not_lt past)
      exact main (orderly.current_used calling null)

end Registered

/-- **Ids name entries.** Whatever threads are created, exit and are joined: the ids that
`pthread_create` has stored are distinct and the indices of the entries that it has initialised,
from 1 to 127, `pthread_self` returns them, and the next `pthread_create` takes an entry that
nobody has had and touches no other, or returns -1 and touches none. -/
theorem threadIds_always {k₀ : Kernel} (unstarted : Unstarted k₀) {events : List Event}
    (plain : ∀ event ∈ events, event.isThread = true) {outputs : List Outcome} {r : Roster}
    (ran : Machine.run Roster.step ⟨k₀, []⟩ events = some (outputs, r)) :
    (∀ birth ∈ r.births, birth.1 = birth.2 ∧ 1 ≤ birth.2 ∧ birth.2 < maxThreads ∧
      r.kernel.id birth.1 = birth.2) ∧
    (r.births.map Prod.snd).Nodup ∧
    (r.kernel.calling = none →
      (r.kernel.process.current = 0 ∧ pthreadSelf r.kernel = 0) ∨
      ∃ birth ∈ r.births, birth.1 = r.kernel.process.current ∧ pthreadSelf r.kernel = birth.2) ∧
    (r.kernel.calling = none →
      r.kernel.step .create = some (.created (-1) none, r.kernel) ∨
      ∃ id k', r.kernel.step .create = some (.created 0 (some id), k') ∧
        1 ≤ id ∧ id < maxThreads ∧ (slotSearch (firstCall r.kernel).stack maxThreads 1).2 = id ∧
        (∀ birth ∈ r.births, birth.1 ≠ id ∧ firstCall r.kernel = r.kernel) ∧
        SameEntries (firstCall r.kernel) k' id) ∧
    ∀ i ∈ (slotSearch (firstCall r.kernel).stack maxThreads 1).1, i < maxThreads := by
  have registered : Registered r := by
    refine Machine.run_invariant Registered ?_ unstarted.registered
      (Machine.admits_of_forall plain) ran
    intro r event o r' registered plain stepped
    exact registered.step plain stepped
  -- what the loop of `pthread_create` reads, and where it ends
  obtain ⟨slot, reads⟩ := slotSearch_eq (firstCall r.kernel).stack
  refine ⟨?_, registered.distinct, registered.self, ?_, fun i member => (reads i member).2⟩
  · intro birth member
    obtain ⟨same, lower, below⟩ := (registered.births birth).mp member
    have inTable := Nat.lt_of_lt_of_le below registered.bounded
    have ids := registered.ids birth.1 (same ▸ inTable)
    rw [registered.started member] at ids
    exact ⟨same, lower, inTable, ids.trans same⟩
  · intro calling
    rcases registered.create calling with refused | ⟨id, next, room, free, created⟩
    · exact Or.inl refused
    · refine Or.inr ⟨id, _, created, next ▸ registered.filled.positive, room, slot.trans free, ?_,
        newThread_sameEntries _ id⟩
      intro birth member
      obtain ⟨same, -, below⟩ := (registered.births birth).mp member
      refine ⟨?_, registered.started member⟩
      rw [same, next]
      exact Nat.ne_of_lt below

theorem Kernel.loaded_unstarted : Unstarted Kernel.loaded :=
  ⟨rfl, rfl, rfl, fun _ => ⟨rfl, rfl⟩, fun _ => rfl, rfl, fun _ _ => rfl⟩

/-- Thread 1 exits and is joined before thread 2 is created. -/
theorem threadIds_always_two :
    ∃ outputs r, Machine.run Roster.step ⟨Kernel.loaded, []⟩
        [.create, .timer, .switch, .exit 7, .switch, .join 1, .create, .timer, .switch] =
          some (outputs, r) ∧
      r.births = [(2, 2), (1, 1)] ∧ r.kernel.process.current = 2 ∧
      ((r.kernel.process.current = 0 ∧ pthreadSelf r.kernel = 0) ∨
        ∃ birth ∈ r.births, birth.1 = r.kernel.process.current ∧
          pthreadSelf r.kernel = birth.2) := by
  have shown : (Machine.run Roster.step ⟨Kernel.loaded, []⟩
      [.create, .timer, .switch, .exit 7, .switch, .join 1, .create, .timer, .switch]).map
        (fun result => (result.2.births, result.2.kernel.process.current,
          result.2.kernel.calling)) = some ([(2, 2), (1, 1)], 2, none) := by decide +kernel
  obtain ⟨⟨outputs, r⟩, ran, eq⟩ := Option.map_eq_some_iff.mp shown
  simp only [Prod.mk.injEq] at eq
  obtain ⟨births, current, calling⟩ := eq
  exact ⟨outputs, r, ran, births, current,
    (threadIds_always Kernel.loaded_unstarted (by decide) ran).2.2.1 calling⟩

end OperatingSys.Threads
