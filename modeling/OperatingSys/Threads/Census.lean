import OperatingSys.Threads.Kernel
import Mathlib.Data.Finset.Range
import Mathlib.Data.Finset.SDiff
import Mathlib.Data.Finset.Card

/-!
# The number of threads

`pthread_create` refuses to create a thread when `num_threads` has reached the size of the
table. Nothing ever takes a thread off that number, and nothing gives an entry of the table
back: `pthread_join` frees the stack and leaves the pointer to it in the entry.
-/

namespace OperatingSys.Threads

open Search

/-- The library, and what its callers know of the threads: which there are, which have called
`pthread_exit`, and which a `pthread_join` has returned for. -/
structure Census where
  kernel : Kernel
  created : Finset Nat
  exited : Finset Nat
  joined : Finset Nat

namespace Census

/-- The main thread only. -/
def start (k : Kernel) : Census := ⟨k, {0}, ∅, ∅⟩

/-- The number of threads created and not yet exited and joined. -/
def live (c : Census) : Nat := (c.created \ (c.exited ∩ c.joined)).card

def creates (created : Finset Nat) : Event → Outcome → Finset Nat
  | .create, .created 0 (some thread) => insert thread created
  | _, _ => created

def exits (c : Census) : Event → Finset Nat
  | .exit _ => insert (pthreadSelf c.kernel) c.exited
  | _ => c.exited

def joins (joined : Finset Nat) : Outcome → Finset Nat
  | .joined thread _ => insert thread joined
  | _ => joined

def step (c : Census) (event : Event) : Option (Outcome × Census) :=
  match c.kernel.step event with
  | none => none
  | some (o, k) => some (o, ⟨k, creates c.created event o, c.exits event, joins c.joined o⟩)

end Census

/-- `pthread_create` returns 0. -/
def succeeds : Option (Outcome × Kernel) → Bool
  | some (.created 0 _, _) => true
  | _ => false

/-- User code that calls `pthread_create` while fewer than `MAX_THREADS` threads are left gets
another one. -/
def SlotsReclaimed (c : Census) (event : Event) : Prop :=
  event = .create → c.kernel.calling = none → c.live < maxThreads →
    succeeds (c.kernel.step event) = true

/-- User code that calls `pthread_create` while fewer than `MAX_THREADS` threads are left has not
created as many yet, the main thread and those that are gone included. -/
def SlotsUnused (c : Census) (event : Event) : Prop :=
  event = .create → c.kernel.calling = none → c.live < maxThreads →
    c.created.card < maxThreads

instance (c : Census) (event : Event) : Decidable (SlotsReclaimed c event) :=
  inferInstanceAs (Decidable (_ → _))

instance (c : Census) (event : Event) : Decidable (SlotsUnused c event) :=
  inferInstanceAs (Decidable (_ → _))

/-! ### Entries of the table -/

section Slots

variable {k k' : Kernel} {o : Outcome}

/-- Only `pthread_create` gives entries away. -/
theorem step_slots {event : Event} (stepped : k.step event = some (o, k'))
    (other : event ≠ .create) : k'.isFirstCall = k.isFirstCall ∧ k'.numThreads = k.numThreads ∧
      ∀ tid, k'.stack tid = .null ↔ k.stack tid = .null := by
  have of_frame : Frame k k' → k'.isFirstCall = k.isFirstCall ∧ k'.numThreads = k.numThreads ∧
      ∀ tid, k'.stack tid = .null ↔ k.stack tid = .null := fun frame =>
    ⟨frame.isFirstCall, frame.numThreads, frame.stack⟩
  have steps := Kernel.steps_of_step stepped
  cases event with
  | create => exact absurd rfl other
  | exit value =>
    obtain ⟨-, rfl⟩ := Kernel.schedules_eq steps.2
    exact ⟨rfl, rfl, fun _ => Iff.rfl⟩
  | join thread => exact of_frame (pthreadJoin_frame steps.2).1
  | lock m =>
    obtain ⟨p, mutex, progress, calling, -, -, -, rfl⟩ := afterMutex_eq steps.2
    exact ⟨rfl, rfl, fun _ => Iff.rfl⟩
  | unlock m =>
    obtain ⟨p, mutex, progress, calling, -, -, -, rfl⟩ := afterMutex_eq steps.2
    exact ⟨rfl, rfl, fun _ => Iff.rfl⟩
  | wait b => exact of_frame (pthreadBarrierWait_frame steps.2)
  | timer =>
    obtain ⟨-, rfl⟩ := Kernel.schedules_eq steps.2.2
    exact ⟨rfl, rfl, fun _ => Iff.rfl⟩
  | switch =>
    obtain ⟨resume, -, switched⟩ := steps
    exact of_frame (switch_frame switched)

/-- The entries are given away in order. -/
structure Filled (k : Kernel) : Prop where
  positive : 1 ≤ k.numThreads
  stack : ∀ tid : Nat, 1 ≤ tid → tid < maxThreads → (k.stack tid = .null ↔ k.numThreads ≤ tid)

theorem Filled.freeSlot_eq (filled : Filled k) (room : k.numThreads < maxThreads) :
    freeSlot k.stack = k.numThreads := by
  have positive := filled.positive
  -- the search starts at entry 1, so that its index is one less
  have slot : firstIndex (maxThreads - 1) (fun i => decide (k.stack (i + 1) = .null)) =
      some (k.numThreads - 1) := by
    rw [firstIndex_filled (m := k.numThreads - 1) (by omega), if_pos (by omega)]
    intro i below
    rw [decide_eq_true_iff, filled.stack (i + 1) (by omega) (by omega)]
    omega
  simp only [freeSlot, slot]
  omega

/-- The first call of `pthread_create` clears the table. -/
theorem Filled.firstCall (filled : k.isFirstCall = false → Filled k) : Filled (firstCall k) := by
  unfold Threads.firstCall
  split
  · refine ⟨Nat.le_refl 1, fun tid lower inTable => ?_⟩
    simp [schedulerInit, inTable, lower]
  next later => exact filled (by simpa using later)

/-- `pthread_create` succeeds while `num_threads` allows it. -/
theorem Filled.createThread (filled : Filled k) :
    succeeds (createThread k) = true ↔ k.numThreads < maxThreads := by
  unfold Threads.createThread
  by_cases full : k.numThreads ≥ maxThreads
  · rw [if_pos full]
    simp [Kernel.returns, succeeds, full]
  -- the search then finds an entry: the table is as full as `num_threads` says
  · have room : k.numThreads < maxThreads := Nat.lt_of_not_le full
    rw [if_neg full, if_neg (by rw [filled.freeSlot_eq room]; exact full)]
    simp [Kernel.returns, succeeds, room]

theorem firstCall_isFirstCall : (firstCall k).isFirstCall = false := by
  unfold Threads.firstCall
  split
  · rfl
  next later => simpa using later

/-- A new thread takes the next entry. -/
theorem Filled.newThread (filled : Filled k) (room : k.numThreads < maxThreads) :
    Filled { k.newThread (freeSlot k.stack) with calling := none } := by
  rw [filled.freeSlot_eq room]
  refine ⟨Nat.le_add_left 1 _, fun tid lower inTable => ?_⟩
  by_cases here : tid = k.numThreads
  · simp [Kernel.newThread, here]
  · simp only [Kernel.newThread, Function.update_of_ne here, filled.stack tid lower inTable]
    omega

/-- A step that gives no entry away. Before the first call the table holds anything, and the
call clears it. -/
theorem Filled.congr (filled : Filled (Threads.firstCall k))
    (isFirstCall : k'.isFirstCall = k.isFirstCall) (numThreads : k'.numThreads = k.numThreads)
    (stack : ∀ tid, k'.stack tid = .null ↔ k.stack tid = .null) :
    Filled (Threads.firstCall k') ∧
      (Threads.firstCall k').numThreads = (Threads.firstCall k).numThreads := by
  cases first : k.isFirstCall with
  | true =>
    have number : ∀ k : Kernel, k.isFirstCall = true → (Threads.firstCall k).numThreads = 1 := by
      intro k first
      simp [Threads.firstCall, first, schedulerInit]
    constructor
    · apply Filled.firstCall
      intro later
      simp [isFirstCall, first] at later
    · rw [number _ first, number _ (isFirstCall.trans first)]
  | false =>
    rw [firstCall_of_later first] at filled ⊢
    rw [firstCall_of_later (isFirstCall.trans first)]
    refine ⟨⟨numThreads ▸ filled.positive, fun tid lower inTable => ?_⟩, numThreads⟩
    rw [stack tid, numThreads, filled.stack tid lower inTable]

end Slots

/-! ### The count -/

/-- `num_threads` is the number of threads ever created, and the entries show it. -/
structure Counted (c : Census) : Prop where
  filled : Filled (firstCall c.kernel)
  created : c.created = Finset.range (firstCall c.kernel).numThreads

theorem Initial.counted {k : Kernel} (initial : Initial k) : Counted (Census.start k) := by
  refine ⟨Filled.firstCall fun later => ?_, ?_⟩
  · simp [Census.start, initial.isFirstCall] at later
  · simp [Census.start, firstCall, initial.isFirstCall, schedulerInit]

section Counted

variable {c : Census} {k' : Kernel} {o : Outcome} (counted : Counted c) (exited joined : Finset Nat)
include counted

theorem Counted.create (created : createThread (firstCall c.kernel) = some (o, k')) :
    Counted ⟨k', Census.creates c.created .create o, exited, joined⟩ := by
  rcases createThread_eq created with ⟨-, rfl, rfl⟩ | ⟨room, -, rfl, rfl⟩
  · have done := firstCall_of_later (k := { firstCall c.kernel with calling := none })
      firstCall_isFirstCall
    constructor
    · rw [done]
      exact ⟨counted.filled.positive, counted.filled.stack⟩
    · rw [done]
      exact counted.created
  · have done := firstCall_of_later (k := { (firstCall c.kernel).newThread
      (freeSlot (firstCall c.kernel).stack) with calling := none }) firstCall_isFirstCall
    constructor
    · rw [done]
      exact counted.filled.newThread room
    · rw [done]
      simp only [Census.creates, counted.created, Kernel.newThread]
      exact Finset.range_add_one.symm

theorem Counted.congr (isFirstCall : k'.isFirstCall = c.kernel.isFirstCall)
    (numThreads : k'.numThreads = c.kernel.numThreads)
    (stack : ∀ tid, k'.stack tid = .null ↔ c.kernel.stack tid = .null) :
    Counted ⟨k', c.created, exited, joined⟩ := by
  obtain ⟨filled, number⟩ := counted.filled.congr isFirstCall numThreads stack
  exact ⟨filled, number ▸ counted.created⟩

theorem Counted.step {c' : Census} {event : Event} (stepped : c.step event = some (o, c')) :
    Counted c' := by
  unfold Census.step at stepped
  split at stepped
  · simp at stepped
  next o' k' ran =>
    rw [Option.some.injEq, Prod.mk.injEq] at stepped
    obtain ⟨-, rfl⟩ := stepped
    by_cases create : event = .create
    · subst create
      exact counted.create _ _ (Kernel.steps_of_step ran).2
    · have created : Census.creates c.created event o' = c.created := by
        cases event with
        | create => exact absurd rfl create
        | _ => rfl
      obtain ⟨isFirstCall, numThreads, stack⟩ := step_slots ran create
      rw [created]
      exact counted.congr _ _ isFirstCall numThreads stack

end Counted

/-- **Slots are reclaimed exactly as long as unused ones are left.** In a run from before the
first `pthread_create`, every `pthread_create` called while fewer than `MAX_THREADS` threads are
not yet exited and joined returns 0, if and only if at each of these calls fewer than
`MAX_THREADS` threads have been created so far. -/
theorem slotsReclaimed_iff_slotsUnused {k : Kernel} (initial : Initial k) (events : List Event) :
    Machine.Admits Census.step SlotsReclaimed (Census.start k) events ↔
      Machine.Admits Census.step SlotsUnused (Census.start k) events := by
  refine Machine.admits_iff_admits Counted (fun c event counted _ => ?_)
    (fun c event o c' counted _ _ stepped => counted.step stepped) initial.counted
    (Machine.admits_true events)
  refine forall_congr' fun create => forall_congr' fun calling => forall_congr' fun _ => ?_
  -- both sides are about the same call, which looks at `num_threads` only
  have called : c.kernel.step event = createThread (firstCall c.kernel) := by
    rw [Kernel.step, calling, create]
    rfl
  rw [called, counted.filled.createThread, counted.created, Finset.card_range]

/-- Thread 1 exits and is joined, and another thread is created in its stead. -/
theorem slotsReclaimed_iff_slotsUnused_once :
    Machine.Admits Census.step SlotsReclaimed (Census.start Kernel.loaded)
      [.create, .create, .timer, .switch, .exit 0, .switch, .join 1, .create] :=
  (slotsReclaimed_iff_slotsUnused Kernel.loaded_initial _).mpr (by decide)

/-! ### A full table -/

/-- The library after `n` calls of `pthread_create`, the first thing the program does. -/
def Kernel.withThreads (n : Nat) : Kernel where
  process :=
    { status := fun tid =>
        if tid < maxThreads then (if tid ≤ n then .ready else .empty) else .exited
      current := 0
      masked := false
      nodes := fun _ => none
      next := 0 }
  isFirstCall := false
  numThreads := n + 1
  id := fun tid => if tid < maxThreads then tid else 0
  stack := fun tid => if 1 ≤ tid ∧ tid ≤ n then .allocated else .null
  exitStatus := fun _ => 0
  regs := fun tid => if tid = 0 then .create else .start
  armed := true
  mutexes := fun _ => pthreadMutexInit
  barriers := fun _ => pthreadBarrierInit 2
  calling := none

theorem firstCall_loaded : firstCall Kernel.loaded = Kernel.withThreads 0 := by
  have status : (schedulerInit Kernel.loaded).process.status =
      (Kernel.withThreads 0).process.status := by
    funext tid
    simp [schedulerInit, Kernel.loaded, Kernel.withThreads]
  have stack : (schedulerInit Kernel.loaded).stack = (Kernel.withThreads 0).stack := by
    funext tid
    have absent : ¬ (1 ≤ tid ∧ tid ≤ 0) := fun both => absurd (Nat.le_trans both.1 both.2) (by decide)
    simp only [schedulerInit, Kernel.loaded, Kernel.withThreads, ite_self, if_neg absent]
  have regs : Function.update Kernel.loaded.regs 0 .create = (Kernel.withThreads 0).regs := by
    funext tid
    simp [Function.update_apply, Kernel.loaded, Kernel.withThreads]
  exact Kernel.ext (congrArg (fun s => { Kernel.loaded.process with status := s }) status)
    rfl rfl rfl stack rfl regs rfl rfl rfl rfl

theorem createThread_withThreads {n : Nat} (room : n + 1 < maxThreads) :
    createThread (Kernel.withThreads n) =
      some (.created 0 (some (n + 1)), Kernel.withThreads (n + 1)) := by
  have filled : Filled (Kernel.withThreads n) := by
    refine ⟨Nat.le_add_left 1 n, fun tid lower _ => ?_⟩
    simp only [Kernel.withThreads, lower, true_and]
    by_cases used : tid ≤ n
    · rw [if_pos used]
      exact iff_of_false (by simp) (by omega)
    · rw [if_neg used]
      exact iff_of_true rfl (by omega)
  have slot : freeSlot (Kernel.withThreads n).stack = n + 1 := filled.freeSlot_eq room
  have below : ∀ tid : Nat, tid ≠ n + 1 → (tid ≤ n ↔ tid ≤ n + 1) := by omega
  -- field by field, the new thread makes the table for `n` threads into that for `n + 1`
  have status : Function.update (Kernel.withThreads n).process.status (n + 1) .ready =
      (Kernel.withThreads (n + 1)).process.status := by
    funext tid
    by_cases here : tid = n + 1
    · simp [Kernel.withThreads, here, room]
    · simp [Kernel.withThreads, here, below tid here]
  have stack : Function.update (Kernel.withThreads n).stack (n + 1) .allocated =
      (Kernel.withThreads (n + 1)).stack := by
    funext tid
    by_cases here : tid = n + 1
    · simp [Kernel.withThreads, here]
    · simp [Kernel.withThreads, here, below tid here]
  have id : Function.update (Kernel.withThreads n).id (n + 1) (n + 1) =
      (Kernel.withThreads (n + 1)).id := by
    funext tid
    by_cases here : tid = n + 1
    · simp [Kernel.withThreads, here, room]
    · simp [Kernel.withThreads, here]
  have regs : Function.update (Kernel.withThreads n).regs (n + 1) .start =
      (Kernel.withThreads (n + 1)).regs := by
    funext tid
    by_cases here : tid = n + 1
    · simp [Kernel.withThreads, here]
    · simp [Kernel.withThreads, here]
  have new : { (Kernel.withThreads n).newThread (n + 1) with calling := none } =
      Kernel.withThreads (n + 1) :=
    Kernel.ext (congrArg (fun s => { Kernel.loaded.process with status := s }) status)
      rfl rfl id stack rfl regs rfl rfl rfl rfl
  have number : ¬ (Kernel.withThreads n).numThreads ≥ maxThreads := Nat.not_le_of_lt room
  rw [createThread, slot, if_neg number, if_neg (Nat.not_le_of_lt room), Kernel.returns, new]
  rfl

def Census.withThreads (n : Nat) : Census := ⟨Kernel.withThreads n, Finset.range (n + 1), ∅, ∅⟩

theorem step_withThreads {n : Nat} (room : n + 1 < maxThreads) :
    (Census.withThreads n).step .create =
      some (.created 0 (some (n + 1)), Census.withThreads (n + 1)) := by
  have ran : (Census.withThreads n).kernel.step .create =
      some (.created 0 (some (n + 1)), Kernel.withThreads (n + 1)) :=
    createThread_withThreads room
  rw [Census.step, ran]
  simp only [Census.creates, Census.exits, Census.joins, Census.withThreads]
  rw [← Finset.range_add_one]

theorem step_start : (Census.start Kernel.loaded).step .create =
    (Census.withThreads 0).step .create := by
  have same : (Census.start Kernel.loaded).kernel.step .create =
      (Census.withThreads 0).kernel.step .create :=
    congrArg createThread firstCall_loaded
  rw [Census.step, Census.step, same]
  rfl

theorem run_withThreads {m n : Nat} (room : m + n < maxThreads) :
    ∃ outputs, Machine.run Census.step (Census.withThreads m) (List.replicate n .create) =
      some (outputs, Census.withThreads (m + n)) := by
  -- by induction on the number of calls, from any number of threads
  induction n generalizing m with
  | zero => exact ⟨[], rfl⟩
  | succ n ih =>
    obtain ⟨outputs, ran⟩ := ih (m := m + 1) (by omega)
    refine ⟨.created 0 (some (m + 1)) :: outputs, ?_⟩
    rw [List.replicate_succ, Machine.run, step_withThreads (by omega)]
    dsimp only
    rw [ran, Nat.succ_add_eq_add_succ]

/-- The program creates 127 threads, one of them exits and is joined, and `pthread_create`
refuses to create another one. -/
theorem joined_slot_lost :
    ¬ Machine.Admits Census.step SlotsReclaimed (Census.start Kernel.loaded)
      (.create :: (List.replicate 126 .create ++
        [.timer, .switch, .exit 0, .switch, .join 1, .create])) := by
  intro admitted
  obtain ⟨outputs, ran⟩ := run_withThreads (m := 1) (n := 126) (by decide)
  have full := (admitted.2 _ _ (step_start.trans (step_withThreads (by decide)))).of_append ran
  revert full
  decide +kernel

end OperatingSys.Threads
