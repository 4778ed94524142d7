import OperatingSys.Threads.Joining
import OperatingSys.Threads.RoundRobin

/-!
# The search of `schedule` ends

The loop of `schedule` ends when it comes to a ready thread. The current thread is one, since it
has just been made ready, unless it has exited or a signal has interrupted a `schedule`: then
another `schedule` has made the thread running again by the time the loop goes on, or the thread
that the interrupted `schedule` has chosen may no longer be one that can run. In these cases there
has to be another thread that is ready.
-/

namespace OperatingSys.Threads

/-- The loop of `schedule`. -/
def SchedulePoint.searching : SchedulePoint → Bool
  | .begin | .advance _ | .check _ => true
  | _ => false

/-- A call of `pthread_create`, `pthread_exit` or `pthread_join`. -/
def Request.isThread : Request → Bool
  | .create | .exit _ | .join _ => true
  | .lock _ | .unlock _ | .wait _ => false

def OnlyThreads (input : Input) : Prop := ∀ r, input = .request r → r.isThread = true

namespace Image

variable (s : Image)

def SomeReady : Prop := ∃ tid < maxThreads, s.status tid = .ready

/-- The current thread goes on at another point of the `schedule` it is in. -/
def atPoint (point : SchedulePoint) (handler : Bool) (rest : List Activation) : Image :=
  { s with running := { s.running with schedules := ⟨point, handler⟩ :: rest } }

/-- If this is the loop of `schedule`, some thread is ready, and the loop ends there within
`MAX_THREADS` rounds of two statements. -/
def SearchEnds : Prop :=
  ∀ a rest, s.running.schedules = a :: rest → a.point.searching = true →
    s.SomeReady ∧ ∃ n ≤ 2 * maxThreads + 1, ∃ outputs next,
      s.status next = .ready ∧
      Machine.run Image.step s (List.replicate n .statement) =
        some (outputs, s.atPoint (.test next) a.handler rest)

end Image

/-- The thread that sets its status to exited is not the last one that could run. A `schedule`
whose loop a signal has interrupted goes on only when some thread is ready, and so does one that
has been called from a handler inside of another `schedule`, unless the current thread is running
and will be made ready. -/
def LeavesReady (s : Image) : Input → Prop
  | .statement =>
    match s.running.schedules, s.running.call with
    | [], some (.exit .setStatus _) => ∃ tid < maxThreads, tid ≠ s.current ∧ s.status tid = .ready
    | ⟨.ret, _⟩ :: a :: _, _ => a.point.searching = true → s.SomeReady
    | ⟨.enter, _⟩ :: _ :: _, _ => s.status s.current ≠ .running → s.SomeReady
    | _, _ => True
  | _ => True

instance (s : Image) : Decidable s.SomeReady :=
  inferInstanceAs (Decidable (∃ tid < maxThreads, s.status tid = .ready))

instance (s : Image) (input : Input) : Decidable (LeavesReady s input) :=
  match input with
  | .statement =>
    decidable_of_iff ((match s.running.schedules, s.running.call with
      | [], some (.exit .setStatus _) =>
        decide (∃ tid < maxThreads, tid ≠ s.current ∧ s.status tid = .ready)
      | ⟨.ret, _⟩ :: a :: _, _ => decide (a.point.searching = true → s.SomeReady)
      | ⟨.enter, _⟩ :: _ :: _, _ => decide (s.status s.current ≠ .running → s.SomeReady)
      | _, _ => true) = true) (by
        simp only [LeavesReady]
        split <;> simp only [decide_eq_true_eq])
  | .request _ => isTrue (by simp [LeavesReady])
  | .signal => isTrue (by simp [LeavesReady])

instance (input : Input) : Decidable (OnlyThreads input) :=
  match input with
  | .request r => decidable_of_iff (r.isThread = true) (by simp [OnlyThreads])
  | .statement => isTrue (by simp [OnlyThreads])
  | .signal => isTrue (by simp [OnlyThreads])

/-! ### The loop -/

section Loop

variable {s : Image} {handler : Bool} {rest : List Activation}

theorem search_of_someReady (ready : s.SomeReady) {tid : Tid} (inTable : tid < maxThreads) :
    ∃ next, search s.status maxThreads tid = some next := by
  obtain ⟨other, below, here⟩ := ready
  rw [search_around _ inTable, ← Option.isSome_iff_exists, List.find?_isSome]
  refine ⟨other, (Cyclic.after_perm tid).mem_iff.mpr (List.mem_range.mpr below), ?_⟩
  simpa using here

/-- One round of the loop. -/
theorem search_round {tid : Tid} (top : s.running.schedules = ⟨.advance tid, handler⟩ :: rest) :
    s.step .statement = some (none, s.atPoint (.check (following tid)) handler rest) ∧
    (s.atPoint (.check (following tid)) handler rest).step .statement = some (none,
      s.atPoint (if s.status (following tid) = .ready then .test (following tid)
        else .advance (following tid)) handler rest) := by
  constructor
  · simp only [Image.step, Image.statement, top, Image.scheduleStatement, Option.map_some]
    rfl
  · rfl

/-- The statements of the loop do what `search` does. -/
theorem search_run {rounds : Nat} {tid next : Tid} (hit : search s.status rounds tid = some next)
    (top : s.running.schedules = ⟨.advance tid, handler⟩ :: rest) :
    ∃ n ≤ 2 * rounds, ∃ outputs, Machine.run Image.step s (List.replicate n .statement) =
      some (outputs, s.atPoint (.test next) handler rest) := by
  induction rounds generalizing s tid with
  | zero => simp [search] at hit
  | succ rounds ih =>
    obtain ⟨first, second⟩ := search_round top
    rw [search] at hit
    split at hit
    next ready =>
      rw [Option.some.injEq] at hit
      subst hit
      rw [if_pos ready] at second
      refine ⟨2, by omega, [none, none], ?_⟩
      simp only [List.replicate_succ, List.replicate_zero, Machine.run, first, second]
    next other =>
      rw [if_neg other] at second
      obtain ⟨n, within, outputs, ran⟩ :=
        ih (s := s.atPoint (.advance (following tid)) handler rest) hit rfl
      refine ⟨n + 2, by omega, none :: none :: outputs, ?_⟩
      simp only [List.replicate_succ, Machine.run, first, second, ran]
      rfl

/-- From anywhere in the loop. -/
theorem Image.SomeReady.searchEnds (ready : s.SomeReady) (inTable : s.current < maxThreads)
    (inside : ∀ a ∈ s.running.schedules, a.point.InTable) : s.SearchEnds := by
  rintro ⟨point, handler⟩ rest top searching
  refine ⟨ready, ?_⟩
  have here : point.InTable := inside ⟨point, handler⟩ (by rw [top]; exact List.mem_cons_self)
  -- the loop from its first statement on
  have loops : ∀ tid < maxThreads, ∃ n ≤ 2 * maxThreads, ∃ outputs next, s.status next = .ready ∧
      Machine.run Image.step (s.atPoint (.advance tid) handler rest)
        (List.replicate n .statement) = some (outputs, s.atPoint (.test next) handler rest) := by
    intro tid below
    obtain ⟨next, hit⟩ := search_of_someReady ready below
    obtain ⟨n, within, outputs, ran⟩ :=
      search_run (s := s.atPoint (.advance tid) handler rest) hit rfl
    exact ⟨n, within, outputs, next, search_ready hit, ran⟩
  -- and with one statement before it
  have after : ∀ tid < maxThreads,
      s.step .statement = some (none, s.atPoint (.advance tid) handler rest) →
      ∃ n ≤ 2 * maxThreads + 1, ∃ outputs next, s.status next = .ready ∧
        Machine.run Image.step s (List.replicate n .statement) =
          some (outputs, s.atPoint (.test next) handler rest) := by
    intro tid below stepped
    obtain ⟨n, within, outputs, next, found, ran⟩ := loops tid below
    refine ⟨n + 1, Nat.succ_le_succ within, none :: outputs, next, found, ?_⟩
    simp only [List.replicate_succ, Machine.run, stepped, ran]
  cases point with
  | begin =>
    apply after s.current inTable
    simp only [Image.step, Image.statement, top, Image.scheduleStatement, Option.map_some]
    rfl
  | advance tid =>
    obtain ⟨n, within, outputs, next, found, ran⟩ := loops tid here
    refine ⟨n, Nat.le_succ_of_le within, outputs, next, found, ?_⟩
    have same : s.atPoint (.advance tid) handler rest = s := by rw [Image.atPoint, ← top]
    rw [← same]
    exact ran
  | check tid =>
    have stepped : s.step .statement = some (none,
        s.atPoint (if s.status tid = .ready then .test tid else .advance tid) handler rest) := by
      simp only [Image.step, Image.statement, top, Image.scheduleStatement, Option.map_some]
      rfl
    split at stepped
    next found =>
      refine ⟨1, by decide, [none], tid, found, ?_⟩
      simp only [List.replicate_succ, List.replicate_zero, Machine.run, stepped]
    next => exact after tid here stepped
  | _ => simp [SchedulePoint.searching] at searching

end Loop

/-! ### The invariant -/

/-- A call of `pthread_create`, `pthread_exit` or `pthread_join`, or the return from one. -/
def Call.isThread : Call → Bool
  | .create .. | .exit .. | .join .. | .ret _ => true
  | .lock _ | .unlock _ | .wait .. => false

namespace Context

/-- The innermost `schedule` is in its loop. -/
def searching (c : Context) : Bool :=
  match c.schedules with
  | [] => false
  | a :: _ => a.point.searching

/-- The innermost `schedule` has not looked at the current thread yet: it is about to mark it as
running, or it has been called inside of another `schedule`. -/
def unsettled (c : Context) : Bool :=
  match c.schedules with
  | ⟨.mark, _⟩ :: _ => true
  | ⟨.enter, _⟩ :: _ :: _ => true
  | _ => false

structure Sound (c : Context) : Prop where
  inTable : ∀ a ∈ c.schedules, a.point.InTable
  call : ∀ call ∈ c.call, call.isThread = true

end Context

/-- There is a thread that `schedule` can find: one that is ready, or the current one, which
`schedule` will make ready first. -/
structure Served (s : Image) : Prop where
  isFirstCall : s.kernel.isFirstCall = false
  inTable : s.current < maxThreads
  running : s.running.Sound
  saved : ∀ tid c, s.regs tid = some c → c.Sound ∧ c.searching = false
  ready : s.SomeReady ∨ (s.status s.current = .running ∧ s.running.searching = false) ∨
    s.running.unsettled = true

theorem Context.searching_of_unsettled {c : Context} (unsettled : c.unsettled = true) :
    c.searching = false := by
  unfold Context.unsettled at unsettled
  unfold Context.searching
  split at unsettled
  · simp_all [SchedulePoint.searching]
  · simp_all [SchedulePoint.searching]
  · simp at unsettled

theorem Served.someReady {s : Image} (served : Served s) (searching : s.running.searching = true) :
    s.SomeReady := by
  rcases served.ready with ready | ⟨-, other⟩ | unsettled
  · exact ready
  · simp [other] at searching
  · simp [Context.searching_of_unsettled unsettled] at searching

theorem Served.searchEnds {s : Image} (served : Served s) : s.SearchEnds := by
  intro a rest top searching
  have loop : s.running.searching = true := by
    rw [Context.searching, top]
    exact searching
  exact (served.someReady loop).searchEnds served.inTable served.running.inTable a rest top
    searching

section Served

variable {s s' : Image} (served : Served s)
include served

/-- Once `schedule` has looked at the current thread. -/
theorem Served.settled (settled : s.running.unsettled = false) :
    s.SomeReady ∨ s.status s.current = .running := by
  rcases served.ready with ready | ⟨running, -⟩ | unsettled
  · exact Or.inl ready
  · exact Or.inr running
  · simp [settled] at unsettled

/-- A step that changes no status, or only makes threads ready. -/
theorem Served.goes (isFirstCall : s'.kernel.isFirstCall = s.kernel.isFirstCall)
    (status : ∀ tid < maxThreads, s'.status tid = s.status tid ∨ s'.status tid = .ready)
    (current : s'.current = s.current)
    (saved : ∀ tid c, s'.regs tid = some c → c.Sound ∧ c.searching = false)
    (sound : s'.running.Sound)
    (ready : s.SomeReady ∨ (s.status s.current = .running ∧ s'.running.searching = false) ∨
      s'.running.unsettled = true) : Served s' := by
  refine ⟨isFirstCall.trans served.isFirstCall, current ▸ served.inTable, sound, saved, ?_⟩
  rcases ready with ⟨tid, inTable, ready⟩ | ⟨running, loop⟩ | unsettled
  · refine Or.inl ⟨tid, inTable, ?_⟩
    rcases status tid inTable with same | ready
    · rw [same, ready]
    · exact ready
  · rcases status s.current served.inTable with same | ready
    · exact Or.inr (Or.inl ⟨by rw [current, same, running], loop⟩)
    · exact Or.inl ⟨s.current, served.inTable, ready⟩
  · exact Or.inr (Or.inr unsettled)

/-- The registers of one thread are replaced. -/
theorem Served.saved_update {tid : Tid} {entry : Option Context}
    (good : ∀ c, entry = some c → c.Sound ∧ c.searching = false) (other : Tid) (c : Context)
    (saved : Function.update s.regs tid entry other = some c) : c.Sound ∧ c.searching = false := by
  by_cases here : other = tid
  · subst here
    rw [Function.update_self] at saved
    exact good c saved
  · rw [Function.update_of_ne here] at saved
    exact served.saved other c saved

section Schedule

variable {handler : Bool} {rest : List Activation} {point : SchedulePoint}
  (top : s.running.schedules = ⟨point, handler⟩ :: rest)
include top

theorem Served.sound_atPoint {point' : SchedulePoint} (inTable : point'.InTable) :
    (s.atPoint point' handler rest).running.Sound := by
  refine ⟨?_, served.running.call⟩
  rintro a member
  rcases List.mem_cons.mp member with rfl | below
  · exact inTable
  · exact served.running.inTable a (by rw [top]; exact List.mem_cons_of_mem _ below)

/-- `schedule` goes on to another statement. -/
theorem Served.atPoint {point' : SchedulePoint} (inTable : point'.InTable)
    (ready : s.SomeReady ∨ (s.status s.current = .running ∧ point'.searching = false)) :
    Served (s.atPoint point' handler rest) :=
  served.goes rfl (fun _ _ => Or.inl rfl) rfl served.saved (served.sound_atPoint top inTable)
    (ready.imp_right Or.inl)

theorem Served.schedule (leaves : LeavesReady s .statement)
    (ran : s.scheduleStatement ⟨point, handler⟩ rest = some s') : Served s' := by
  have inTable : point.InTable :=
    served.running.inTable ⟨point, handler⟩ (by rw [top]; exact List.mem_cons_self)
  have loop : point.searching = true → s.SomeReady := by
    intro searching
    apply served.someReady
    rw [Context.searching, top]
    exact searching
  -- but for the first statement and the mark
  have settled : s.running.unsettled = false → s.SomeReady ∨ s.status s.current = .running :=
    served.settled
  cases point with
  | enter =>
    simp only [Image.scheduleStatement, Option.some.injEq] at ran
    subst ran
    split
    next running => exact served.atPoint top trivial (Or.inr ⟨running, rfl⟩)
    next idle =>
      -- a thread that is not running is not what keeps the others waiting
      refine served.atPoint top trivial (Or.inl ?_)
      cases rest with
      | nil => exact (settled (by rw [Context.unsettled, top])).resolve_right idle
      | cons a rest =>
        simp only [LeavesReady, top] at leaves
        exact leaves idle
  | preempt =>
    cases ran
    refine ⟨served.isFirstCall, served.inTable, served.sound_atPoint top trivial, served.saved,
      Or.inl ⟨s.current, served.inTable, ?_⟩⟩
    exact Function.update_self _ _ _
  | begin =>
    cases ran
    exact served.atPoint top served.inTable (Or.inl (loop rfl))
  | advance next =>
    cases ran
    exact served.atPoint top (following_lt inTable) (Or.inl (loop rfl))
  | check next =>
    simp only [Image.scheduleStatement, Option.some.injEq] at ran
    subst ran
    split
    · exact served.atPoint top inTable (Or.inl (loop rfl))
    · exact served.atPoint top inTable (Or.inl (loop rfl))
  | test next =>
    have ready := settled (by rw [Context.unsettled, top])
    simp only [Image.scheduleStatement, Option.some.injEq] at ran
    subst ran
    split
    · exact served.atPoint top inTable (ready.imp_right fun running => ⟨running, rfl⟩)
    · exact served.atPoint top inTable (ready.imp_right fun running => ⟨running, rfl⟩)
  | setjmp next =>
    have ready := settled (by rw [Context.unsettled, top])
    cases ran
    refine served.goes rfl (fun _ _ => Or.inl rfl) rfl (served.saved_update ?_)
      (served.sound_atPoint top inTable) (ready.imp_right fun running => Or.inl ⟨running, rfl⟩)
    rintro c ⟨⟩
    exact ⟨served.sound_atPoint top trivial, rfl⟩
  | choose next =>
    cases ran
    exact ⟨served.isFirstCall, inTable, served.sound_atPoint top trivial, served.saved,
      Or.inr (Or.inr rfl)⟩
  | mark =>
    cases ran
    refine ⟨served.isFirstCall, served.inTable, served.sound_atPoint top trivial, served.saved,
      Or.inr (Or.inl ⟨?_, rfl⟩)⟩
    exact Function.update_self _ _ _
  | jump =>
    have ready := settled (by rw [Context.unsettled, top])
    obtain ⟨c, saved, rfl⟩ := Option.map_eq_some_iff.mp ran
    obtain ⟨sound, idle⟩ := served.saved _ c saved
    exact served.goes rfl (fun _ _ => Or.inl rfl) rfl served.saved sound
      (ready.imp_right fun running => Or.inl ⟨running, idle⟩)
  | ret =>
    have ready := settled (by rw [Context.unsettled, top])
    cases ran
    refine served.goes rfl (fun _ _ => Or.inl rfl) rfl served.saved ⟨?_, served.running.call⟩ ?_
    · intro a member
      exact served.running.inTable a (by rw [top]; exact List.mem_cons_of_mem _ member)
    · cases rest with
      | nil => exact ready.imp_right fun running => Or.inl ⟨running, rfl⟩
      | cons a rest =>
        -- back in a `schedule` that the signal had interrupted
        simp only [LeavesReady, top] at leaves
        cases searching : a.point.searching with
        | true => exact Or.inl (leaves searching)
        | false => exact ready.imp_right fun running => Or.inl ⟨running, searching⟩

end Schedule

section Call

variable (idle : s.running.schedules = [])
include idle

/-- A statement of one of the calls leads to another one, or to its `schedule`. -/
theorem Served.calls (isFirstCall : s'.kernel.isFirstCall = s.kernel.isFirstCall)
    (status : ∀ tid < maxThreads, s'.status tid = s.status tid ∨ s'.status tid = .ready)
    (current : s'.current = s.current)
    (saved : ∀ tid c, s'.regs tid = some c → c.Sound ∧ c.searching = false)
    (schedules : s'.running.schedules = s.running.schedules ∨
      s'.running.schedules = ⟨.enter, false⟩ :: s.running.schedules)
    (call : ∀ call ∈ s'.running.call, call.isThread = true) : Served s' := by
  have ready := served.settled (by rw [Context.unsettled, idle])
  rw [idle] at schedules
  refine served.goes isFirstCall status current saved ⟨?_, call⟩
    (ready.imp_right fun running => Or.inl ⟨running, ?_⟩)
  · rcases schedules with none_ | one
    · simp [none_]
    · simp [one, SchedulePoint.InTable]
  · rcases schedules with none_ | one
    · simp [Context.searching, none_]
    · simp [Context.searching, one, SchedulePoint.searching]

/-- Most statements touch neither the statuses nor the registers. -/
theorem Served.proceeds (isFirstCall : s'.kernel.isFirstCall = s.kernel.isFirstCall)
    (process : s'.kernel.process = s.kernel.process) (regs : s'.regs = s.regs)
    (schedules : s'.running.schedules = s.running.schedules ∨
      s'.running.schedules = ⟨.enter, false⟩ :: s.running.schedules)
    (call : ∀ call ∈ s'.running.call, call.isThread = true) : Served s' := by
  refine served.calls idle isFirstCall (fun tid _ => Or.inl ?_) ?_ ?_ schedules call
  · simp only [Image.status, process]
  · simp only [Image.current, process]
  · rw [regs]
    exact served.saved

theorem Served.create {point : CreatePoint} {tid : Tid} {thread : Nat}
    (ran : s.createStatement tid thread point = some s') : Served s' := by
  -- the call that the thread is in afterwards
  have call : ∀ {s : Image} {c : Call}, c.isThread = true →
      ∀ call ∈ (s.goto c).running.call, call.isThread = true := by
    rintro s c plain call ⟨⟩
    exact plain
  -- a thread is marked as ready
  have marks : ∀ {tid other : Tid}, (s.setStatus tid .ready).status other = s.status other ∨
      (s.setStatus tid .ready).status other = .ready := by
    intro tid other
    by_cases here : other = tid
    · exact Or.inr (here ▸ Function.update_self _ _ _)
    · exact Or.inl (Function.update_of_ne here _ _)
  cases point with
  | first =>
    simp only [Image.createStatement, served.isFirstCall, Bool.false_eq_true, if_false] at ran
    cases ran
    exact served.proceeds idle rfl rfl rfl (Or.inl rfl) (call rfl)
  | ready =>
    cases ran
    exact served.calls idle rfl (fun _ _ => marks) rfl served.saved (Or.inl rfl) (call rfl)
  | setjmp =>
    cases ran
    refine served.calls idle rfl (fun _ _ => Or.inl rfl) rfl (served.saved_update ?_) (Or.inl rfl)
      (call rfl)
    rintro c ⟨⟩
    refine ⟨⟨served.running.inTable, ?_⟩, by simp [Context.searching, idle]⟩
    rintro _ ⟨⟩
    rfl
  | search =>
    simp only [Image.createStatement] at ran
    split at ran
    · cases ran
      exact served.proceeds idle rfl rfl rfl (Or.inl rfl) (call rfl)
    · cases ran
      exact served.proceeds idle rfl rfl rfl (Or.inl rfl) (call rfl)
  | limit =>
    simp only [Image.createStatement] at ran
    split at ran
    · cases ran
      exact served.proceeds idle rfl rfl rfl (Or.inl rfl) (call rfl)
    · cases ran
      exact served.proceeds idle rfl rfl rfl (Or.inl rfl) (call rfl)
  | setPc =>
    simp only [Image.createStatement] at ran
    split at ran
    · simp at ran
    · cases ran
      exact served.calls idle rfl (fun _ _ => Or.inl rfl) rfl (served.saved_update (by simp))
        (Or.inl rfl) (call rfl)
  | setRsp =>
    cases ran
    refine served.calls idle rfl (fun _ _ => Or.inl rfl) rfl (served.saved_update ?_) (Or.inl rfl)
      (call rfl)
    rintro c ⟨⟩
    exact ⟨⟨by simp, by simp⟩, rfl⟩
  | setStatus =>
    cases ran
    exact served.calls idle rfl (fun _ _ => marks) rfl served.saved (Or.inl rfl) (call rfl)
  | _ =>
    cases ran
    exact served.proceeds idle rfl rfl rfl (Or.inl rfl) (call rfl)

theorem Served.exit {point : ExitPoint} {value : BitVec 64}
    (here : s.running.call = some (.exit point value)) (leaves : LeavesReady s .statement)
    (ran : s.exitStatement value point = some s') : Served s' := by
  cases point with
  | setStatus =>
    cases ran
    simp only [LeavesReady, idle, here] at leaves
    obtain ⟨tid, inTable, other, ready⟩ := leaves
    refine ⟨served.isFirstCall, served.inTable, ⟨?_, ?_⟩, served.saved, Or.inl ⟨tid, inTable, ?_⟩⟩
    · exact served.running.inTable
    · simp [Image.goto, Call.isThread]
    · exact (Function.update_of_ne other _ _).trans ready
  | schedule =>
    cases ran
    exact served.proceeds idle rfl rfl rfl (Or.inr rfl)
      (by simp [Image.schedules, Call.isThread])
  | exit => simp [Image.exitStatement] at ran
  | _ =>
    cases ran
    exact served.proceeds idle rfl rfl rfl (Or.inl rfl)
      (by simp [Image.goto, Call.isThread])

theorem Served.join {point : JoinPoint} {thread : Tid} {joins : Image.Joins}
    (ran : s.joinStatement thread point = some (joins, s')) : Served s' := by
  cases point with
  | test =>
    simp only [Image.joinStatement] at ran
    split at ran
    · simp at ran
    · split at ran
      · cases ran
        exact served.proceeds idle rfl rfl rfl (Or.inl rfl)
          (by simp [Image.goto, Call.isThread])
      · cases ran
        exact served.proceeds idle rfl rfl rfl (Or.inr rfl)
          (by simp [Image.schedules, Call.isThread])
  | free =>
    obtain ⟨k, freed, pair⟩ := Option.map_eq_some_iff.mp ran
    obtain ⟨-, rfl⟩ := Prod.mk.inj pair
    obtain ⟨same, -, -⟩ := freeStack_null freed
    rw [same]
    exact served.proceeds idle rfl rfl rfl (Or.inl rfl)
      (by simp [Image.goto, Call.isThread])
  | store =>
    cases ran
    exact served.proceeds idle rfl rfl rfl (Or.inl rfl)
      (by simp [Image.goto, Call.isThread])
  | ret value =>
    cases ran
    exact served.proceeds idle rfl rfl rfl (Or.inl rfl)
      (by simp [Image.leave])

theorem Served.call {call : Call} {joins : Image.Joins} (here : s.running.call = some call)
    (leaves : LeavesReady s .statement) (ran : s.callStatement call = some (joins, s')) :
    Served s' := by
  have plain : call.isThread = true := served.running.call call here
  cases call with
  | create point tid thread =>
    obtain ⟨_, stepped, pair⟩ := Option.map_eq_some_iff.mp ran
    obtain ⟨-, rfl⟩ := Prod.mk.inj pair
    exact served.create idle stepped
  | exit point value =>
    obtain ⟨_, stepped, pair⟩ := Option.map_eq_some_iff.mp ran
    obtain ⟨-, rfl⟩ := Prod.mk.inj pair
    exact served.exit idle here leaves stepped
  | join point thread => exact served.join idle ran
  | ret value =>
    cases ran
    exact served.proceeds idle rfl rfl rfl (Or.inl rfl) (by simp [Image.leave])
  | _ => simp [Call.isThread] at plain

end Call

theorem Served.signal (signalled : s.signal = some s') : Served s' := by
  unfold Image.signal at signalled
  split at signalled
  · simp at signalled
  · cases signalled
    refine served.goes rfl (fun _ _ => Or.inl rfl) rfl served.saved ⟨?_, served.running.call⟩ ?_
    · intro a member
      rcases List.mem_cons.mp member with rfl | below
      · trivial
      · exact served.running.inTable a below
    · cases schedules : s.running.schedules with
      | nil =>
        have ready := served.settled (by rw [Context.unsettled, schedules])
        exact ready.imp_right fun running => Or.inl ⟨running, rfl⟩
      | cons a rest => exact Or.inr (Or.inr rfl)

theorem Served.request {r : Request} (thread : r.isThread = true)
    (requested : s.request r = some s') : Served s' := by
  have call : r.call.isThread = true := by
    cases r <;> simp_all [Request.isThread, Request.call, Call.isThread]
  unfold Image.request at requested
  split at requested
  next user =>
    -- the value of an exit is noted, and the search does not depend on it
    split at requested
    all_goals
      cases requested
      exact served.proceeds user.2 rfl rfl rfl (Or.inl rfl) (by simpa [Image.goto] using call)
  · simp at requested

theorem Served.step {input : Input} {joins : Image.Joins} (plain : OnlyThreads input)
    (leaves : LeavesReady s input) (stepped : s.step input = some (joins, s')) : Served s' := by
  cases input with
  | statement =>
    cases schedules : s.running.schedules with
    | cons a rest =>
      simp only [Image.step, Image.statement, schedules] at stepped
      obtain ⟨_, ran, pair⟩ := Option.map_eq_some_iff.mp stepped
      obtain ⟨-, rfl⟩ := Prod.mk.inj pair
      exact served.schedule schedules leaves ran
    | nil =>
      cases call : s.running.call with
      | none => simp [Image.step, Image.statement, schedules, call] at stepped
      | some call =>
        simp only [Image.step, Image.statement, schedules, call] at stepped
        exact served.call schedules call leaves stepped
  | signal =>
    obtain ⟨_, signalled, pair⟩ := Option.map_eq_some_iff.mp stepped
    obtain ⟨-, rfl⟩ := Prod.mk.inj pair
    exact served.signal signalled
  | request r =>
    obtain ⟨_, requested, pair⟩ := Option.map_eq_some_iff.mp stepped
    obtain ⟨-, rfl⟩ := Prod.mk.inj pair
    exact served.request (plain r rfl) requested

end Served

theorem Initial.served {k : Kernel} (initial : Initial k) : Served (Image.initialised k) := by
  have current : (Image.initialised k).current = 0 := initial.current
  have main : (Image.initialised k).status 0 = .ready := by
    simp [Image.status, Image.initialised, schedulerInit, maxThreads]
  refine ⟨rfl, by rw [current]; decide, ⟨?_, ?_⟩, ?_, Or.inl ⟨0, by decide, main⟩⟩
  · intro a member
    exact absurd member List.not_mem_nil
  · rintro call ⟨⟩
    rfl
  · intro tid c saved
    simp [Image.initialised, Image.start] at saved

/-- **The search ends.** From the first `pthread_create` on, whatever threads are created, exit or
are joined and whenever `SIGALRM` arrives, as long as the last thread that could run does not exit
and no interrupted `schedule` goes on without a ready thread: wherever the loop of `schedule` is,
some thread is ready, and the loop ends within `MAX_THREADS` rounds. -/
theorem searchEnds_of_leavesReady {k : Kernel} (initial : Initial k) {inputs : List Input}
    (leaves : Machine.Admits Image.step (fun s input => OnlyThreads input ∧ LeavesReady s input)
      (Image.start k) inputs) :
    Machine.Always Image.step Image.SearchEnds (Image.start k) inputs := by
  apply Machine.always_of_invariant (fun s => s = Image.start k ∨ Served s) ?_ ?_ (Or.inl rfl) leaves
  · rintro s (rfl | served)
    · intro a rest top
      simp [Image.start] at top
    · exact served.searchEnds
  · rintro s input joins s' (rfl | served) ⟨plain, leaves⟩ stepped
    · obtain ⟨-, rfl⟩ := initial.step_start stepped
      exact Or.inr initial.served
    · exact Or.inr (served.step plain leaves stepped)

/-- The main thread joins thread 1, and `SIGALRM` arrives in the loop of its `schedule`. Another one
interrupts thread 1, and the main thread goes on in that loop. -/
def resumedSearch : List Input :=
  statements 16 ++ [.request (.join 1)] ++ statements 3 ++ [.signal] ++ statements 9 ++ [.signal] ++
    statements 265

/-- Thread 1 exits, and the main thread joins it; and a loop that is interrupted and comes to an end
all the same, since thread 1 is ready. -/
theorem searchEnds_of_leavesReady_joined :
    Machine.Always Image.step Image.SearchEnds (Image.start Kernel.loaded)
        (createOne ++ [.request (.exit 7)] ++ statements 266 ++ [.request (.join 1)] ++
          statements 4) ∧
      (Machine.run Image.step (Image.start Kernel.loaded) resumedSearch).map
          (fun r => r.2.running.schedules) = some [⟨.test 1, false⟩] ∧
      Machine.Always Image.step Image.SearchEnds (Image.start Kernel.loaded) resumedSearch :=
  ⟨searchEnds_of_leavesReady Kernel.loaded_initial (by decide +kernel), by decide +kernel,
    searchEnds_of_leavesReady Kernel.loaded_initial (by decide +kernel)⟩

/-- Thread 1 exits, and then the main thread does. -/
def exitByBoth : List Input :=
  createOne ++ [.request (.exit 7)] ++ statements 266 ++ [.request (.exit 0)] ++ statements 6

/-- The main thread joins thread 1, and `SIGALRM` arrives in the loop of its `schedule`. Thread 1
then exits, and the main thread goes on in that loop. -/
def interruptedSearch : List Input :=
  statements 16 ++ [.request (.join 1)] ++ statements 3 ++ [.signal] ++ statements 9 ++
    [.request (.exit 7)] ++ statements 266

/-- The main thread joins thread 1, and `SIGALRM` arrives when its `schedule` has chosen thread 1.
Thread 1 then exits, and `SIGALRM` arrives before it has turned the timer off. The main thread
makes thread 1 the current one all the same, and `SIGALRM` arrives before it has marked it as
running. -/
def interruptedChoice : List Input :=
  statements 16 ++ [.request (.join 1)] ++ statements 6 ++ [.signal] ++ statements 9 ++
    [.request (.exit 7)] ++ statements 1 ++ [.signal] ++ statements 263 ++ [.signal] ++ statements 1

theorem not_searchEnds {s : Image} {inputs : List Input}
    (stuck : (Machine.run Image.step s inputs).map (fun r =>
      (r.2.running.schedules.head?.map fun a => a.point.searching, decide r.2.SomeReady)) =
        some (some true, false)) :
    ¬ Machine.Always Image.step Image.SearchEnds s inputs := by
  intro always
  obtain ⟨⟨outputs, t⟩, ran, shown⟩ := Option.map_eq_some_iff.mp stuck
  simp only [Prod.mk.injEq, decide_eq_false_iff_not, Option.map_eq_some_iff] at shown
  obtain ⟨⟨a, top, searching⟩, nobody⟩ := shown
  obtain ⟨rest, schedules⟩ := List.head?_eq_some_iff.mp top
  exact nobody (always.last ran a rest schedules searching).1

/-- The search goes on for ever once the last thread has exited, once a search has been
interrupted by a signal and the only other thread has exited, and once an exited thread is the
current one because a signal has interrupted the `schedule` that chose it. -/
theorem search_unending :
    (∀ input ∈ exitByBoth ++ interruptedSearch ++ interruptedChoice, OnlyThreads input) ∧
    ¬ Machine.Always Image.step Image.SearchEnds (Image.start Kernel.loaded) exitByBoth ∧
    ¬ Machine.Always Image.step Image.SearchEnds (Image.start Kernel.loaded) interruptedSearch ∧
    ¬ Machine.Always Image.step Image.SearchEnds (Image.start Kernel.loaded) interruptedChoice := by
  refine ⟨by decide +kernel, ?_, ?_, ?_⟩
  · exact not_searchEnds (by decide +kernel)
  · exact not_searchEnds (by decide +kernel)
  · exact not_searchEnds (by decide +kernel)

end OperatingSys.Threads
