import OperatingSys.Threads.Statements
import OperatingSys.Threads.ThreadStates

/-!
# The registers of the threads

Whoever does not have the processor is where its registers say, as long as no signal arrives
at the wrong moment. `schedule` chooses a thread, saves the registers of the current one and
jumps to those of the other. A second `schedule` on top of it that comes after the `setjmp`
saves registers that are no longer valid when they are used, and after
`current_tid = next_tid` it saves them for the wrong thread. One that comes before may leave the
first `schedule` with a `next_tid` that has exited in the meantime.
-/

namespace OperatingSys.Threads

/-! ### Steps that disturb nobody -/

/-- The entry is being searched for, or has been found, and `num_threads++` is still to come. -/
def CreatePoint.filling : CreatePoint → Bool
  | .first | .ready | .setjmp => false
  | _ => true

/-- How far a `pthread_create` that fills an entry has got. -/
structure Filling where
  point : CreatePoint
  tid : Tid
  thread : Nat
  deriving DecidableEq

def Call.filling : Option Call → Option Filling
  | some (.create point tid thread) => if point.filling then some ⟨point, tid, thread⟩ else none
  | _ => none

namespace Image

variable (s : Image)

/-- A signal does not arrive in `pthread_exit` after the status has been set and before the value
has, unless the value is there already, and it does not arrive in `schedule` between `setjmp` and
`longjmp`. -/
def SparesSwitch : Prop :=
  match s.running.schedules, s.running.call with
  | [], some (.exit .setValue value) => s.kernel.exitStatus s.current = value
  | ⟨.choose _, _⟩ :: _, _ => s.status s.current = .exited
  | ⟨.mark, _⟩ :: _, _ => False
  | ⟨.jump, _⟩ :: _, _ => False
  | _, _ => True

/-- `schedule` switches to a thread that can still run. `pthread_create` does not look for an entry
while another thread fills one, unless `num_threads` leaves no entry to be filled. -/
def SparesThreads : Prop :=
  match s.running.schedules, s.running.call with
  | ⟨.choose next, _⟩ :: _, _ => s.status next = .ready ∨ s.status next = .running
  | [], some (.create .first _ _) =>
    s.kernel.numThreads < maxThreads → ∀ tid < maxThreads, tid ≠ s.current →
      (s.status tid).alive = true → ∀ c ∈ s.regs tid, Call.filling c.call = none
  | _, _ => True

end Image

def Undisturbed (s : Image) : Input → Prop
  | .signal => s.SparesSwitch
  | .statement => s.SparesThreads
  | .request _ => True

instance (s : Image) : Decidable s.SparesSwitch := by
  unfold Image.SparesSwitch
  split <;> infer_instance

instance (s : Image) : Decidable s.SparesThreads := by
  unfold Image.SparesThreads
  split <;> infer_instance

instance (s : Image) (input : Input) : Decidable (Undisturbed s input) :=
  match input with
  | .signal => inferInstanceAs (Decidable s.SparesSwitch)
  | .statement => inferInstanceAs (Decidable s.SparesThreads)
  | .request _ => isTrue trivial

/-! ### Where the threads are -/

namespace SchedulePoint

/-- `next_tid` is the index of an entry. -/
def InTable : SchedulePoint → Prop
  | .advance next | .check next | .test next | .setjmp next | .choose next => next < maxThreads
  | _ => True

/-- Before the `setjmp`, or at the end. -/
def resumable : SchedulePoint → Bool
  | .choose _ | .mark | .jump => false
  | _ => true

/-- A thread that has exited or is blocked does not get there. -/
def living : SchedulePoint → Bool
  | .preempt | .ret => true
  | _ => false

end SchedulePoint

/-- The thread can go on there at any time. -/
def Context.Resumable (c : Context) : Prop :=
  ∀ a ∈ c.schedules, a.point.InTable ∧ a.point.resumable = true

namespace Image

variable (s : Image)

/-- The thread has the processor, or its registers are where it goes on. -/
def Live (tid : Tid) : Prop :=
  tid = s.current ∨ (tid < maxThreads ∧ (s.status tid).alive = true)

/-- The call that a thread is in. -/
def callOf (tid : Tid) : Option Call :=
  if tid = s.current then s.running.call else (s.regs tid).bind Context.call

/-- `current_tid` is the thread that `schedule` is about to jump to. -/
def switching : Bool :=
  match s.running.schedules with
  | ⟨.mark, _⟩ :: _ | ⟨.jump, _⟩ :: _ => true
  | _ => false

/-- The processor turns to `c`, which is where the current thread goes on. -/
def resumed (c : Context) : Image := { s.setStatus s.current .running with running := c }

end Image

/-- The current thread has the processor, and every other one has registers to go on at. -/
structure Control (s : Image) : Prop where
  switching : s.switching = false
  inTable : s.current < maxThreads
  present : s.status s.current ≠ .empty
  thread : s.running.thread = s.current
  suspended : ∀ tid < maxThreads, tid ≠ s.current → (s.status tid).alive = true →
    ∃ c, s.regs tid = some c ∧ c.thread = tid ∧ c.Resumable
  inside : ∀ a ∈ s.running.schedules, a.point.InTable
  nested : s.status s.current ≠ .exited →
    ∀ a ∈ s.running.schedules.tail, a.point.resumable = true
  gone : s.status s.current = .exited → ∀ a ∈ s.running.schedules, a.point.living = false
  waits : s.status s.current = .blocked → s.kernel.process.masked = true ∧
    ∃ a, s.running.schedules = [a] ∧ a.point.living = false
  saved : ∀ next handler rest, s.running.schedules = ⟨.choose next, handler⟩ :: rest →
    s.status s.current ≠ .exited →
      s.regs s.current = some { s.running with schedules := ⟨.ret, handler⟩ :: rest }

section Control

variable {s s' : Image} {a : Activation} {rest : List Activation}

theorem switching_of_resumable (top : ∀ a ∈ s.running.schedules.head?, a.point.resumable = true) :
    s.switching = false := by
  unfold Image.switching
  split
  next handler rest eq => simp [eq, SchedulePoint.resumable] at top
  next handler rest eq => simp [eq, SchedulePoint.resumable] at top
  · rfl

theorem switching_of_spares (spares : s.SparesSwitch) : s.switching = false := by
  unfold Image.switching
  split
  next handler rest eq => simp [Image.SparesSwitch, eq] at spares
  next handler rest eq => simp [Image.SparesSwitch, eq] at spares
  · rfl

theorem not_choose_of_resumable (top : ∀ a ∈ s.running.schedules.head?, a.point.resumable = true)
    {next : Tid} {handler : Bool} {rest : List Activation} :
    s.running.schedules ≠ ⟨.choose next, handler⟩ :: rest := by
  intro eq
  simp [eq, SchedulePoint.resumable] at top

/-- A thread that waits for a mutex is in the `schedule` that `pthread_mutex_lock` has called. -/
theorem Control.alone (control : Control s) (top : s.running.schedules = a :: rest)
    (blocked : s.status s.current = .blocked) : s.kernel.process.masked = true ∧ rest = [] := by
  obtain ⟨masked, b, single, -⟩ := control.waits blocked
  rw [top] at single
  exact ⟨masked, (List.cons.inj single).2⟩

/-- A statement of `schedule` that leads to `point`. -/
theorem Control.goes (control : Control s) (top : s.running.schedules = a :: rest)
    {point : SchedulePoint} (inside : point.InTable) (resumable : point.resumable = true)
    (living : s.status s.current = .exited ∨ s.status s.current = .blocked →
      point.living = false) :
    Control { s with running := { s.running with schedules := { a with point } :: rest } } := by
  refine ⟨switching_of_resumable ?_, control.inTable, control.present, control.thread,
    control.suspended, ?_, ?_, ?_, ?_, ?_⟩
  · simp [resumable]
  · intro b member
    rcases List.mem_cons.mp member with rfl | later
    · exact inside
    · exact control.inside b (top ▸ List.mem_cons_of_mem a later)
  · intro alive b member
    exact control.nested alive b (by rw [top]; exact member)
  · intro exited b member
    rcases List.mem_cons.mp member with rfl | later
    · exact living (Or.inl exited)
    · exact control.gone exited b (top ▸ List.mem_cons_of_mem a later)
  · intro blocked
    obtain ⟨masked, below⟩ := control.alone top blocked
    exact ⟨masked, { a with point }, by rw [below], living (Or.inr blocked)⟩
  · intro next handler rest' eq
    exact absurd eq (not_choose_of_resumable (by simp [resumable]))

/-- The current thread is ready instead of running. -/
theorem Control.preempted (control : Control s) (alive : s.status s.current ≠ .exited) :
    Control (s.setStatus s.current .ready) := by
  have here : (s.setStatus s.current .ready).status s.current = .ready :=
    Function.update_self _ _ _
  have there : ∀ tid, tid ≠ s.current → (s.setStatus s.current .ready).status tid = s.status tid :=
    fun tid other => Function.update_of_ne other _ _
  refine ⟨control.switching, control.inTable, ?_, control.thread, ?_, control.inside, ?_, ?_, ?_, ?_⟩
  · exact fun empty => absurd (here.symm.trans empty) (by decide)
  · intro tid inTable other living
    rw [there tid other] at living
    exact control.suspended tid inTable other living
  · exact fun _ => control.nested alive
  · exact fun exited => absurd (here.symm.trans exited) (by decide)
  · exact fun blocked => absurd (here.symm.trans blocked) (by decide)
  · exact fun next handler rest eq _ => control.saved next handler rest eq alive

/-- The registers of the current thread are saved, and its call of `schedule` is to go on. -/
theorem Control.setjmp (control : Control s) (top : s.running.schedules = a :: rest) {next : Tid}
    (inside : next < maxThreads) :
    Control { s with
      regs := Function.update s.regs s.current
        (some { s.running with schedules := { a with point := .ret } :: rest })
      running := { s.running with schedules := { a with point := .choose next } :: rest } } := by
  refine ⟨rfl, control.inTable, control.present, control.thread, ?_, ?_, ?_, ?_, ?_, ?_⟩
  · intro tid inTable other alive
    obtain ⟨c, saved, rest⟩ := control.suspended tid inTable other alive
    exact ⟨c, (Function.update_of_ne other _ _).trans saved, rest⟩
  · intro b member
    rcases List.mem_cons.mp member with rfl | later
    · exact inside
    · exact control.inside b (top ▸ List.mem_cons_of_mem a later)
  · intro alive b member
    exact control.nested alive b (by rw [top]; exact member)
  · intro exited b member
    rcases List.mem_cons.mp member with rfl | later
    · rfl
    · exact control.gone exited b (top ▸ List.mem_cons_of_mem a later)
  · intro blocked
    obtain ⟨masked, below⟩ := control.alone top blocked
    exact ⟨masked, { a with point := .choose next }, by rw [below], rfl⟩
  · intro next' handler rest' eq _
    obtain ⟨here, rfl⟩ := List.cons.inj eq
    obtain ⟨-, rfl⟩ := Activation.mk.inj here
    exact Function.update_self _ _ _

/-- A thread that has exited has nothing to save. -/
theorem Control.abandoned (control : Control s) (top : s.running.schedules = a :: rest)
    (exited : s.status s.current = .exited) {next : Tid} (inside : next < maxThreads) :
    Control { s with
      running := { s.running with schedules := { a with point := .choose next } :: rest } } := by
  refine ⟨rfl, control.inTable, control.present, control.thread, control.suspended, ?_,
    fun alive => absurd exited alive, ?_,
    fun blocked => absurd (exited.symm.trans blocked) (by decide),
    fun _ _ _ _ alive => absurd exited alive⟩
  · intro b member
    rcases List.mem_cons.mp member with rfl | later
    · exact inside
    · exact control.inside b (top ▸ List.mem_cons_of_mem a later)
  · intro _ b member
    rcases List.mem_cons.mp member with rfl | later
    · rfl
    · exact control.gone exited b (top ▸ List.mem_cons_of_mem a later)

/-- `schedule` returns. -/
theorem Control.returned (control : Control s) (top : s.running.schedules = a :: rest)
    (at_ : a.point = .ret) (masked : Bool) :
    Control { s with running.schedules := rest, kernel.process.masked := masked } := by
  have alive : s.status s.current ≠ .exited := by
    intro exited
    have dead := control.gone exited a (by rw [top]; exact List.mem_cons_self)
    simp [at_, SchedulePoint.living] at dead
  have unblocked : s.status s.current ≠ .blocked := by
    intro blocked
    obtain ⟨-, b, single, dead⟩ := control.waits blocked
    rw [top] at single
    rw [← (List.cons.inj single).1, at_] at dead
    simp [SchedulePoint.living] at dead
  -- what is below can be resumed at any time
  have below : ∀ b ∈ rest, b.point.resumable = true := fun b member =>
    control.nested alive b (by rw [top]; exact member)
  have first : ∀ b ∈ rest.head?, b.point.resumable = true := fun b member =>
    below b (List.mem_of_mem_head? member)
  refine ⟨switching_of_resumable first, control.inTable, control.present, control.thread,
    control.suspended, ?_, ?_, fun exited => absurd exited alive,
    fun blocked => absurd blocked unblocked, ?_⟩
  · exact fun b member => control.inside b (by rw [top]; exact List.mem_cons_of_mem a member)
  · exact fun _ b member => below b (List.mem_of_mem_tail member)
  · exact fun next handler rest' eq => absurd eq (not_choose_of_resumable first)

/-- The handler of `SIGALRM` is called. -/
theorem Control.interrupted (control : Control s) (spares : s.SparesSwitch)
    (unmasked : s.kernel.process.masked = false) :
    Control { s with running.schedules := ⟨.enter, true⟩ :: s.running.schedules } := by
  refine ⟨rfl, control.inTable, control.present, control.thread, control.suspended, ?_, ?_, ?_, ?_,
    ?_⟩
  · intro b member
    rcases List.mem_cons.mp member with rfl | later
    · trivial
    · exact control.inside b later
  · intro alive b member
    rw [List.tail_cons] at member
    cases eq : s.running.schedules with
    | nil => simp [eq] at member
    | cons top below =>
      rw [eq] at member
      rcases List.mem_cons.mp member with rfl | later
      -- the `schedule` that is interrupted has not got as far as its `setjmp`
      · obtain ⟨point, handler⟩ := b
        unfold Image.SparesSwitch at spares
        rw [eq] at spares
        cases point with
        | choose next => exact absurd spares alive
        | mark => exact spares.elim
        | jump => exact spares.elim
        | _ => rfl
      · exact control.nested alive b (by rw [eq]; exact later)
  · intro exited b member
    rcases List.mem_cons.mp member with rfl | later
    · rfl
    · exact control.gone exited b later
  · intro blocked
    exact absurd ((control.waits blocked).1.symm.trans unmasked) (by decide)
  · intro next handler rest eq
    simp at eq

/-- `schedule` switches to `next`: `setjmp` has been called before, if the current thread is to go
on. -/
theorem Control.resumed (control : Control s) {next : Tid} {handler : Bool}
    (top : s.running.schedules = ⟨.choose next, handler⟩ :: rest)
    (active : s.status next = .ready ∨ s.status next = .running) :
    ∃ c, s.regs next = some c ∧
      c.call = s.callOf next ∧
      Control ({ s with kernel.process.current := next }.resumed c) := by
  have inTable : next < maxThreads :=
    control.inside ⟨.choose next, handler⟩ (by rw [top]; exact List.mem_cons_self)
  have alive : (s.status next).alive = true := by
    rcases active with ready | running
    · simp [ready, Status.alive]
    · simp [running, Status.alive]
  -- the current thread as `setjmp` has saved it
  have own : s.status s.current ≠ .exited → ∃ c, s.regs s.current = some c ∧
      c.thread = s.current ∧ c.Resumable ∧ c.call = s.running.call := by
    intro unexited
    refine ⟨_, control.saved next handler rest top unexited, control.thread, ?_, rfl⟩
    intro b member
    rcases List.mem_cons.mp member with rfl | later
    · exact ⟨trivial, rfl⟩
    · exact ⟨control.inside b (by rw [top]; exact List.mem_cons_of_mem _ later),
        control.nested unexited b (by rw [top]; exact later)⟩
  have saved : ∀ tid < maxThreads, (s.status tid).alive = true →
      ∃ c, s.regs tid = some c ∧ c.thread = tid ∧ c.Resumable ∧ c.call = s.callOf tid := by
    intro tid inTable alive
    by_cases here : tid = s.current
    · subst here
      rw [Image.callOf, if_pos rfl]
      refine own fun exited => ?_
      simp [exited, Status.alive] at alive
    · obtain ⟨c, eq, thread, resumable⟩ := control.suspended tid inTable here alive
      refine ⟨c, eq, thread, resumable, ?_⟩
      rw [Image.callOf, if_neg here, eq, Option.bind_some]
  obtain ⟨c, eq, thread, resumable, call⟩ := saved next inTable alive
  have here : ({ s with kernel.process.current := next }.resumed c).status next = .running :=
    Function.update_self _ _ _
  have first : ∀ b ∈ c.schedules.head?, b.point.resumable = true := fun b member =>
    (resumable b (List.mem_of_mem_head? member)).2
  refine ⟨c, eq, call, switching_of_resumable first, inTable, ?_, thread, ?_,
    fun b member => (resumable b member).1, ?_, ?_, ?_, ?_⟩
  · exact fun empty => absurd (here.symm.trans empty) (by decide)
  · intro tid inTable other alive
    have same : ({ s with kernel.process.current := next }.resumed c).status tid = s.status tid :=
      Function.update_of_ne other _ _
    rw [same] at alive
    obtain ⟨c', eq, thread, resumable, -⟩ := saved tid inTable alive
    exact ⟨c', eq, thread, resumable⟩
  · exact fun _ b member => (resumable b (List.mem_of_mem_tail member)).2
  · exact fun exited => absurd (here.symm.trans exited) (by decide)
  · exact fun blocked => absurd (here.symm.trans blocked) (by decide)
  · exact fun next handler rest eq => absurd eq (not_choose_of_resumable first)

/-- A statement of a call that user code has made, or the call itself. -/
theorem Control.called (control : Control s)
    (current : s'.current = s.current) (thread : s'.running.thread = s.running.thread)
    (schedules : s'.running.schedules = [] ∨ s'.running.schedules = [⟨.enter, false⟩])
    (present : s'.status s.current ≠ .empty)
    (waits : s'.status s.current = .blocked → s'.kernel.process.masked = true ∧
      s'.running.schedules = [⟨.enter, false⟩])
    (suspended : ∀ tid < maxThreads, tid ≠ s.current → (s'.status tid).alive = true →
      ((s.status tid).alive = true ∧ s'.regs tid = s.regs tid) ∨
        s'.regs tid = some ⟨tid, none, []⟩) : Control s' := by
  -- a call that has just entered `schedule` is at its first statement, in no handler
  have first : ∀ b ∈ s'.running.schedules, b = ⟨.enter, false⟩ := by
    intro b member
    rcases schedules with eq | eq
    · simp [eq] at member
    · simpa [eq] using member
  have top : ∀ b ∈ s'.running.schedules.head?, b.point.resumable = true := by
    intro b member
    rw [first b (List.mem_of_mem_head? member)]
    rfl
  refine ⟨switching_of_resumable top, current ▸ control.inTable, current ▸ present,
    thread.trans (control.thread.trans current.symm), ?_, ?_, ?_, ?_, fun blocked => ?_,
    fun next handler rest eq => absurd eq (not_choose_of_resumable top)⟩
  · intro tid inTable other alive
    rw [current] at other
    rcases suspended tid inTable other alive with ⟨before, same⟩ | new
    · rw [same]
      exact control.suspended tid inTable other before
    · exact ⟨_, new, rfl, fun b member => absurd member List.not_mem_nil⟩
  · intro b member
    rw [first b member]
    trivial
  · intro _ b member
    rw [first b (List.mem_of_mem_tail member)]
    rfl
  · intro _ b member
    rw [first b member]
    rfl
  · rw [current] at blocked
    obtain ⟨masked, single⟩ := waits blocked
    exact ⟨masked, _, single, rfl⟩

end Control

/-! ### What `schedule` leaves alone -/

/-- The thread can be chosen, or has been. -/
def Status.active : Status → Bool
  | .ready | .running => true
  | _ => false

/-- The same threads are in the same calls: only who has the processor has changed, and which of
them are running or ready. -/
structure SameThreads (s s' : Image) : Prop where
  kernel : s'.kernel = { s.kernel with process := s'.kernel.process }
  nodes : s'.kernel.process.nodes = s.kernel.process.nodes
  next : s'.kernel.process.next = s.kernel.process.next
  status : ∀ tid, s'.status tid = s.status tid ∨
    ((s.status tid).active = true ∧ (s'.status tid).active = true)
  exits : s'.exits = s.exits
  made : s'.made = s.made
  ids : s'.ids = s.ids
  live : ∀ tid, s'.Live tid → s.Live tid ∧ s'.callOf tid = s.callOf tid
  kept : ∀ tid, s.Live tid → s'.Live tid ∨ s.status tid = .exited
  regs : ∀ tid, s.status tid = .empty → s'.regs tid = s.regs tid

section SameThreads

variable {s s' : Image} {a : Activation} {rest : List Activation}

theorem Status.alive_of_active {status : Status} (active : status.active = true) :
    status.alive = true := by
  cases status <;> simp_all [Status.active, Status.alive]

theorem SameThreads.status_iff (same : SameThreads s s') {status : Status}
    (passive : status.active = false) (tid : Tid) :
    s'.status tid = status ↔ s.status tid = status :=
  Status.eq_iff_of_same (same.status tid) passive

/-- The current thread keeps the processor, and is ready instead of running at most. -/
theorem Control.sameThreads (control : Control s)
    (kernel : s'.kernel = { s.kernel with process := s'.kernel.process })
    (nodes : s'.kernel.process.nodes = s.kernel.process.nodes)
    (next : s'.kernel.process.next = s.kernel.process.next) (current : s'.current = s.current)
    (status : ∀ tid, s'.status tid = s.status tid ∨
      ((s.status tid).active = true ∧ (s'.status tid).active = true))
    (exits : s'.exits = s.exits) (made : s'.made = s.made) (ids : s'.ids = s.ids)
    (call : s'.running.call = s.running.call)
    (regs : ∀ tid, tid ≠ s.current → s'.regs tid = s.regs tid) : SameThreads s s' := by
  have alive : ∀ tid, (s'.status tid).alive = true ↔ (s.status tid).alive = true := by
    intro tid
    rcases status tid with same | ⟨before, after⟩
    · rw [same]
    · simp [Status.alive_of_active before, Status.alive_of_active after]
  refine ⟨kernel, nodes, next, status, exits, made, ids, ?_, ?_, ?_⟩
  · intro tid live
    refine ⟨?_, ?_⟩
    · rcases live with here | ⟨inTable, living⟩
      · exact Or.inl (here.trans current)
      · exact Or.inr ⟨inTable, (alive tid).mp living⟩
    · unfold Image.callOf
      rw [current, call]
      split
      · rfl
      next other => rw [regs tid other]
  · intro tid live
    left
    rcases live with here | ⟨inTable, living⟩
    · exact Or.inl (here.trans current.symm)
    · exact Or.inr ⟨inTable, (alive tid).mpr living⟩
  · intro tid empty
    refine regs tid ?_
    rintro rfl
    exact control.present empty

/-- A switch to `next`. -/
theorem Control.sameThreads_resumed (control : Control s) {next : Tid} {handler : Bool}
    (top : s.running.schedules = ⟨.choose next, handler⟩ :: rest)
    (active : s.status next = .ready ∨ s.status next = .running) {c : Context}
    (call : c.call = s.callOf next) :
    SameThreads s ({ s with kernel.process.current := next }.resumed c) := by
  have inTable : next < maxThreads :=
    control.inside ⟨.choose next, handler⟩ (by rw [top]; exact List.mem_cons_self)
  have chosen : (s.status next).active = true := by
    rcases active with ready | running
    · simp [ready, Status.active]
    · simp [running, Status.active]
  have here : ({ s with kernel.process.current := next }.resumed c).status next = .running :=
    Function.update_self _ _ _
  have there : ∀ tid, tid ≠ next →
      ({ s with kernel.process.current := next }.resumed c).status tid = s.status tid :=
    fun tid other => Function.update_of_ne other _ _
  refine ⟨rfl, rfl, rfl, ?_, rfl, rfl, rfl, ?_, ?_, fun _ _ => rfl⟩
  · intro tid
    by_cases same : tid = next
    · subst same
      exact Or.inr ⟨chosen, by rw [here]; rfl⟩
    · exact Or.inl (there tid same)
  · intro tid live
    by_cases same : tid = next
    · subst same
      refine ⟨Or.inr ⟨inTable, Status.alive_of_active chosen⟩, ?_⟩
      exact (if_pos rfl).trans call
    -- somebody else is where its registers say, also the thread that had the processor
    · rcases live with eq | ⟨inTable, alive⟩
      · exact absurd eq same
      rw [there tid same] at alive
      refine ⟨Or.inr ⟨inTable, alive⟩, ?_⟩
      have saved : ({ s with kernel.process.current := next }.resumed c).callOf tid =
          (s.regs tid).bind Context.call := if_neg same
      rw [saved, Image.callOf]
      split
      next own =>
        subst own
        rw [control.saved next handler rest top ?_, Option.bind_some]
        intro exited
        simp [exited, Status.alive] at alive
      · rfl
  · intro tid live
    by_cases same : tid = next
    · exact Or.inl (Or.inl same)
    by_cases exited : s.status tid = .exited
    · exact Or.inr exited
    left
    rcases live with rfl | ⟨inTable, alive⟩
    · refine Or.inr ⟨control.inTable, ?_⟩
      rw [there _ same]
      have present := control.present
      cases status : s.status s.current <;> simp_all [Status.alive]
    · exact Or.inr ⟨inTable, by rw [there _ same]; exact alive⟩

/-! ### A statement of `schedule` -/

/-- `P` holds, or it will once `schedule` has jumped to the thread that it has chosen. -/
def Image.Soon (P : Image → Prop) (s : Image) : Prop :=
  match s.running.schedules with
  | ⟨.mark, _⟩ :: _ => ∃ c, s.regs s.current = some c ∧ P (s.resumed c)
  | ⟨.jump, _⟩ :: _ =>
    ∃ c, s.regs s.current = some c ∧ s.status s.current = .running ∧ P (s.resumed c)
  | _ => P s

theorem soon_iff {P : Image → Prop} (settled : s.switching = false) : s.Soon P ↔ P s := by
  unfold Image.switching at settled
  unfold Image.Soon
  split <;> simp_all

/-- The current thread, while it is in `schedule` with the status that it had in user code. -/
theorem Control.current_active (control : Control s) (exited : s.status s.current ≠ .exited)
    (blocked : s.status s.current ≠ .blocked) : (s.status s.current).active = true := by
  have present := control.present
  cases status : s.status s.current <;> simp_all [Status.active]

/-- What `P` says of the calls that the threads are in is the same after a statement of
`schedule`. -/
theorem Image.Soon.scheduled {P : Image → Prop} (controlled : ∀ s, P s → Control s)
    (kept : ∀ s s', P s → s.running.schedules ≠ [] → Control s' → SameThreads s s' → P s')
    (soon : s.Soon P) (top : s.running.schedules = a :: rest) (spares : s.SparesThreads)
    (ran : s.scheduleStatement a rest = some s') : s'.Soon P := by
  obtain ⟨point, handler⟩ := a
  -- most statements only lead to the next one
  have goes : ∀ next : SchedulePoint, P s → next.InTable → next.resumable = true →
      (s.status s.current = .exited ∨ s.status s.current = .blocked → next.living = false) →
      s' = { s with running := { s.running with schedules := ⟨next, handler⟩ :: rest } } →
      s'.Soon P := by
    rintro next holds inTable resumable living rfl
    have control := controlled s holds
    have control' := control.goes top inTable resumable living
    refine (soon_iff control'.switching).mpr (kept s _ holds (by simp [top]) control' ?_)
    exact control.sameThreads rfl rfl rfl rfl (fun _ => Or.inl rfl) rfl rfl rfl rfl
      fun _ _ => rfl
  have inside : P s → point.InTable := fun holds =>
    (controlled s holds).inside ⟨point, handler⟩ (by rw [top]; exact List.mem_cons_self)
  unfold Image.Soon at soon
  rw [top] at soon
  cases point with
  | enter =>
    simp only [Image.scheduleStatement, Option.some.injEq] at ran
    split at ran
    next running =>
      exact goes .preempt soon trivial rfl (fun dead => by simp [running] at dead) ran.symm
    next => exact goes .begin soon trivial rfl (fun _ => rfl) ran.symm
  | preempt =>
    cases ran
    have control := controlled s soon
    -- who has exited or is blocked does not get here
    have exited : s.status s.current ≠ .exited := fun exited => by
      have dead := control.gone exited ⟨.preempt, handler⟩ (by rw [top]; exact List.mem_cons_self)
      simp [SchedulePoint.living] at dead
    have blocked : s.status s.current ≠ .blocked := fun blocked => by
      obtain ⟨-, b, single, dead⟩ := control.waits blocked
      rw [top] at single
      rw [← (List.cons.inj single).1] at dead
      simp [SchedulePoint.living] at dead
    have control' : Control { s.setStatus s.current .ready with
        running := { s.running with schedules := ⟨.begin, handler⟩ :: rest } } :=
      (control.preempted exited).goes top trivial rfl fun _ => rfl
    refine (soon_iff control'.switching).mpr (kept s _ soon (by simp [top]) control' ?_)
    refine control.sameThreads rfl rfl rfl rfl (fun tid => ?_) rfl rfl rfl rfl fun _ _ => rfl
    by_cases here : tid = s.current
    · subst here
      refine Or.inr ⟨control.current_active exited blocked, ?_⟩
      have ready : (s.setStatus s.current .ready).status s.current = .ready :=
        Function.update_self _ _ _
      exact (congrArg Status.active ready).trans rfl
    · exact Or.inl (Function.update_of_ne here _ _)
  | begin =>
    exact goes (.advance s.current) soon (controlled s soon).inTable rfl (fun _ => rfl)
      (Option.some.inj ran).symm
  | advance next =>
    exact goes (.check (following next)) soon (following_lt (inside soon)) rfl (fun _ => rfl)
      (Option.some.inj ran).symm
  | check next =>
    simp only [Image.scheduleStatement, Option.some.injEq] at ran
    split at ran
    · exact goes (.test next) soon (inside soon) rfl (fun _ => rfl) ran.symm
    · exact goes (.advance next) soon (inside soon) rfl (fun _ => rfl) ran.symm
  | test next =>
    simp only [Image.scheduleStatement, Option.some.injEq] at ran
    split at ran
    · exact goes (.setjmp next) soon (inside soon) rfl (fun _ => rfl) ran.symm
    next exited =>
      rw [Classical.not_not] at exited
      subst ran
      have control := controlled s soon
      have control' := control.abandoned top exited (inside soon)
      refine (soon_iff control'.switching).mpr (kept s _ soon (by simp [top]) control' ?_)
      exact control.sameThreads rfl rfl rfl rfl (fun _ => Or.inl rfl) rfl rfl rfl rfl
        fun _ _ => rfl
  | setjmp next =>
    cases ran
    have control := controlled s soon
    have control' := control.setjmp top (inside soon)
    refine (soon_iff control'.switching).mpr (kept s _ soon (by simp [top]) control' ?_)
    exact control.sameThreads rfl rfl rfl rfl (fun _ => Or.inl rfl) rfl rfl rfl rfl
      fun tid other => Function.update_of_ne other _ _
  | choose next =>
    cases ran
    have control := controlled s soon
    have active : s.status next = .ready ∨ s.status next = .running := by
      unfold Image.SparesThreads at spares
      rw [top] at spares
      exact spares
    -- the rest of the switch cannot be interrupted
    obtain ⟨c, eq, call, control'⟩ := control.resumed top active
    exact ⟨c, eq, kept s _ soon (by simp [top]) control'
      (control.sameThreads_resumed top active call)⟩
  | mark =>
    cases ran
    obtain ⟨c, eq, holds⟩ := soon
    refine ⟨c, eq, Function.update_self _ _ _, ?_⟩
    have same : ({ s.setStatus s.current .running with
        running := { s.running with schedules := ⟨.jump, handler⟩ :: rest } }.resumed c) =
        s.resumed c := by
      simp [Image.resumed, Image.setStatus, Process.setStatus, Image.current]
    exact same ▸ holds
  | jump =>
    obtain ⟨c, eq, running, holds⟩ := soon
    simp only [Image.scheduleStatement, eq, Option.map_some, Option.some.injEq] at ran
    have same : s.resumed c = s' := by
      rw [← ran, Image.resumed, Image.setStatus, Process.setStatus]
      have unchanged : Function.update s.kernel.process.status s.current .running =
          s.kernel.process.status := by
        rw [← running]
        exact Function.update_eq_self _ _
      rw [unchanged]
    rw [same] at holds
    exact (soon_iff (controlled _ holds).switching).mpr holds
  | ret =>
    cases ran
    have control := controlled s soon
    have control' := control.returned top rfl (s.kernel.process.masked && !handler)
    refine (soon_iff control'.switching).mpr (kept s _ soon (by simp [top]) control' ?_)
    exact control.sameThreads rfl rfl rfl rfl (fun _ => Or.inl rfl) rfl rfl rfl rfl
      fun _ _ => rfl

end SameThreads

end OperatingSys.Threads
