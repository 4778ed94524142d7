import OperatingSys.Threads.Registers

/-!
# The calls of the threads

What every statement of the library preserves from the first `pthread_create` on, if signals
spare the switch: who has exited has called `pthread_exit`, and its value is there, or is just
about to be set; the entries of the table are filled in order, by one thread at a time. The
statements of `pthread_create` are left to the next module.
-/

namespace OperatingSys.Threads

/-! ### The values -/

/-- The value of the `pthread_exit` that a thread is in. -/
def Call.exitValue : Option Call → Option (BitVec 64)
  | some (.exit _ value) => some value
  | _ => none

/-- In the branch of `pthread_barrier_wait` that blocks a thread. -/
def Point.blocks : Point → Bool
  | .blockLock | .blockStatus | .blockNode | .blockInit | .blockUnlock | .blockSchedule => true
  | _ => false

/-- What thread `tid` relies on in its call. -/
def CallSound (s : Image) (tid : Tid) : Option Call → Prop
  | some (.create .ready _ _) | some (.create .setjmp _ _) =>
    tid = 0 ∧ ∀ other < maxThreads, other ≠ 0 → s.status other = .empty
  | some (.join .free thread) | some (.join .store thread) =>
    thread < maxThreads ∧ s.status thread = .exited
  | some (.join (.ret value) thread) => s.exits thread = some value
  | some (.wait _ point) => point.blocks = false
  | _ => True

/-- Who has exited has called `pthread_exit`, and its value is there, unless it is just about to be
set. -/
structure Values (s : Image) : Prop where
  exited : ∀ tid < maxThreads, s.status tid = .exited → ∃ value, s.exits tid = some value ∧
    (s.kernel.exitStatus tid = value ∨ (tid = s.current ∧ s.running.schedules = [] ∧
      s.running.call = some (.exit .setValue value)))
  called : ∀ tid, s.Live tid → s.exits tid = Call.exitValue (s.callOf tid)
  sound : ∀ tid, s.Live tid → CallSound s tid (s.callOf tid)

/-- No value is about to be set. -/
def Stored (s : Image) : Prop :=
  ∀ tid < maxThreads, s.status tid = .exited → s.exits tid = some (s.kernel.exitStatus tid)

/-! ### The entries -/

namespace CreatePoint

/-- The entry has got its stack, but `num_threads` does not count it yet. -/
def stacked : CreatePoint → Nat
  | .setReturn | .setRsp | .setStatus | .setTid | .store | .count => 1
  | _ => 0

/-- The same for the registers. -/
def built : CreatePoint → Nat
  | .setStatus | .setTid | .store | .count => 1
  | _ => 0

/-- The same for the status. -/
def marked : CreatePoint → Nat
  | .setTid | .store | .count => 1
  | _ => 0

end CreatePoint

/-- What there is of the entry that is being filled. -/
def Filling.part (has : CreatePoint → Nat) : Option Filling → Nat
  | none => 0
  | some filling => has filling.point

/-- The local variables of the `pthread_create` that fills an entry. -/
structure Locals (s : Image) (filling : Filling) : Prop where
  room : s.kernel.numThreads < maxThreads
  first : 1 ≤ filling.tid
  tid : filling.tid ≤ s.kernel.numThreads ∧
    (filling.point ≠ .search → filling.tid = s.kernel.numThreads)
  thread : filling.point.built = 1 → filling.thread = s.kernel.numThreads
  regs : filling.point = .setStatus →
    s.regs s.kernel.numThreads = some ⟨s.kernel.numThreads, none, []⟩

/-- The entries are filled in order, and the ids are their indices. -/
structure Slots (s : Image) (filling : Option Filling) : Prop where
  positive : 1 ≤ s.kernel.numThreads
  bounded : s.kernel.numThreads ≤ maxThreads
  stack : ∀ tid, 1 ≤ tid → tid < maxThreads →
    (s.kernel.stack tid = .null ↔
      s.kernel.numThreads + Filling.part CreatePoint.stacked filling ≤ tid)
  empty : ∀ tid < maxThreads, s.kernel.numThreads + Filling.part CreatePoint.marked filling ≤ tid →
    s.status tid = .empty
  made : s.made = s.kernel.numThreads + Filling.part CreatePoint.built filling
  exits : ∀ tid, s.kernel.numThreads + Filling.part CreatePoint.marked filling ≤ tid →
    s.exits tid = none
  ids : ∀ entry ∈ s.ids, entry.2 = entry.1
  locals : ∀ f ∈ filling, Locals s f

/-- There is no entry for the thread in `pthread_create`. -/
def Image.Refuses (s : Image) (filling : Filling) : Prop :=
  maxThreads ≤ s.kernel.numThreads ∧ (filling.point = .search ∨ filling.point = .limit)

/-- At most one thread fills an entry. -/
structure Entries (s : Image) (creator : Option (Tid × Filling)) : Prop where
  slots : Slots s (creator.map Prod.snd)
  only : ∀ tid, s.Live tid → ∀ filling ∈ Call.filling (s.callOf tid),
    creator = some (tid, filling) ∨ s.Refuses filling
  live : ∀ tid filling, creator = some (tid, filling) →
    s.Live tid ∧ Call.filling (s.callOf tid) = some filling

/-- What holds from the first `pthread_create` on. -/
structure Settled (s : Image) : Prop extends Control s, Values s where
  isFirstCall : s.kernel.isFirstCall = false
  waiting : ∃ cells, Waiting s.kernel.process s.kernel.mutexes cells
  barriers : ∀ b, (s.kernel.barriers b).init = 1
  entries : ∃ creator, Entries s creator

section Schedule

variable {s s' : Image}

theorem Values.stored (values : Values s)
    (set : s.running.schedules = [] → ∀ value, s.running.call = some (.exit .setValue value) →
      s.kernel.exitStatus s.current = value) : Stored s := by
  intro tid inTable exited
  obtain ⟨value, called, there | ⟨rfl, idle, call⟩⟩ := values.exited tid inTable exited
  · rw [called, there]
  · rw [called, set idle value call]

theorem Slots.congr {filling : Option Filling} (slots : Slots s filling) (control : Control s)
    (numThreads : s'.kernel.numThreads = s.kernel.numThreads)
    (stack : ∀ tid, s'.kernel.stack tid = .null ↔ s.kernel.stack tid = .null)
    (status : ∀ tid, s'.status tid = .empty ↔ s.status tid = .empty)
    (exits : ∀ tid, tid ≠ s.current → s'.exits tid = s.exits tid) (made : s'.made = s.made)
    (ids : s'.ids = s.ids) (regs : ∀ tid, s.status tid = .empty → s'.regs tid = s.regs tid) :
    Slots s' filling := by
  refine ⟨numThreads ▸ slots.positive, numThreads ▸ slots.bounded, ?_, ?_, ?_, ?_, ?_, ?_⟩
  · intro tid first inTable
    rw [stack, numThreads]
    exact slots.stack tid first inTable
  · intro tid inTable later
    rw [numThreads] at later
    exact (status tid).mpr (slots.empty tid inTable later)
  · rw [made, numThreads]
    exact slots.made
  · intro tid later
    rw [numThreads] at later
    -- the current thread has an entry of its own
    have other : tid ≠ s.current := by
      rintro rfl
      exact control.present (slots.empty _ control.inTable later)
    rw [exits tid other]
    exact slots.exits tid later
  · rw [ids]
    exact slots.ids
  · intro f member
    obtain ⟨room, first, tid, thread, saved⟩ := slots.locals f member
    refine ⟨numThreads ▸ room, first, numThreads ▸ tid, numThreads ▸ thread, fun at_ => ?_⟩
    -- the entry is not in use yet, so that its registers are nobody's
    have unused : s.status s.kernel.numThreads = .empty := by
      refine slots.empty _ room ?_
      obtain rfl : filling = some f := member
      simp [Filling.part, at_, CreatePoint.marked]
    rw [numThreads, regs _ unused]
    exact saved at_

/-- A statement of `schedule`, or a signal. -/
theorem Settled.sameThreads (settled : Settled s) (stored : Stored s) (control : Control s')
    (same : SameThreads s s') : Settled s' := by
  obtain ⟨cells, waiting⟩ := settled.waiting
  obtain ⟨creator, entries⟩ := settled.entries
  have exited : ∀ tid, s'.status tid = .exited ↔ s.status tid = .exited := same.status_iff rfl
  refine { control with
    exited := ?_
    called := ?_
    sound := ?_
    isFirstCall := by rw [same.kernel]; exact settled.isFirstCall
    waiting := ⟨cells, ?_⟩
    barriers := by rw [same.kernel]; exact settled.barriers
    entries := ⟨creator, ?_, ?_, ?_⟩ }
  · intro tid inTable gone
    refine ⟨_, by rw [same.exits]; exact stored tid inTable ((exited tid).mp gone), Or.inl ?_⟩
    rw [same.kernel]
  · intro tid live
    obtain ⟨before, call⟩ := same.live tid live
    rw [same.exits, call]
    exact settled.called tid before
  · intro tid live
    obtain ⟨before, call⟩ := same.live tid live
    have sound := settled.sound tid before
    have empty : ∀ tid, s'.status tid = .empty ↔ s.status tid = .empty := same.status_iff rfl
    rw [call]
    -- who has exited stays so, and the values are the same
    unfold CallSound at sound ⊢
    split <;> simp_all [same.exits]
  · refine waiting.congr same.nodes same.next ?_ fun tid _ => same.status_iff rfl tid
    rw [same.kernel]
    exact fun m => ⟨rfl, rfl⟩
  · refine entries.slots.congr settled.toControl ?_ ?_ (same.status_iff rfl)
      (fun tid _ => by rw [same.exits]) same.made same.ids same.regs
    · rw [same.kernel]
    · rw [same.kernel]
      exact fun tid => Iff.rfl
  · intro tid live filling member
    obtain ⟨before, call⟩ := same.live tid live
    rw [call] at member
    have refuses : s'.Refuses filling ↔ s.Refuses filling := by
      unfold Image.Refuses
      rw [same.kernel]
    rw [refuses]
    exact entries.only tid before filling member
  · intro tid filling eq
    obtain ⟨before, fills⟩ := entries.live tid filling eq
    -- a thread in `pthread_create` has not exited
    have unexited : s.status tid ≠ .exited := by
      intro gone
      have inTable : tid < maxThreads := by
        rcases before with rfl | ⟨inTable, -⟩
        · exact settled.inTable
        · exact inTable
      have called := settled.called tid before
      rw [stored tid inTable gone] at called
      unfold Call.exitValue at called
      unfold Call.filling at fills
      split at called <;> simp_all
    have after := (same.kept tid before).resolve_right unexited
    exact ⟨after, by rw [(same.live tid after).2]; exact fills⟩

end Schedule

/-! ### A statement of a call -/

/-- The current thread makes a call, goes on in one, or calls `schedule` there. Nobody else begins or
ends. -/
structure Proceeds (s s' : Image) : Prop where
  current : s'.current = s.current
  thread : s'.running.thread = s.running.thread
  schedules : s'.running.schedules = [] ∨ s'.running.schedules = [⟨.enter, false⟩]
  isFirstCall : s'.kernel.isFirstCall = s.kernel.isFirstCall
  lives : ∀ tid, tid ≠ s.current → s'.status tid = s.status tid ∨
    ((s.status tid).alive = true ∧ (s'.status tid).alive = true)
  present : s'.status s.current ≠ .empty
  gone : s.status s.current = .exited → s'.status s.current = .exited
  exits : ∀ tid, tid ≠ s.current → s'.exits tid = s.exits tid
  kept : ∀ value, s.exits s.current = some value → s'.exits s.current = some value
  regs : ∀ tid, tid ≠ s.current → (s.status tid).alive = true → s'.regs tid = s.regs tid

section Proceeds

variable {s s' : Image} (proceeds : Proceeds s s')
include proceeds

theorem Proceeds.alive_iff {tid : Tid} (other : tid ≠ s.current) :
    (s'.status tid).alive = true ↔ (s.status tid).alive = true := by
  rcases proceeds.lives tid other with same | ⟨before, after⟩
  · rw [same]
  · exact iff_of_true after before

theorem Proceeds.status_iff {status : Status} (dead : status.alive = false) {tid : Tid}
    (other : tid ≠ s.current) : s'.status tid = status ↔ s.status tid = status :=
  Status.eq_iff_of_same (proceeds.lives tid other) dead

theorem Proceeds.live_iff (tid : Tid) : s'.Live tid ↔ s.Live tid := by
  unfold Image.Live
  rw [proceeds.current]
  by_cases here : tid = s.current
  · simp [here]
  · rw [proceeds.alive_iff here]

theorem Proceeds.empty_iff (control : Control s) (tid : Tid) :
    s'.status tid = .empty ↔ s.status tid = .empty := by
  by_cases here : tid = s.current
  · rw [here]
    exact iff_of_false proceeds.present control.present
  · exact proceeds.status_iff rfl here

theorem Proceeds.callOf_self : s'.callOf s.current = s'.running.call :=
  if_pos proceeds.current.symm

theorem Proceeds.callOf_other {tid : Tid} (other : tid ≠ s.current) (live : s.Live tid) :
    s'.callOf tid = s.callOf tid := by
  have alive := (live.resolve_left other).2
  rw [Image.callOf, Image.callOf, proceeds.current, if_neg other, if_neg other,
    proceeds.regs tid other alive]

theorem Proceeds.control (control : Control s)
    (waits : s'.status s.current = .blocked → s'.kernel.process.masked = true ∧
      s'.running.schedules = [⟨.enter, false⟩]) : Control s' := by
  refine control.called proceeds.current proceeds.thread proceeds.schedules proceeds.present waits ?_
  intro tid inTable other alive
  have before := (proceeds.alive_iff other).mp alive
  exact Or.inl ⟨before, proceeds.regs tid other before⟩

/-- What the other threads rely on is still there. -/
theorem Proceeds.sound (control : Control s) {tid : Tid} {call : Option Call}
    (sound : CallSound s tid call) : CallSound s' tid call := by
  have exited : ∀ thread, s.status thread = .exited → s'.status thread = .exited := by
    intro thread gone
    by_cases here : thread = s.current
    · rw [here] at gone ⊢
      exact proceeds.gone gone
    · exact (proceeds.status_iff rfl here).mpr gone
  have exits : ∀ thread value, s.exits thread = some value → s'.exits thread = some value := by
    intro thread value called
    by_cases here : thread = s.current
    · rw [here] at called ⊢
      exact proceeds.kept value called
    · rw [proceeds.exits thread here, called]
  have empty := proceeds.empty_iff control
  unfold CallSound at sound ⊢
  split <;> simp_all

theorem Proceeds.values (control : Control s) (values : Values s)
    (exited : ∀ tid < maxThreads, s'.status tid = .exited → ∃ value, s'.exits tid = some value ∧
      (s'.kernel.exitStatus tid = value ∨ (tid = s'.current ∧ s'.running.schedules = [] ∧
        s'.running.call = some (.exit .setValue value))))
    (called : s'.exits s.current = Call.exitValue s'.running.call)
    (sound : CallSound s' s.current s'.running.call) : Values s' := by
  refine ⟨exited, ?_, ?_⟩
  · intro tid live
    have before := (proceeds.live_iff tid).mp live
    by_cases here : tid = s.current
    · rw [here, proceeds.callOf_self]
      exact called
    · rw [proceeds.exits tid here, proceeds.callOf_other here before]
      exact values.called tid before
  · intro tid live
    have before := (proceeds.live_iff tid).mp live
    by_cases here : tid = s.current
    · rw [here, proceeds.callOf_self]
      exact sound
    · rw [proceeds.callOf_other here before]
      exact proceeds.sound control (values.sound tid before)

/-- The current thread does not fill an entry, or finds that there is none. -/
theorem Proceeds.entries_beside (control : Control s) {creator : Option (Tid × Filling)}
    (entries : Entries s creator) (numThreads : s'.kernel.numThreads = s.kernel.numThreads)
    (stack : ∀ tid, s'.kernel.stack tid = .null ↔ s.kernel.stack tid = .null)
    (made : s'.made = s.made) (ids : s'.ids = s.ids)
    (regs : ∀ tid, s.status tid = .empty → s'.regs tid = s.regs tid)
    (idle : ∀ filling, creator ≠ some (s.current, filling))
    (refused : ∀ filling ∈ Call.filling s'.running.call, s'.Refuses filling) :
    Entries s' creator := by
  refine ⟨entries.slots.congr control numThreads stack (proceeds.empty_iff control) proceeds.exits
    made ids regs, ?_, ?_⟩
  · intro tid live filling member
    have before := (proceeds.live_iff tid).mp live
    by_cases here : tid = s.current
    · subst here
      rw [proceeds.callOf_self] at member
      exact Or.inr (refused filling member)
    · rw [proceeds.callOf_other here before] at member
      rw [Image.Refuses, numThreads]
      exact entries.only tid before filling member
  · intro tid filling eq
    obtain ⟨before, fills⟩ := entries.live tid filling eq
    have other : tid ≠ s.current := by
      rintro rfl
      exact idle filling eq
    rw [proceeds.callOf_other other before]
    exact ⟨(proceeds.live_iff tid).mpr before, fills⟩

/-- Nobody else fills an entry. -/
theorem Proceeds.entries_alone
    (alone : ∀ tid, tid ≠ s.current → s.Live tid → Call.filling (s.callOf tid) = none)
    (slots : Slots s' (Call.filling s'.running.call)) :
    Entries s' ((Call.filling s'.running.call).map (s.current, ·)) := by
  refine ⟨?_, ?_, ?_⟩
  · simpa [Function.comp_def] using slots
  · intro tid live filling member
    have before := (proceeds.live_iff tid).mp live
    by_cases here : tid = s.current
    · subst here
      rw [proceeds.callOf_self] at member
      rw [Option.mem_def.mp member]
      exact Or.inl rfl
    · rw [proceeds.callOf_other here before, alone tid here before] at member
      exact absurd member (by simp)
  · intro tid filling eq
    obtain ⟨f, fills, pair⟩ := Option.map_eq_some_iff.mp eq
    obtain ⟨rfl, rfl⟩ := Prod.mk.inj pair
    exact ⟨Or.inl proceeds.current.symm, by rw [proceeds.callOf_self]; exact fills⟩

/-- What becomes of the values if none is set. -/
theorem Proceeds.exited (stored : Stored s)
    (exitStatus : s'.kernel.exitStatus = s.kernel.exitStatus)
    (own : s'.status s.current = .exited → s.status s.current = .exited) :
    ∀ tid < maxThreads, s'.status tid = .exited → ∃ value, s'.exits tid = some value ∧
      (s'.kernel.exitStatus tid = value ∨ (tid = s'.current ∧ s'.running.schedules = [] ∧
        s'.running.call = some (.exit .setValue value))) := by
  intro tid inTable gone
  refine ⟨s.kernel.exitStatus tid, ?_, Or.inl (by rw [exitStatus])⟩
  by_cases here : tid = s.current
  · rw [here] at gone inTable ⊢
    exact proceeds.kept _ (stored s.current inTable (own gone))
  · rw [proceeds.exits tid here]
    exact stored tid inTable ((proceeds.status_iff rfl here).mp gone)

theorem Proceeds.settled (settled : Settled s)
    (waits : s'.status s.current = .blocked → s'.kernel.process.masked = true ∧
      s'.running.schedules = [⟨.enter, false⟩])
    (waiting : ∃ cells, Waiting s'.kernel.process s'.kernel.mutexes cells)
    (barriers : ∀ b, (s'.kernel.barriers b).init = 1)
    (exited : ∀ tid < maxThreads, s'.status tid = .exited → ∃ value, s'.exits tid = some value ∧
      (s'.kernel.exitStatus tid = value ∨ (tid = s'.current ∧ s'.running.schedules = [] ∧
        s'.running.call = some (.exit .setValue value))))
    (called : s'.exits s.current = Call.exitValue s'.running.call)
    (sound : CallSound s' s.current s'.running.call) (entries : ∃ creator, Entries s' creator) :
    Settled s' :=
  { proceeds.control settled.toControl waits,
    proceeds.values settled.toControl settled.toValues exited called sound with
    isFirstCall := proceeds.isFirstCall.trans settled.isFirstCall
    waiting
    barriers
    entries }

/-- A thread that is not in `pthread_create` leaves the entries alone. -/
theorem Proceeds.entries (settled : Settled s)
    (numThreads : s'.kernel.numThreads = s.kernel.numThreads)
    (stack : ∀ tid, s'.kernel.stack tid = .null ↔ s.kernel.stack tid = .null)
    (made : s'.made = s.made) (ids : s'.ids = s.ids)
    (regs : ∀ tid, s.status tid = .empty → s'.regs tid = s.regs tid)
    (before : Call.filling s.running.call = none) (after : Call.filling s'.running.call = none) :
    ∃ creator, Entries s' creator := by
  obtain ⟨creator, entries⟩ := settled.entries
  refine ⟨creator, proceeds.entries_beside settled.toControl entries numThreads stack made ids regs
    ?_ (by simp [after])⟩
  intro filling eq
  have fills := (entries.live s.current filling eq).2
  rw [Image.callOf, if_pos rfl, before] at fills
  simp at fills

end Proceeds

section Calls

variable {s s' : Image} (settled : Settled s) (idle : s.running.schedules = [])
include settled

theorem Settled.called_self : s.exits s.current = Call.exitValue s.running.call := by
  have called := settled.called s.current (Or.inl rfl)
  rwa [Image.callOf, if_pos rfl] at called

theorem Settled.sound_self : CallSound s s.current s.running.call := by
  have sound := settled.sound s.current (Or.inl rfl)
  rwa [Image.callOf, if_pos rfl] at sound

/-- Only a thread in `pthread_exit` has exited. -/
theorem Settled.unexited (alive : Call.exitValue s.running.call = none) :
    s.status s.current ≠ .exited := by
  intro exited
  obtain ⟨value, called, -⟩ := settled.exited _ settled.inTable exited
  rw [settled.called_self, alive] at called
  simp at called

theorem Settled.stored_of_call
    (set : ∀ value, s.running.call ≠ some (.exit .setValue value)) : Stored s :=
  settled.toValues.stored fun _ value call => absurd call (set value)

include idle

theorem Settled.unblocked : s.status s.current ≠ .blocked := by
  intro blocked
  obtain ⟨-, a, single, -⟩ := settled.waits blocked
  rw [idle] at single
  simp at single

/-- A thread that is not in `pthread_exit` can run. -/
theorem Settled.active (alive : Call.exitValue s.running.call = none) :
    (s.status s.current).active = true :=
  settled.current_active (settled.unexited alive) (settled.unblocked idle)

/-- A statement that leaves the status of every thread alone. -/
theorem Settled.advances
    (same : s'.kernel = { s.kernel with
      id := s'.kernel.id, stack := s'.kernel.stack, armed := s'.kernel.armed,
      numThreads := s'.kernel.numThreads })
    (thread : s'.running.thread = s.running.thread)
    (short : s'.running.schedules = [] ∨ s'.running.schedules = [⟨.enter, false⟩])
    (exits : s'.exits = s.exits)
    (regs : ∀ tid, tid ≠ s.current → (s.status tid).alive = true → s'.regs tid = s.regs tid)
    (set : ∀ value, s.running.call ≠ some (.exit .setValue value))
    (value : Call.exitValue s'.running.call = Call.exitValue s.running.call)
    (sound : CallSound s s.current s'.running.call)
    (entries : Proceeds s s' → ∃ creator, Entries s' creator) : Settled s' := by
  have process : s'.kernel.process = s.kernel.process := by rw [same]
  have status : ∀ tid, s'.status tid = s.status tid := fun tid => congrArg (·.status tid) process
  have proceeds : Proceeds s s' :=
    ⟨congrArg Process.current process, thread, short, by rw [same], fun tid _ => Or.inl (status tid),
      by rw [status]; exact settled.present, fun exited => by rw [status]; exact exited,
      fun tid _ => congrFun exits tid, fun v called => by rw [exits]; exact called, regs⟩
  refine proceeds.settled settled (fun blocked => ?_) ?_ ?_
    (proceeds.exited (settled.stored_of_call set) ?_ fun exited => ?_) ?_
    (proceeds.sound settled.toControl sound) (entries proceeds)
  · rw [status] at blocked
    exact absurd blocked (settled.unblocked idle)
  · rw [same]
    exact settled.waiting
  · rw [same]
    exact settled.barriers
  · rw [same]
  · rw [← status]
    exact exited
  · rw [exits, value]
    exact settled.called_self

/-- A statement that only leads to another one. -/
theorem Settled.moves {kernel : Kernel} {call : Option Call} {schedules : List Activation}
    (same : kernel = { s.kernel with id := kernel.id, stack := kernel.stack, armed := kernel.armed })
    (stack : ∀ tid, kernel.stack tid = .null ↔ s.kernel.stack tid = .null)
    (short : schedules = [] ∨ schedules = [⟨.enter, false⟩])
    (set : ∀ value, s.running.call ≠ some (.exit .setValue value))
    (value : Call.exitValue call = Call.exitValue s.running.call)
    (sound : CallSound s s.current call) (before : Call.filling s.running.call = none)
    (after : Call.filling call = none) :
    Settled { s with kernel, running := { s.running with call, schedules } } := by
  have numThreads : kernel.numThreads = s.kernel.numThreads := by rw [same]
  refine settled.advances idle ?_ rfl short rfl (fun _ _ _ => rfl) set value sound
    fun proceeds => ?_
  · rw [numThreads]
    exact same
  · exact proceeds.entries settled numThreads stack rfl rfl (fun _ _ => rfl) before after

theorem Settled.exit {value : BitVec 64} {point : ExitPoint}
    (call : s.running.call = some (.exit point value))
    (ran : s.exitStatement value point = some s') : Settled s' := by
  have fills : Call.filling s.running.call = none := by rw [call]; rfl
  have own : s.exits s.current = some value := by
    rw [settled.called_self, call]
    rfl
  cases point with
  | setStatus =>
    cases ran
    -- the value is still to be set
    have here : ((s.setStatus s.current .exited).goto (.exit .setValue value)).status s.current =
        .exited := Function.update_self _ _ _
    have there : ∀ tid, tid ≠ s.current →
        ((s.setStatus s.current .exited).goto (.exit .setValue value)).status tid = s.status tid :=
      fun tid other => Function.update_of_ne other _ _
    have stored := settled.stored_of_call fun value' eq => by simp [call] at eq
    have proceeds : Proceeds s ((s.setStatus s.current .exited).goto (.exit .setValue value)) :=
      ⟨rfl, rfl, Or.inl idle, rfl, fun tid other => Or.inl (there tid other), by simp [here],
        fun _ => here, fun _ _ => rfl, fun _ => id, fun _ _ _ => rfl⟩
    obtain ⟨cells, waiting⟩ := settled.waiting
    refine proceeds.settled settled (fun blocked => by simp [here] at blocked) ⟨cells, ?_⟩
      settled.barriers (fun tid inTable gone => ?_) own trivial
      (proceeds.entries settled rfl (fun _ => Iff.rfl) rfl rfl (fun _ _ => rfl) fills rfl)
    · exact waiting.congr rfl rfl (fun _ => ⟨rfl, rfl⟩) fun tid _ =>
        update_blocked_iff (settled.unblocked idle) (by decide) tid
    · by_cases same : tid = s.current
      · exact ⟨value, same ▸ own, Or.inr ⟨same, idle, rfl⟩⟩
      · rw [there tid same] at gone
        exact ⟨_, stored tid inTable gone, Or.inl rfl⟩
  | setValue =>
    cases ran
    have proceeds : Proceeds s ({ s with
        kernel.exitStatus := Function.update s.kernel.exitStatus s.current value }.goto
          (.exit .count value)) :=
      ⟨rfl, rfl, Or.inl idle, rfl, fun _ _ => Or.inl rfl, settled.present, id, fun _ _ => rfl,
        fun _ => id, fun _ _ _ => rfl⟩
    refine proceeds.settled settled (fun blocked => absurd blocked (settled.unblocked idle))
      settled.waiting settled.barriers (fun tid inTable gone => ?_) own trivial
      (proceeds.entries settled rfl (fun _ => Iff.rfl) rfl rfl (fun _ _ => rfl) fills rfl)
    by_cases same : tid = s.current
    · exact ⟨value, same ▸ own, Or.inl (by rw [same]; exact Function.update_self _ _ _)⟩
    · obtain ⟨v, called, there | ⟨here, -⟩⟩ := settled.exited tid inTable gone
      · exact ⟨v, called, Or.inl ((Function.update_of_ne same _ _).trans there)⟩
      · exact absurd here same
  | count =>
    cases ran
    exact settled.moves idle rfl (fun _ => Iff.rfl) (Or.inl idle) (by simp [call])
      (by rw [call]; rfl) trivial fills rfl
  | alarm =>
    cases ran
    exact settled.moves idle rfl (fun _ => Iff.rfl) (Or.inl idle) (by simp [call])
      (by rw [call]; rfl) trivial fills rfl
  | schedule =>
    cases ran
    exact settled.moves idle rfl (fun _ => Iff.rfl) (Or.inr (by rw [idle])) (by simp [call])
      (by rw [call]; rfl) trivial fills rfl
  | exit => simp [Image.exitStatement] at ran

/-- Whoever `pthread_join` returns for has called `pthread_exit` with that value. -/
theorem Settled.join {thread : Tid} {point : JoinPoint} {joins : Image.Joins}
    (call : s.running.call = some (.join point thread))
    (ran : s.joinStatement thread point = some (joins, s')) :
    Settled s' ∧ ∀ id value, joins = some (id, value) → s.exits id = some value := by
  have fills : Call.filling s.running.call = none := by rw [call]; rfl
  have set : ∀ value, s.running.call ≠ some (.exit .setValue value) := by simp [call]
  have value : Call.exitValue s.running.call = none := by rw [call]; rfl
  have sound := settled.sound_self
  rw [call] at sound
  cases point with
  | test =>
    simp only [Image.joinStatement] at ran
    split at ran
    · simp at ran
    next inTable =>
      split at ran
      next exited =>
        cases ran
        exact ⟨settled.moves idle rfl (fun _ => Iff.rfl) (Or.inl idle) set value.symm
          ⟨Nat.lt_of_not_le inTable, exited⟩ fills rfl, by simp⟩
      next =>
        cases ran
        exact ⟨settled.moves idle rfl (fun _ => Iff.rfl) (Or.inr (by rw [idle])) set value.symm
          trivial fills rfl, by simp⟩
  | free =>
    obtain ⟨k, freed, eq⟩ := Option.map_eq_some_iff.mp ran
    cases eq
    obtain ⟨same, -, null⟩ := freeStack_null freed
    refine ⟨settled.moves idle ?_ null (Or.inl idle) set value.symm sound fills rfl, by simp⟩
    rw [same]
  | store =>
    cases ran
    -- the current thread is not in `pthread_exit`, so that the value is there
    have stored := settled.stored_of_call set thread sound.1 sound.2
    exact ⟨settled.moves idle rfl (fun _ => Iff.rfl) (Or.inl idle) set value.symm stored fills rfl,
      by simp⟩
  | ret result =>
    cases ran
    refine ⟨settled.moves idle rfl (fun _ => Iff.rfl) (Or.inl idle) set value.symm trivial fills rfl,
      ?_⟩
    rintro id value eq
    obtain ⟨rfl, rfl⟩ := Prod.mk.inj (Option.some.inj eq)
    exact sound

/-- `pthread_mutex_lock` or `pthread_mutex_unlock`, of which `ran` tells what they have done. -/
theorem Settled.mutex {m : Nat} {result : Option (Process × Mutex × Progress)} {after : Int}
    (value : Call.exitValue s.running.call = none) (fills : Call.filling s.running.call = none)
    (ran : s.afterMutex m result after = some s')
    (spec : ∀ p mutex progress, result = some (p, mutex, progress) →
      p.current = s.current ∧
      (∃ cells, Waiting p (Function.update s.kernel.mutexes m mutex) cells) ∧
      SameLives s.kernel { s.kernel with process := p } ∧
      (p.status s.current = .blocked → p.masked = true ∧ progress = .schedules)) :
    Settled s' := by
  have set : ∀ value, s.running.call ≠ some (.exit .setValue value) := by
    intro v call
    rw [call] at value
    simp [Call.exitValue] at value
  -- The two outcomes differ only in whether `schedule` is entered; what else holds of the rest of
  -- the statement is shown once for both.
  have settles : ∀ {p mutex progress} {running : Context},
      result = some (p, mutex, progress) → running.thread = s.running.thread →
      (running.schedules = [] ∨ running.schedules = [⟨.enter, false⟩]) →
      (progress = .schedules → running.schedules = [⟨.enter, false⟩]) →
      (∃ v, running.call = some (.ret v)) →
      Settled { s with kernel := { s.kernel with process := p }.setMutex m mutex, running } := by
    rintro p mutex progress running eq thread schedules scheduled ⟨v, call⟩
    obtain ⟨current, waiting, lives, waits⟩ := spec p mutex progress eq
    have proceeds : Proceeds s
        { s with kernel := { s.kernel with process := p }.setMutex m mutex, running } :=
      ⟨current, thread, schedules, rfl, fun tid _ => lives tid,
        fun absent => settled.present ((lives.iff rfl _).mp absent), (lives.iff rfl _).mpr,
        fun _ _ => rfl, fun _ => id, fun _ _ _ => rfl⟩
    refine proceeds.settled settled (fun blocked => ?_) waiting settled.barriers
      (proceeds.exited (settled.stored_of_call set) rfl (lives.iff rfl _).mp) ?_ ?_
      (proceeds.entries settled rfl (fun _ => Iff.rfl) rfl rfl (fun _ _ => rfl) fills ?_)
    · -- a thread that has just blocked itself is about to give the processor away
      obtain ⟨masked, progressed⟩ := waits blocked
      exact ⟨masked, scheduled progressed⟩
    · rw [call]
      exact settled.called_self.trans value
    · rw [call]
      trivial
    · rw [call]
      rfl
  unfold Image.afterMutex at ran
  split at ran
  · simp at ran
  · cases ran
    exact settles rfl rfl (Or.inl idle) (by simp) ⟨_, rfl⟩
  · cases ran
    exact settles rfl rfl (Or.inr (by simp [idle])) (fun _ => by simp [idle]) ⟨_, rfl⟩

theorem Settled.lock {m : Nat} (call : s.running.call = some (.lock m))
    (ran : s.afterMutex m (pthreadMutexLock s.kernel.process (s.kernel.mutexes m)) (-1) = some s') :
    Settled s' := by
  have value : Call.exitValue s.running.call = none := by rw [call]; rfl
  obtain ⟨cells, waiting⟩ := settled.waiting
  have alive := Status.alive_of_active (settled.active idle value)
  refine settled.mutex idle value (by rw [call]; rfl) ran fun p mutex progress eq => ?_
  obtain ⟨current, waiting', ⟨rfl, status⟩ | ⟨rfl, masked, status⟩⟩ :=
    waiting.lock settled.inTable (settled.unblocked idle) eq
  · refine ⟨current, waiting', SameLives.update status alive rfl, fun blocked => ?_⟩
    rw [status] at blocked
    simp [Image.current] at blocked
  · exact ⟨current, waiting', SameLives.update status alive rfl, fun _ => ⟨masked, rfl⟩⟩

theorem Settled.unlock {m : Nat} (call : s.running.call = some (.unlock m))
    (ran : s.afterMutex m (pthreadMutexUnlock s.kernel.process (s.kernel.mutexes m)) 0 = some s') :
    Settled s' := by
  have value : Call.exitValue s.running.call = none := by rw [call]; rfl
  obtain ⟨cells, waiting⟩ := settled.waiting
  have unblocked := settled.unblocked idle
  refine settled.mutex idle value (by rw [call]; rfl) ran fun p mutex progress eq => ?_
  obtain ⟨current, waiting', ⟨rfl, status⟩ | ⟨rfl, thread, blocked, status⟩⟩ := waiting.unlock eq
  · refine ⟨current, waiting', fun tid => Or.inl (congrFun status tid), fun own => ?_⟩
    rw [status] at own
    exact absurd own unblocked
  · refine ⟨current, waiting', SameLives.update status (by simp [blocked, Status.alive]) rfl,
      fun own => ?_⟩
    -- the thread that leaves the queue is not the current one
    have other : s.current ≠ thread := by
      rintro rfl
      exact unblocked blocked
    rw [status, Function.update_of_ne other] at own
    exact absurd own unblocked

omit settled in
omit idle in
/-- A barrier that has not been destroyed blocks nobody, so there is nobody to wake. -/
theorem waitStatement_quiet {p p' : Process} {b b' : Barrier} {point next : Point}
    (initialised : b.init = 1) (quiet : point.blocks = false)
    (ran : waitStatement p b point = some (p', b', next)) :
    (∃ masked, p' = { p with masked }) ∧ b'.init = 1 ∧ next.blocks = false := by
  obtain ⟨meeting, stepped, eq⟩ := Option.map_eq_some_iff.mp ran
  cases eq
  have goes : ∀ {m : Meeting (p.current + 1)} {point : Point},
      (m.goto (Fin.last p.current) point).point (Fin.last p.current) = point :=
    Function.update_self _ _ _
  cases point with
  | arrive =>
    simp only [Meeting.statement] at stepped
    split at stepped
    · simp at stepped
    · cases stepped
      exact ⟨⟨_, rfl⟩, initialised, by rw [goes]; rfl⟩
  -- `b->init` is 1, so that nobody is blocked here and nobody has to be woken
  | checkInit =>
    simp only [Meeting.statement, initialised] at stepped
    cases stepped
    exact ⟨⟨_, rfl⟩, initialised, by rw [goes]; rfl⟩
  | wake =>
    simp only [Meeting.statement, Meeting.unblock, unblockFrom, initialised] at stepped
    cases stepped
    exact ⟨⟨_, rfl⟩, initialised, by rw [goes]; rfl⟩
  | test =>
    cases stepped
    refine ⟨⟨_, rfl⟩, initialised, ?_⟩
    rw [goes]
    split <;> rfl
  | setInit first =>
    cases stepped
    exact ⟨⟨_, rfl⟩, rfl, by rw [goes]; rfl⟩
  | clearTwo first =>
    cases stepped
    refine ⟨⟨_, rfl⟩, initialised, ?_⟩
    rw [goes]
    split <;> rfl
  | blockLock => simp [Point.blocks] at quiet
  | blockStatus => simp [Point.blocks] at quiet
  | blockNode => simp [Point.blocks] at quiet
  | blockInit => simp [Point.blocks] at quiet
  | blockUnlock => simp [Point.blocks] at quiet
  | blockSchedule => simp [Point.blocks] at quiet
  | _ =>
    cases stepped
    exact ⟨⟨_, rfl⟩, initialised, by rw [goes]; rfl⟩

theorem Settled.wait {b : Nat} {point : Point} (call : s.running.call = some (.wait b point))
    (ran : s.waitOn b point = some s') : Settled s' := by
  have fills : Call.filling s.running.call = none := by rw [call]; rfl
  have set : ∀ value, s.running.call ≠ some (.exit .setValue value) := by simp [call]
  have value : Call.exitValue s.running.call = none := by rw [call]; rfl
  have quiet : point.blocks = false := by
    have sound := settled.sound_self
    rwa [call] at sound
  obtain ⟨cells, waiting⟩ := settled.waiting
  unfold Image.waitOn at ran
  split at ran
  · simp at ran
  next p barrier next stepped =>
    obtain ⟨⟨masked, rfl⟩, initialised, quiet'⟩ :=
      waitStatement_quiet (settled.barriers b) quiet stepped
    -- Only the barrier and the mask have changed, whatever the next point is. What is left to say
    -- is what the caller does next.
    have settles : ∀ {running : Context}, running.thread = s.running.thread →
        (running.schedules = [] ∨ running.schedules = [⟨.enter, false⟩]) →
        (running.call = none ∨ running.call = some (.wait b next)) →
        Settled { s with
          kernel := { s.kernel with process.masked := masked }.setBarrier b barrier, running } := by
      intro running thread schedules calls
      have proceeds : Proceeds s { s with
          kernel := { s.kernel with process.masked := masked }.setBarrier b barrier, running } :=
        ⟨rfl, thread, schedules, rfl, fun _ _ => Or.inl rfl, settled.present, id, fun _ _ => rfl,
          fun _ => id, fun _ _ _ => rfl⟩
      refine proceeds.settled settled (fun blocked => absurd blocked (settled.unblocked idle))
        ⟨cells, ?_⟩ (fun b' => ?_) (proceeds.exited (settled.stored_of_call set) rfl id) ?_ ?_
        (proceeds.entries settled rfl (fun _ => Iff.rfl) rfl rfl (fun _ _ => rfl) fills ?_)
      · exact waiting.congr rfl rfl (fun _ => ⟨rfl, rfl⟩) fun _ _ => Iff.rfl
      · by_cases here : b' = b
        · subst here
          simp [Kernel.setBarrier, initialised]
        · simp [Kernel.setBarrier, here, settled.barriers b']
      · refine settled.called_self.trans (value.trans ?_)
        rcases calls with eq | eq <;> rw [eq] <;> rfl
      · -- where the call goes on, its next point is one at which no thread blocks
        rcases calls with eq | eq
        · rw [eq]
          trivial
        · rw [eq]
          exact quiet'
      · rcases calls with eq | eq <;> rw [eq] <;> rfl
    dsimp only at ran
    split at ran
    · cases ran
      exact settles rfl (Or.inr (by simp [idle])) (Or.inr rfl)
    · split at ran
      · cases ran
        exact settles rfl (Or.inl idle) (Or.inl rfl)
      · cases ran
        exact settles rfl (Or.inl idle) (Or.inr rfl)

/-- User code calls the library. -/
theorem Settled.request {r : Request} (requested : s.request r = some s') : Settled s' := by
  unfold Image.request at requested
  split at requested
  next user =>
    have fills : Call.filling s.running.call = none := by rw [user.1]; rfl
    have set : ∀ value, s.running.call ≠ some (.exit .setValue value) := by simp [user.1]
    have value : Call.exitValue s.running.call = none := by rw [user.1]; rfl
    cases r with
    | exit v =>
      cases requested
      have proceeds : Proceeds s ({ s with
          exits := Function.update s.exits s.running.thread (some v) }.goto
            (.exit .setStatus v)) := by
        refine ⟨rfl, rfl, Or.inl idle, rfl, fun _ _ => Or.inl rfl, settled.present, id, ?_, ?_,
          fun _ _ _ => rfl⟩
        · intro tid other
          exact Function.update_of_ne (settled.thread ▸ other) _ _
        · intro before called
          rw [settled.called_self, value] at called
          simp at called
      refine proceeds.settled settled (fun blocked => absurd blocked (settled.unblocked idle))
        settled.waiting settled.barriers (proceeds.exited (settled.stored_of_call set) rfl id) ?_
        trivial (proceeds.entries settled rfl (fun _ => Iff.rfl) rfl rfl (fun _ _ => rfl) fills rfl)
      rw [← settled.thread]
      exact Function.update_self _ _ _
    | _ =>
      cases requested
      exact settled.moves idle rfl (fun _ => Iff.rfl) (Or.inl idle) set value.symm
        (by trivial) fills rfl
  · simp at requested

end Calls

end OperatingSys.Threads
