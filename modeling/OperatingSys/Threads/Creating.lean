import OperatingSys.Threads.Settled

/-!
# Creating a thread

`pthread_create` looks for the first entry without a stack, fills it and counts it. While one
thread is at it, and no other, the entry is the one that `num_threads` names, so that its index
is the id that `pthread_create` stores.
-/

namespace OperatingSys.Threads

/-- Nobody else fills an entry. -/
def Image.Alone (s : Image) : Prop :=
  ∀ tid, tid ≠ s.current → s.Live tid → Call.filling (s.callOf tid) = none

/-- The local variables once the entry has been found. -/
theorem Locals.found {s : Image} {point : CreatePoint} {tid : Tid} {thread : Nat}
    (room : s.kernel.numThreads < maxThreads) (positive : 1 ≤ s.kernel.numThreads)
    (entry : tid = s.kernel.numThreads) (number : point.built = 1 → thread = s.kernel.numThreads)
    (other : point ≠ .setStatus) : Locals s ⟨point, tid, thread⟩ :=
  ⟨room, entry ▸ positive, ⟨Nat.le_of_eq entry, fun _ => entry⟩, number,
    fun at_ => absurd at_ other⟩

/-- Another statement, at which the entry has got no further. -/
theorem Slots.goes {s s' : Image} {f f' : Filling} (slots : Slots s (some f))
    (numThreads : s'.kernel.numThreads = s.kernel.numThreads)
    (stack : s'.kernel.stack = s.kernel.stack) (status : ∀ tid, s'.status tid = s.status tid)
    (exits : s'.exits = s.exits) (made : s'.made = s.made) (ids : s'.ids = s.ids)
    (stacked : f'.point.stacked = f.point.stacked) (built : f'.point.built = f.point.built)
    (marked : f'.point.marked = f.point.marked) (locals : Locals s' f') : Slots s' (some f') := by
  refine ⟨numThreads ▸ slots.positive, numThreads ▸ slots.bounded, ?_, ?_, ?_, ?_, ids ▸ slots.ids,
    ?_⟩
  · simp only [stack, numThreads, Filling.part, stacked]
    exact slots.stack
  · simp only [status, numThreads, Filling.part, marked]
    exact slots.empty
  · simp only [made, numThreads, Filling.part, built]
    exact slots.made
  · simp only [exits, numThreads, Filling.part, marked]
    exact slots.exits
  · rintro f ⟨⟩
    exact locals

section Create

variable {s s' : Image} (settled : Settled s) (idle : s.running.schedules = [])
  {tid : Tid} {thread : Nat} {point : CreatePoint}
  (call : s.running.call = some (.create point tid thread))
include settled

/-- Whoever fills an entry is the only one to do so, or will be refused. -/
theorem Settled.creator (fills : Call.filling s.running.call = some ⟨point, tid, thread⟩) :
    (Slots s (some ⟨point, tid, thread⟩) ∧ s.Alone) ∨
      (s.Refuses ⟨point, tid, thread⟩ ∧
        ∃ creator, Entries s creator ∧ ∀ filling, creator ≠ some (s.current, filling)) := by
  obtain ⟨creator, entries⟩ := settled.entries
  have own : Call.filling (s.callOf s.current) = some ⟨point, tid, thread⟩ := by
    rw [Image.callOf, if_pos rfl]
    exact fills
  rcases entries.only s.current (Or.inl rfl) _ own with eq | refuses
  · have slots := entries.slots
    have room := (slots.locals ⟨point, tid, thread⟩ (by simp [eq])).room
    rw [eq] at slots
    refine Or.inl ⟨slots, fun other apart live => ?_⟩
    cases fills : Call.filling (s.callOf other) with
    | none => rfl
    | some filling =>
      rcases entries.only other live filling fills with same | refused
      · rw [eq, Option.some.injEq, Prod.mk.injEq] at same
        exact absurd same.1.symm apart
      · exact absurd room (Nat.not_lt_of_le refused.1)
  · refine Or.inr ⟨refuses, creator, entries, fun filling eq => ?_⟩
    have room := (entries.slots.locals filling (by simp [eq])).room
    exact absurd room (Nat.not_lt_of_le refuses.1)

theorem Settled.creator_found (call : s.running.call = some (.create point tid thread))
    (found : point.filling = true) (other : point ≠ .search ∧ point ≠ .limit) :
    Slots s (some ⟨point, tid, thread⟩) ∧ s.Alone := by
  have fills : Call.filling s.running.call = some ⟨point, tid, thread⟩ := by
    rw [call, Call.filling, if_pos found]
  rcases settled.creator fills with alone | ⟨⟨-, early⟩, -⟩
  · exact alone
  · rcases early with search | limit
    · exact absurd search other.1
    · exact absurd limit other.2

/-- A thread that does not fill an entry while nobody else does. -/
theorem Settled.uncreated (alone : s.Alone) (fills : Call.filling s.running.call = none) :
    Slots s none := by
  obtain ⟨creator, entries⟩ := settled.entries
  cases creator with
  | none => exact entries.slots
  | some pair =>
    obtain ⟨other, filling⟩ := pair
    obtain ⟨live, own⟩ := entries.live other filling rfl
    by_cases here : other = s.current
    · rw [here, Image.callOf, if_pos rfl, fills] at own
      simp at own
    · rw [alone other here live] at own
      simp at own

include idle

/-- `pthread_create` begins to look for an entry. -/
theorem Settled.begins {regs : Tid → Option Context}
    (fills : Call.filling s.running.call = none) (value : Call.exitValue s.running.call = none)
    (same : ∀ tid, tid ≠ s.current → regs tid = s.regs tid)
    (alone : s.kernel.numThreads < maxThreads → s.Alone) :
    Settled ({ s with regs }.goto (.create .search 1 thread)) := by
  have set : ∀ value, s.running.call ≠ some (.exit .setValue value) := by
    intro v eq
    rw [eq] at value
    simp [Call.exitValue] at value
  refine settled.advances idle rfl rfl (Or.inl idle) rfl (fun tid other _ => same tid other) set
    value.symm trivial fun proceeds => ?_
  by_cases room : s.kernel.numThreads < maxThreads
  · have slots := settled.uncreated (alone room) fills
    refine ⟨_, proceeds.entries_alone (alone room) ?_⟩
    refine ⟨slots.positive, slots.bounded, slots.stack, slots.empty, slots.made, slots.exits,
      slots.ids, ?_⟩
    rintro f ⟨⟩
    exact ⟨room, Nat.le_refl 1, ⟨slots.positive, fun other => absurd rfl other⟩,
      fun built => by simp [CreatePoint.built] at built, fun at_ => by simp at at_⟩
  -- the table is full
  · obtain ⟨creator, entries⟩ := settled.entries
    refine ⟨creator, proceeds.entries_beside settled.toControl entries rfl (fun _ => Iff.rfl) rfl rfl
      (fun tid empty => same tid ?_) (fun filling eq => ?_) ?_⟩
    · rintro rfl
      exact settled.present empty
    · exact absurd (entries.slots.locals filling (by simp [eq])).room room
    · rintro f ⟨⟩
      exact ⟨Nat.le_of_not_lt room, Or.inl rfl⟩

include call

theorem Settled.searches (spares : s.SparesThreads)
    (start : point = .first ∨ point = .ready ∨ point = .setjmp)
    (ran : s.createStatement tid thread point = some s') : Settled s' := by
  have value : Call.exitValue s.running.call = none := by rw [call]; rfl
  have sound := settled.sound_self
  rw [call] at sound
  rcases start with rfl | rfl | rfl
  · have later : ¬ s.kernel.isFirstCall = true := by simp [settled.isFirstCall]
    simp only [Image.createStatement, if_neg later] at ran
    cases ran
    refine settled.begins idle (by rw [call]; rfl) value (fun _ _ => rfl) fun room => ?_
    -- the condition on this statement
    intro other apart live
    obtain ⟨inTable, alive⟩ := live.resolve_left apart
    simp only [Image.SparesThreads, idle, call] at spares
    rw [Image.callOf, if_neg apart]
    cases saved : s.regs other with
    | none => rfl
    | some c => exact spares room other inTable apart alive c saved
  · cases ran
    obtain ⟨main, others⟩ := sound
    have active := settled.active idle value
    obtain ⟨cells, waiting⟩ := settled.waiting
    have set : ∀ value, s.running.call ≠ some (.exit .setValue value) := by simp [call]
    have here : ((s.setStatus 0 .ready).goto (.create .setjmp tid thread)).status s.current =
        .ready := by
      rw [main]
      exact Function.update_self (0 : Tid) Status.ready s.kernel.process.status
    have there : ∀ other, other ≠ s.current →
        ((s.setStatus 0 .ready).goto (.create .setjmp tid thread)).status other =
          s.status other := by
      intro other apart
      rw [main] at apart
      exact Function.update_of_ne apart Status.ready s.kernel.process.status
    have proceeds : Proceeds s ((s.setStatus 0 .ready).goto (.create .setjmp tid thread)) :=
      ⟨rfl, rfl, Or.inl idle, rfl, fun other apart => Or.inl (there other apart), by simp [here],
        fun exited => by simp [exited, Status.active] at active, fun _ _ => rfl, fun _ => id,
        fun _ _ _ => rfl⟩
    refine proceeds.settled settled (fun blocked => by simp [here] at blocked) ⟨cells, ?_⟩
      settled.barriers (proceeds.exited (settled.stored_of_call set) rfl
        fun exited => by simp [here] at exited) (settled.called_self.trans value) ?_
      (proceeds.entries settled rfl (fun _ => Iff.rfl) rfl rfl (fun _ _ => rfl)
        (by rw [call]; rfl) rfl)
    · refine waiting.congr rfl rfl (fun _ => ⟨rfl, rfl⟩) fun other _ => ?_
      exact update_blocked_iff (main ▸ settled.unblocked idle) (by decide) other
    · refine ⟨main, fun other inTable apart => ?_⟩
      rw [there other (main ▸ apart)]
      exact others other inTable apart
  · cases ran
    obtain ⟨main, others⟩ := sound
    refine settled.begins idle (by rw [call]; rfl) value (fun other apart => ?_) fun _ => ?_
    · exact Function.update_of_ne (main ▸ apart) _ _
    -- there are no other threads
    · intro other apart live
      obtain ⟨inTable, alive⟩ := live.resolve_left apart
      rw [others other inTable (main ▸ apart)] at alive
      simp [Status.alive] at alive

/-- `pthread_create` looks for an entry. -/
theorem Settled.finds (start : point = .search ∨ point = .limit)
    (ran : s.createStatement tid thread point = some s') : Settled s' := by
  have value : Call.exitValue s.running.call = none := by rw [call]; rfl
  have set : ∀ value, s.running.call ≠ some (.exit .setValue value) := by simp [call]
  have fills : Call.filling s.running.call = some ⟨point, tid, thread⟩ := by
    rw [call]
    rcases start with rfl | rfl <;> rfl
  -- a thread that goes on at `next`: it is refused, or the local variables say where to go on
  have goes : ∀ next : Call, Call.exitValue (some next) = none →
      CallSound s s.current (some next) →
      (s.Refuses ⟨point, tid, thread⟩ → ∀ f ∈ Call.filling (some next), s.Refuses f) →
      (Slots s (some ⟨point, tid, thread⟩) →
        Slots (s.goto next) (Call.filling (some next))) → Settled (s.goto next) := by
    intro next none_ sound refused found
    refine settled.advances idle rfl rfl (Or.inl idle) rfl (fun _ _ _ => rfl) set
      (none_.trans value.symm) sound fun proceeds => ?_
    rcases settled.creator fills with ⟨slots, alone⟩ | ⟨refuses, creator, entries, other⟩
    · exact ⟨_, proceeds.entries_alone alone (found slots)⟩
    · exact ⟨creator, proceeds.entries_beside settled.toControl entries rfl (fun _ => Iff.rfl) rfl
        rfl (fun _ _ => rfl) other (refused refuses)⟩
  rcases start with rfl | rfl
  · simp only [Image.createStatement] at ran
    split at ran
    next used =>
      cases ran
      refine goes _ rfl trivial ?_ fun slots => ?_
      · rintro refuses f ⟨⟩
        exact ⟨refuses.1, Or.inl rfl⟩
      · obtain ⟨room, first, ⟨upper, -⟩, -⟩ := slots.locals _ rfl
        -- an entry with a stack is one of those that `num_threads` counts
        have below : tid < s.kernel.numThreads := by
          by_contra beyond
          exact used.2 ((slots.stack tid first used.1).mpr (Nat.le_of_not_lt beyond))
        exact slots.goes rfl rfl (fun _ => rfl) rfl rfl rfl rfl rfl rfl
          ⟨room, Nat.le_add_left 1 tid, ⟨below, fun other => absurd rfl other⟩,
            fun built => by simp [CreatePoint.built] at built, fun at_ => by simp at at_⟩
    next free =>
      cases ran
      refine goes _ rfl trivial ?_ fun slots => ?_
      · rintro refuses f ⟨⟩
        exact ⟨refuses.1, Or.inr rfl⟩
      · obtain ⟨room, first, ⟨upper, -⟩, -⟩ := slots.locals _ rfl
        have inTable : tid < maxThreads := Nat.lt_of_le_of_lt upper room
        have null : s.kernel.stack tid = .null := by
          by_contra held
          exact free ⟨inTable, held⟩
        have lower : s.kernel.numThreads ≤ tid := (slots.stack tid first inTable).mp null
        exact slots.goes rfl rfl (fun _ => rfl) rfl rfl rfl rfl rfl rfl
          (Locals.found room slots.positive (Nat.le_antisymm upper lower) (by simp [CreatePoint.built])
            (by simp))
  · simp only [Image.createStatement] at ran
    split at ran
    next full =>
      cases ran
      refine goes _ rfl trivial (by simp [Call.filling]) fun slots => ?_
      exact absurd (slots.locals _ rfl).room (Nat.not_lt_of_le full)
    next room =>
      cases ran
      refine goes _ rfl trivial (fun refuses => absurd refuses.1 room) fun slots => ?_
      obtain ⟨room, -, ⟨-, found⟩, -⟩ := slots.locals _ rfl
      exact slots.goes rfl rfl (fun _ => rfl) rfl rfl rfl rfl rfl rfl
        (Locals.found room slots.positive (found (by simp)) (by simp [CreatePoint.built]) (by simp))

/-- `pthread_create` fills the entry that it has found. -/
theorem Settled.fills (found : point.filling = true) (other : point ≠ .search ∧ point ≠ .limit)
    (unmarked : point ≠ .setStatus) (ran : s.createStatement tid thread point = some s') :
    Settled s' := by
  have value : Call.exitValue s.running.call = none := by rw [call]; rfl
  have set : ∀ value, s.running.call ≠ some (.exit .setValue value) := by simp [call]
  obtain ⟨slots, alone⟩ := settled.creator_found call found other
  obtain ⟨room, -, ⟨-, here⟩, number, -⟩ := slots.locals _ rfl
  have entry : tid = s.kernel.numThreads := here other.1
  subst entry
  -- what is done to an entry that is not in use yet concerns nobody
  have advances : ∀ {s' : Image}, s'.kernel = { s.kernel with
      id := s'.kernel.id, stack := s'.kernel.stack, armed := s'.kernel.armed,
      numThreads := s'.kernel.numThreads } → s'.running.thread = s.running.thread →
      s'.running.schedules = [] → s'.exits = s.exits →
      (∀ tid, (s.status tid).alive = true → s'.regs tid = s.regs tid) →
      Call.exitValue s'.running.call = none → CallSound s s.current s'.running.call →
      Slots s' (Call.filling s'.running.call) → Settled s' := by
    intro s' same thread short exits regs none_ sound slots'
    exact settled.advances idle same thread (Or.inl short) exits (fun tid _ => regs tid) set
      (none_.trans value.symm) sound fun proceeds => ⟨_, proceeds.entries_alone alone slots'⟩
  have dead : point.marked = 0 → ∀ tid, (s.status tid).alive = true →
      tid ≠ s.kernel.numThreads := by
    rintro unmarked tid alive rfl
    have empty : s.status s.kernel.numThreads = .empty :=
      slots.empty _ room (by simp [Filling.part, unmarked])
    simp [empty, Status.alive] at alive
  cases point with
  | setPc =>
    simp only [Image.createStatement, if_neg (Nat.not_le_of_lt room)] at ran
    cases ran
    refine advances rfl rfl idle rfl (fun tid alive => ?_) rfl trivial ?_
    · exact Function.update_of_ne (dead rfl tid alive) _ _
    · exact slots.goes rfl rfl (fun _ => rfl) rfl rfl rfl rfl rfl rfl
        (Locals.found room slots.positive rfl (by simp [CreatePoint.built]) (by simp))
  | setR13 =>
    cases ran
    exact advances rfl rfl idle rfl (fun _ _ => rfl) rfl trivial
      (slots.goes rfl rfl (fun _ => rfl) rfl rfl rfl rfl rfl rfl
        (Locals.found room slots.positive rfl (by simp [CreatePoint.built]) (by simp)))
  | setR12 =>
    cases ran
    exact advances rfl rfl idle rfl (fun _ _ => rfl) rfl trivial
      (slots.goes rfl rfl (fun _ => rfl) rfl rfl rfl rfl rfl rfl
        (Locals.found room slots.positive rfl (by simp [CreatePoint.built]) (by simp)))
  | malloc =>
    cases ran
    refine advances rfl rfl idle rfl (fun _ _ => rfl) rfl trivial ?_
    refine ⟨slots.positive, slots.bounded, fun tid lower inTable => ?_, slots.empty, slots.made,
      slots.exits, slots.ids, ?_⟩
    · have before := slots.stack tid lower inTable
      by_cases here : tid = s.kernel.numThreads
      · simp [Image.goto, here, Filling.part, Call.filling, CreatePoint.filling,
          CreatePoint.stacked]
      · simp only [Image.goto, Function.update_of_ne here, before, Filling.part, Call.filling,
          CreatePoint.filling, CreatePoint.stacked, if_true]
        omega
    · rintro f ⟨⟩
      exact Locals.found room slots.positive rfl (by simp [CreatePoint.built]) (by simp)
  | setReturn =>
    cases ran
    exact advances rfl rfl idle rfl (fun _ _ => rfl) rfl trivial
      (slots.goes rfl rfl (fun _ => rfl) rfl rfl rfl rfl rfl rfl
        (Locals.found room slots.positive rfl (by simp [CreatePoint.built]) (by simp)))
  | setRsp =>
    cases ran
    have made : s.made = s.kernel.numThreads := slots.made
    refine advances rfl rfl idle rfl (fun tid alive => ?_) rfl trivial ?_
    · exact Function.update_of_ne (dead rfl tid alive) _ _
    · refine ⟨slots.positive, slots.bounded, slots.stack, slots.empty, congrArg (· + 1) made,
        slots.exits, slots.ids, ?_⟩
      rintro f ⟨⟩
      refine ⟨room, slots.positive, ⟨Nat.le_refl _, fun _ => rfl⟩, fun _ => made, fun _ => ?_⟩
      rw [made]
      exact Function.update_self _ _ _
  | setTid =>
    cases ran
    exact advances rfl rfl idle rfl (fun _ _ => rfl) rfl trivial
      (slots.goes rfl rfl (fun _ => rfl) rfl rfl rfl rfl rfl rfl
        (Locals.found room slots.positive rfl (fun _ => number rfl) (by simp)))
  | store =>
    cases ran
    refine advances rfl rfl idle rfl (fun _ _ => rfl) rfl trivial ?_
    refine ⟨slots.positive, slots.bounded, slots.stack, slots.empty, slots.made, slots.exits, ?_, ?_⟩
    -- the id is the index of the entry
    · intro pair member
      rcases List.mem_cons.mp member with rfl | old
      · exact number rfl
      · exact slots.ids pair old
    · rintro f ⟨⟩
      exact Locals.found room slots.positive rfl (fun _ => number rfl) (by simp)
  | count =>
    cases ran
    refine advances rfl rfl idle rfl (fun _ _ => rfl) rfl trivial ?_
    exact ⟨Nat.le_add_left 1 _, room, slots.stack, slots.empty, slots.made, slots.exits, slots.ids,
      by rintro f ⟨⟩⟩
  | setStatus => exact absurd rfl unmarked
  | search => exact absurd rfl other.1
  | limit => exact absurd rfl other.2
  | first => simp [CreatePoint.filling] at found
  | ready => simp [CreatePoint.filling] at found
  | setjmp => simp [CreatePoint.filling] at found

end Create

/-! ### One more thread -/

section Marks

variable {s : Image} {thread : Nat}

/-- The entry is ready. -/
def Image.marked (s : Image) (thread : Nat) : Image :=
  (s.setStatus s.kernel.numThreads .ready).goto (.create .setTid s.kernel.numThreads thread)

theorem marked_status_other {tid : Tid} (other : tid ≠ s.kernel.numThreads) :
    (s.marked thread).status tid = s.status tid := Function.update_of_ne other _ _

theorem marked_status_new : (s.marked thread).status s.kernel.numThreads = .ready :=
  Function.update_self _ _ _

theorem marked_callOf_self : (s.marked thread).callOf s.current =
    some (.create .setTid s.kernel.numThreads thread) := if_pos rfl

theorem marked_callOf_other {tid : Tid} (other : tid ≠ s.current) :
    (s.marked thread).callOf tid = s.callOf tid := (if_neg other).trans (if_neg other).symm

/-- The threads are those that there were before, and the new one. -/
theorem marked_live {tid : Tid} (live : (s.marked thread).Live tid) :
    tid = s.kernel.numThreads ∨ s.Live tid := by
  by_cases new : tid = s.kernel.numThreads
  · exact Or.inl new
  · rw [Image.Live, marked_status_other new] at live
    exact Or.inr live

variable (settled : Settled s) (idle : s.running.schedules = [])
  (call : s.running.call = some (.create .setStatus s.kernel.numThreads thread))
  (slots : Slots s (some ⟨.setStatus, s.kernel.numThreads, thread⟩)) (alone : s.Alone)
include settled slots

omit settled in
theorem Slots.empty_new : s.status s.kernel.numThreads = .empty :=
  slots.empty _ (slots.locals _ rfl).room (Nat.le_refl _)

theorem Settled.current_ne_new : s.current ≠ s.kernel.numThreads := by
  intro same
  refine settled.present ?_
  rw [same]
  exact slots.empty_new

/-- The new thread is in user code. -/
theorem Settled.callOf_new : (s.marked thread).callOf s.kernel.numThreads = none := by
  rw [marked_callOf_other (Ne.symm (settled.current_ne_new slots)), Image.callOf,
    if_neg (Ne.symm (settled.current_ne_new slots)), (slots.locals _ rfl).regs rfl]
  rfl

theorem Settled.marked_values (call : s.running.call =
      some (.create .setStatus s.kernel.numThreads thread)) : Values (s.marked thread) := by
  have value : Call.exitValue s.running.call = none := by rw [call]; rfl
  have stored := settled.stored_of_call (by simp [call])
  refine ⟨fun tid inTable gone => ?_, fun tid alive => ?_, fun tid alive => ?_⟩
  · have old : tid ≠ s.kernel.numThreads := by
      rintro rfl
      simp [marked_status_new] at gone
    rw [marked_status_other old] at gone
    exact ⟨_, stored tid inTable gone, Or.inl rfl⟩
  · by_cases own : tid = s.current
    · rw [own, marked_callOf_self]
      exact settled.called_self.trans value
    rcases marked_live alive with rfl | before
    · rw [settled.callOf_new slots]
      exact slots.exits _ (Nat.le_refl _)
    · rw [marked_callOf_other own]
      exact settled.called tid before
  · by_cases own : tid = s.current
    · rw [own, marked_callOf_self]
      trivial
    rcases marked_live alive with rfl | before
    · rw [settled.callOf_new slots]
      trivial
    rw [marked_callOf_other own]
    have sound := settled.sound tid before
    have gone : ∀ tid, s.status tid = .exited → (s.marked thread).status tid = .exited := by
      intro tid exited
      rw [marked_status_other ?_]
      · exact exited
      · rintro rfl
        simp [slots.empty_new] at exited
    have exits : (s.marked thread).exits = s.exits := rfl
    -- while the first `pthread_create` is in `scheduler_init` there is no second thread
    have later : ¬ (tid = 0 ∧ ∀ other < maxThreads, other ≠ 0 → s.status other = .empty) := by
      rintro ⟨rfl, nobody⟩
      exact settled.present (nobody s.current settled.inTable (Ne.symm own))
    unfold CallSound at sound ⊢
    split <;> simp_all

theorem Settled.marked_entries (alone : s.Alone) : Entries (s.marked thread)
    (some (s.current, ⟨.setTid, s.kernel.numThreads, thread⟩)) := by
  have before := slots.locals _ rfl
  refine ⟨⟨slots.positive, slots.bounded, slots.stack, fun tid inTable later => ?_, slots.made,
    fun tid later => slots.exits tid (Nat.le_of_succ_le later), slots.ids, ?_⟩, ?_, ?_⟩
  · have later : s.kernel.numThreads < tid := later
    rw [marked_status_other (Nat.ne_of_gt later)]
    exact slots.empty tid inTable (Nat.le_of_lt later)
  · rintro f ⟨⟩
    exact Locals.found before.room slots.positive rfl (fun _ => before.thread rfl) (by simp)
  · intro tid alive filling member
    by_cases own : tid = s.current
    · rw [own, marked_callOf_self] at member
      cases member
      exact Or.inl (by rw [own])
    rcases marked_live alive with rfl | before
    · rw [settled.callOf_new slots] at member
      simp [Call.filling] at member
    · rw [marked_callOf_other own, alone tid own before] at member
      simp at member
  · rintro tid filling ⟨⟩
    exact ⟨Or.inl rfl, by rw [marked_callOf_self]; rfl⟩

include idle call alone

/-- `threads[tid].status = TS_READY`: there is one more thread. -/
theorem Settled.marks : Settled (s.marked thread) := by
  have apart := settled.current_ne_new slots
  have control : Control (s.marked thread) := by
    refine settled.toControl.called rfl rfl (Or.inl idle) ?_ ?_ ?_
    · rw [marked_status_other apart]
      exact settled.present
    · rw [marked_status_other apart]
      exact fun blocked => absurd blocked (settled.unblocked idle)
    · intro tid inTable other alive
      by_cases new : tid = s.kernel.numThreads
      · subst new
        exact Or.inr ((slots.locals _ rfl).regs rfl)
      · rw [marked_status_other new] at alive
        exact Or.inl ⟨alive, rfl⟩
  obtain ⟨cells, waiting⟩ := settled.waiting
  refine { control, settled.marked_values slots call with
    isFirstCall := settled.isFirstCall
    waiting := ⟨cells, ?_⟩
    barriers := settled.barriers
    entries := ⟨_, settled.marked_entries slots alone⟩ }
  have unblocked : s.kernel.process.status s.kernel.numThreads ≠ .blocked := by
    intro blocked
    exact absurd (slots.empty_new.symm.trans blocked) (by decide)
  exact waiting.congr rfl rfl (fun _ => ⟨rfl, rfl⟩) fun tid _ =>
    update_blocked_iff unblocked (by decide) tid

end Marks

theorem Settled.create {s s' : Image} (settled : Settled s) (idle : s.running.schedules = [])
    {tid : Tid} {thread : Nat} {point : CreatePoint}
    (call : s.running.call = some (.create point tid thread)) (spares : s.SparesThreads)
    (ran : s.createStatement tid thread point = some s') : Settled s' := by
  by_cases start : point = .first ∨ point = .ready ∨ point = .setjmp
  · exact settled.searches idle call spares start ran
  by_cases early : point = .search ∨ point = .limit
  · exact settled.finds idle call early ran
  have found : point.filling = true := by
    cases point <;> simp_all [CreatePoint.filling]
  by_cases marks : point = .setStatus
  · subst marks
    obtain ⟨slots, alone⟩ := settled.creator_found call found (not_or.mp early)
    obtain rfl : tid = s.kernel.numThreads := (slots.locals _ rfl).tid.2 (by simp)
    cases ran
    exact settled.marks idle call slots alone
  · exact settled.fills idle call found (not_or.mp early) marks ran

end OperatingSys.Threads
