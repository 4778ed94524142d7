import OperatingSys.Tls.Fences

/-!
# Overlapping calls answer one after the other

As long as threads that share pages stay out of each other's way, a run of overlapping calls is
defined, and the replies are those of independent arrays when the calls are done one after the
other in the order in which they return.
-/

namespace OperatingSys.Tls

open Search Sharing

/-! ### Calls beside the ones under way -/

theorem Arrays.array_step_of_ne (a : Arrays Tid Byte) {c : Call} {tid : Tid} (other : tid ≠ c.self) :
    (a.step c).2.array tid = a.array tid := by
  obtain ⟨self, operation⟩ := c
  cases operation with
  | create size =>
    simp only [Arrays.step, Arrays.create]
    split
    · rfl
    · exact Function.update_of_ne other _ _
  | clone target =>
    simp only [Arrays.step, Arrays.clone]
    split
    · exact Function.update_of_ne other _ _
    · rfl
  | read offset length => rfl
  | write offset length buffer => exact a.array_write_of_ne self other _ _
  | destroy =>
    simp only [Arrays.step, Arrays.destroy]
    split
    · rfl
    · exact Function.update_of_ne other _ _

theorem Arrays.step_granted_le (a : Arrays Tid Byte) (c : Call) :
    (a.step c).2.granted ≤ a.granted + 1 := by
  obtain ⟨self, operation⟩ := c
  cases operation with
  | create size =>
    simp only [Arrays.step, Arrays.create]
    split
    · exact Nat.le_succ _
    · exact Nat.le_refl _
  | clone target =>
    simp only [Arrays.step, Arrays.clone]
    split
    · exact Nat.le_refl _
    · exact Nat.le_succ _
  | read offset length => exact Nat.le_succ _
  | write offset length buffer =>
    simp only [Arrays.step, Arrays.write]
    split
    · exact Nat.le_succ _
    · split <;> exact Nat.le_succ _
  | destroy =>
    simp only [Arrays.step, Arrays.destroy]
    split <;> exact Nat.le_succ _

/-- A reply depends on the arrays of the caller and of the thread it clones only. -/
theorem Arrays.step_agree {a b : Arrays Tid Byte} {c : Call} (granted : b.granted = a.granted)
    (own : b.array c.self = a.array c.self)
    (target : ∀ tid, c.operation = .clone tid → b.array tid = a.array tid) :
    (b.step c).1 = (a.step c).1 ∧ (b.step c).2.granted = (a.step c).2.granted ∧
      (b.step c).2.array c.self = (a.step c).2.array c.self := by
  obtain ⟨self, operation⟩ := c
  dsimp only at own target
  cases operation with
  | create size =>
    simp only [Arrays.step, Arrays.create, own]
    split
    · exact ⟨rfl, granted, own⟩
    · simp only [Arrays.grant, Arrays.set, granted, Function.update_self, and_self]
  | clone tid =>
    simp only [Arrays.step, Arrays.clone, own, target tid rfl]
    split
    · simp only [Arrays.grant, Arrays.set, granted, Function.update_self, and_self]
    · exact ⟨rfl, granted, own⟩
  | read offset length =>
    simp only [Arrays.step, Arrays.read, own]
    exact ⟨trivial, granted, trivial⟩
  | write offset length buffer =>
    simp only [Arrays.step, Arrays.write, own]
    split
    · exact ⟨rfl, granted, own⟩
    · split
      · exact ⟨rfl, granted, own⟩
      · simp only [Arrays.set, granted, Function.update_self, and_self]
  | destroy =>
    simp only [Arrays.step, Arrays.destroy, own]
    split
    · exact ⟨rfl, granted, own⟩
    · simp only [Arrays.set, granted, Function.update_self, and_self]

section Beside

variable {p : Process} {a b : Arrays Tid Byte} (serves : p.Serves a b)
include serves

/-- A thread whose pages nobody else is working on. -/
theorem Process.Serves.apart {self : Tid} (alone : p.Alone self) {i : Nat} {tls : Area}
    (holds : Holds p.globals self i tls) {tid : Tid} (other : tid ≠ self) {id : Nat}
    (member : id ∈ tls.pages) : id ∉ p.pages tid := by
  cases inside : p.inside tid with
  | none =>
    rw [Process.pages_outside inside]
    exact List.not_mem_nil
  | some u =>
    obtain ⟨tls', holds'⟩ := (serves.within tid u inside).holds
    have pair : (p.globals.pairs u.pair).tid = tid := by rw [holds'.2]
    rw [Process.pages_of inside]
    exact alone i holds.1 (by rw [holds.2]) u.pair holds'.1
      ⟨by rw [pair]; exact other, by rw [pair, inside, Option.isSome_some]⟩ id
      (holds.pagesOf.symm ▸ member)

/-- A call of a thread that is outside, on pages that nobody is working on. -/
theorem Process.Serves.fences_beside {self : Tid} (outside : p.inside self = none) {s' : State}
    {ids : List Nat} (spares : Spares p.globals s' self ids)
    (apart : ∀ tid ≠ self, ∀ id ∈ p.pages tid, id ∉ ids) :
    Fences { p with globals := s' } ∧
      ∀ tid u, p.inside tid = some u → s'.pairs u.pair = p.globals.pairs u.pair := by
  have pairs : ∀ tid u, p.inside tid = some u → s'.pairs u.pair = p.globals.pairs u.pair := by
    intro tid u inside
    obtain ⟨tls, holds⟩ := (serves.within tid u inside).holds
    have genuine := (serves.represents.resting.registered.genuine holds).1
    refine spares.pairs u.pair ?_ ?_
    · rw [holds.2]
      rintro rfl
      exact absurd (outside.symm.trans inside) (by simp)
    · rw [holds.2]
      exact genuine.2
  have rest : ∀ tid, Process.pages { p with globals := s' } tid = p.pages tid := by
    intro tid
    simp only [Process.pages]
    cases inside : p.inside tid with
    | none => rfl
    | some u => simp only [State.pagesOf, pairs tid u inside]
  refine ⟨serves.fences.change self (fun _ _ => rfl) (fun tid _ => rest tid)
    (fun tid other id member => spares.heap id (serves.old member) (apart tid other id member))
    (fun u within => ?_) (fun tid _ id member => ?_) fun id absent => ?_, pairs⟩
  · exact absurd (outside.symm.trans within) (by simp)
  · rw [rest, Process.pages_outside outside] at member
    exact absurd member List.not_mem_nil
  · exact spares.quiet id (serves.fences.shut id fun tid member => absent tid ((rest tid).symm ▸ member))

/-- An entry of the table is left. -/
theorem Process.Serves.few (room : p.Room) : b.granted < maxThreadCount := by
  have resting := serves.represents.resting
  obtain ⟨i, inRange, mark⟩ := room resting.initialized
  by_contra full
  rcases resting.registered.taken i (by omega) with empty | ⟨tid, tls, genuine, -, pair⟩
  · change p.globals.pairs i = _ at empty
    rw [empty] at mark
    exact absurd mark (by decide)
  · change p.globals.pairs i = _ at pair
    rw [pair] at mark
    exact genuine.2 mark

/-- An admitted call spares what others are working on, and is the same without the
protections. -/
theorem Process.Serves.beside {c : Call} (ok : p.Ok (.call c)) :
    (b.step c).2.granted ≤ maxThreadCount ∧
      (∀ tid, c.operation = .clone tid → b.array tid = a.array tid) ∧
      call p.globals.shut c = (call p.globals c).map (fun r => (r.1, r.2.shut)) ∧
      ∀ r s', call p.globals c = some (r, s') → ∃ ids, Spares p.globals s' c.self ids ∧
        ∀ tid ≠ c.self, ∀ id ∈ p.pages tid, id ∉ ids := by
  obtain ⟨self, operation⟩ := c
  obtain ⟨valid, outside, rest⟩ := ok
  have resting := serves.represents.resting
  have found : ∀ tid, findTid p.globals.shut tid = findTid p.globals tid := fun _ => rfl
  -- only a clone and a destroy touch pages that are there already, and those of one array only
  cases operation with
  | create size =>
    refine ⟨?_, fun tid eq => Operation.noConfusion eq, ?_, fun r s' called => ?_⟩
    · have few := serves.few rest
      simp only [Arrays.step, Arrays.create]
      split
      · exact Nat.le_of_lt few
      · exact few
    · simp only [call, tlsCreate_shut, Option.map_map]
      rfl
    · obtain ⟨r', created, eq⟩ := Option.map_eq_some_iff.mp called
      rw [Prod.mk.injEq] at eq
      obtain ⟨-, rfl⟩ := eq
      exact ⟨[], tlsCreate_spares resting.initialized created, fun _ _ _ _ => List.not_mem_nil⟩
  | clone target =>
    obtain ⟨room, targetOutside, alone⟩ := rest
    rw [Option.isNone_iff_eq_none] at targetOutside
    refine ⟨?_, fun tid eq => ?_, ?_, fun r s' called => ?_⟩
    · have few := serves.few room
      simp only [Arrays.step, Arrays.clone]
      split
      · exact few
      · exact Nat.le_of_lt few
    · rw [Operation.clone.injEq] at eq
      exact serves.outside tid (eq ▸ targetOutside)
    · simp only [call, tlsClone_shut, Option.map_map]
      rfl
    · obtain ⟨r', cloned, eq⟩ := Option.map_eq_some_iff.mp called
      rw [Prod.mk.injEq] at eq
      obtain ⟨-, rfl⟩ := eq
      rcases serves.represents.cases valid.2 with ⟨missing, -, -⟩ | ⟨i, tls, holds, there, -⟩
      · rw [found] at missing
        simp only [tlsClone, missing, Option.bind_none, ite_self, Option.some.injEq] at cloned
        exact ⟨[], cloned ▸ Spares.refl _ _ _, fun _ _ _ _ => List.not_mem_nil⟩
      · refine ⟨tls.pages, tlsClone_spares there (congrArg Pair.tls holds.2) cloned, fun tid _ id member held => ?_⟩
        -- the one cloned from is not inside an access, so it holds no page open
        by_cases other : tid = target
        · rw [other, Process.pages_outside targetOutside] at member
          exact List.not_mem_nil member
        · exact serves.apart alone holds other held member
  | destroy =>
    refine ⟨?_, fun tid eq => Operation.noConfusion eq, ?_, fun r s' called => ?_⟩
    · have bound := resting.registered.bound
      simp only [Arrays.step, Arrays.destroy]
      split <;> exact bound
    · simp only [call, tlsDestroy_shut, Option.map_map]
      rfl
    · obtain ⟨r', destroyed, eq⟩ := Option.map_eq_some_iff.mp called
      rw [Prod.mk.injEq] at eq
      obtain ⟨-, rfl⟩ := eq
      rcases serves.represents.cases valid.1 with ⟨missing, -, -⟩ | ⟨i, tls, holds, there, -⟩
      · rw [found] at missing
        simp only [tlsDestroy, missing, Option.some.injEq] at destroyed
        exact ⟨[], destroyed ▸ Spares.refl _ _ _, fun _ _ _ _ => List.not_mem_nil⟩
      · exact ⟨tls.pages, tlsDestroy_spares holds there destroyed,
          fun tid other id member held => serves.apart rest holds other held member⟩
  -- the accesses are not single steps here: they enter, go on and leave
  | read offset length => exact absurd rest id
  | write offset length buffer => exact absurd rest id

theorem Process.Serves.calls {c : Call} (ok : p.Ok (.call c)) :
    ∃ p' b', p.step (.call c) = some (some (c, (a.step c).1), p') ∧
      Process.Serves p' (a.step c).2 b' := by
  -- the call is simulated with all pages shut; as it is the same without the protections, it is
  -- simulated as it runs
  obtain ⟨few, target, shut, spares⟩ := serves.beside ok
  obtain ⟨valid, outside, -⟩ := ok
  rw [Option.isNone_iff_eq_none] at outside
  obtain ⟨t, called, represents⟩ := serves.represents.simulates valid few
  rw [shut, Option.map_eq_some_iff] at called
  obtain ⟨⟨r, s'⟩, called, eq⟩ := called
  simp only [Prod.mk.injEq] at eq
  obtain ⟨rfl, rfl⟩ := eq
  obtain ⟨ids, spares, apart⟩ := spares _ s' called
  obtain ⟨fences, pairs⟩ := serves.fences_beside outside spares apart
  obtain ⟨reply, granted, own'⟩ := Arrays.step_agree serves.granted
    (serves.outside c.self outside) target
  refine ⟨{ p with globals := s' }, (b.step c).2, ?_, fences, represents, granted, fun tid none_ => ?_,
    fun tid u within => ?_⟩
  · simp only [Process.step, called, Option.map_some, reply]
  · -- the caller's array changes in both, and nobody else's does
    by_cases other : tid = c.self
    · rw [other, own']
    · rw [Arrays.array_step_of_ne b other, Arrays.array_step_of_ne a other]
      exact serves.outside tid none_
  · have other : tid ≠ c.self := by
      rintro rfl
      exact absurd (outside.symm.trans within) (by simp)
    rw [Arrays.array_step_of_ne b other, Arrays.array_step_of_ne a other]
    obtain ⟨⟨tls, holds⟩, inRange, progress⟩ := serves.within tid u within
    exact ⟨⟨tls, holds.1, (pairs tid u within).trans holds.2⟩, inRange, progress⟩

theorem Process.Serves.enters {self : Tid} {access : Access} (ok : p.Ok (.enters self access)) :
    (∃ p', p.step (.enters self access) = some (none, p') ∧ Process.Serves p' a b) ∨
    p.step (.enters self access) =
        some (some (⟨self, access.operation⟩, (a.step ⟨self, access.operation⟩).1), p) ∧
      (a.step ⟨self, access.operation⟩).2 = a := by
  obtain ⟨valid, outside, alone⟩ := ok
  rw [Option.isNone_iff_eq_none] at outside
  have own := serves.outside self outside
  have fits : access.offset.toNat + access.length.toNat < 2 ^ 32 := by
    cases access <;> exact valid.2
  -- without an array, or beyond its end, the call fails at once, and there is nothing to enter
  rcases serves.represents.cases valid.1 with ⟨missing, nothing, -⟩ | ⟨i, tls, holds, found, array⟩
  · right
    change findTid p.globals self = none at missing
    rw [own] at nothing
    cases access with
    | read offset length =>
      simp [Process.step, missing, Access.operation, Arrays.step, Arrays.read, nothing]
    | write offset length buffer =>
      simp [Process.step, missing, Access.operation, Arrays.step, Arrays.write, nothing]
  change findTid p.globals self = some i at found
  change Holds p.globals self i tls at holds
  rw [State.contents_shut] at array
  have size : (p.globals.contents tls).length = tls.size.toNat := State.length_contents _ _
  have sum := (range_no_wrap fits).1
  -- the sum does not wrap, so `offset + length > tls->size` is the arrays' own bound
  have bound : access.offset + access.length > tls.size ↔
      (p.globals.contents tls).length < access.offset.toNat + access.length.toNat := by
    rw [gt_iff_lt, BitVec.lt_def, sum, size]
  by_cases exceeds : access.offset + access.length > tls.size
  · right
    have short := bound.mp exceeds
    rw [own] at array
    simp only [Process.step, found, holds.2, if_pos exceeds]
    cases access with
    | read offset length =>
      simp only [Access.offset, Access.length] at short
      simp [Access.operation, Arrays.step, Arrays.read, array, short]
    | write offset length buffer =>
      simp only [Access.offset, Access.length] at short
      simp [Access.operation, Arrays.step, Arrays.write, array, short]
  · left
    have within := Nat.not_lt.mp (bound.not.mp exceeds)
    let v : Inside := ⟨access, i, .unprotecting 0, []⟩
    refine ⟨⟨p.globals, Function.update p.inside self (some v)⟩, ?_, ?_⟩
    · simp only [Process.step, found, holds.2, if_neg exceeds]
      rfl
    -- from here on the pages of this array, and no others, count as in use by the caller
    have now : Process.pages ⟨p.globals, Function.update p.inside self (some v)⟩ self = tls.pages :=
      (Process.pages_of (Function.update_self _ _ _)).trans holds.pagesOf
    have rest : ∀ tid ≠ self,
        Process.pages ⟨p.globals, Function.update p.inside self (some v)⟩ tid = p.pages tid := by
      intro tid other
      simp only [Process.pages, Function.update_of_ne other]
    refine ⟨serves.fences.change self (fun tid other => Function.update_of_ne other _ _) rest
      (fun _ _ _ _ => rfl) (fun u entered => ?_) (fun tid other id member => ?_) (fun id absent => ?_),
      serves.represents, serves.granted, fun tid none_ => ?_, fun tid u entered => ?_⟩
    · obtain rfl := Option.some.inj ((Function.update_self self _ p.inside).symm.trans entered)
      exact fun id member => absurd member List.not_mem_nil
    · exact serves.apart alone holds other (now ▸ member)
    · refine serves.fences.shut id fun tid member => ?_
      by_cases other : tid = self
      · rw [other, Process.pages_outside outside] at member
        exact List.not_mem_nil member
      · exact absent tid ((rest tid other).symm ▸ member)
    · by_cases other : tid = self
      · subst other
        exact absurd ((Function.update_self tid _ p.inside).symm.trans none_) (by simp)
      · exact serves.outside tid ((Function.update_of_ne other _ _).symm.trans none_)
    · by_cases other : tid = self
      · subst other
        obtain rfl := Option.some.inj ((Function.update_self tid _ p.inside).symm.trans entered)
        -- nothing is copied yet: what is read is empty, and what is written is the array as it was
        refine ⟨⟨tls, holds⟩, Nat.zero_le _, _, own.symm.trans array, array.trans ?_, ?_, within⟩
        · exact congrArg some (Inside.written_begun access i _).symm
        · exact (Inside.read_begun access i _).symm
      · exact serves.within tid u ((Function.update_of_ne other _ _).symm.trans entered)

end Beside

/-! ### Runs -/

/-- Either nothing has happened yet, or the calls under way are served. -/
def Process.Related (p : Process) (a : Arrays Tid Byte) : Prop :=
  (p = Process.fresh ∧ a = Arrays.empty) ∨ ∃ b, p.Serves a b

theorem State.shut_of_sealed {s : State} (sealed_ : Sealed s) : s.shut = s := by
  have heap : s.shut.heap = s.heap := by
    funext id
    cases here : s.heap id with
    | none => simp only [State.shut, here, Option.map_none]
    | some page => simp only [State.shut, here, Option.map_some, ← sealed_ id page here]
  change { s with heap := s.shut.heap } = s
  rw [heap]

/-- With nobody inside a call, the areas hold the arrays. -/
theorem Process.Serves.of_represents {s : State} {a : Arrays Tid Byte} (represents : Represents s a) :
    Process.Serves ⟨s, fun _ => none⟩ a a := by
  have sealed_ := represents.resting.sealed_
  refine ⟨⟨fun tid v inside => by simp at inside, fun _ _ _ _ member => absurd member List.not_mem_nil,
    fun id _ page lookup => sealed_ id page lookup⟩, ?_, rfl, fun _ _ => rfl,
    fun tid v inside => by simp at inside⟩
  rw [State.shut_of_sealed sealed_]
  exact represents

theorem Process.Related.step {p : Process} {a : Arrays Tid Byte} {e : Event} (related : p.Related a)
    (ok : p.Ok e) :
    (∃ p', p.step e = some (none, p') ∧ Process.Related p' a) ∨
    ∃ c p', p.step e = some (some (c, (a.step c).1), p') ∧ Process.Related p' (a.step c).2 := by
  rcases related with ⟨rfl, rfl⟩ | ⟨b, serves⟩
  · cases e with
    | call c =>
      -- as without overlapping, and nobody is inside a call afterwards
      have few : (Arrays.empty.step c).2.granted ≤ maxThreadCount :=
        Nat.le_trans (Arrays.step_granted_le _ c) (by decide)
      obtain ⟨s', called, after⟩ := OperatingSys.Tls.Related.simulates (Or.inl ⟨rfl, rfl⟩) ok.1 few
      refine Or.inr ⟨c, ⟨s', fun _ => none⟩, ?_, ?_⟩
      · simp only [Process.step, Process.fresh, called, Option.map_some]
      · rcases after with ⟨rfl, empty⟩ | represents
        · exact Or.inl ⟨rfl, empty⟩
        · exact Or.inr ⟨_, Process.Serves.of_represents represents⟩
    | enters self access =>
      have missing := findTid_fresh ok.1.1
      refine Or.inr ⟨⟨self, access.operation⟩, Process.fresh, ?_, Or.inl ⟨rfl, ?_⟩⟩
      · simp only [Process.step, Process.fresh, missing]
        cases access <;> rfl
      · cases access <;> rfl
    | goes self => exact absurd ok (by simp [Process.Ok, Process.fresh])
  · cases e with
    | call c =>
      obtain ⟨p', b', stepped, serves'⟩ := serves.calls ok
      exact Or.inr ⟨c, p', stepped, Or.inr ⟨b', serves'⟩⟩
    | enters self access =>
      rcases serves.enters ok with ⟨p', stepped, serves'⟩ | ⟨stepped, same⟩
      · exact Or.inl ⟨p', stepped, Or.inr ⟨b, serves'⟩⟩
      · exact Or.inr ⟨_, p, stepped, Or.inr ⟨b, same.symm ▸ serves⟩⟩
    | goes self =>
      obtain ⟨v, inside⟩ := Option.isSome_iff_exists.mp ok
      rcases serves.goes inside with ⟨p', b', stepped, serves'⟩ | ⟨c, p', stepped, serves'⟩
      · exact Or.inl ⟨p', stepped, Or.inr ⟨b', serves'⟩⟩
      · exact Or.inr ⟨c, p', stepped, Or.inr ⟨b, serves'⟩⟩

/-- Nobody is inside a call, and so no page can be accessed. -/
theorem Process.Related.rests {p : Process} {a : Arrays Tid Byte} (related : p.Related a)
    (nobody : ∀ tid, p.inside tid = none) : OperatingSys.Tls.Related p.globals a := by
  rcases related with ⟨rfl, rfl⟩ | ⟨b, serves⟩
  · exact Or.inl ⟨rfl, rfl⟩
  · have sealed_ : Sealed p.globals := fun id page lookup =>
      serves.fences.shut id (fun tid => by
        rw [Process.pages_outside (nobody tid)]
        exact List.not_mem_nil) page lookup
    have represents := serves.represents
    rw [State.shut_of_sealed sealed_] at represents
    refine Or.inr ⟨serves.granted ▸ represents.resting, fun tid bytes => ?_, fun tid bytes array => ?_⟩
    · rw [← serves.outside tid (nobody tid)]
      exact represents.owns tid bytes
    · rw [← serves.outside tid (nobody tid)] at array
      exact represents.small tid bytes array

/-- **Overlapping calls.** As long as threads that share pages stay out of each other's way, every
run of overlapping calls is defined, and the replies are those of independent arrays when each call
is done at once when it returns; with nobody inside a call, the areas hold these arrays. -/
theorem overlapping_calls_serial {events : List Event}
    (ok : Machine.Admits Process.step Process.Ok Process.fresh events) :
    ∃ outputs p, Machine.run Process.step Process.fresh events = some (outputs, p) ∧
      outputs.reduceOption.map Prod.snd =
        (Machine.total Arrays.step Arrays.empty (outputs.reduceOption.map Prod.fst)).1 ∧
      ((∀ tid, p.inside tid = none) → Related p.globals
        (Machine.total Arrays.step Arrays.empty (outputs.reduceOption.map Prod.fst)).2) := by
  obtain ⟨outputs, p, ran, replies, related⟩ := Machine.run_serial Arrays.step
    (fun p a e related ok => Process.Related.step related ok) (Or.inl ⟨rfl, rfl⟩) ok
  exact ⟨outputs, p, ran, replies, related.rests⟩

/-- Two threads write at the same time, byte by byte in turn, and then the first one reads while a
third one is created. -/
def crossed : List Event :=
  [.call ⟨1, .create 4⟩, .call ⟨2, .create 4⟩, .enters 1 (.write 1 2 fun _ => 7),
    .enters 2 (.write 0 1 fun _ => 9), .goes 1, .goes 2, .goes 2, .goes 1, .goes 1, .goes 2, .goes 1,
    .goes 2, .goes 2, .goes 1, .goes 1, .goes 2, .goes 1, .enters 1 (.read 0 4), .goes 1,
    .call ⟨3, .create 1⟩, .goes 1, .goes 1, .goes 1, .goes 1, .goes 1, .goes 1, .goes 1, .goes 1]

theorem overlapping_calls_crossed :
    ∃ outputs p, Machine.run Process.step Process.fresh crossed = some (outputs, p) ∧
      outputs.reduceOption.map (fun r => (r.1.self, r.2)) =
        [(1, (0, [])), (2, (0, [])), (2, (0, [])), (1, (0, [])), (3, (0, [])),
          (1, (0, [0, 7, 7, 0]))] ∧
      outputs.reduceOption.map Prod.snd =
        (Machine.total Arrays.step Arrays.empty (outputs.reduceOption.map Prod.fst)).1 := by
  have replies : (Machine.run Process.step Process.fresh crossed).map (fun r =>
      r.1.reduceOption.map fun r => (r.1.self, r.2)) = some [(1, (0, [])), (2, (0, [])),
        (2, (0, [])), (1, (0, [])), (3, (0, [])), (1, (0, [0, 7, 7, 0]))] := by
    decide +kernel
  obtain ⟨outputs, p, ran, serial, -⟩ := @overlapping_calls_serial crossed (by decide +kernel)
  rw [ran, Option.map_some, Option.some.injEq] at replies
  exact ⟨outputs, p, ran, replies, serial⟩

-- A clone shares its page: the first thread to finish protects it under the other one.
example : (Machine.run Process.step Process.fresh
    [.call ⟨1, .create 4⟩, .call ⟨2, .clone 1⟩, .enters 1 (.read 0 1), .goes 1, .goes 1,
      .enters 2 (.read 0 1), .goes 2, .goes 2, .goes 1, .goes 1, .goes 1]).isSome = true ∧
    (Machine.run Process.step Process.fresh
      [.call ⟨1, .create 4⟩, .call ⟨2, .clone 1⟩, .enters 1 (.read 0 1), .goes 1, .goes 1,
        .enters 2 (.read 0 1), .goes 2, .goes 2, .goes 1, .goes 1, .goes 1, .goes 2]) = none := by
  decide +kernel

end OperatingSys.Tls
