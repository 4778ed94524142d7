import OperatingSys.Tls.References

/-!
# Registering areas

`tls_create` and `tls_clone` look for a pair marked `-1`. Only `tls_init` writes that mark,
and `tls_destroy` writes another one, so that a pair is given out once. A run registers what
it reports to have registered exactly as long as a pair that was never given out is left.
-/

namespace OperatingSys.Tls

open Search

/-- The globals, and the threads that hold an area: those whose last successful call among
`tls_create`, `tls_clone` and `tls_destroy` was not `tls_destroy`. -/
structure Tracked where
  state : State
  owners : Finset Tid

def Tracked.fresh : Tracked := ⟨State.fresh, ∅⟩

/-- The owners after a call that returned `r`. -/
def Call.owners (c : Call) (r : Reply) (owners : Finset Tid) : Finset Tid :=
  if r.1 = 0 then
    match c.operation with
    | .create _ | .clone _ => insert c.self owners
    | .destroy => owners.erase c.self
    | .read _ _ | .write _ _ _ => owners
  else owners

def Tracked.call (t : Tracked) (c : Call) : Option (Reply × Tracked) :=
  match Tls.call t.state c with
  | none => none
  | some (r, s) => some (r, ⟨s, c.owners r t.owners⟩)

/-- `tls_read(0, 1, buf)` by `tid` returns 0. -/
def State.Readable (s : State) (tid : Tid) : Prop :=
  ∃ bytes s', tlsRead s tid 0 1 = some (0, bytes, s')

/-- A registering call returns, either with 0 and a pair for the caller that can be read
from, or with -1 and every reference count as it was. -/
def Answered (s : State) (c : Call) : Prop :=
  ∃ r s', Tls.call s c = some (r, s') ∧
    ((r.1 = 0 ∧ (∃ i < maxThreadCount, ∃ tls, s'.pairs i = ⟨c.self, some tls⟩) ∧
        s'.Readable c.self) ∨
      (r.1 = -1 ∧ ∀ id, s'.refCount id = s.refCount id))

/-- Whoever holds an area can read from it, and a call that gives out areas does so or
says that it does not. -/
def Registers (t : Tracked) (c : Call) : Prop :=
  (∀ tid ∈ t.owners, t.state.Readable tid) ∧ (c.registers = true → Answered t.state c)

/-- The call gets past the checks that `tls_create` and `tls_clone` make. -/
def Passes (s : State) (c : Call) : Prop :=
  match c.operation with
  | .create size => size ≠ 0 ∧ findTid s c.self = none
  | .clone tid => s.areaOf c.self = none ∧ s.areaOf tid ≠ none
  | .read _ _ | .write _ _ _ | .destroy => False

/-- A call that gets past its checks finds a pair that was never given out. -/
def SlotLeft (t : Tracked) (c : Call) : Prop :=
  Passes t.state c →
    t.state.initialized = false ∨ ∃ i < maxThreadCount, (t.state.pairs i).tid = -1

instance (s : State) : DecidablePred (Passes s)
  | ⟨_, .create _⟩ | ⟨_, .clone _⟩ => inferInstanceAs (Decidable (_ ∧ _))
  | ⟨_, .read _ _⟩ | ⟨_, .write _ _ _⟩ | ⟨_, .destroy⟩ => inferInstanceAs (Decidable False)

instance (t : Tracked) (c : Call) : Decidable (SlotLeft t c) :=
  inferInstanceAs (Decidable (_ → _ ∨ _))

/-! ### What a registering call does -/

section Cases

variable {s : State} {granted : Nat} {c : Call}

theorem Resting.slotLeft_iff (resting : Resting s granted) :
    (∃ i < maxThreadCount, (s.pairs i).tid = -1) ↔ granted < maxThreadCount := by
  have search := resting.registered.freeIndex
  constructor
  · rintro ⟨i, inRange, mark⟩
    by_contra full
    rw [if_neg full] at search
    have unmarked := firstIndex_eq_none.mp search i inRange
    simp [mark] at unmarked
  · intro room
    rw [if_pos room] at search
    obtain ⟨inRange, mark, -⟩ := firstIndex_eq_some.mp search
    exact ⟨granted, inRange, of_decide_eq_true mark⟩

theorem Holds.readable (resting : Resting s granted) {tid : Tid} {i : Nat} {tls : Area}
    (holds : Holds s tid i tls) : s.Readable tid := by
  obtain ⟨-, formed⟩ := resting.registered.genuine holds
  have fits : (0 : BitVec 32).toNat + (1 : BitVec 32).toNat < 2 ^ 32 := by decide
  obtain ⟨s', read, -⟩ := tlsRead_spec resting holds fits formed.positive (by decide)
  exact ⟨_, s', read⟩

/-- A registering call is refused, gives out the next pair, or finds none to give out. -/
theorem Resting.registers_cases (resting : Resting s granted) (genuine : Genuine c.self)
    (registers : c.registers = true) :
    (¬ Passes s c ∧ Tls.call s c = some ((-1, []), s)) ∨
    (Passes s c ∧ granted < maxThreadCount ∧ ∃ s' bytes, Tls.call s c = some ((0, []), s') ∧
      Resting s' (granted + 1) ∧ Changes s s' c.self (some bytes)) ∨
    (Passes s c ∧ granted = maxThreadCount ∧ findTid s c.self = none ∧
      ∀ r s', Tls.call s c = some (r, s') → r.1 = 0 ∧ s'.pairs = s.pairs) := by
  obtain ⟨self, operation⟩ := c
  cases operation with
  | create size =>
    -- refused, granted, or all pairs in use
    rcases tlsCreate_cases resting genuine size with
      ⟨fails, refused⟩ | ⟨sized, missing, ⟨room, s', bytes, created, rest⟩ | ⟨full, undefined⟩⟩
    · refine Or.inl ⟨?_, by simp only [Tls.call, refused, Option.map_some]⟩
      rintro ⟨sized, missing⟩
      exact fails.elim sized fun found => found missing
    · refine Or.inr (Or.inl ⟨⟨sized, missing⟩, room, s', bytes, ?_, rest⟩)
      simp only [Tls.call, created, Option.map_some]
    · refine Or.inr (Or.inr ⟨⟨sized, missing⟩, full, missing, fun r s' called => ?_⟩)
      simp [Tls.call, undefined] at called
  | clone target =>
    have passes : findTid s self = none → (∃ i tls, Holds s target i tls) →
        Passes s ⟨self, .clone target⟩ := by
      rintro missing ⟨i, tls, holds⟩
      refine ⟨by simp [State.areaOf, missing], ?_⟩
      simp [State.areaOf, resting.registered.findTid_eq holds, holds.2]
    rcases tlsClone_cases resting genuine target with
      ⟨fails, refused⟩ | ⟨missing, held, ⟨room, s', bytes, cloned, rest⟩ | ⟨full, s', cloned, same⟩⟩
    · refine Or.inl ⟨?_, by simp only [Tls.call, refused, Option.map_some]⟩
      rintro ⟨nothing, something⟩
      exact fails.elim (fun found => found nothing) something
    · refine Or.inr (Or.inl ⟨passes missing held, room, s', bytes, ?_, rest⟩)
      simp only [Tls.call, cloned, Option.map_some]
    · refine Or.inr (Or.inr ⟨passes missing held, full, missing, fun r t called => ?_⟩)
      simp only [Tls.call, cloned, Option.map_some, Option.some.injEq, Prod.mk.injEq] at called
      obtain ⟨rfl, rfl⟩ := called
      exact ⟨rfl, same⟩
  | read offset length => simp [Call.registers] at registers
  | write offset length buffer => simp [Call.registers] at registers
  | destroy => simp [Call.registers] at registers

theorem Resting.answered_of_changes {s' : State} {bytes : List Byte}
    (called : Tls.call s c = some ((0, []), s')) (resting : Resting s' granted)
    (changes : Changes s s' c.self (some bytes)) : Answered s c := by
  obtain ⟨i, tls, holds, -⟩ := (changes.own bytes).mpr rfl
  exact ⟨_, s', called, Or.inl ⟨rfl, ⟨i, holds.1, tls, holds.2⟩, holds.readable resting⟩⟩

/-- In a table that has been started, what a registering call says is true exactly if it is
refused or finds a pair. -/
theorem Resting.answered_iff (resting : Resting s granted) (genuine : Genuine c.self)
    (registers : c.registers = true) :
    Answered s c ↔ (Passes s c → ∃ i < maxThreadCount, (s.pairs i).tid = -1) := by
  rw [resting.slotLeft_iff]
  rcases resting.registers_cases genuine registers with
    ⟨fails, refused⟩ | ⟨passes, room, s', bytes, called, resting', changes⟩ |
      ⟨passes, full, missing, unchanged⟩
  · exact iff_of_true ⟨_, s, refused, Or.inr ⟨rfl, fun _ => rfl⟩⟩ fun passes => absurd passes fails
  · exact iff_of_true (answered_of_changes called resting' changes) fun _ => room
  · refine iff_of_false ?_ fun room => by have := room passes; omega
    rintro ⟨r, s', called, answer⟩
    obtain ⟨zero, same⟩ := unchanged r s' called
    rcases answer with ⟨-, ⟨i, inRange, tls, pair⟩, -⟩ | ⟨refused, -⟩
    · -- the caller's pair would have been there before the call
      rw [same] at pair
      have other := firstIndex_eq_none.mp missing i inRange
      simp [pair] at other
    · omega

end Cases

/-! ### Runs -/

/-- The table is settled, and the owners have areas. -/
def Tracks (t : Tracked) : Prop :=
  ∃ granted, Settled t.state granted ∧ ∀ tid ∈ t.owners, ∃ i tls, Holds t.state tid i tls

section Runs

variable {t t' : Tracked} {c : Call} {r : Reply}

theorem not_holds_fresh {tid : Tid} {i : Nat} {tls : Area} : ¬ Holds State.fresh tid i tls := by
  rintro ⟨-, pair⟩
  simp [State.fresh] at pair

theorem fresh_answered (genuine : Genuine c.self) (registers : c.registers = true) :
    Answered State.fresh c := by
  rcases fresh_call c genuine with refused | started
  · exact ⟨_, State.fresh, refused, Or.inr ⟨rfl, fun _ => rfl⟩⟩
  · have resting := tlsInit_fresh_resting
    have answered := (resting.answered_iff genuine registers).mpr fun _ =>
      resting.slotLeft_iff.mpr (by decide)
    rw [Answered, started]
    exact answered

theorem passes_registers {s : State} (passes : Passes s c) : c.registers = true := by
  obtain ⟨self, operation⟩ := c
  cases operation with
  | create size => rfl
  | clone target => rfl
  | read offset length => exact passes.elim
  | write offset length buffer => exact passes.elim
  | destroy => exact passes.elim

theorem Tracks.registers_iff (tracks : Tracks t) (genuine : Genuine c.self) :
    Registers t c ↔ SlotLeft t c := by
  obtain ⟨granted, settled, owned⟩ := tracks
  obtain ⟨s, owners⟩ := t
  rcases settled with ⟨rfl, rfl⟩ | resting
  · have nobody : ∀ tid ∈ owners, State.fresh.Readable tid := by
      intro tid owner
      obtain ⟨i, tls, holds⟩ := owned tid owner
      exact absurd holds not_holds_fresh
    exact iff_of_true ⟨nobody, fresh_answered genuine⟩ fun _ => Or.inl rfl
  · have readable : ∀ tid ∈ owners, s.Readable tid := by
      intro tid owner
      obtain ⟨i, tls, holds⟩ := owned tid owner
      exact holds.readable resting
    constructor
    · rintro ⟨-, answered⟩ passes
      have registers := passes_registers passes
      exact Or.inr ((resting.answered_iff genuine registers).mp (answered registers) passes)
    · intro left
      refine ⟨readable, fun registers => (resting.answered_iff genuine registers).mpr ?_⟩
      intro passes
      rcases left passes with new | slot
      · exact absurd (resting.initialized.symm.trans new) (by decide)
      · exact slot

/-- Another thread's call leaves a thread its area. -/
theorem Changes.keeps {s s' : State} {self tid : Tid} {new : Option (List Byte)}
    (changes : Changes s s' self new) (other : tid ≠ self) (held : ∃ i tls, Holds s tid i tls) :
    ∃ i tls, Holds s' tid i tls := by
  obtain ⟨i, tls, holds⟩ := held
  obtain ⟨j, area, holds', -⟩ := (changes.others tid other _).mpr ⟨i, tls, holds, rfl⟩
  exact ⟨j, area, holds'⟩

/-- After a call that gave out an area the owners are those from before and the caller. -/
theorem Tracks.grant {s s' : State} {owners : Finset Tid} {granted : Nat} {bytes : List Byte}
    (owned : ∀ tid ∈ owners, ∃ i tls, Holds s tid i tls) (resting : Resting s' granted)
    (changes : Changes s s' c.self (some bytes)) : Tracks ⟨s', insert c.self owners⟩ := by
  refine ⟨granted, Or.inr resting, fun tid owner => ?_⟩
  by_cases own : tid = c.self
  · obtain ⟨i, tls, holds, -⟩ := (changes.own bytes).mpr rfl
    exact ⟨i, tls, own ▸ holds⟩
  · exact changes.keeps own (owned tid (Finset.mem_of_mem_insert_of_ne owner own))

theorem Call.owners_of_registers (registers : c.registers = true) (bytes : List Byte)
    (owners : Finset Tid) : c.owners (0, bytes) owners = insert c.self owners := by
  obtain ⟨self, operation⟩ := c
  cases operation with
  | create size => rfl
  | clone target => rfl
  | read offset length => simp [Call.registers] at registers
  | write offset length buffer => simp [Call.registers] at registers
  | destroy => simp [Call.registers] at registers

theorem Resting.tracks_call {s s' : State} {owners : Finset Tid} {granted : Nat}
    (resting : Resting s granted) (owned : ∀ tid ∈ owners, ∃ i tls, Holds s tid i tls)
    (genuine : Genuine c.self) (left : SlotLeft ⟨s, owners⟩ c)
    (called : Tls.call s c = some (r, s')) : Tracks ⟨s', c.owners r owners⟩ := by
  by_cases registers : c.registers = true
  -- only a call that registers an area can run out of pairs
  · rcases resting.registers_cases genuine registers with
      ⟨-, refused⟩ | ⟨-, -, t, bytes, defined, resting', changes⟩ | ⟨passes, full, -, -⟩
    · rw [refused] at called
      simp only [Option.some.injEq, Prod.mk.injEq] at called
      obtain ⟨rfl, rfl⟩ := called
      exact ⟨granted, Or.inr resting, owned⟩
    · rw [defined] at called
      simp only [Option.some.injEq, Prod.mk.injEq] at called
      obtain ⟨rfl, rfl⟩ := called
      rw [Call.owners_of_registers registers]
      exact Tracks.grant owned resting' changes
    · rcases left passes with new | slot
      · exact absurd (resting.initialized.symm.trans new) (by decide)
      · have room := resting.slotLeft_iff.mp slot
        omega
  · obtain ⟨self, operation⟩ := c
    cases operation with
    | create size => simp [Call.registers] at registers
    | clone target => simp [Call.registers] at registers
    | read offset length =>
      simp only [Tls.call, Option.map_eq_some_iff, Prod.mk.injEq] at called
      obtain ⟨⟨value, bytes, t⟩, read, rfl, rfl⟩ := called
      obtain ⟨resting', pairs⟩ := resting.read genuine read
      simp only [Call.owners, ite_self]
      refine ⟨granted, Or.inr resting', fun tid owner => ?_⟩
      obtain ⟨i, tls, holds⟩ := owned tid owner
      exact ⟨i, tls, holds.1, by rw [pairs, holds.2]⟩
    | write offset length buffer =>
      simp only [Tls.call, Option.map_eq_some_iff, Prod.mk.injEq] at called
      obtain ⟨⟨value, t⟩, wrote, rfl, rfl⟩ := called
      obtain ⟨resting', kept⟩ := resting.write genuine wrote
      simp only [Call.owners, ite_self]
      refine ⟨granted, Or.inr resting', fun tid owner => ?_⟩
      obtain ⟨i, tls, holds⟩ := owned tid owner
      exact ⟨i, kept tid i tls holds⟩
    | destroy =>
      simp only [Tls.call, Option.map_eq_some_iff, Prod.mk.injEq] at called
      obtain ⟨⟨value, t⟩, destroyed, rfl, rfl⟩ := called
      rcases resting.registered.findTid_cases genuine with ⟨missing, -⟩ | ⟨i, tls, holds, -⟩
      · rw [(tls_missing missing).2.2] at destroyed
        simp only [Option.some.injEq, Prod.mk.injEq] at destroyed
        obtain ⟨rfl, rfl⟩ := destroyed
        exact ⟨granted, Or.inr resting, owned⟩
      · obtain ⟨u, defined, resting', changes⟩ := tlsDestroy_spec resting holds
        rw [defined] at destroyed
        simp only [Option.some.injEq, Prod.mk.injEq] at destroyed
        obtain ⟨rfl, rfl⟩ := destroyed
        refine ⟨granted, Or.inr resting', fun tid owner => ?_⟩
        have remaining := Finset.mem_erase.mp owner
        exact changes.keeps remaining.1 (owned tid remaining.2)

theorem Tracks.call (tracks : Tracks t) (genuine : Genuine c.self) (left : SlotLeft t c)
    (called : t.call c = some (r, t')) : Tracks t' := by
  obtain ⟨granted, settled, owned⟩ := tracks
  obtain ⟨s, owners⟩ := t
  simp only [Tracked.call] at called
  split at called
  · simp at called
  next r' s' stepped =>
    simp only [Option.some.injEq, Prod.mk.injEq] at called
    obtain ⟨rfl, rfl⟩ := called
    rcases settled with ⟨rfl, rfl⟩ | resting
    · have nobody : owners = ∅ := by
        apply Finset.eq_empty_of_forall_notMem
        intro tid owner
        obtain ⟨i, tls, holds⟩ := owned tid owner
        exact not_holds_fresh holds
      subst nobody
      rcases fresh_call c genuine with refused | started
      · rw [refused] at stepped
        simp only [Option.some.injEq, Prod.mk.injEq] at stepped
        obtain ⟨rfl, rfl⟩ := stepped
        exact ⟨0, Or.inl ⟨rfl, rfl⟩, owned⟩
      · rw [started] at stepped
        have slots : SlotLeft ⟨tlsInit State.fresh, ∅⟩ c := fun _ =>
          Or.inr (tlsInit_fresh_resting.slotLeft_iff.mpr (by decide))
        exact tlsInit_fresh_resting.tracks_call (by simp) genuine slots stepped
    · exact resting.tracks_call owned genuine left stepped

end Runs

/-- **Registration.** Every run of calls by genuine threads keeps its word exactly if each
call that gets past its checks finds a pair that was never given out, however few threads
hold an area at that time. -/
theorem registers_iff_slotLeft {calls : List Call} (genuine : ∀ c ∈ calls, Genuine c.self) :
    Machine.Admits Tracked.call Registers Tracked.fresh calls ↔
      Machine.Admits Tracked.call SlotLeft Tracked.fresh calls := by
  refine Machine.admits_iff_admits Tracks (fun t c tracks genuine => tracks.registers_iff genuine)
    (fun t c r t' tracks genuine left called => tracks.call genuine left called) ?_
    (Machine.admits_of_forall genuine)
  exact ⟨0, Or.inl ⟨rfl, rfl⟩, by simp [Tracked.fresh]⟩

/-- An area outlives the thread it was cloned from. -/
theorem registers_iff_slotLeft_clone :
    Machine.Admits Tracked.call Registers Tracked.fresh
      [⟨1, .create 5000⟩, ⟨2, .clone 1⟩, ⟨1, .destroy⟩, ⟨2, .read 0 1⟩, ⟨1, .create 1⟩] :=
  (registers_iff_slotLeft (by decide)).mpr (by decide +kernel)

/-- `n` times, thread 1 creates an area and destroys it; then it creates one more. -/
def createDestroy : Nat → List Call
  | 0 => [⟨1, .create 1⟩]
  | n + 1 => ⟨1, .create 1⟩ :: ⟨1, .destroy⟩ :: createDestroy n

theorem createDestroy_genuine (n : Nat) : ∀ c ∈ createDestroy n, Genuine c.self := by
  induction n with
  | zero => decide
  | succ n ih =>
    intro c member
    simp only [createDestroy, List.mem_cons] at member
    rcases member with rfl | rfl | rest
    · decide
    · decide
    · exact ih c rest

/-- At most one thread per pair holds an area. -/
def FewOwners (t : Tracked) (_ : Call) : Prop := t.owners.card ≤ maxThreadCount

section Exhausted

variable {s : State} {granted : Nat}

/-- Creating and destroying gives out a pair for good. -/
theorem Resting.create_destroy (resting : Resting s granted) (room : granted < maxThreadCount)
    (nobody : ∀ i tls, ¬ Holds s 1 i tls) :
    ∃ s₁ s₂, Tls.call s ⟨1, .create 1⟩ = some ((0, []), s₁) ∧
      Tls.call s₁ ⟨1, .destroy⟩ = some ((0, []), s₂) ∧ Resting s₂ (granted + 1) ∧
      ∀ i tls, ¬ Holds s₂ 1 i tls := by
  obtain ⟨s₁, created, resting₁, changes₁⟩ :=
    tlsCreate_spec resting room (by decide : Genuine 1) nobody (by decide : (1 : BitVec 32) ≠ 0)
  obtain ⟨i, tls, holds, -⟩ := (changes₁.own _).mpr rfl
  obtain ⟨s₂, destroyed, resting₂, changes₂⟩ := tlsDestroy_spec resting₁ holds
  refine ⟨s₁, s₂, by simp only [Tls.call, created, Option.map_some],
    by simp only [Tls.call, destroyed, Option.map_some], resting₂, fun j area held => ?_⟩
  exact absurd ((changes₂.own _).mp ⟨j, area, held, rfl⟩) (by simp)

/-- Each round uses up a pair, and the last `tls_create` finds none. -/
theorem Resting.createDestroy_fails (n : Nat) (resting : Resting s granted)
    (nobody : ∀ i tls, ¬ Holds s 1 i tls) (all : granted + n = maxThreadCount) :
    Machine.Admits Tracked.call FewOwners ⟨s, ∅⟩ (createDestroy n) ∧
      ¬ Machine.Admits Tracked.call Registers ⟨s, ∅⟩ (createDestroy n) := by
  have none_held : FewOwners ⟨s, ∅⟩ ⟨1, .create 1⟩ := Nat.zero_le _
  -- induction on the pairs left; each round leaves nobody with an area, but one pair less
  induction n generalizing s granted with
  | zero =>
    have genuine : Genuine (1 : Tid) := by decide
    have missing := resting.registered.findTid_eq_none genuine nobody
    rcases tlsCreate_cases resting genuine 1 with
      ⟨zero | found, -⟩ | ⟨-, -, ⟨room, -⟩ | ⟨-, undefined⟩⟩
    · exact absurd zero (by decide)
    · exact absurd missing found
    · omega
    · -- the table is full: the call would store at index -1, and has no result
      refine ⟨⟨none_held, fun r t called => trivial⟩, fun admitted => ?_⟩
      obtain ⟨r, s', called, -⟩ := admitted.1.2 rfl
      simp only [Tls.call, undefined] at called
      exact absurd called (by simp)
  | succ n ih =>
    obtain ⟨s₁, s₂, created, destroyed, resting', nobody'⟩ :=
      resting.create_destroy (by omega) nobody
    obtain ⟨few, stuck⟩ := ih resting' nobody' (by omega) (Nat.zero_le _)
    have first : Tracked.call ⟨s, ∅⟩ ⟨1, .create 1⟩ = some ((0, []), ⟨s₁, {1}⟩) := by
      simp only [Tracked.call, created]
      rfl
    have second : Tracked.call ⟨s₁, {1}⟩ ⟨1, .destroy⟩ = some ((0, []), ⟨s₂, ∅⟩) := by
      simp only [Tracked.call, destroyed]
      rfl
    constructor
    · refine ⟨none_held, fun r t called => ?_⟩
      rw [first, Option.some.injEq, Prod.mk.injEq] at called
      obtain ⟨rfl, rfl⟩ := called
      have one : ({1} : Finset Tid).card ≤ maxThreadCount := by decide
      refine ⟨one, fun r t called => ?_⟩
      rw [second, Option.some.injEq, Prod.mk.injEq] at called
      obtain ⟨rfl, rfl⟩ := called
      exact few
    · intro admitted
      exact stuck ((admitted.2 _ _ first).2 _ _ second)

end Exhausted

/-- After 128 rounds of `tls_create` and `tls_destroy` by one thread, with never more than one
area in existence, its next `tls_create` writes to `tid_tls_pairs[-1]`. -/
theorem createDestroy_unregistered :
    (∀ c ∈ createDestroy 128, Genuine c.self) ∧
      Machine.Admits Tracked.call FewOwners Tracked.fresh (createDestroy 128) ∧
      ¬ Machine.Admits Tracked.call Registers Tracked.fresh (createDestroy 128) := by
  obtain ⟨few, unregistered⟩ :=
    tlsInit_fresh_resting.createDestroy_fails 128 (tlsInit_fresh_nobody 1) rfl
  refine ⟨createDestroy_genuine 128, few, fun admitted => unregistered ?_⟩
  -- the first call starts the table, and that is all that tells the two runs apart
  exact ⟨⟨by simp, fun registers => admitted.1.2 registers⟩, admitted.2⟩

end OperatingSys.Tls
