import OperatingSys.Tls.Allotment
import OperatingSys.Lib.Machine
import Mathlib.Algebra.BigOperators.Group.Finset.Piecewise

/-!
# Reference counts

Along every run of calls by genuine threads in which at most 128 areas are given out, the
count of a page is the number of places in the page tables that point to it. A page is freed
by the call that gives up the last of them, and by no other.
-/

namespace OperatingSys.Tls

open Search Sharing

/-- The number of pairs of a registered area and an index at which its table points to `id`. -/
def State.slotCount (s : State) (id : Nat) : Nat :=
  ∑ i ∈ Finset.range maxThreadCount, (s.pagesOf i).count id

/-- The calls that give out an area. -/
def Call.registers (c : Call) : Bool :=
  match c.operation with
  | .create _ | .clone _ => true
  | .read _ _ | .write _ _ _ | .destroy => false

/-- How many areas a call with this reply has given out. -/
def Call.gained (c : Call) (r : Reply) : Nat := if c.registers ∧ r.1 = 0 then 1 else 0

/-- The number of successful `tls_create` and `tls_clone` calls of a run. -/
def successes : List Call → List Reply → Nat
  | c :: calls, r :: replies => c.gained r + successes calls replies
  | _, _ => 0

/-- Either nothing has been created yet, or `granted` pairs have been given out. -/
def Settled (s : State) (granted : Nat) : Prop :=
  (s = State.fresh ∧ granted = 0) ∨ Resting s granted

/-! ### Reading and writing, whatever the range -/

section Access

variable {s s' : State} {granted : Nat} {self : Tid} {offset length : BitVec 32}

theorem Resting.read (resting : Resting s granted) (genuine : Genuine self) {r : Int}
    {bytes : List Byte} (read : tlsRead s self offset length = some (r, bytes, s')) :
    Resting s' granted ∧ s'.pairs = s.pairs := by
  rcases resting.registered.findTid_cases genuine with ⟨missing, -⟩ | ⟨i, tls, holds, found⟩
  · rw [(tls_missing missing).1] at read
    simp only [Option.some.injEq, Prod.mk.injEq] at read
    exact read.2.2 ▸ ⟨resting, rfl⟩
  · simp only [tlsRead, found, Option.bind_some, holds.2] at read
    split at read
    · simp only [Option.some.injEq, Prod.mk.injEq] at read
      exact read.2.2 ▸ ⟨resting, rfl⟩
    · obtain ⟨s₁, unprotected, working, pairs, -⟩ := resting.unprotect holds
      obtain ⟨s₂, protected_, resting', pairs', -⟩ := working.protect
      simp only [unprotected, protected_] at read
      split at read
      · simp at read
      · simp only [Option.some.injEq, Prod.mk.injEq] at read
        exact read.2.2 ▸ ⟨resting', pairs'.trans pairs⟩

/-- A write may replace the page table of its caller, and keeps everybody's pair. -/
theorem Resting.write (resting : Resting s granted) (genuine : Genuine self) {r : Int}
    {buffer : Nat → Byte} (wrote : tlsWrite s self offset length buffer = some (r, s')) :
    Resting s' granted ∧ ∀ tid i tls, Holds s tid i tls → ∃ tls', Holds s' tid i tls' := by
  have kept : Resting s granted ∧ ∀ tid i tls, Holds s tid i tls → ∃ tls', Holds s tid i tls' :=
    ⟨resting, fun _ _ tls holds => ⟨tls, holds⟩⟩
  rcases resting.registered.findTid_cases genuine with ⟨missing, -⟩ | ⟨i, tls, holds, found⟩
  · rw [(tls_missing missing).2.1] at wrote
    simp only [Option.some.injEq, Prod.mk.injEq] at wrote
    exact wrote.2 ▸ kept
  · simp only [tlsWrite, found, holds.2] at wrote
    split at wrote
    · simp only [Option.some.injEq, Prod.mk.injEq] at wrote
      exact wrote.2 ▸ kept
    · obtain ⟨s₁, unprotected, working, pairs, -⟩ := resting.unprotect holds
      simp only [unprotected] at wrote
      -- a write that is not defined ends the run; else the area has its pages, some of them renewed
      cases loop : writeLoop i offset buffer s₁ (List.range (rounds offset length)) with
      | none => simp [loop] at wrote
      | some s₂ =>
        obtain ⟨tls', working', pairs₂⟩ := working.writeLoop loop
        obtain ⟨s₃, protected_, resting', pairs₃, -⟩ := working'.protect
        simp only [loop, working'.holds.2, protected_, Option.some.injEq, Prod.mk.injEq] at wrote
        obtain ⟨-, rfl⟩ := wrote
        refine ⟨resting', fun tid j area held => ?_⟩
        by_cases here : j = i
        · subst here
          have same := held.2.symm.trans holds.2
          simp only [Pair.mk.injEq] at same
          exact ⟨tls', holds.1, by rw [pairs₃, working'.holds.2, same.1]⟩
        · exact ⟨area, held.1, by rw [pairs₃, pairs₂ j here, pairs, held.2]⟩

end Access

/-! ### Giving areas out -/

section Grant

variable {s : State} {granted : Nat} {self : Tid}

/-- `tls_create` refuses, fills the next pair, or writes to `tid_tls_pairs[-1]`. -/
theorem tlsCreate_cases (resting : Resting s granted) (genuine : Genuine self) (size : BitVec 32) :
    ((size = 0 ∨ findTid s self ≠ none) ∧ tlsCreate s self size = some (-1, s)) ∨
    (size ≠ 0 ∧ findTid s self = none ∧
      ((granted < maxThreadCount ∧ ∃ s' bytes, tlsCreate s self size = some (0, s') ∧
        Resting s' (granted + 1) ∧ Changes s s' self (some bytes)) ∨
      (granted = maxThreadCount ∧ tlsCreate s self size = none))) := by
  have registered := resting.registered
  have begun : (if s.initialized then s else tlsInit s) = s := if_pos resting.initialized
  by_cases zero : size = 0
  · exact Or.inl ⟨Or.inl zero, by simp only [tlsCreate, begun, if_pos zero]⟩
  rcases registered.findTid_cases genuine with ⟨missing, without⟩ | ⟨i, tls, -, found⟩
  · refine Or.inr ⟨zero, missing, ?_⟩
    by_cases room : granted < maxThreadCount
    · obtain ⟨s', created, resting', changes⟩ :=
        tlsCreate_spec resting room genuine without zero
      exact Or.inl ⟨room, s', _, created, resting', changes⟩
    -- no pair is left: the source then writes to `tid_tls_pairs[-1]`
    · have full : granted = maxThreadCount := Nat.le_antisymm registered.bound (Nat.le_of_not_lt room)
      refine Or.inr ⟨full, ?_⟩
      simp only [tlsCreate, begun, if_neg zero, missing, Option.isSome_none, Bool.false_eq_true,
        if_false, registered.freeIndex, if_neg room]
  · refine Or.inl ⟨Or.inr (by simp [found]), ?_⟩
    simp only [tlsCreate, begun, if_neg zero, found, Option.isSome_some, if_true]

/-- `tls_clone` refuses, fills the next pair, or counts references that no pair holds. -/
theorem tlsClone_cases (resting : Resting s granted) (genuine : Genuine self) (target : Tid) :
    ((s.areaOf self ≠ none ∨ s.areaOf target = none) ∧ tlsClone s self target = some (-1, s)) ∨
    (findTid s self = none ∧ (∃ i tls, Holds s target i tls) ∧
      ((granted < maxThreadCount ∧ ∃ s' bytes, tlsClone s self target = some (0, s') ∧
        Resting s' (granted + 1) ∧ Changes s s' self (some bytes)) ∨
      (granted = maxThreadCount ∧ ∃ s', tlsClone s self target = some (0, s') ∧
        s'.pairs = s.pairs))) := by
  have registered := resting.registered
  rcases registered.findTid_cases genuine with ⟨missing, without⟩ | ⟨i, tls, holds, found⟩
  · rcases area_cases s target with nothing | ⟨i, tls, holds⟩
    · refine Or.inl ⟨Or.inr nothing, ?_⟩
      rw [State.areaOf] at nothing
      simp only [tlsClone, missing, Option.bind_none, Option.isSome_none, Bool.false_eq_true,
        if_false, nothing]
    · refine Or.inr ⟨missing, ⟨i, tls, holds⟩, ?_⟩
      by_cases room : granted < maxThreadCount
      · obtain ⟨s', cloned, resting', changes⟩ := tlsClone_spec resting room genuine without holds
        exact Or.inl ⟨room, s', _, cloned, resting', changes⟩
      · have full : granted = maxThreadCount :=
          Nat.le_antisymm registered.bound (Nat.le_of_not_lt room)
        obtain ⟨-, formed⟩ := registered.genuine holds
        have shared := eachPage_eq sharePage_touches formed.nodup fun id member =>
          resting.counted.allocated holds.1 (holds.pagesOf ▸ member)
        -- the loop that looks for a free pair ends without one
        have slot : firstIndex maxThreadCount (fun j => decide (((s.mapPages tls.pages fun page =>
            some { page with refCount := page.refCount + 1 }).pairs j).tid = -1)) = none :=
          registered.freeIndex.trans (if_neg room)
        refine Or.inr ⟨full, s.mapPages tls.pages fun page =>
          some { page with refCount := page.refCount + 1 }, ?_, rfl⟩
        simp only [tlsClone, missing, Option.bind_none, Option.isSome_none, Bool.false_eq_true,
          if_false, registered.findTid_eq holds, Option.bind_some, holds.2, shared, slot]
  · refine Or.inl ⟨Or.inl (by simp [State.areaOf, found, holds.2]), ?_⟩
    simp only [tlsClone, found, Option.bind_some, holds.2, Option.isSome_some, if_true]

end Grant

/-- Before the first `tls_create` no thread has an area to clone. -/
theorem tlsClone_fresh (self target : Tid) :
    tlsClone State.fresh self target = some (-1, State.fresh) := by
  have nothing : ∀ tid, ((findTid State.fresh tid).bind fun i => (State.fresh.pairs i).tls) = none := by
    intro tid
    cases findTid State.fresh tid <;> rfl
  simp only [tlsClone, nothing, Option.isSome_none, Bool.false_eq_true, if_false]

/-- A new process refuses every call but `tls_create`, and that one starts the table. -/
theorem fresh_call (c : Call) (genuine : Genuine c.self) :
    call State.fresh c = some ((-1, []), State.fresh) ∨
      call State.fresh c = call (tlsInit State.fresh) c := by
  obtain ⟨self, operation⟩ := c
  obtain ⟨read, write, destroy⟩ := tls_missing (findTid_fresh genuine)
  cases operation with
  | create size => exact Or.inr rfl
  | clone target => exact Or.inl (by simp only [Tls.call, tlsClone_fresh, Option.map_some])
  | read offset length => exact Or.inl (by simp only [Tls.call, read, Option.map_some])
  | write offset length buffer => exact Or.inl (by simp only [Tls.call, write, Option.map_some])
  | destroy => exact Or.inl (by simp only [Tls.call, destroy, Option.map_some])

/-! ### Runs -/

section Runs

variable {s s' : State} {granted : Nat} {c : Call} {r : Reply}

theorem Resting.call (resting : Resting s granted) (genuine : Genuine c.self)
    (called : call s c = some (r, s')) (few : granted + c.gained r ≤ maxThreadCount) :
    Resting s' (granted + c.gained r) := by
  obtain ⟨self, operation⟩ := c
  cases operation with
  | create size =>
    simp only [Tls.call, Option.map_eq_some_iff, Prod.mk.injEq] at called
    obtain ⟨⟨value, s''⟩, created, rfl, rfl⟩ := called
    -- refused, or granted a new pair, or not defined
    rcases tlsCreate_cases resting genuine size with
      ⟨-, refused⟩ | ⟨-, -, room | ⟨-, undefined⟩⟩
    · rw [refused] at created
      simp only [Option.some.injEq, Prod.mk.injEq] at created
      obtain ⟨rfl, rfl⟩ := created
      exact resting
    · obtain ⟨-, t, bytes, defined, resting', -⟩ := room
      rw [defined] at created
      simp only [Option.some.injEq, Prod.mk.injEq] at created
      obtain ⟨rfl, rfl⟩ := created
      exact resting'
    · simp [undefined] at created
  | clone target =>
    simp only [Tls.call, Option.map_eq_some_iff, Prod.mk.injEq] at called
    obtain ⟨⟨value, s''⟩, cloned, rfl, rfl⟩ := called
    rcases tlsClone_cases resting genuine target with
      ⟨-, refused⟩ | ⟨-, -, ⟨-, t, bytes, defined, resting', -⟩ | ⟨full, t, defined, -⟩⟩
    · rw [refused] at cloned
      simp only [Option.some.injEq, Prod.mk.injEq] at cloned
      obtain ⟨rfl, rfl⟩ := cloned
      exact resting
    · rw [defined] at cloned
      simp only [Option.some.injEq, Prod.mk.injEq] at cloned
      obtain ⟨rfl, rfl⟩ := cloned
      exact resting'
    · rw [defined] at cloned
      simp only [Option.some.injEq, Prod.mk.injEq] at cloned
      obtain ⟨rfl, rfl⟩ := cloned
      rw [full] at few
      exact absurd few (Nat.not_succ_le_self _)
  | read offset length =>
    simp only [Tls.call, Option.map_eq_some_iff, Prod.mk.injEq] at called
    obtain ⟨⟨value, bytes, s''⟩, read, rfl, rfl⟩ := called
    exact (resting.read genuine read).1
  | write offset length buffer =>
    simp only [Tls.call, Option.map_eq_some_iff, Prod.mk.injEq] at called
    obtain ⟨⟨value, s''⟩, wrote, rfl, rfl⟩ := called
    exact (resting.write genuine wrote).1
  | destroy =>
    simp only [Tls.call, Option.map_eq_some_iff, Prod.mk.injEq] at called
    obtain ⟨⟨value, s''⟩, destroyed, rfl, rfl⟩ := called
    rcases resting.registered.findTid_cases genuine with ⟨missing, -⟩ | ⟨i, tls, holds, -⟩
    · rw [(tls_missing missing).2.2] at destroyed
      simp only [Option.some.injEq, Prod.mk.injEq] at destroyed
      exact destroyed.2 ▸ resting
    · obtain ⟨t, defined, resting', -⟩ := tlsDestroy_spec resting holds
      rw [defined] at destroyed
      simp only [Option.some.injEq, Prod.mk.injEq] at destroyed
      exact destroyed.2 ▸ resting'

theorem Settled.call (settled : Settled s granted) (genuine : Genuine c.self)
    (called : call s c = some (r, s')) (few : granted + c.gained r ≤ maxThreadCount) :
    Settled s' (granted + c.gained r) := by
  rcases settled with ⟨rfl, rfl⟩ | resting
  · rcases fresh_call c genuine with refused | started
    · rw [refused] at called
      simp only [Option.some.injEq, Prod.mk.injEq] at called
      obtain ⟨rfl, rfl⟩ := called
      refine Or.inl ⟨rfl, ?_⟩
      simp [Call.gained]
    · rw [started] at called
      exact Or.inr (tlsInit_fresh_resting.call genuine called few)
  · exact Or.inr (resting.call genuine called few)

theorem Settled.run {calls : List Call} {replies : List Reply} {t : State}
    (settled : Settled s granted) (genuine : ∀ c ∈ calls, Genuine c.self)
    (ran : Machine.run Tls.call s calls = some (replies, t))
    (few : granted + successes calls replies ≤ maxThreadCount) :
    Settled t (granted + successes calls replies) := by
  induction calls generalizing s granted replies with
  | nil =>
    simp only [Machine.run, Option.some.injEq, Prod.mk.injEq] at ran
    obtain ⟨rfl, rfl⟩ := ran
    exact settled
  | cons c rest ih =>
    obtain ⟨r, next, rs, first, tail, rfl⟩ := Machine.run_cons_eq_some ran
    simp only [successes, ← Nat.add_assoc] at few ⊢
    have settled' := settled.call (genuine c (by simp)) first (by omega)
    exact ih settled' (fun c' member => genuine c' (List.mem_cons_of_mem _ member)) tail few

end Runs

/-! ### Exactness -/

section Exact

variable {s : State} {granted : Nat}

theorem Registered.pagesOf_nodup (registered : Registered s granted) {i : Nat}
    (inRange : i < maxThreadCount) : (s.pagesOf i).Nodup := by
  by_cases late : granted ≤ i
  · rw [State.pagesOf, registered.free i inRange late]
    exact List.nodup_nil
  · rcases registered.taken i (by omega) with empty | ⟨tid, tls, -, formed, pair⟩
    · rw [State.pagesOf, empty]
      exact List.nodup_nil
    · rw [State.pagesOf, pair]
      exact formed.nodup

/-- No table points to a page twice, so that slots are holders. -/
theorem Registered.slotCount_eq (registered : Registered s granted) (id : Nat) :
    s.slotCount id = (holders maxThreadCount s.pagesOf id).card := by
  rw [holders, Finset.card_filter]
  refine Finset.sum_congr rfl fun i member => ?_
  exact (registered.pagesOf_nodup (Finset.mem_range.mp member)).count

/-- The counts are exact, what is pointed to is allocated, and what is allocated is pointed to. -/
structure ExactCounts (s : State) : Prop where
  counts : ∀ id page, s.heap id = some page → page.refCount = s.slotCount id ∧ 1 ≤ page.refCount
  live : ∀ i < maxThreadCount, ∀ id ∈ s.pagesOf i, (s.heap id).isSome = true
  reachable : ∀ id, (s.heap id).isSome = true → ∃ i < maxThreadCount, id ∈ s.pagesOf i

theorem Resting.exactCounts (resting : Resting s granted) : ExactCounts s := by
  have counted := resting.counted
  have counts : ∀ id page, s.heap id = some page → page.refCount = s.slotCount id := by
    intro id page here
    rw [resting.registered.slotCount_eq, ← counted.exact_]
    simp only [State.refCount, here]
  refine ⟨fun id page here => ⟨counts id page here, counted.positive id page here⟩,
    fun i inRange id member => ?_, fun id allocated => ?_⟩
  · obtain ⟨page, here⟩ := counted.allocated inRange member
    rw [here]
    rfl
  -- a count above 0 is the count of somebody
  · obtain ⟨page, here⟩ := Option.isSome_iff_exists.mp allocated
    have count := counts id page here
    have positive := counted.positive id page here
    rw [resting.registered.slotCount_eq] at count
    have someone : 0 < (holders maxThreadCount s.pagesOf id).card := by omega
    obtain ⟨i, member⟩ := Finset.card_pos.mp someone
    exact ⟨i, mem_holders.mp member⟩

theorem fresh_exactCounts : ExactCounts State.fresh where
  counts := fun id page here => by simp [State.fresh] at here
  live := fun i _ id member => by simp [State.pagesOf, State.fresh, Pair.pages] at member
  reachable := fun id allocated => by simp [State.fresh] at allocated

/-- `tls_destroy` never meets a freed page, and frees exactly the pages of its caller that
one slot points to. -/
def DestroysExactly (s : State) (self : Tid) : Prop :=
  ∃ r s', tlsDestroy s self = some (r, s') ∧ ∀ id, (s.heap id).isSome = true →
    (s'.heap id = none ↔ (∃ i < maxThreadCount, (s.pairs i).tid = self ∧ id ∈ s.pagesOf i) ∧
      s.slotCount id = 1)

theorem Resting.destroysExactly (resting : Resting s granted) {self : Tid}
    (genuine : Genuine self) : DestroysExactly s self := by
  have registered := resting.registered
  rcases registered.findTid_cases genuine with ⟨missing, without⟩ | ⟨i, tls, holds, found⟩
  · refine ⟨-1, s, (tls_missing missing).2.2, fun id allocated => ?_⟩
    have kept : s.heap id ≠ none := fun gone => by simp [gone] at allocated
    apply iff_of_false kept
    rintro ⟨⟨i, inRange, mine, -⟩, -⟩
    have free := firstIndex_eq_none.mp missing i inRange
    simp [mine] at free
  · obtain ⟨-, formed⟩ := registered.genuine holds
    have released := eachPage_eq releasePage_touches formed.nodup fun id member =>
      resting.counted.allocated holds.1 (holds.pagesOf ▸ member)
    refine ⟨0, _, by simp only [tlsDestroy, found, holds.2, released]; rfl, fun id allocated => ?_⟩
    obtain ⟨page, here⟩ := Option.isSome_iff_exists.mp allocated
    have count := (resting.exactCounts.counts id page here).1
    -- a pair with the caller's id is the caller's pair
    have mine : (∃ j < maxThreadCount, (s.pairs j).tid = self ∧ id ∈ s.pagesOf j) ↔
        id ∈ tls.pages := by
      constructor
      · rintro ⟨j, inRange, tid, member⟩
        cases area : (s.pairs j).tls with
        | none => simp [State.pagesOf, Pair.pages, area] at member
        | some other =>
          have held : Holds s self j other := ⟨inRange, by rw [← tid, ← area]⟩
          rw [registered.distinct self j i other tls held holds, holds.pagesOf] at member
          exact member
      · exact fun member => ⟨i, holds.1, by rw [holds.2], holds.pagesOf ▸ member⟩
    rw [mine]
    change (if id ∈ tls.pages then (s.heap id).bind Page.released else s.heap id) = none ↔ _
    rw [here, Option.bind_some, Page.released]
    by_cases member : id ∈ tls.pages
    · rw [if_pos member]
      by_cases last : page.refCount = 1
      · have one : s.slotCount id = 1 := by omega
        simp [last, member, one]
      · have several : s.slotCount id ≠ 1 := by omega
        simp [last, several]
    · simp [member]

end Exact

/-- **Exact counts.** In every state that calls of genuine threads reach with at most 128
successful `tls_create` and `tls_clone` calls, every count is the number of slots that point to
the page, no page that a table points to has been freed, no page is lost, and `tls_destroy`
frees a page exactly if its caller held the last reference. -/
theorem refCounts_exact {calls : List Call} (genuine : ∀ c ∈ calls, Genuine c.self)
    {replies : List Reply} {t : State}
    (ran : Machine.run call State.fresh calls = some (replies, t))
    (few : successes calls replies ≤ maxThreadCount) :
    ExactCounts t ∧ ∀ self, Genuine self → DestroysExactly t self := by
  have settled : Settled State.fresh 0 := Or.inl ⟨rfl, rfl⟩
  rcases settled.run genuine ran (by omega) with ⟨rfl, -⟩ | resting
  · refine ⟨fresh_exactCounts, fun self genuine => ?_⟩
    refine ⟨-1, State.fresh, (tls_missing (findTid_fresh genuine)).2.2, fun id allocated => ?_⟩
    simp [State.fresh] at allocated
  · exact ⟨resting.exactCounts, fun self genuine => resting.destroysExactly genuine⟩

/-- One thread clones another, gets a page of its own by writing, and gives it up again. -/
def shareThenPart : List Call :=
  [⟨1, .create 5000⟩, ⟨2, .clone 1⟩, ⟨2, .write 4090 10 fun _ => 7⟩, ⟨3, .clone 2⟩, ⟨2, .destroy⟩]

theorem refCounts_exact_shareThenPart :
    ∃ replies t, Machine.run call State.fresh shareThenPart = some (replies, t) ∧
      ExactCounts t ∧ DestroysExactly t 3 := by
  have defined : (Machine.run call State.fresh shareThenPart).isSome = true := by decide +kernel
  obtain ⟨⟨replies, t⟩, ran⟩ := Option.isSome_iff_exists.mp defined
  have few : successes shareThenPart replies ≤ maxThreadCount := by
    have shown : (Machine.run call State.fresh shareThenPart).map Prod.fst =
        some [(0, []), (0, []), (0, []), (0, []), (0, [])] := by decide +kernel
    rw [ran, Option.map_some, Option.some.injEq] at shown
    subst shown
    decide
  obtain ⟨exact_, destroys⟩ := refCounts_exact (by decide) ran few
  exact ⟨replies, t, ran, exact_, destroys 3 (by decide)⟩

end OperatingSys.Tls
