import OperatingSys.Tls.Storage
import OperatingSys.Lib.Sharing

/-!
# The invariant of the page tables

The reference count of a page is the number of areas that hold it. The entries of the table
are taken in order and never given out again: `granted` of them have been.
-/

namespace OperatingSys.Tls

open Search Sharing

def Pair.pages (pair : Pair) : List Nat :=
  match pair.tls with
  | none => []
  | some tls => tls.pages

/-- The page table of pair `i`. -/
def State.pagesOf (s : State) (i : Nat) : List Nat := (s.pairs i).pages

def State.refCount (s : State) (id : Nat) : Int :=
  match s.heap id with
  | none => 0
  | some page => page.refCount

/-- Pair `i` is the area `tls` of thread `tid`. -/
def Holds (s : State) (tid : Tid) (i : Nat) (tls : Area) : Prop :=
  i < maxThreadCount ∧ s.pairs i = ⟨tid, some tls⟩

/-- A thread id that is neither of the two marks in the table. -/
def Genuine (tid : Tid) : Prop := tid ≠ 0 ∧ tid ≠ -1

instance (tid : Tid) : Decidable (Genuine tid) := inferInstanceAs (Decidable (_ ∧ _))

/-- An area as `tls_create` lays it out. -/
structure WellFormed (tls : Area) : Prop where
  positive : 0 < tls.size.toNat
  pageNum : tls.pages.length = pageCount tls.size
  nodup : tls.pages.Nodup

/-- The pages, their counts and the areas that hold them. -/
structure Counted (s : State) : Prop where
  unallocated : ∀ id, s.next ≤ id → s.heap id = none
  exact_ : ∀ id, s.refCount id = (holders maxThreadCount s.pagesOf id).card
  positive : ∀ id page, s.heap id = some page → 1 ≤ page.refCount

/-- The table of pairs. -/
structure Registered (s : State) (granted : Nat) : Prop where
  bound : granted ≤ maxThreadCount
  free : ∀ i < maxThreadCount, granted ≤ i → s.pairs i = ⟨-1, none⟩
  taken : ∀ i < granted, s.pairs i = ⟨0, none⟩ ∨
    ∃ tid tls, Genuine tid ∧ WellFormed tls ∧ s.pairs i = ⟨tid, some tls⟩
  distinct : ∀ tid i j tls tls', Holds s tid i tls → Holds s tid j tls' → i = j

/-- No page can be accessed between calls. -/
def Sealed (s : State) : Prop := ∀ id page, s.heap id = some page → page.protection = .none

section Lookup

variable {s : State} {granted : Nat} (registered : Registered s granted)
include registered

theorem Registered.below {tid : Tid} {i : Nat} {tls : Area} (holds : Holds s tid i tls) :
    i < granted := by
  obtain ⟨inRange, pair⟩ := holds
  by_contra late
  rw [registered.free i inRange (by omega)] at pair
  simp at pair

theorem Registered.genuine {tid : Tid} {i : Nat} {tls : Area} (holds : Holds s tid i tls) :
    Genuine tid ∧ WellFormed tls := by
  rcases registered.taken i (registered.below holds) with empty | ⟨tid', tls', genuine, formed, pair⟩
  · rw [holds.2] at empty
    simp at empty
  · rw [holds.2] at pair
    simp only [Pair.mk.injEq, Option.some.injEq] at pair
    obtain ⟨rfl, rfl⟩ := pair
    exact ⟨genuine, formed⟩

/-- Looking up a genuine id finds its pair. -/
theorem Registered.findTid_eq {tid : Tid} {i : Nat} {tls : Area} (holds : Holds s tid i tls) :
    findTid s tid = some i := by
  obtain ⟨genuine, -⟩ := registered.genuine holds
  refine firstIndex_eq_some.mpr ⟨holds.1, by simp [holds.2], fun j before => ?_⟩
  have early : j < granted := Nat.lt_trans before (registered.below holds)
  rcases registered.taken j early with empty | ⟨tid', tls', -, -, pair⟩
  · rw [empty]
    exact decide_eq_false (Ne.symm genuine.1)
  · rw [pair, decide_eq_false_iff_not]
    rintro rfl
    have same := registered.distinct tid' j i tls' tls
      ⟨Nat.lt_of_lt_of_le early registered.bound, pair⟩ holds
    omega

/-- A genuine id that is not found holds no area, and the one that is found holds the area. -/
theorem Registered.findTid_cases {tid : Tid} (genuine : Genuine tid) :
    (findTid s tid = none ∧ ∀ i tls, ¬ Holds s tid i tls) ∨
    ∃ i tls, Holds s tid i tls ∧ findTid s tid = some i := by
  cases search : findTid s tid with
  | none =>
    left
    refine ⟨rfl, fun i tls holds => ?_⟩
    rw [registered.findTid_eq holds] at search
    simp at search
  | some i =>
    right
    obtain ⟨inRange, hit, -⟩ := firstIndex_eq_some.mp search
    rw [decide_eq_true_eq] at hit
    -- unused pairs hold -1 and returned ones 0, which are nobody's thread ids
    by_cases late : granted ≤ i
    · rw [registered.free i inRange late] at hit
      exact absurd hit.symm genuine.2
    · rcases registered.taken i (by omega) with empty | ⟨tid', tls, -, -, pair⟩
      · rw [empty] at hit
        exact absurd hit.symm genuine.1
      · rw [pair] at hit
        obtain rfl : tid' = tid := hit
        exact ⟨i, tls, ⟨inRange, pair⟩, rfl⟩

theorem Registered.findTid_eq_none {tid : Tid} (genuine : Genuine tid)
    (without : ∀ i tls, ¬ Holds s tid i tls) : findTid s tid = none := by
  rcases registered.findTid_cases genuine with ⟨missing, -⟩ | ⟨i, tls, holds, -⟩
  · exact missing
  · exact absurd holds (without i tls)

theorem Registered.freeIndex :
    firstIndex maxThreadCount (fun i => decide ((s.pairs i).tid = -1)) =
      if granted < maxThreadCount then some granted else none := by
  refine firstIndex_filled registered.bound fun i inRange => ?_
  rw [decide_eq_true_eq]
  constructor
  · intro mark
    by_contra early
    rcases registered.taken i (by omega) with empty | ⟨tid, tls, genuine, -, pair⟩
    · rw [empty] at mark
      exact absurd mark (by decide)
    · rw [pair] at mark
      exact genuine.2 mark
  · intro late
    rw [registered.free i inRange late]

end Lookup

/-- The area that a lookup leads to. -/
def State.areaOf (s : State) (tid : Tid) : Option Area :=
  (findTid s tid).bind fun i => (s.pairs i).tls

theorem area_cases (s : State) (tid : Tid) :
    s.areaOf tid = none ∨ ∃ i tls, Holds s tid i tls := by
  rw [State.areaOf]
  cases search : findTid s tid with
  | none => exact Or.inl rfl
  | some i =>
    obtain ⟨inRange, hit, -⟩ := firstIndex_eq_some.mp search
    rw [decide_eq_true_eq] at hit
    simp only [Option.bind_some]
    cases area : (s.pairs i).tls with
    | none => exact Or.inl rfl
    | some tls =>
      refine Or.inr ⟨i, tls, inRange, ?_⟩
      rw [← hit, ← area]

/-! ### Counting -/

section Counting

variable {s : State} (counted : Counted s)
include counted

theorem Counted.allocated {i id : Nat} (inRange : i < maxThreadCount) (holds : id ∈ s.pagesOf i) :
    ∃ page, s.heap id = some page := by
  have one : 0 < (holders maxThreadCount s.pagesOf id).card :=
    Finset.card_pos.mpr ⟨i, mem_holders.mpr ⟨inRange, holds⟩⟩
  have count := counted.exact_ id
  cases lookup : s.heap id with
  | none =>
    simp only [State.refCount, lookup] at count
    omega
  | some page => exact ⟨page, rfl⟩

theorem Counted.lt_next {i id : Nat} (inRange : i < maxThreadCount) (holds : id ∈ s.pagesOf i) :
    id < s.next := by
  obtain ⟨page, allocated⟩ := counted.allocated inRange holds
  by_contra late
  rw [counted.unallocated id (by omega)] at allocated
  simp at allocated

/-- Replacing the page table of one pair keeps the counts exact if they follow the change. -/
theorem Counted.replace {t : State} {i : Nat} (inRange : i < maxThreadCount) (pages : List Nat)
    (tables : t.pagesOf = Function.update s.pagesOf i pages)
    (counts : ∀ id, t.refCount id + (if id ∈ s.pagesOf i then 1 else 0) =
      s.refCount id + (if id ∈ pages then 1 else 0))
    (unallocated : ∀ id, t.next ≤ id → t.heap id = none)
    (positive : ∀ id page, t.heap id = some page → 1 ≤ page.refCount) : Counted t where
  unallocated := unallocated
  exact_ := fun id => by
    have change := card_holders_update s.pagesOf id inRange pages
    have count := counts id
    have old := counted.exact_ id
    rw [tables]
    by_cases before : id ∈ s.pagesOf i <;> by_cases after : id ∈ pages <;>
      simp only [before, after, if_true, if_false] at change count <;> omega
  positive := positive

end Counting

end OperatingSys.Tls
