import OperatingSys.Tls.Writing

/-!
# The calls

What each call does between two states at rest, in terms of the areas and their contents.
-/

namespace OperatingSys.Tls

open Search Sharing

/-- The state between calls, once `tls_init` has run. -/
structure Resting (s : State) (granted : Nat) : Prop where
  initialized : s.initialized = true
  counted : Counted s
  registered : Registered s granted
  sealed_ : Sealed s

/-! ### Opening and sealing the pages of an area -/

section Protection

variable {s : State} {granted : Nat} {tid : Tid} {i : Nat} {tls : Area}

theorem mapPages_protection (s : State) (ids : List Nat) (protection : Protection) {id : Nat}
    {page : Page} (lookup : (s.mapPages ids fun page => some { page with protection }).heap id =
      some page) :
    ∃ old, s.heap id = some old ∧ page.refCount = old.refCount ∧
      page.protection = if id ∈ ids then protection else old.protection := by
  simp only [State.mapPages] at lookup
  split at lookup
  next member =>
    obtain ⟨old, before, eq⟩ := Option.bind_eq_some_iff.mp lookup
    rw [Option.some.injEq] at eq
    exact ⟨old, before, by rw [← eq], by rw [← eq, if_pos member]⟩
  next absent => exact ⟨page, lookup, rfl, by rw [if_neg absent]⟩

theorem mapPages_protection_bytes (s : State) (ids : List Nat) (protection : Protection) (id : Nat) :
    ((s.mapPages ids fun page => some { page with protection }).heap id).map Page.bytes =
      (s.heap id).map Page.bytes := by
  simp only [State.mapPages]
  split
  · cases s.heap id <;> rfl
  · rfl

/-- Changing protections changes no count. -/
theorem mapPages_protection_refCount (s : State) (ids : List Nat) (protection : Protection)
    (id : Nat) : (s.mapPages ids fun page => some { page with protection }).refCount id =
      s.refCount id := by
  by_cases member : id ∈ ids
  · simp only [State.refCount, State.mapPages, member, if_true]
    cases s.heap id <;> rfl
  · simp only [State.refCount, State.mapPages, member, if_false]

theorem Counted.mapPages_protection (counted : Counted s) (ids : List Nat)
    (protection : Protection) : Counted (s.mapPages ids fun page => some { page with protection }) where
  unallocated := fun id late => by
    simp only [State.mapPages, counted.unallocated id late, Option.bind_none, ite_self]
  exact_ := fun id => by
    rw [mapPages_protection_refCount]
    exact counted.exact_ id
  positive := fun id page lookup => by
    obtain ⟨old, before, count, -⟩ := Tls.mapPages_protection s ids protection lookup
    rw [count]
    exact counted.positive id old before

theorem Resting.unprotect (resting : Resting s granted) (holds : Holds s tid i tls) :
    ∃ s₁, eachPage tlsUnprotect s tls.pages = some s₁ ∧ Working s₁ granted tid i tls ∧
      s₁.pairs = s.pairs ∧ ∀ area, s₁.contents area = s.contents area := by
  obtain ⟨-, formed⟩ := resting.registered.genuine holds
  refine ⟨_, eachPage_eq tlsUnprotect_touches formed.nodup fun id member =>
    resting.counted.allocated holds.1 (holds.pagesOf ▸ member),
    ⟨resting.initialized, resting.counted.mapPages_protection _ _, { resting.registered with },
      holds, fun id member page lookup => ?_, fun id page lookup absent => ?_⟩, rfl,
    fun area => State.contents_congr fun id _ => mapPages_protection_bytes _ _ _ id⟩
  · obtain ⟨old, -, -, protection⟩ := mapPages_protection s _ _ lookup
    rw [protection, if_pos member]
    exact Protection.noConfusion
  · obtain ⟨old, before, -, protection⟩ := mapPages_protection s _ _ lookup
    rw [protection, if_neg absent]
    exact resting.sealed_ id old before

theorem Working.protect (working : Working s granted tid i tls) :
    ∃ s', eachPage tlsProtect s tls.pages = some s' ∧ Resting s' granted ∧ s'.pairs = s.pairs ∧
      ∀ area, s'.contents area = s.contents area := by
  have holds := working.holds
  obtain ⟨-, formed⟩ := working.registered.genuine holds
  refine ⟨_, eachPage_eq tlsProtect_touches formed.nodup fun id member =>
    working.counted.allocated holds.1 (holds.pagesOf ▸ member),
    ⟨working.initialized, working.counted.mapPages_protection _ _, { working.registered with },
      fun id page lookup => ?_⟩, rfl,
    fun area => State.contents_congr fun id _ => mapPages_protection_bytes _ _ _ id⟩
  obtain ⟨old, before, -, protection⟩ := mapPages_protection s _ _ lookup
  rw [protection]
  split
  · rfl
  next absent => exact working.inaccessible id old before absent

end Protection

/-! ### What a call changes -/

/-- Thread `tid` has an area, and `bytes` is in it. -/
def Owns (s : State) (tid : Tid) (bytes : List Byte) : Prop :=
  ∃ i tls, Holds s tid i tls ∧ s.contents tls = bytes

/-- Between `s` and `s'` the area of `caller` has become `new`, and those of the other threads
are as they were. -/
structure Changes (s s' : State) (caller : Tid) (new : Option (List Byte)) : Prop where
  own : ∀ bytes, Owns s' caller bytes ↔ new = some bytes
  others : ∀ tid ≠ caller, ∀ bytes, Owns s' tid bytes ↔ Owns s tid bytes

theorem owns_congr {s s' : State} (pairs : s'.pairs = s.pairs)
    (contents : ∀ area, s'.contents area = s.contents area) (tid : Tid) (bytes : List Byte) :
    Owns s' tid bytes ↔ Owns s tid bytes := by
  simp only [Owns, Holds, pairs, contents]

/-- A call that touches only pair `i`, the one of `self`. -/
theorem Changes.of_pair {s s' : State} {self : Tid} {i : Nat} {new : Option (List Byte)}
    (elsewhere : ∀ j ≠ i, s'.pairs j = s.pairs j)
    (before : ∀ tid tls, Holds s tid i tls → tid = self)
    (alone : ∀ j tls, Holds s self j tls → j = i)
    (rest : ∀ tid j tls, j ≠ i → Holds s tid j tls → s'.contents tls = s.contents tls)
    (after : (new = none ∧ ∀ tid tls, ¬ Holds s' tid i tls) ∨
      ∃ tls, Holds s' self i tls ∧ new = some (s'.contents tls)) : Changes s s' self new := by
  -- all other pairs are as they were, so that who holds them is too
  have kept : ∀ tid j tls, j ≠ i → (Holds s' tid j tls ↔ Holds s tid j tls) :=
    fun tid j tls other => by rw [Holds, Holds, elsewhere j other]
  constructor
  · intro bytes
    constructor
    · rintro ⟨j, tls, holds, rfl⟩
      -- what the thread holds now it holds in pair `i`, the only one it had
      by_cases here : j = i
      · subst here
        rcases after with ⟨-, nobody⟩ | ⟨tls', holds', eq⟩
        · exact absurd holds (nobody self tls)
        · have same := holds.2.symm.trans holds'.2
          simp only [Pair.mk.injEq, Option.some.injEq, true_and] at same
          rw [eq, same]
      · exact absurd (alone j tls ((kept self j tls here).mp holds)) here
    · intro eq
      rcases after with ⟨gone, -⟩ | ⟨tls, holds, eq'⟩
      · simp [gone] at eq
      · exact ⟨i, tls, holds, Option.some.inj (eq'.symm.trans eq)⟩
  · intro tid other bytes
    constructor
    · rintro ⟨j, tls, holds, rfl⟩
      have elsewhere' : j ≠ i := by
        rintro rfl
        rcases after with ⟨-, nobody⟩ | ⟨tls', holds', -⟩
        · exact nobody tid tls holds
        · have same := holds.2.symm.trans holds'.2
          simp only [Pair.mk.injEq] at same
          exact other same.1
      have old := (kept tid j tls elsewhere').mp holds
      exact ⟨j, tls, old, (rest tid j tls elsewhere' old).symm⟩
    · rintro ⟨j, tls, holds, rfl⟩
      have elsewhere' : j ≠ i := fun here => other (before tid tls (here ▸ holds))
      exact ⟨j, tls, (kept tid j tls elsewhere').mpr holds, rest tid j tls elsewhere' holds⟩

/-! ### Reading and writing -/

section Access

variable {s : State} {granted : Nat} {tid : Tid} {i : Nat} {tls : Area}
  (resting : Resting s granted) (holds : Holds s tid i tls) {offset length : BitVec 32}
  (fits : offset.toNat + length.toNat < 2 ^ 32)
include resting holds fits

theorem tls_out_of_bounds (exceeds : tls.size.toNat < offset.toNat + length.toNat) :
    tlsRead s tid offset length = some (-1, [], s) ∧
      ∀ buffer, tlsWrite s tid offset length buffer = some (-1, s) := by
  have beyond : offset + length > tls.size := by
    rw [gt_iff_lt, BitVec.lt_def, (range_no_wrap fits).1]
    exact exceeds
  have found := resting.registered.findTid_eq holds
  constructor
  · simp only [tlsRead, found, Option.bind_some, holds.2, if_pos beyond]
  · intro buffer
    simp only [tlsWrite, found, holds.2, if_pos beyond]

theorem tlsRead_spec (inside : offset.toNat + length.toNat ≤ tls.size.toNat)
    (small : offset.toNat + length.toNat ≤ 2 ^ 31) :
    ∃ s', tlsRead s tid offset length =
        some (0, ((s.contents tls).drop offset.toNat).take length.toNat, s') ∧
      Resting s' granted ∧ ∀ tid bytes, Owns s' tid bytes ↔ Owns s tid bytes := by
  obtain ⟨sum, count⟩ := range_no_wrap fits
  obtain ⟨-, formed⟩ := resting.registered.genuine holds
  -- below 2^32 the sum does not wrap around
  have within : ¬ offset + length > tls.size := by
    rw [gt_iff_lt, BitVec.lt_def, sum]
    omega
  obtain ⟨s₁, unprotected, working, pairs, contents⟩ := resting.unprotect holds
  obtain ⟨s', protected_, resting', pairs', contents'⟩ := working.protect
  have loop := readLoop_eq (s := s₁) formed (fun id member => by
      obtain ⟨page, here⟩ := working.counted.allocated working.holds.1
        (working.holds.pagesOf ▸ member)
      exact ⟨page, here, working.accessible id member page here⟩)
    offset (List.range length.toNat) (fun cnt member => by
      have := List.mem_range.mp member
      omega)
  rw [← contents_segment s₁ tls inside, contents] at loop
  refine ⟨s', ?_, resting', owns_congr (pairs'.trans pairs) fun area =>
    (contents' area).trans (contents area)⟩
  simp only [tlsRead, resting.registered.findTid_eq holds, Option.bind_some, holds.2,
    if_neg within, unprotected, count, loop, protected_]

theorem tlsWrite_spec (inside : offset.toNat + length.toNat ≤ tls.size.toNat)
    (small : offset.toNat + length.toNat ≤ 2 ^ 31) (buffer : Nat → Byte) :
    ∃ s', tlsWrite s tid offset length buffer = some (0, s') ∧ Resting s' granted ∧
      Changes s s' tid (some ((s.contents tls).overwrite offset.toNat
        ((List.range length.toNat).map buffer))) := by
  obtain ⟨sum, count⟩ := range_no_wrap fits
  have within : ¬ offset + length > tls.size := by
    rw [gt_iff_lt, BitVec.lt_def, sum]
    omega
  -- unprotect, write byte by byte, protect again
  obtain ⟨s₁, unprotected, working, pairs, contents⟩ := resting.unprotect holds
  obtain ⟨s₂, tls', loop, working', wrote⟩ :=
    writeLoop_spec offset buffer length.toNat (c := 0) working inside small
  obtain ⟨s', protected_, resting', pairs', contents'⟩ := working'.protect
  rw [← List.range_eq_range'] at loop wrote
  refine ⟨s', ?_, resting', Changes.of_pair (i := i) (fun j other => ?_) (fun tid' area held => ?_)
    (fun j area held => resting.registered.distinct tid j i area tls held holds)
    (fun tid' j area other held => ?_)
    (Or.inr ⟨tls', ⟨holds.1, by rw [pairs']; exact working'.holds.2⟩, ?_⟩)⟩
  · simp only [tlsWrite, resting.registered.findTid_eq holds, holds.2, if_neg within, unprotected,
      count, loop, working'.holds.2, protected_]
  · rw [pairs', wrote.pairs j other, pairs]
  · have same := held.2.symm.trans holds.2
    simp only [Pair.mk.injEq] at same
    exact same.1
  · rw [contents', wrote.rest tid' j area other ⟨held.1, by rw [pairs]; exact held.2⟩, contents]
  · rw [contents', wrote.written, contents]
    rfl

end Access

/-- The calls of a thread that the table does not list. -/
theorem tls_missing {s : State} {self : Tid} (missing : findTid s self = none) :
    (∀ offset length, tlsRead s self offset length = some (-1, [], s)) ∧
    (∀ offset length buffer, tlsWrite s self offset length buffer = some (-1, s)) ∧
    tlsDestroy s self = some (-1, s) := by
  refine ⟨fun offset length => ?_, fun offset length buffer => ?_, ?_⟩
  · simp only [tlsRead, missing, Option.bind_none]
  · simp only [tlsWrite, missing]
  · simp only [tlsDestroy, missing]

end OperatingSys.Tls
