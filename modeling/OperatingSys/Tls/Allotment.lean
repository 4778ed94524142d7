import OperatingSys.Tls.Calls

/-!
# Giving areas out and taking them back

`tls_create` and `tls_clone` fill the next pair of the table, `tls_destroy` empties the pair
of its caller for good.
-/

namespace OperatingSys.Tls

open Search Sharing

/-! ### The table -/

section Table

variable {s : State} {granted : Nat} {self : Tid}

theorem holds_storePair {i j : Nat} {pair : Pair} {tid : Tid} {tls : Area}
    (holds : Holds (s.storePair i pair) tid j tls) :
    (j = i ∧ pair = ⟨tid, some tls⟩) ∨ (j ≠ i ∧ Holds s tid j tls) := by
  obtain ⟨inRange, eq⟩ := holds
  by_cases here : j = i
  · subst here
    exact Or.inl ⟨rfl, by simpa [State.storePair] using eq⟩
  · exact Or.inr ⟨here, inRange, by simpa [State.storePair, here] using eq⟩

theorem Registered.grant (registered : Registered s granted) (room : granted < maxThreadCount)
    (genuine : Genuine self) (without : ∀ i tls, ¬ Holds s self i tls) (tls : Area)
    (formed : WellFormed tls) : Registered (s.storePair granted ⟨self, some tls⟩) (granted + 1) where
  bound := room
  free := fun i inRange late => by
    have other : i ≠ granted := by omega
    simpa [State.storePair, other] using registered.free i inRange (by omega)
  taken := fun i below => by
    by_cases here : i = granted
    · subst here
      exact Or.inr ⟨self, tls, genuine, formed, by simp [State.storePair]⟩
    · simpa [State.storePair, here] using registered.taken i (by omega)
  -- the new pair is the first one of its thread
  distinct := by
    intro tid i j tls₁ tls₂ first second
    rcases holds_storePair first with ⟨rfl, eq⟩ | ⟨-, old⟩ <;>
      rcases holds_storePair second with ⟨rfl, eq'⟩ | ⟨-, old'⟩
    · rfl
    · simp only [Pair.mk.injEq] at eq
      exact absurd (eq.1 ▸ old') (without j tls₂)
    · simp only [Pair.mk.injEq] at eq'
      exact absurd (eq'.1 ▸ old) (without i tls₁)
    · exact registered.distinct tid i j tls₁ tls₂ old old'

theorem Registered.revoke (registered : Registered s granted) {i : Nat} (below : i < granted) :
    Registered (s.storePair i ⟨0, none⟩) granted where
  bound := registered.bound
  free := fun j inRange late => by
    have other : j ≠ i := by omega
    simpa [State.storePair, other] using registered.free j inRange late
  taken := fun j below' => by
    by_cases here : j = i
    · subst here
      exact Or.inl (by simp [State.storePair])
    · simpa [State.storePair, here] using registered.taken j below'
  distinct := by
    intro tid j k tls₁ tls₂ first second
    rcases holds_storePair first with ⟨-, eq⟩ | ⟨-, old⟩
    · simp at eq
    · rcases holds_storePair second with ⟨-, eq⟩ | ⟨-, old'⟩
      · simp at eq
      · exact registered.distinct tid j k tls₁ tls₂ old old'

/-- The pair that is given out next holds nothing. -/
theorem Registered.pagesOf_next (registered : Registered s granted)
    (room : granted < maxThreadCount) : s.pagesOf granted = [] := by
  rw [State.pagesOf, registered.free granted room (Nat.le_refl _)]
  rfl

/-- A thread without an area is given the next pair. -/
theorem Changes.grant {s' : State} (registered : Registered s granted)
    (room : granted < maxThreadCount) (without : ∀ i tls, ¬ Holds s self i tls) (tls : Area)
    (pairs : s'.pairs = (s.storePair granted ⟨self, some tls⟩).pairs)
    (rest : ∀ tid j area, Holds s tid j area → s'.contents area = s.contents area) :
    Changes s s' self (some (s'.contents tls)) := by
  refine Changes.of_pair (i := granted) (fun j other => ?_) (fun tid area held => ?_)
    (fun j area held => absurd held (without j area)) (fun tid j area _ held => rest tid j area held)
    (Or.inr ⟨tls, ⟨room, ?_⟩, rfl⟩)
  · rw [pairs]
    simp [State.storePair, other]
  · exact absurd (registered.below held) (Nat.lt_irrefl _)
  · rw [pairs]
    simp [State.storePair]

end Table

/-! ### Before the first `tls_create` -/

theorem tlsInit_fresh_nobody (tid : Tid) (i : Nat) (tls : Area) :
    ¬ Holds (tlsInit State.fresh) tid i tls := by
  rintro ⟨inRange, pair⟩
  have mark : (tlsInit State.fresh).pairs i = ⟨-1, none⟩ := if_pos inRange
  rw [mark] at pair
  simp at pair

theorem tlsInit_fresh_resting : Resting (tlsInit State.fresh) 0 := by
  have tables : (tlsInit State.fresh).pagesOf = fun _ => [] := by
    funext i
    simp only [State.pagesOf, tlsInit, State.fresh]
    split <;> rfl
  refine ⟨rfl, ⟨fun _ _ => rfl, fun id => ?_, fun id page lookup => ?_⟩,
    ⟨Nat.zero_le _, fun i inRange _ => if_pos inRange, fun i below => absurd below (Nat.not_lt_zero i),
      fun tid i j tls tls' holds _ => absurd holds (tlsInit_fresh_nobody tid i tls)⟩,
    fun id page lookup => ?_⟩
  · rw [tables]
    simp [State.refCount, tlsInit, State.fresh, Sharing.holders]
  · simp [tlsInit, State.fresh] at lookup
  · simp [tlsInit, State.fresh] at lookup

theorem findTid_fresh {tid : Tid} (genuine : Genuine tid) : findTid State.fresh tid = none :=
  Search.firstIndex_eq_none.mpr fun _ _ => decide_eq_false (Ne.symm genuine.1)

/-! ### Creating -/

section Create

variable {s : State} {granted : Nat} {self : Tid} {size : BitVec 32}

theorem newPages_eq (s : State) (n : Nat) :
    newPages s n =
      { s with
        heap := fun id =>
          if s.next ≤ id ∧ id < s.next + n then some ⟨pageSize * (id + 1), 1, fun _ => 0, .none⟩
          else s.heap id
        next := s.next + n } := by
  induction n generalizing s with
  | zero =>
    have none_ : ∀ id, ¬ (s.next ≤ id ∧ id < s.next) := fun id => by omega
    simp [newPages, none_]
  | succ n ih =>
    rw [newPages, ih, State.mk.injEq]
    refine ⟨rfl, rfl, ?_, by dsimp only [State.newPage]; omega⟩
    funext id
    change (if s.next + 1 ≤ id ∧ id < s.next + 1 + n then _
      else Function.update s.heap s.next _ id) = _
    -- the first new page, one of the later ones, or an old page
    by_cases first : id = s.next
    · subst first
      rw [if_neg (by omega), Function.update_self, if_pos (by omega)]
    · rw [Function.update_of_ne first]
      by_cases later : s.next + 1 ≤ id ∧ id < s.next + 1 + n
      · rw [if_pos later, if_pos (by omega)]
      · rw [if_neg later, if_neg (by omega)]

/-- The area that `tls_create` makes. -/
abbrev newArea (s : State) (self : Tid) (size : BitVec 32) : Area :=
  { tid := self, size, pages := (List.range (pageCount size)).map (s.next + ·) }

/-- The globals after `tls_create`. -/
abbrev created (s : State) (i : Nat) (self : Tid) (size : BitVec 32) : State :=
  { s.storePair i ⟨self, some (newArea s self size)⟩ with
    heap := fun id =>
      if s.next ≤ id ∧ id < s.next + pageCount size then
        some ⟨pageSize * (id + 1), 1, fun _ => 0, .none⟩
      else s.heap id
    next := s.next + pageCount size }

theorem mem_newArea (id : Nat) :
    id ∈ (newArea s self size).pages ↔ s.next ≤ id ∧ id < s.next + pageCount size := by
  simp only [List.mem_map, List.mem_range]
  constructor
  · rintro ⟨k, below, rfl⟩
    omega
  · rintro ⟨low, high⟩
    exact ⟨id - s.next, by omega, by omega⟩

theorem newArea_formed (s : State) (self : Tid) (positive : size ≠ 0) :
    WellFormed (newArea s self size) where
  positive := by
    rcases Nat.eq_zero_or_pos size.toNat with zero | positive'
    · exact absurd (BitVec.eq_of_toNat_eq zero) positive
    · exact positive'
  pageNum := by simp
  nodup := List.nodup_range.map fun _ _ eq => by omega

theorem created_heap_cases {i id : Nat} {page : Page}
    (lookup : (created s i self size).heap id = some page) :
    ((s.next ≤ id ∧ id < s.next + pageCount size) ∧
      page = ⟨pageSize * (id + 1), 1, fun _ => 0, .none⟩) ∨ s.heap id = some page := by
  change (if s.next ≤ id ∧ id < s.next + pageCount size then _ else s.heap id) = _ at lookup
  split at lookup
  next new => exact Or.inl ⟨new, (Option.some.inj lookup).symm⟩
  next old => exact Or.inr lookup

private theorem created_counted (counted : Counted s) {i : Nat} (inRange : i < maxThreadCount)
    (nothing : s.pagesOf i = []) : Counted (created s i self size) := by
  refine counted.replace inRange (newArea s self size).pages ?_ (fun id => ?_) (fun id late => ?_)
    (fun id page lookup => ?_)
  · exact pagesOf_storePair s i ⟨self, some (newArea s self size)⟩
  · rw [nothing, if_neg List.not_mem_nil]
    by_cases new : s.next ≤ id ∧ id < s.next + pageCount size
    · rw [if_pos ((mem_newArea id).mpr new)]
      simp [State.refCount, new, counted.unallocated id new.1]
    · rw [if_neg fun member => new ((mem_newArea id).mp member)]
      simp only [State.refCount, new, if_false]
  · change (if s.next ≤ id ∧ id < s.next + pageCount size then _ else s.heap id) = none
    change s.next + pageCount size ≤ id at late
    rw [if_neg (by omega)]
    exact counted.unallocated id (by omega)
  · rcases created_heap_cases lookup with ⟨-, rfl⟩ | old
    · exact Int.le_refl 1
    · exact counted.positive id page old

/-- The pages of the new area hold zeros. -/
private theorem created_contents (formed : WellFormed (newArea s self size)) (i : Nat) :
    (created s i self size).contents (newArea s self size) = List.replicate size.toNat 0 := by
  refine List.eq_replicate_iff.mpr ⟨State.length_contents _ _, fun byte member => ?_⟩
  obtain ⟨q, below, rfl⟩ := List.mem_map.mp member
  have inTable := formed.page_of (List.mem_range.mp below)
  have new := (mem_newArea _).mp (List.getElem_mem inTable)
  rw [State.byteOf, List.getElem?_eq_getElem inTable, Option.bind_some]
  simp only [new, and_self, if_true]

theorem tlsCreate_spec (resting : Resting s granted) (room : granted < maxThreadCount)
    (genuine : Genuine self) (without : ∀ i tls, ¬ Holds s self i tls) (positive : size ≠ 0) :
    ∃ s', tlsCreate s self size = some (0, s') ∧ Resting s' (granted + 1) ∧
      Changes s s' self (some (List.replicate size.toNat 0)) := by
  have registered := resting.registered
  have formed := newArea_formed s self positive
  have missing := registered.findTid_eq_none genuine without
  refine ⟨created s granted self size, ?_, ⟨resting.initialized,
    created_counted resting.counted room (registered.pagesOf_next room),
    { registered.grant room genuine without _ formed with }, fun id page lookup => ?_⟩, ?_⟩
  -- the source refuses none of this: `size` is not 0, and the thread has no area yet
  · have begun : (if s.initialized then s else tlsInit s) = s := if_pos resting.initialized
    simp only [tlsCreate, begun, if_neg positive, missing, Option.isSome_none, Bool.false_eq_true,
      if_false, registered.freeIndex, if_pos room, newPages_eq]
    rfl
  · rcases created_heap_cases lookup with ⟨-, rfl⟩ | old
    · rfl
    · exact resting.sealed_ id page old
  · rw [← created_contents formed granted]
    refine Changes.grant registered room without _ rfl fun tid j area holds =>
      State.contents_congr fun id member => ?_
    -- the pages of the other areas are older than the new ones
    have lower := resting.counted.lt_next holds.1 (holds.pagesOf ▸ member)
    change (if s.next ≤ id ∧ id < s.next + pageCount size then _ else s.heap id).map Page.bytes = _
    rw [if_neg (by omega)]

end Create

/-! ### Cloning -/

section Clone

variable {s : State} {granted : Nat} {self tid : Tid} {i : Nat} {tls : Area}

/-- The globals after `tls_clone`. -/
abbrev cloned (s : State) (slot : Nat) (self : Tid) (tls : Area) : State :=
  (s.mapPages tls.pages fun page => some { page with refCount := page.refCount + 1 }).storePair slot
    ⟨self, some { tls with tid := self }⟩

theorem cloned_heap_cases {slot id : Nat} {page : Page}
    (lookup : (cloned s slot self tls).heap id = some page) :
    ∃ old, s.heap id = some old ∧ page.address = old.address ∧
      page.protection = old.protection ∧ page.refCount = old.refCount + if id ∈ tls.pages then 1 else 0 := by
  change (if id ∈ tls.pages then _ else s.heap id) = _ at lookup
  split at lookup
  next member =>
    obtain ⟨old, before, eq⟩ := Option.bind_eq_some_iff.mp lookup
    rw [Option.some.injEq] at eq
    exact ⟨old, before, by rw [← eq], by rw [← eq], by rw [← eq, if_pos member]⟩
  next absent => exact ⟨page, lookup, rfl, rfl, by rw [if_neg absent, Int.add_zero]⟩

private theorem cloned_bytes (slot id : Nat) :
    ((cloned s slot self tls).heap id).map Page.bytes = (s.heap id).map Page.bytes := by
  change (if id ∈ tls.pages then _ else s.heap id).map Page.bytes = _
  split
  · cases s.heap id <;> rfl
  · rfl

private theorem cloned_counted (counted : Counted s) {slot : Nat} (inRange : slot < maxThreadCount)
    (nothing : s.pagesOf slot = [])
    (allocated : ∀ id ∈ tls.pages, ∃ page, s.heap id = some page) :
    Counted (cloned s slot self tls) := by
  refine counted.replace inRange tls.pages ?_ (fun id => ?_) (fun id late => ?_)
    (fun id page lookup => ?_)
  · exact pagesOf_storePair (s.mapPages _ _) slot _
  · rw [nothing, if_neg List.not_mem_nil]
    by_cases member : id ∈ tls.pages
    · obtain ⟨page, here⟩ := allocated id member
      simp [State.refCount, State.mapPages, State.storePair, member, here]
    · simp [State.refCount, State.mapPages, State.storePair, member]
  · change (if id ∈ tls.pages then _ else s.heap id) = none
    rw [counted.unallocated id late, Option.bind_none, ite_self]
  · obtain ⟨old, before, -, -, count⟩ := cloned_heap_cases lookup
    have positive := counted.positive id old before
    split at count <;> omega

theorem tlsClone_spec (resting : Resting s granted) (room : granted < maxThreadCount)
    (genuine : Genuine self) (without : ∀ i tls, ¬ Holds s self i tls)
    (holds : Holds s tid i tls) :
    ∃ s', tlsClone s self tid = some (0, s') ∧ Resting s' (granted + 1) ∧
      Changes s s' self (some (s.contents tls)) := by
  have registered := resting.registered
  obtain ⟨-, formed⟩ := registered.genuine holds
  have allocated : ∀ id ∈ tls.pages, ∃ page, s.heap id = some page := fun id member =>
    resting.counted.allocated holds.1 (holds.pagesOf ▸ member)
  have missing := registered.findTid_eq_none genuine without
  -- the pages are shared, not copied, and only their counts change
  have same : ∀ area, (cloned s granted self tls).contents area = s.contents area := fun area =>
    State.contents_congr fun id _ => cloned_bytes granted id
  refine ⟨cloned s granted self tls, ?_, ⟨resting.initialized,
    cloned_counted resting.counted room (registered.pagesOf_next room) allocated,
    { registered.grant room genuine without { tls with tid := self } { formed with } with },
    fun id page lookup => ?_⟩, ?_⟩
  · have free : firstIndex maxThreadCount (fun j => decide (((s.mapPages tls.pages fun page =>
        some { page with refCount := page.refCount + 1 }).pairs j).tid = -1)) = some granted :=
      registered.freeIndex.trans (if_pos room)
    simp only [tlsClone, missing, Option.bind_none, Option.isSome_none, Bool.false_eq_true,
      if_false, registered.findTid_eq holds, Option.bind_some, holds.2,
      eachPage_eq sharePage_touches formed.nodup allocated, free]
  · obtain ⟨old, before, -, protection, -⟩ := cloned_heap_cases lookup
    rw [protection]
    exact resting.sealed_ id old before
  · rw [← same tls]
    exact Changes.grant registered room without { tls with tid := self } rfl
      fun tid j area _ => same area

end Clone

/-! ### Destroying -/

section Destroy

variable {s : State} {granted : Nat} {self : Tid} {i : Nat} {tls : Area}

/-- The globals after `tls_destroy`. -/
abbrev destroyed (s : State) (i : Nat) (tls : Area) : State :=
  (s.mapPages tls.pages Page.released).storePair i ⟨0, none⟩

theorem destroyed_heap_cases {id : Nat} {page : Page}
    (lookup : (destroyed s i tls).heap id = some page) :
    ∃ old, s.heap id = some old ∧ page.address = old.address ∧
      page.protection = old.protection ∧ (page.refCount = old.refCount ∨ old.refCount ≠ 1 ∧ page.refCount = old.refCount - 1) := by
  change (if id ∈ tls.pages then _ else s.heap id) = _ at lookup
  split at lookup
  next member =>
    obtain ⟨old, before, eq⟩ := Option.bind_eq_some_iff.mp lookup
    rw [Page.released] at eq
    split at eq
    · simp at eq
    next shared =>
      rw [Option.some.injEq] at eq
      exact ⟨old, before, by rw [← eq], by rw [← eq], Or.inr ⟨shared, by rw [← eq]⟩⟩
  next absent => exact ⟨page, lookup, rfl, rfl, Or.inl rfl⟩

private theorem destroyed_counted (counted : Counted s) (holds : Holds s self i tls) :
    Counted (destroyed s i tls) := by
  refine counted.replace holds.1 [] ?_ (fun id => ?_) (fun id late => ?_) (fun id page lookup => ?_)
  · exact pagesOf_storePair (s.mapPages _ _) i ⟨0, none⟩
  · rw [holds.pagesOf, if_neg (List.not_mem_nil (a := id))]
    by_cases member : id ∈ tls.pages
    · obtain ⟨page, here⟩ := counted.allocated holds.1 (holds.pagesOf ▸ member)
      by_cases last : page.refCount = 1
      · simp [State.refCount, State.mapPages, State.storePair, member, here, Page.released, last]
      · simp [State.refCount, State.mapPages, State.storePair, member, here, Page.released, last]
    · simp [State.refCount, State.mapPages, State.storePair, member]
  · change (if id ∈ tls.pages then _ else s.heap id) = none
    rw [counted.unallocated id late, Option.bind_none, ite_self]
  · obtain ⟨old, before, -, -, count⟩ := destroyed_heap_cases lookup
    have positive := counted.positive id old before
    omega

/-- A page that another area holds too keeps its bytes. -/
private theorem destroyed_bytes (counted : Counted s) (holds : Holds s self i tls) {tid : Tid}
    {j id : Nat} {area : Area} (other : j ≠ i) (held : Holds s tid j area)
    (member : id ∈ area.pages) :
    ((destroyed s i tls).heap id).map Page.bytes = (s.heap id).map Page.bytes := by
  change (if id ∈ tls.pages then _ else s.heap id).map Page.bytes = _
  split
  next shared =>
    obtain ⟨page, here⟩ := counted.allocated holds.1 (holds.pagesOf ▸ shared)
    have count := counted.exact_ id
    simp only [State.refCount, here] at count
    have notLast : page.refCount ≠ 1 := by
      intro last
      exact notMem_of_card_le_one (by omega) holds.1 (holds.pagesOf ▸ shared) held.1 other
        (held.pagesOf ▸ member)
    simp [here, Page.released, notLast]
  · rfl

theorem tlsDestroy_spec (resting : Resting s granted) (holds : Holds s self i tls) :
    ∃ s', tlsDestroy s self = some (0, s') ∧ Resting s' granted ∧ Changes s s' self none := by
  have registered := resting.registered
  obtain ⟨-, formed⟩ := registered.genuine holds
  refine ⟨destroyed s i tls, ?_, ⟨resting.initialized, destroyed_counted resting.counted holds,
    { registered.revoke (registered.below holds) with }, fun id page lookup => ?_⟩,
    Changes.of_pair (i := i) (fun j other => ?_) (fun tid area held => ?_)
      (fun j area held => registered.distinct self j i area tls held holds)
      (fun tid j area other held => State.contents_congr fun id member =>
        destroyed_bytes resting.counted holds other held member)
      (Or.inl ⟨rfl, fun tid area held => ?_⟩)⟩
  · simp only [tlsDestroy, registered.findTid_eq holds, holds.2,
      eachPage_eq releasePage_touches formed.nodup fun id member =>
        resting.counted.allocated holds.1 (holds.pagesOf ▸ member)]
  -- pages that others still share stay protected
  · obtain ⟨old, before, -, protection, -⟩ := destroyed_heap_cases lookup
    rw [protection]
    exact resting.sealed_ id old before
  · simp [State.storePair, State.mapPages, other]
  · have same := held.2.symm.trans holds.2
    simp only [Pair.mk.injEq] at same
    exact same.1
  · rcases holds_storePair held with ⟨-, eq⟩ | ⟨other, -⟩
    · simp at eq
    · exact other rfl

end Destroy

end OperatingSys.Tls
