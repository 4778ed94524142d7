import OperatingSys.Tls.Pages

/-!
# Writing to an area

One round of the loop of `tls_write` either stores its byte in a page that only this area
holds, or first replaces a shared page by a copy. Either way one byte of this area changes,
no byte of another one does, and the reference counts stay exact.
-/

namespace OperatingSys.Tls

open Search Sharing

/-- The state inside a call that works on the area `tls` of pair `i`: its pages can be
accessed, no other page can. -/
structure Working (s : State) (granted : Nat) (tid : Tid) (i : Nat) (tls : Area) : Prop where
  initialized : s.initialized = true
  counted : Counted s
  registered : Registered s granted
  holds : Holds s tid i tls
  accessible : ∀ id ∈ tls.pages, ∀ page, s.heap id = some page → page.protection ≠ .none
  inaccessible : ∀ id page, s.heap id = some page → id ∉ tls.pages → page.protection = .none

/-- `s'` is `s` with `data` written to the area `tls` of pair `i` at `p`; its page table is
now that of `tls'`. -/
structure Wrote (s s' : State) (i : Nat) (tls tls' : Area) (p : Nat) (data : List Byte) : Prop where
  size : tls'.size = tls.size
  pairs : ∀ j ≠ i, s'.pairs j = s.pairs j
  written : s'.contents tls' = (s.contents tls).overwrite p data
  rest : ∀ tid j other, j ≠ i → Holds s tid j other → s'.contents other = s.contents other

section Wrote

variable {s s' s'' : State} {i p : Nat} {tls tls' tls'' : Area} {data more : List Byte}

theorem Wrote.nil (s : State) (i : Nat) (tls : Area) (p : Nat) : Wrote s s i tls tls p [] :=
  ⟨rfl, fun _ _ => rfl, by simp, fun _ _ _ _ _ => rfl⟩

theorem Wrote.append (inside : p ≤ tls.size.toNat) (first : Wrote s s' i tls tls' p data)
    (second : Wrote s' s'' i tls' tls'' (p + data.length) more) :
    Wrote s s'' i tls tls'' p (data ++ more) where
  size := second.size.trans first.size
  pairs := fun j other => (second.pairs j other).trans (first.pairs j other)
  written := by
    rw [second.written, first.written, List.overwrite_append]
    rwa [State.length_contents]
  rest := fun tid j area other holds => by
    rw [second.rest tid j area other ⟨holds.1, (first.pairs j other).trans holds.2⟩,
      first.rest tid j area other holds]

end Wrote

/-! ### Page tables -/

section Tables

variable {s : State} {granted : Nat} {tid : Tid} {i : Nat} {tls : Area}

theorem Holds.pagesOf (holds : Holds s tid i tls) : s.pagesOf i = tls.pages := by
  simp only [State.pagesOf, holds.2, Pair.pages]

/-- Replacing the area of pair `i` replaces its page table. -/
theorem pagesOf_storePair (s : State) (i : Nat) (pair : Pair) :
    (s.storePair i pair).pagesOf = Function.update s.pagesOf i pair.pages := by
  funext j
  by_cases here : j = i
  · subst here
    simp [State.pagesOf, State.storePair]
  · simp [State.pagesOf, State.storePair, here]

/-- Replacing the area of a thread by one of the same shape. -/
theorem Registered.storeArea (registered : Registered s granted) (holds : Holds s tid i tls)
    {tls' : Area} (formed : WellFormed tls') :
    Registered (s.storePair i ⟨tid, some tls'⟩) granted := by
  have early := registered.below holds
  obtain ⟨genuine, -⟩ := registered.genuine holds
  have elsewhere : ∀ j, j ≠ i → (s.storePair i ⟨tid, some tls'⟩).pairs j = s.pairs j :=
    fun j other => by simp [State.storePair, other]
  have here : (s.storePair i ⟨tid, some tls'⟩).pairs i = ⟨tid, some tls'⟩ := by
    simp [State.storePair]
  -- a pair holds an area of a thread after the change exactly if it did before
  have before : ∀ tid' j area, Holds (s.storePair i ⟨tid, some tls'⟩) tid' j area →
      ∃ area', Holds s tid' j area' := by
    rintro tid' j area ⟨inRange, pair⟩
    by_cases same : j = i
    · subst same
      rw [here] at pair
      simp only [Pair.mk.injEq] at pair
      exact ⟨tls, pair.1 ▸ holds⟩
    · exact ⟨area, inRange, (elsewhere j same) ▸ pair⟩
  refine ⟨registered.bound, fun j inRange late => ?_, fun j below => ?_,
    fun tid' j k area area' holdsJ holdsK => ?_⟩
  · rw [elsewhere j (by omega)]
    exact registered.free j inRange late
  · by_cases same : j = i
    · subst same
      exact Or.inr ⟨tid, tls', genuine, formed, here⟩
    · rw [elsewhere j same]
      exact registered.taken j below
  · obtain ⟨areaJ, oldJ⟩ := before tid' j area holdsJ
    obtain ⟨areaK, oldK⟩ := before tid' k area' holdsK
    exact registered.distinct tid' j k areaJ areaK oldJ oldK

end Tables

/-! ### In place -/

section InPlace

variable {s : State} {granted : Nat} {tid : Tid} {i q : Nat} {tls : Area} {page : Page}

/-- Page `id` of `s` with `byte` at `poff`. -/
abbrev poked (s : State) (id : Nat) (page : Page) (poff : Nat) (byte : Byte) : State :=
  s.storePage id (some { page with bytes := Function.update page.bytes poff byte })

theorem storeByte_eq {id poff : Nat} (here : s.heap id = some page)
    (accessible : page.protection ≠ .none) (inPage : poff < pageSize) (byte : Byte) :
    storeByte s id poff byte = some (poked s id page poff byte) := by
  simp only [storeByte, here, accessible, Nat.not_le.mpr inPage, or_self, if_false]

theorem poked_refCount {id : Nat} (here : s.heap id = some page) (poff : Nat) (byte : Byte)
    (id' : Nat) : (poked s id page poff byte).refCount id' = s.refCount id' := by
  by_cases same : id' = id
  · subst same
    simp [State.refCount, State.storePage, here]
  · simp [State.refCount, State.storePage, same]

/-- A page table without repetitions names the page in one place only. -/
theorem poked_byteOf {id : Nat} (nodup : tls.pages.Nodup)
    (named : tls.pages[q / pageSize]? = some id) (here : s.heap id = some page) (byte : Byte)
    (r : Nat) : (poked s id page (q % pageSize) byte).byteOf tls r =
      if r = q then byte else s.byteOf tls r := by
  split
  next hit =>
    rw [hit]
    simp [State.byteOf, named, State.storePage]
  next other =>
    unfold State.byteOf
    cases lookup : tls.pages[r / pageSize]? with
    | none => rfl
    | some id' =>
      simp only [Option.bind_some, State.storePage, Function.update_apply]
      by_cases same : id' = id
      · -- the same page, at another place of it
        subst same
        have inTable := (List.getElem?_eq_some_iff.mp lookup).1
        have sameIndex : r / pageSize = q / pageSize :=
          (List.getElem?_inj inTable nodup).mp (lookup.trans named.symm)
        have apart : r % pageSize ≠ q % pageSize := by
          intro eq
          apply other
          rw [← Nat.div_add_mod r pageSize, ← Nat.div_add_mod q pageSize, sameIndex, eq]
        simp [here, apart]
      · simp [same]

theorem poked_contents {id : Nat} (formed : WellFormed tls) (inside : q < tls.size.toNat)
    (named : tls.pages[q / pageSize]? = some id) (here : s.heap id = some page) (byte : Byte) :
    (poked s id page (q % pageSize) byte).contents tls = (s.contents tls).overwrite q [byte] := by
  have start : q ≤ (s.contents tls).length := by
    rw [State.length_contents]
    omega
  apply List.ext_getElem?
  intro r
  rw [List.getElem?_overwrite start, State.getElem?_contents, State.getElem?_contents,
    List.length_singleton, poked_byteOf formed.nodup named here]
  by_cases within : r < tls.size.toNat
  · rw [if_pos within, if_pos within]
    by_cases hit : r = q
    · rw [if_pos hit, if_pos (by omega), hit, Nat.sub_self]
      rfl
    · rw [if_neg hit, if_neg (by omega)]
  · rw [if_neg within, if_neg (by omega), if_neg within]

/-- A byte stored in a page of the area, wherever in the page. -/
theorem Working.store (working : Working s granted tid i tls) {id : Nat} (member : id ∈ tls.pages)
    (here : s.heap id = some page) (poff : Nat) (byte : Byte) :
    Working (poked s id page poff byte) granted tid i tls := by
  -- only the bytes of the page change
  have heap : ∀ id' page', (poked s id page poff byte).heap id' = some page' →
      ∃ old, s.heap id' = some old ∧ page'.protection = old.protection ∧
        page'.refCount = old.refCount := by
    intro id' page' lookup
    by_cases same : id' = id
    · subst same
      simp only [State.storePage, Function.update_self, Option.some.injEq] at lookup
      exact ⟨page, here, by rw [← lookup], by rw [← lookup]⟩
    · simp only [State.storePage, Function.update_of_ne same] at lookup
      exact ⟨page', lookup, rfl, rfl⟩
  refine ⟨working.initialized, ⟨fun id' late => ?_, fun id' => ?_, fun id' page' lookup => ?_⟩,
    { working.registered with }, working.holds, fun id' member' page' lookup => ?_,
    fun id' page' lookup absent => ?_⟩
  · change s.next ≤ id' at late
    have other : id' ≠ id := by
      have := working.counted.lt_next working.holds.1 (working.holds.pagesOf ▸ member)
      omega
    simp only [State.storePage, Function.update_of_ne other]
    exact working.counted.unallocated id' late
  · rw [poked_refCount here]
    exact working.counted.exact_ id'
  · obtain ⟨old, before, -, count⟩ := heap id' page' lookup
    rw [count]
    exact working.counted.positive id' old before
  · obtain ⟨old, before, protection, -⟩ := heap id' page' lookup
    rw [protection]
    exact working.accessible id' member' old before
  · obtain ⟨old, before, protection, -⟩ := heap id' page' lookup
    rw [protection]
    exact working.inaccessible id' old before absent

theorem Working.poke (working : Working s granted tid i tls) (inside : q < tls.size.toNat)
    {id : Nat} (named : tls.pages[q / pageSize]? = some id) (here : s.heap id = some page)
    (single : page.refCount ≤ 1) (byte : Byte) :
    Wrote s (poked s id page (q % pageSize) byte) i tls tls q [byte] := by
  have member : id ∈ tls.pages := List.mem_of_getElem? named
  obtain ⟨-, formed⟩ := working.registered.genuine working.holds
  have one : (holders maxThreadCount s.pagesOf id).card ≤ 1 := by
    have count := working.counted.exact_ id
    simp only [State.refCount, here] at count
    omega
  refine ⟨rfl, fun _ _ => rfl, poked_contents formed inside named here byte, ?_⟩
  -- no other area holds the page
  intro tid' j area other holds
  refine State.contents_congr fun id' member' => ?_
  have apart : id' ≠ id := by
    rintro rfl
    exact notMem_of_card_le_one one working.holds.1 (working.holds.pagesOf ▸ member) holds.1
      other (holds.pagesOf ▸ member')
  simp [State.storePage, apart]

end InPlace

/-! ### Copying -/

section Copy

variable {s : State} {granted : Nat} {tid : Tid} {i pn id : Nat} {tls : Area} {page : Page}

/-- In a table without repetitions, replacing an entry takes its old value out. -/
theorem mem_set_iff {pages : List Nat} (nodup : pages.Nodup)
    (named : pages[pn]? = some id) (new x : Nat) :
    x ∈ pages.set pn new ↔ x = new ∨ (x ∈ pages ∧ x ≠ id) := by
  obtain ⟨inTable, rfl⟩ := List.getElem?_eq_some_iff.mp named
  constructor
  · intro member
    obtain ⟨k, inSet, rfl⟩ := List.getElem_of_mem member
    rw [List.getElem_set]
    split
    · exact Or.inl rfl
    next other =>
      refine Or.inr ⟨List.getElem_mem _, fun same => other ?_⟩
      exact ((List.Nodup.getElem_inj_iff nodup).mp same).symm
  · rintro (rfl | ⟨member, other⟩)
    · exact List.mem_set inTable _
    · obtain ⟨k, inPages, rfl⟩ := List.getElem_of_mem member
      have apart : pn ≠ k := by
        rintro rfl
        exact other rfl
      refine List.mem_iff_getElem.mpr ⟨k, by simpa using inPages, ?_⟩
      rw [List.getElem_set_of_ne apart]

/-- The area once its page `pn` is the new page. -/
abbrev renewed (s : State) (tls : Area) (pn : Nat) : Area :=
  { tls with pages := tls.pages.set pn s.next }

/-- The page that a copy starts as. -/
abbrev fresh (s : State) (page : Page) : Page :=
  { address := pageSize * (s.next + 1), refCount := 1, bytes := page.bytes, protection := .write }

/-- The globals after the copy. -/
abbrev copied (s : State) (tid : Tid) (i : Nat) (tls : Area) (pn id : Nat) (page : Page) :
    State :=
  { s.storePair i ⟨tid, some (renewed s tls pn)⟩ with
    heap := fun x =>
      if x = id then some { page with refCount := page.refCount - 1, protection := .none }
      else if x = s.next then some (fresh s page)
      else s.heap x
    next := s.next + 1 }

theorem copyPage_eq (pair : s.pairs i = ⟨tid, some tls⟩) (accessible : page.protection ≠ .none) :
    copyPage s i tls pn id page = some (copied s tid i tls pn id page) := by
  simp only [copyPage, accessible, if_false]
  rw [tlsProtect_touches _ id { page with refCount := page.refCount - 1 }
    (by simp [State.storePage])]
  simp only [Option.some.injEq, copied, State.newPage, State.storePair, State.storePage, pair,
    State.mk.injEq, true_and, and_true]
  funext x
  by_cases first : x = id
  · simp [first]
  · simp [Function.update_apply, first]

theorem copied_heap_cases {x : Nat} {page' : Page}
    (lookup : (copied s tid i tls pn id page).heap x = some page') :
    (x = id ∧ page' = { page with refCount := page.refCount - 1, protection := .none }) ∨
    (x ≠ id ∧ x = s.next ∧ page' = fresh s page) ∨
    (x ≠ id ∧ x ≠ s.next ∧ s.heap x = some page') := by
  change (if x = id then _ else if x = s.next then _ else s.heap x) = _ at lookup
  split at lookup
  next first => exact Or.inl ⟨first, (Option.some.inj lookup).symm⟩
  next other =>
    split at lookup
    next second => exact Or.inr (Or.inl ⟨other, second, (Option.some.inj lookup).symm⟩)
    next other' => exact Or.inr (Or.inr ⟨other, other', lookup⟩)

private theorem copied_counted (working : Working s granted tid i tls)
    (named : tls.pages[pn]? = some id) (here : s.heap id = some page) (shared : 1 < page.refCount) :
    Counted (copied s tid i tls pn id page) := by
  have member : id ∈ tls.pages := List.mem_of_getElem? named
  obtain ⟨-, formed⟩ := working.registered.genuine working.holds
  have old := working.counted.lt_next working.holds.1 (working.holds.pagesOf ▸ member)
  have unused := working.counted.unallocated s.next (Nat.le_refl _)
  have table := working.holds.pagesOf
  have notHeld : s.next ∉ tls.pages := fun held => by
    have := working.counted.lt_next working.holds.1 (table ▸ held)
    omega
  refine working.counted.replace working.holds.1 (tls.pages.set pn s.next) ?_ (fun x => ?_)
    (fun x late => ?_) (fun x page' lookup => ?_)
  · exact pagesOf_storePair s i ⟨tid, some (renewed s tls pn)⟩
  · simp only [table, mem_set_iff formed.nodup named]
    by_cases first : x = id
    · subst first
      have apart : x ≠ s.next := by omega
      simp [State.refCount, here, member, apart]
    · by_cases second : x = s.next
      · subst second
        simp [State.refCount, first, unused, notHeld]
      · simp [State.refCount, first, second]
  · change (if x = id then _ else if x = s.next then _ else s.heap x) = none
    change s.next + 1 ≤ x at late
    rw [if_neg (by omega), if_neg (by omega)]
    exact working.counted.unallocated x (by omega)
  · rcases copied_heap_cases lookup with ⟨-, rfl⟩ | ⟨-, -, rfl⟩ | ⟨-, -, before⟩
    · dsimp only
      omega
    · exact Int.le_refl 1
    · exact working.counted.positive x page' before

theorem renewed_formed (formed : WellFormed tls) (notHeld : s.next ∉ tls.pages) :
    WellFormed (renewed s tls pn) where
  positive := formed.positive
  pageNum := by
    rw [List.length_set]
    exact formed.pageNum
  nodup := formed.nodup.set notHeld

/-- The copy holds the bytes of the page it replaces, and that page keeps them. -/
theorem copied_bytes (tid : Tid) (i : Nat) (tls : Area) (pn : Nat)
    (here : s.heap id = some page) {x : Nat} (notNew : x ≠ s.next) :
    ((copied s tid i tls pn id page).heap x).map Page.bytes = (s.heap x).map Page.bytes := by
  change (if x = id then _ else if x = s.next then _ else s.heap x).map Page.bytes = _
  by_cases first : x = id
  · rw [if_pos first, first, here]
    rfl
  · rw [if_neg first, if_neg notNew]

theorem copied_next (old : id < s.next) :
    (copied s tid i tls pn id page).heap s.next = some (fresh s page) := by
  change (if s.next = id then _ else if s.next = s.next then _ else _) = _
  rw [if_neg (by omega), if_pos rfl]

theorem copied_byteOf (old : id < s.next) (notHeld : s.next ∉ tls.pages)
    (named : tls.pages[pn]? = some id) (here : s.heap id = some page) (q : Nat) :
    (copied s tid i tls pn id page).byteOf (renewed s tls pn) q = s.byteOf tls q := by
  have inTable := (List.getElem?_eq_some_iff.mp named).1
  have pages : (renewed s tls pn).pages = tls.pages.set pn s.next := rfl
  rw [State.byteOf, State.byteOf, pages]
  by_cases here' : q / pageSize = pn
  · -- through the copy
    rw [here', List.getElem?_set_self inTable, named, Option.bind_some, Option.bind_some,
      copied_next old, here]
  · rw [List.getElem?_set_ne (Ne.symm here')]
    cases lookup : tls.pages[q / pageSize]? with
    | none => rfl
    | some x =>
      have notNew : x ≠ s.next := fun eq => notHeld (eq ▸ List.mem_of_getElem? lookup)
      have same := copied_bytes tid i tls pn here notNew
      rw [Option.bind_some, Option.bind_some]
      revert same
      cases (copied s tid i tls pn id page).heap x <;> cases s.heap x <;> simp_all

/-- A shared page is replaced by a copy of its own, with the same bytes. -/
theorem Working.copy (working : Working s granted tid i tls) (named : tls.pages[pn]? = some id)
    (here : s.heap id = some page) (shared : 1 < page.refCount) (q : Nat) :
    ∃ s' tls' copy, copyPage s i tls pn id page = some s' ∧ Working s' granted tid i tls' ∧
      Wrote s s' i tls tls' q [] ∧ tls'.pages[pn]? = some s.next ∧
      s'.heap s.next = some copy ∧ copy.refCount = 1 := by
  have member : id ∈ tls.pages := List.mem_of_getElem? named
  obtain ⟨inTable, -⟩ := List.getElem?_eq_some_iff.mp named
  obtain ⟨-, formed⟩ := working.registered.genuine working.holds
  have old := working.counted.lt_next working.holds.1 (working.holds.pagesOf ▸ member)
  -- the copy takes the next page of the heap, which no area holds yet
  have notHeld : s.next ∉ tls.pages := fun held => by
    have := working.counted.lt_next working.holds.1 (working.holds.pagesOf ▸ held)
    omega
  have entry := mem_set_iff formed.nodup named s.next
  refine ⟨copied s tid i tls pn id page, renewed s tls pn, fresh s page,
    copyPage_eq working.holds.2 (working.accessible id member page here), ⟨working.initialized, copied_counted working named here shared,
      ?_, ⟨working.holds.1, by simp [State.storePair]⟩, ?_, ?_⟩,
    ⟨rfl, fun j other => ?_, ?_, fun tid' j area other holds => ?_⟩,
    List.getElem?_set_self inTable, ?_, rfl⟩
  · exact { working.registered.storeArea working.holds (renewed_formed formed notHeld) with }
  · intro x member' page' lookup
    rcases (entry x).mp member' with rfl | ⟨held, notOld⟩
    · rcases copied_heap_cases lookup with ⟨eq, -⟩ | ⟨-, -, rfl⟩ | ⟨-, absurd_, -⟩
      · omega
      · exact Protection.noConfusion
      · exact absurd rfl absurd_
    · rcases copied_heap_cases lookup with ⟨eq, -⟩ | ⟨-, eq, -⟩ | ⟨-, -, before⟩
      · exact absurd eq notOld
      · exact absurd held (eq ▸ notHeld)
      · exact working.accessible x held page' before
  · intro x page' lookup absent
    rw [entry x] at absent
    rcases copied_heap_cases lookup with ⟨-, rfl⟩ | ⟨-, eq, -⟩ | ⟨notOld, -, before⟩
    · rfl
    · exact absurd (Or.inl eq) absent
    · exact working.inaccessible x page' before fun held => absent (Or.inr ⟨held, notOld⟩)
  · simp [State.storePair, other]
  · rw [List.overwrite_nil]
    exact List.map_congr_left fun r _ => copied_byteOf old notHeld named here r
  · refine State.contents_congr fun x held => copied_bytes _ _ _ _ here ?_
    have := working.counted.lt_next holds.1 (holds.pagesOf ▸ held)
    omega
  · exact copied_next old

end Copy

/-! ### The loop -/

section Loop

variable {s : State} {granted : Nat} {tid : Tid} {i : Nat} {tls : Area}

/-- One round writes one byte. -/
theorem writeByte_spec (working : Working s granted tid i tls) {q : Nat}
    (inside : q < tls.size.toNat) (small : q < 2 ^ 31) (byte : Byte) :
    ∃ s' tls', writeByte s i q byte = some s' ∧ Working s' granted tid i tls' ∧
      Wrote s s' i tls tls' q [byte] := by
  obtain ⟨-, formed⟩ := working.registered.genuine working.holds
  obtain ⟨number, offset⟩ := index_small small
  obtain ⟨id, named⟩ : ∃ id, tls.pages[q / pageSize]? = some id :=
    ⟨_, List.getElem?_eq_getElem (formed.page_of inside)⟩
  have member : id ∈ tls.pages := List.mem_of_getElem? named
  obtain ⟨page, here⟩ := working.counted.allocated working.holds.1 (working.holds.pagesOf ▸ member)
  have inPage : q % pageSize < pageSize := Nat.mod_lt _ (by decide)
  simp only [writeByte, working.holds.2, number, offset, named, here]
  -- copy on write: a shared page is copied before the byte is stored
  by_cases shared : page.refCount > 1
  · obtain ⟨s₁, tls₁, copy, copied, working₁, wrote₁, named₁, here₁, single⟩ :=
      working.copy named here shared q
    have inside₁ : q < tls₁.size.toNat := by
      rw [wrote₁.size]
      exact inside
    have member₁ := List.mem_of_getElem? named₁
    have accessible := working₁.accessible _ member₁ copy here₁
    refine ⟨_, tls₁, ?_, working₁.store member₁ here₁ (q % pageSize) byte, ?_⟩
    · simp only [if_pos shared, copied]
      exact storeByte_eq here₁ accessible inPage byte
    · exact wrote₁.append (Nat.le_of_lt inside)
        (working₁.poke inside₁ named₁ here₁ (by omega) byte)
  · have accessible := working.accessible _ member page here
    refine ⟨_, tls, ?_, working.store member here (q % pageSize) byte,
      working.poke inside named here (by omega) byte⟩
    simp only [if_neg shared]
    exact storeByte_eq here accessible inPage byte

/-- The rounds of a loop in two parts. -/
theorem writeLoop_append (i : Nat) (offset : BitVec 32) (buffer : Nat → Byte) (s : State)
    (first second : List Nat) : writeLoop i offset buffer s (first ++ second) =
      (writeLoop i offset buffer s first).bind fun t => writeLoop i offset buffer t second := by
  induction first generalizing s with
  | nil => rfl
  | cons cnt rest ih =>
    simp only [List.cons_append, writeLoop]
    cases writeByte s i (indexOf offset cnt) (buffer cnt) with
    | none => rfl
    | some s' => exact ih s'

/-- A round that is defined, whatever its position, leaves the area ready for the next one. -/
theorem Working.writeByte (working : Working s granted tid i tls) {idx : Int} {byte : Byte}
    {s' : State} (wrote : writeByte s i idx byte = some s') :
    ∃ tls', Working s' granted tid i tls' ∧ ∀ j ≠ i, s'.pairs j = s.pairs j := by
  simp only [Tls.writeByte, working.holds.2] at wrote
  cases named : tls.pages[pageNumber idx]? with
  | none => simp [named] at wrote
  | some id =>
    have member : id ∈ tls.pages := List.mem_of_getElem? named
    obtain ⟨page, here⟩ := working.counted.allocated working.holds.1
      (working.holds.pagesOf ▸ member)
    simp only [named, here] at wrote
    by_cases shared : page.refCount > 1
    · obtain ⟨s₁, tls₁, copy, copied, working₁, wrote₁, named₁, here₁, -⟩ :=
        working.copy named here shared 0
      simp only [if_pos shared, copied] at wrote
      obtain ⟨page', here', -, -, rfl⟩ := storeByte_eq_some wrote
      exact ⟨tls₁, working₁.store (List.mem_of_getElem? named₁) here' _ byte, wrote₁.pairs⟩
    · simp only [if_neg shared] at wrote
      obtain ⟨page', here', -, -, rfl⟩ := storeByte_eq_some wrote
      exact ⟨tls, working.store member here' _ byte, fun _ _ => rfl⟩

theorem Working.writeLoop {offset : BitVec 32} {buffer : Nat → Byte} {cnts : List Nat}
    {s' : State} (working : Working s granted tid i tls)
    (loop : writeLoop i offset buffer s cnts = some s') :
    ∃ tls', Working s' granted tid i tls' ∧ ∀ j ≠ i, s'.pairs j = s.pairs j := by
  induction cnts generalizing s tls with
  | nil =>
    simp only [Tls.writeLoop, Option.some.injEq] at loop
    subst loop
    exact ⟨tls, working, fun _ _ => rfl⟩
  | cons cnt rest ih =>
    simp only [Tls.writeLoop] at loop
    cases round : Tls.writeByte s i (indexOf offset cnt) (buffer cnt) with
    | none => simp [round] at loop
    | some s₁ =>
      simp only [round] at loop
      obtain ⟨tls₁, working₁, pairs₁⟩ := working.writeByte round
      obtain ⟨tls', working', pairs'⟩ := ih working₁ loop
      exact ⟨tls', working', fun j other => (pairs' j other).trans (pairs₁ j other)⟩

/-- The rounds `c, …, c + n - 1` write the bytes of the buffer in order. -/
theorem writeLoop_spec (offset : BitVec 32) (buffer : Nat → Byte) (n : Nat) :
    ∀ {s : State} {tls : Area} {c : Nat}, Working s granted tid i tls →
      offset.toNat + c + n ≤ tls.size.toNat → offset.toNat + c + n ≤ 2 ^ 31 →
      ∃ s' tls', writeLoop i offset buffer s (List.range' c n) = some s' ∧
        Working s' granted tid i tls' ∧
        Wrote s s' i tls tls' (offset.toNat + c) ((List.range' c n).map buffer) := by
  -- the area may change at every byte, since a write may copy the page it falls in
  induction n with
  | zero =>
    intro s tls c working _ _
    exact ⟨s, tls, rfl, working, Wrote.nil s i tls _⟩
  | succ n ih =>
    intro s tls c working within low
    have inside : offset.toNat + c < tls.size.toNat := by omega
    have small : offset.toNat + c < 2 ^ 31 := by omega
    obtain ⟨s₁, tls₁, round, working₁, wrote₁⟩ := writeByte_spec working inside small (buffer c)
    obtain ⟨s', tls', loop, working', wrote'⟩ := ih (c := c + 1) working₁ (by
      rw [wrote₁.size]
      omega) (by omega)
    refine ⟨s', tls', ?_, working', ?_⟩
    · simp only [List.range'_succ, writeLoop, indexOf_small small, round]
      exact loop
    · rw [List.range'_succ, List.map_cons]
      exact wrote₁.append (Nat.le_of_lt inside) wrote'

end Loop

end OperatingSys.Tls
