import OperatingSys.Tls.Refinement

/-!
# What does not depend on the protections

Who holds which page and what is in it does not depend on the protections of the pages, and a call
works on the pages of one area. So a thread inside a call can be looked at as if no page but its own
could be accessed.
-/

namespace OperatingSys.Tls

open Search Sharing

/-! ### The globals without the protections -/

/-- All pages inaccessible. Who holds which page and what is in it stays the same. -/
def State.shut (s : State) : State :=
  { s with heap := fun id => (s.heap id).map fun page => { page with protection := .none } }

theorem State.contents_shut (s : State) (tls : Area) : s.shut.contents tls = s.contents tls := by
  refine State.contents_congr fun id _ => ?_
  simp only [State.shut, Option.map_map]
  rfl

theorem State.shut_storePage (s : State) (id : Nat) (page : Option Page) :
    (s.storePage id page).shut =
      s.shut.storePage id (page.map fun page => { page with protection := .none }) := by
  simp only [State.shut, State.storePage, State.mk.injEq, true_and, and_true]
  funext id'
  simp only [Function.update_apply]
  split <;> rfl

theorem eachPage_shut {touch : State → Nat → Option State}
    (same : ∀ s id, touch s.shut id = (touch s id).map State.shut) (s : State) (ids : List Nat) :
    eachPage touch s.shut ids = (eachPage touch s ids).map State.shut := by
  induction ids generalizing s with
  | nil => rfl
  | cons id rest ih =>
    simp only [eachPage, same]
    cases touch s id with
    | none => rfl
    | some s' => exact ih s'

theorem sharePage_shut (s : State) (id : Nat) :
    sharePage s.shut id = (sharePage s id).map State.shut := by
  cases here : s.heap id with
  | none => simp [sharePage, State.shut, here]
  | some page =>
    have there : s.shut.heap id = some { page with protection := .none } := by
      simp only [State.shut, here, Option.map_some]
    rw [sharePage_touches s id page here, sharePage_touches s.shut id _ there, Option.map_some,
      State.shut_storePage, Option.map_some]

theorem releasePage_shut (s : State) (id : Nat) :
    releasePage s.shut id = (releasePage s id).map State.shut := by
  cases here : s.heap id with
  | none => simp [releasePage, State.shut, here]
  | some page =>
    have there : s.shut.heap id = some { page with protection := .none } := by
      simp only [State.shut, here, Option.map_some]
    rw [releasePage_touches s id page here, releasePage_touches s.shut id _ there, Option.map_some,
      State.shut_storePage]
    congr 2
    simp only [Page.released]
    split <;> rfl

theorem State.shut_newPage (s : State) (bytes : Nat → Byte) :
    (s.newPage bytes .none).shut = s.shut.newPage bytes .none := by
  simp only [State.shut, State.newPage, State.mk.injEq, true_and, and_true]
  funext id
  simp only [Function.update_apply]
  split <;> rfl

theorem newPages_shut (s : State) (n : Nat) : newPages s.shut n = (newPages s n).shut := by
  induction n generalizing s with
  | zero => rfl
  | succ n ih => rw [newPages, newPages, ← State.shut_newPage, ih]

theorem tlsCreate_shut (s : State) (self : Tid) (size : BitVec 32) :
    tlsCreate s.shut self size = (tlsCreate s self size).map fun r => (r.1, r.2.shut) := by
  have begun : (if s.shut.initialized then s.shut else tlsInit s.shut) =
      (if s.initialized then s else tlsInit s).shut := by
    change (if s.initialized then s.shut else (tlsInit s).shut) = _
    split <;> rfl
  simp only [tlsCreate, begun]
  generalize (if s.initialized then s else tlsInit s) = t
  have found : findTid t.shut self = findTid t self := rfl
  have pairs : t.shut.pairs = t.pairs := rfl
  rw [found, pairs]
  split
  · rfl
  split
  · rfl
  cases firstIndex maxThreadCount fun i => decide ((t.pairs i).tid = -1) with
  | none => rfl
  | some i =>
    dsimp only
    rw [newPages_shut]
    rfl

theorem tlsClone_shut (s : State) (self tid : Tid) :
    tlsClone s.shut self tid = (tlsClone s self tid).map fun r => (r.1, r.2.shut) := by
  have found : ∀ tid, findTid s.shut tid = findTid s tid := fun _ => rfl
  have pairs : s.shut.pairs = s.pairs := rfl
  simp only [tlsClone, found, pairs]
  split
  · rfl
  cases (findTid s tid).bind fun i => (s.pairs i).tls with
  | none => rfl
  | some target =>
    simp only [eachPage_shut sharePage_shut]
    cases eachPage sharePage s target.pages with
    | none => rfl
    | some s' =>
      have pairs' : s'.shut.pairs = s'.pairs := rfl
      simp only [Option.map_some, pairs']
      split <;> rfl

theorem tlsDestroy_shut (s : State) (self : Tid) :
    tlsDestroy s.shut self = (tlsDestroy s self).map fun r => (r.1, r.2.shut) := by
  have found : findTid s.shut self = findTid s self := rfl
  have pairs : s.shut.pairs = s.pairs := rfl
  simp only [tlsDestroy, found, pairs]
  cases findTid s self with
  | none => rfl
  | some i =>
    dsimp only
    cases (s.pairs i).tls with
    | none => rfl
    | some tls =>
      simp only [eachPage_shut releasePage_shut]
      cases eachPage releasePage s tls.pages with
      | none => rfl
      | some s' => rfl

theorem State.refCount_shut (s : State) (id : Nat) : s.shut.refCount id = s.refCount id := by
  simp only [State.refCount, State.shut]
  cases s.heap id <;> rfl

theorem counted_shut (s : State) : Counted s.shut ↔ Counted s := by
  have same : s.shut.pagesOf = s.pagesOf := rfl
  constructor
  · intro counted
    refine ⟨fun id late => ?_, fun id => ?_, fun id page lookup => ?_⟩
    · simpa [State.shut] using counted.unallocated id late
    · rw [← State.refCount_shut, counted.exact_, same]
    · exact counted.positive id { page with protection := .none } (by simp [State.shut, lookup])
  · intro counted
    refine ⟨fun id late => ?_, fun id => ?_, fun id page lookup => ?_⟩
    · simpa [State.shut] using counted.unallocated id late
    · rw [State.refCount_shut, counted.exact_, same]
    · obtain ⟨old, before, rfl⟩ := Option.map_eq_some_iff.mp lookup
      exact counted.positive id old before

/-! ### One area at a time -/

/-- All pages but `ids` inaccessible. -/
def State.only (s : State) (ids : List Nat) : State :=
  { s with heap := fun id => if id ∈ ids then s.heap id else s.shut.heap id }

theorem State.shut_only (s : State) (ids : List Nat) : (s.only ids).shut = s.shut := by
  simp only [State.shut, State.only, State.mk.injEq, true_and, and_true]
  funext id
  split
  · rfl
  · rw [Option.map_map]
    rfl

theorem State.contents_only (s : State) (ids : List Nat) (tls : Area) :
    (s.only ids).contents tls = s.contents tls := by
  rw [← State.contents_shut, State.shut_only, State.contents_shut]

section Only

variable {s : State} {granted : Nat} {tid : Tid} {i : Nat} {tls : Area}

/-- As far as its own pages go, a thread is the only one that is inside a call. -/
theorem Resting.working (resting : Resting s.shut granted) (holds : Holds s tid i tls)
    (accessible : ∀ id ∈ tls.pages, ∀ page, s.heap id = some page → page.protection ≠ .none) :
    Working (s.only tls.pages) granted tid i tls where
  initialized := resting.initialized
  counted := by
    rw [← counted_shut, State.shut_only]
    exact resting.counted
  registered := { resting.registered with }
  holds := holds
  accessible := fun id member page lookup => by
    simp only [State.only, if_pos member] at lookup
    exact accessible id member page lookup
  inaccessible := fun id page lookup absent => by
    simp only [State.only, if_neg absent] at lookup
    exact resting.sealed_ id page lookup

theorem Working.resting (working : Working s granted tid i tls) : Resting s.shut granted where
  initialized := working.initialized
  counted := (counted_shut s).mpr working.counted
  registered := { working.registered with }
  sealed_ := fun id page lookup => by
    obtain ⟨old, -, rfl⟩ := Option.map_eq_some_iff.mp lookup
    rfl

theorem copied_only (ids : List Nat) (pn id : Nat) (page : Page) :
    (copied (s.only ids) tid i tls pn id page).shut = (copied s tid i tls pn id page).shut := by
  simp only [State.shut, State.mk.injEq]
  refine ⟨rfl, rfl, funext fun x => ?_, rfl⟩
  have elsewhere : (s.only ids).shut.heap x = s.shut.heap x := by rw [State.shut_only]
  by_cases first : x = id
  · simp only [if_pos first]
  by_cases second : x = s.next
  · have second' : x = (s.only ids).next := second
    simp only [if_neg first, if_pos second, if_pos second', Option.map_some]
    rfl
  · have second' : ¬ x = (s.only ids).next := second
    simp only [if_neg first, if_neg second, if_neg second']
    exact elsewhere

/-- A round of `tls_write` touches the pages of its own area and the next new page. -/
theorem writeByte_only {s' : State} {idx : Int} {byte : Byte} (pair : s.pairs i = ⟨tid, some tls⟩)
    (old : ∀ id ∈ tls.pages, id < s.next) (unused : s.heap s.next = none)
    (wrote : writeByte (s.only tls.pages) i idx byte = some s') :
    ∃ t, writeByte s i idx byte = some t ∧ t.shut = s'.shut ∧
      (∀ id, id ∈ tls.pages ∨ id = s.next → t.heap id = s'.heap id) ∧
      (∀ id, id ∉ tls.pages → id ≠ s.next → t.heap id = s.heap id) ∧
      ∀ id ∈ t.pagesOf i, id ∈ tls.pages ∨ id = s.next := by
  have pair' : (s.only tls.pages).pairs i = ⟨tid, some tls⟩ := pair
  have table : s.pagesOf i = tls.pages := by simp only [State.pagesOf, pair, Pair.pages]
  simp only [writeByte, pair, pair'] at wrote ⊢
  cases named : tls.pages[pageNumber idx]? with
  | none => simp [named] at wrote
  | some id =>
    have member : id ∈ tls.pages := List.mem_of_getElem? named
    have late := old id member
    have same : (s.only tls.pages).heap id = s.heap id := if_pos member
    simp only [named, same] at wrote ⊢
    cases here : s.heap id with
    | none => simp [here] at wrote
    | some page =>
      simp only [here] at wrote ⊢
      -- a shared page is copied first, to the next new page; both runs copy it alike
      by_cases shared : page.refCount > 1
      · simp only [if_pos shared] at wrote ⊢
        by_cases accessible : page.protection = .none
        · simp [copyPage, accessible] at wrote
        rw [copyPage_eq pair' accessible] at wrote
        obtain ⟨page', here', accessible', inPage, rfl⟩ := storeByte_eq_some wrote
        obtain rfl : page' = fresh s page := Option.some.inj (here'.symm.trans (copied_next late))
        rw [copyPage_eq pair accessible]
        refine ⟨_, storeByte_eq (copied_next late) accessible' inPage byte, ?_, fun x near => ?_,
          fun x far notNew => ?_, fun x held => ?_⟩
        · rw [State.shut_storePage, State.shut_storePage, copied_only]
          rfl
        · simp only [State.storePage, Function.update_apply, State.only]
          split
          · rfl
          next notNew =>
            have held : x ∈ tls.pages := near.resolve_right notNew
            simp only [if_neg notNew, if_pos held]
        · -- the page that is copied is one of the area, so a page elsewhere is not written
          have other : x ≠ id := fun eq => far (eq.symm ▸ member)
          simp only [State.storePage, Function.update_of_ne notNew, if_neg other, if_neg notNew]
        · simp only [State.pagesOf, State.storePage, State.storePair, Function.update_self,
            Pair.pages] at held
          exact List.mem_or_eq_of_mem_set held
      · simp only [if_neg shared] at wrote ⊢
        -- a page of its own is written in place
        obtain ⟨page', here', accessible, inPage, rfl⟩ := storeByte_eq_some wrote
        obtain rfl : page = page' := Option.some.inj (here.symm.trans (same.symm.trans here'))
        refine ⟨_, storeByte_eq here accessible inPage byte, ?_, fun x near => ?_,
          fun x far _ => ?_, fun x held => Or.inl (table ▸ held)⟩
        · rw [State.shut_storePage, State.shut_storePage, State.shut_only]
        · simp only [State.storePage, Function.update_apply]
          split
          · rfl
          · rcases near with held | rfl
            · exact (if_pos held).symm
            · simp only [State.only, State.shut, unused, Option.map_none, ite_self]
        · have other : x ≠ id := fun eq => far (eq.symm ▸ member)
          exact Function.update_of_ne other _ _

/-- A round of `tls_write` in an area whose pages can be accessed, whatever the other pages. -/
theorem Resting.writeByte (resting : Resting s.shut granted) (holds : Holds s tid i tls)
    (accessible : ∀ id ∈ tls.pages, ∀ page, s.heap id = some page → page.protection ≠ .none)
    {q : Nat} (inArea : q < tls.size.toNat) (small : q < 2 ^ 31) (byte : Byte) :
    ∃ t tls', Tls.writeByte s i q byte = some t ∧ Resting t.shut granted ∧
      Changes s.shut t.shut tid (some ((s.contents tls).overwrite q [byte])) ∧
      Holds t tid i tls' ∧ (∀ j ≠ i, t.pairs j = s.pairs j) ∧
      (∀ id, id ∉ tls.pages → id ≠ s.next → t.heap id = s.heap id) ∧
      (∀ id ∈ tls'.pages, id ∈ tls.pages ∨ id = s.next) ∧
      ∀ id, id ∈ tls.pages ∨ id = s.next → ∀ page, t.heap id = some page →
        (page.protection = .none ↔ id ∉ tls'.pages) := by
  have counted := (counted_shut s).mp resting.counted
  -- as if no other page could be accessed
  obtain ⟨s', tls', round, working, wrote⟩ :=
    writeByte_spec (resting.working holds accessible) inArea small byte
  obtain ⟨t, stored, shut, near, far, table⟩ := writeByte_only holds.2
    (fun id member => counted.lt_next holds.1 (holds.pagesOf ▸ member))
    (counted.unallocated s.next (Nat.le_refl _)) round
  have pairs : t.shut.pairs = s'.shut.pairs := by rw [shut]
  change t.pairs = s'.pairs at pairs
  have contents : ∀ area, t.contents area = s'.contents area := fun area => by
    rw [← State.contents_shut, shut, State.contents_shut]
  have holds' : Holds t tid i tls' := ⟨holds.1, by rw [pairs]; exact working.holds.2⟩
  refine ⟨t, tls', stored, shut ▸ working.resting, Changes.of_pair (i := i) (fun j other => ?_)
    (fun tid' area held => ?_) (fun j area held => resting.registered.distinct tid j i area tls held holds)
    (fun tid' j area other held => ?_) (Or.inr ⟨tls', holds', ?_⟩), holds', fun j other => ?_, far,
    fun id member => table id (holds'.pagesOf ▸ member), fun id inReach page lookup => ?_⟩
  · exact (congrFun pairs j).trans (wrote.pairs j other)
  · have same := held.2.symm.trans holds.2
    simp only [Pair.mk.injEq] at same
    exact same.1
  · rw [State.contents_shut, State.contents_shut, contents, wrote.rest tid' j area other held,
      State.contents_only]
  · rw [State.contents_shut, contents, wrote.written, State.contents_only]
  · exact (congrFun pairs j).trans (wrote.pairs j other)
  · rw [near id inReach] at lookup
    constructor
    · intro none_ member
      exact working.accessible id member page lookup none_
    · exact working.inaccessible id page lookup

end Only

/-! ### Pages that are not touched -/

/-- The page can be accessed, if there is one. -/
def State.Accessible (s : State) (id : Nat) : Prop :=
  ∀ page, s.heap id = some page → page.protection ≠ .none

def State.Inaccessible (s : State) (id : Nat) : Prop :=
  ∀ page, s.heap id = some page → page.protection = .none

/-- What a call of `caller` that works on the pages `ids` leaves alone. -/
structure Spares (s s' : State) (caller : Tid) (ids : List Nat) : Prop where
  pairs : ∀ j, (s.pairs j).tid ≠ caller → (s.pairs j).tid ≠ -1 → s'.pairs j = s.pairs j
  heap : ∀ id < s.next, id ∉ ids → s'.heap id = s.heap id
  quiet : ∀ id, s.Inaccessible id → s'.Inaccessible id

theorem Spares.refl (s : State) (self : Tid) (ids : List Nat) : Spares s s self ids :=
  ⟨fun _ _ _ => rfl, fun _ _ _ => rfl, fun _ => id⟩

/-- A loop over pages that sets no protection. -/
theorem eachPage_spares {touch : State → Nat → Option State}
    (touches : ∀ s id s', touch s id = some s' → ∃ old new, s.heap id = some old ∧
      s' = s.storePage id new ∧ ∀ page, new = some page → page.protection = old.protection)
    {s s' : State} {ids : List Nat} (ran : eachPage touch s ids = some s') :
    s'.pairs = s.pairs ∧ (∀ id, id ∉ ids → s'.heap id = s.heap id) ∧
      ∀ id, s.Inaccessible id → s'.Inaccessible id := by
  induction ids generalizing s with
  | nil =>
    simp only [eachPage, Option.some.injEq] at ran
    subst ran
    exact ⟨rfl, fun _ _ => rfl, fun _ => id⟩
  | cons id rest ih =>
    simp only [eachPage] at ran
    cases first : touch s id with
    | none => simp [first] at ran
    | some t =>
      simp only [first] at ran
      obtain ⟨old, new, here, rfl, protection⟩ := touches s id t first
      obtain ⟨pairs, heap, quiet⟩ := ih ran
      refine ⟨pairs, fun id' absent => ?_, fun id' closed => quiet id' fun page lookup => ?_⟩
      · rw [List.mem_cons, not_or] at absent
        rw [heap id' absent.2]
        exact Function.update_of_ne absent.1 _ _
      · simp only [State.storePage, Function.update_apply] at lookup
        split at lookup
        next same =>
          rw [protection page lookup]
          exact closed old (same ▸ here)
        next => exact closed page lookup

theorem sharePage_spares (s : State) (id : Nat) (s' : State) (shared : sharePage s id = some s') :
    ∃ old new, s.heap id = some old ∧ s' = s.storePage id new ∧
      ∀ page, new = some page → page.protection = old.protection := by
  cases here : s.heap id with
  | none => simp [sharePage, here] at shared
  | some old =>
    rw [sharePage_touches s id old here, Option.some.injEq] at shared
    exact ⟨old, _, rfl, shared.symm, fun page eq => by rw [← Option.some.inj eq]⟩

theorem releasePage_spares (s : State) (id : Nat) (s' : State)
    (released : releasePage s id = some s') : ∃ old new, s.heap id = some old ∧
      s' = s.storePage id new ∧ ∀ page, new = some page → page.protection = old.protection := by
  cases here : s.heap id with
  | none => simp [releasePage, here] at released
  | some old =>
    rw [releasePage_touches s id old here, Option.some.injEq] at released
    refine ⟨old, _, rfl, released.symm, fun page eq => ?_⟩
    rw [Page.released] at eq
    split at eq
    · simp at eq
    · rw [← Option.some.inj eq]

theorem tlsCreate_spares {s s' : State} {self : Tid} {size : BitVec 32} {r : Int}
    (initialized : s.initialized = true) (called : tlsCreate s self size = some (r, s')) : Spares s s' self [] := by
  have begun : (if s.initialized then s else tlsInit s) = s := if_pos initialized
  simp only [tlsCreate, begun] at called
  split at called
  · simp only [Option.some.injEq, Prod.mk.injEq] at called
    exact called.2 ▸ Spares.refl s self []
  split at called
  · simp only [Option.some.injEq, Prod.mk.injEq] at called
    exact called.2 ▸ Spares.refl s self []
  split at called
  · simp at called
  next i free =>
    obtain ⟨-, hit, -⟩ := firstIndex_eq_some.mp free
    rw [decide_eq_true_eq] at hit
    simp only [newPages_eq, Option.some.injEq, Prod.mk.injEq] at called
    rw [← called.2]
    refine ⟨fun j _ used => ?_, fun id old _ => ?_, fun id closed page lookup => ?_⟩
    · have other : j ≠ i := fun eq => used (eq ▸ hit)
      exact Function.update_of_ne other _ _
    · exact if_neg (by omega)
    · simp only [State.storePair] at lookup
      split at lookup
      · rw [← Option.some.inj lookup]
      · exact closed page lookup

theorem tlsClone_spares {s s' : State} {self tid : Tid} {r : Int} {i : Nat} {tls : Area}
    (found : findTid s tid = some i) (area : (s.pairs i).tls = some tls)
    (called : tlsClone s self tid = some (r, s')) : Spares s s' self tls.pages := by
  simp only [tlsClone, found, Option.bind_some, area] at called
  split at called
  · simp only [Option.some.injEq, Prod.mk.injEq] at called
    exact called.2 ▸ Spares.refl s self _
  cases shared : eachPage sharePage s tls.pages with
  | none => simp [shared] at called
  | some t =>
    obtain ⟨pairs, heap, quiet⟩ := eachPage_spares sharePage_spares shared
    simp only [shared] at called
    split at called
    next =>
      simp only [Option.some.injEq, Prod.mk.injEq] at called
      rw [← called.2]
      exact ⟨fun j _ _ => by rw [pairs], fun id _ absent => heap id absent, quiet⟩
    next k free =>
      obtain ⟨-, hit, -⟩ := firstIndex_eq_some.mp free
      rw [decide_eq_true_eq, pairs] at hit
      simp only [Option.some.injEq, Prod.mk.injEq] at called
      rw [← called.2]
      refine ⟨fun j _ used => ?_, fun id _ absent => heap id absent, quiet⟩
      have other : j ≠ k := fun eq => used (eq ▸ hit)
      rw [← pairs]
      exact Function.update_of_ne other _ _

theorem tlsDestroy_spares {s s' : State} {self : Tid} {r : Int} {i : Nat} {tls : Area}
    (holds : Holds s self i tls) (found : findTid s self = some i)
    (called : tlsDestroy s self = some (r, s')) : Spares s s' self tls.pages := by
  simp only [tlsDestroy, found, holds.2] at called
  cases released : eachPage releasePage s tls.pages with
  | none => simp [released] at called
  | some t =>
    obtain ⟨pairs, heap, quiet⟩ := eachPage_spares releasePage_spares released
    simp only [released, Option.some.injEq, Prod.mk.injEq] at called
    rw [← called.2]
    refine ⟨fun j notOwn _ => ?_, fun id _ absent => heap id absent, quiet⟩
    have other : j ≠ i := fun eq => notOwn (by rw [eq, holds.2])
    rw [← pairs]
    exact Function.update_of_ne other _ _

end OperatingSys.Tls
