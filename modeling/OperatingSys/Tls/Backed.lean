import OperatingSys.Tls.Allotment
import OperatingSys.Lib.Machine

/-!
# Whoever calls

What holds after any calls of any threads, also once all pairs have been given out: an area has
the pages it was laid out with, none of them has been freed, and the count of a page is at least
the number of areas that hold it. That it is exactly this number needs more; it is not so after
a clone that found no pair.
-/

namespace OperatingSys.Tls

open Search Sharing

structure Backed (s : State) : Prop where
  unallocated : ∀ id, s.next ≤ id → s.heap id = none
  enough : ∀ id, ((holders maxThreadCount s.pagesOf id).card : Int) ≤ s.refCount id
  formed : ∀ i < maxThreadCount, ∀ tls, (s.pairs i).tls = some tls → WellFormed tls
  address : ∀ id page, s.heap id = some page → page.address = pageSize * (id + 1)

section Backed

variable {s t : State}

theorem fresh_backed : Backed State.fresh where
  unallocated := fun _ _ => rfl
  enough := fun id => by simp [holders, State.pagesOf, State.fresh, Pair.pages, State.refCount]
  formed := fun i _ tls area => by simp [State.fresh] at area
  address := fun id page lookup => by simp [State.fresh] at lookup

theorem pagesOf_of_area {i : Nat} {tls : Area} (area : (s.pairs i).tls = some tls) :
    s.pagesOf i = tls.pages := by
  simp only [State.pagesOf, Pair.pages, area]

theorem Backed.allocated (backed : Backed s) {i id : Nat} (inRange : i < maxThreadCount)
    (holds : id ∈ s.pagesOf i) : ∃ page, s.heap id = some page ∧ 1 ≤ page.refCount := by
  have one : 0 < (holders maxThreadCount s.pagesOf id).card :=
    Finset.card_pos.mpr ⟨i, mem_holders.mpr ⟨inRange, holds⟩⟩
  have count := backed.enough id
  cases lookup : s.heap id with
  | none =>
    simp only [State.refCount, lookup] at count
    omega
  | some page =>
    simp only [State.refCount, lookup] at count
    exact ⟨page, rfl, by omega⟩

theorem Backed.lt_next (backed : Backed s) {i id : Nat} (inRange : i < maxThreadCount)
    (holds : id ∈ s.pagesOf i) : id < s.next := by
  obtain ⟨page, allocated, -⟩ := backed.allocated inRange holds
  by_contra late
  rw [backed.unallocated id (by omega)] at allocated
  simp at allocated

/-- Replacing the page table of one pair: a count may go down only with the table. -/
theorem Backed.enough_replace (backed : Backed s) {i : Nat} (inRange : i < maxThreadCount)
    (pages : List Nat) (tables : t.pagesOf = Function.update s.pagesOf i pages)
    (counts : ∀ id, s.refCount id + (if id ∈ pages then 1 else 0) ≤
      t.refCount id + (if id ∈ s.pagesOf i then 1 else 0)) (id : Nat) :
    ((holders maxThreadCount t.pagesOf id).card : Int) ≤ t.refCount id := by
  have change := card_holders_update s.pagesOf id inRange pages
  have count := counts id
  have old := backed.enough id
  rw [tables]
  by_cases before : id ∈ s.pagesOf i <;> by_cases after : id ∈ pages <;>
    simp only [before, after, if_true, if_false] at change count <;> omega

/-- The areas of the table after one pair has been replaced. -/
theorem Backed.formed_replace (backed : Backed s) {i : Nat} {pair : Pair}
    (pairs : t.pairs = Function.update s.pairs i pair)
    (formed : ∀ tls, pair.tls = some tls → WellFormed tls) :
    ∀ j < maxThreadCount, ∀ tls, (t.pairs j).tls = some tls → WellFormed tls := by
  intro j inRange tls area
  rw [pairs, Function.update_apply] at area
  split at area
  · exact formed tls area
  · exact backed.formed j inRange tls area

/-- Pages that are touched stay where they are. -/
theorem Backed.mapPages_address (backed : Backed s) (ids : List Nat) {touch : Page → Page}
    (same : ∀ page, (touch page).address = page.address) (id : Nat) (page : Page)
    (lookup : (s.mapPages ids fun page => some (touch page)).heap id = some page) :
    page.address = pageSize * (id + 1) := by
  simp only [State.mapPages] at lookup
  split at lookup
  · obtain ⟨old, before, eq⟩ := Option.bind_eq_some_iff.mp lookup
    rw [Option.some.injEq] at eq
    rw [← eq, same old]
    exact backed.address id old before
  · exact backed.address id page lookup

/-- `mprotect` of some pages. -/
theorem Backed.protection (backed : Backed s) (ids : List Nat) (protection : Protection) :
    Backed (s.mapPages ids fun page => some { page with protection }) where
  unallocated := fun id late => by
    simp only [State.mapPages, backed.unallocated id late, Option.bind_none, ite_self]
  enough := fun id => by
    rw [mapPages_protection_refCount]
    exact backed.enough id
  formed := backed.formed
  address := backed.mapPages_address ids fun _ => rfl

/-! ### Creating, cloning, destroying -/

variable {self : Tid}

theorem Backed.init (backed : Backed s) : Backed (tlsInit s) := by
  have area : ∀ i, ((tlsInit s).pairs i).tls = (s.pairs i).tls := by
    intro i
    simp only [tlsInit]
    split <;> rfl
  have tables : (tlsInit s).pagesOf = s.pagesOf := by
    funext i
    simp only [State.pagesOf, Pair.pages, area]
  exact {
    unallocated := backed.unallocated
    enough := fun id => by
      rw [tables]
      exact backed.enough id
    formed := fun i inRange tls held => backed.formed i inRange tls (area i ▸ held)
    address := backed.address }

theorem Backed.created (backed : Backed s) {i : Nat} (inRange : i < maxThreadCount)
    {size : BitVec 32} (positive : size ≠ 0) : Backed (created s i self size) where
  unallocated := fun id late => by
    change (if s.next ≤ id ∧ id < s.next + pageCount size then _ else s.heap id) = none
    change s.next + pageCount size ≤ id at late
    rw [if_neg (by omega)]
    exact backed.unallocated id (by omega)
  enough := by
    refine backed.enough_replace inRange (newArea s self size).pages
      (pagesOf_storePair s i ⟨self, some (newArea s self size)⟩) fun id => ?_
    by_cases new : s.next ≤ id ∧ id < s.next + pageCount size
    · rw [if_pos ((mem_newArea id).mpr new)]
      simp only [State.refCount, new, and_self, if_true, backed.unallocated id new.1]
      split <;> omega
    · rw [if_neg fun member => new ((mem_newArea id).mp member)]
      simp only [State.refCount, new, if_false]
      split <;> omega
  formed := backed.formed_replace (i := i) rfl fun tls held => by
    rw [Option.some.injEq] at held
    exact held ▸ newArea_formed s self positive
  address := fun id page lookup => by
    rcases created_heap_cases lookup with ⟨-, rfl⟩ | old
    · rfl
    · exact backed.address id page old

theorem Backed.create (backed : Backed s) {size : BitVec 32} {r : Int}
    (called : tlsCreate s self size = some (r, t)) : Backed t := by
  have begun : Backed (if s.initialized then s else tlsInit s) := by
    split
    · exact backed
    · exact backed.init
  simp only [tlsCreate] at called
  generalize (if s.initialized then s else tlsInit s) = s₀ at begun called
  split at called
  · simp only [Option.some.injEq, Prod.mk.injEq] at called
    exact called.2 ▸ begun
  next positive =>
    split at called
    · simp only [Option.some.injEq, Prod.mk.injEq] at called
      exact called.2 ▸ begun
    · split at called
      · simp at called
      next i free =>
        simp only [Option.some.injEq, Prod.mk.injEq, newPages_eq] at called
        rw [← called.2]
        exact begun.created (firstIndex_eq_some.mp free).1 positive

/-- What the three loops over the pages of an area need. -/
theorem Backed.pages (backed : Backed s) {i : Nat} {tls : Area} (inRange : i < maxThreadCount)
    (area : (s.pairs i).tls = some tls) :
    tls.pages.Nodup ∧ ∀ id ∈ tls.pages, ∃ page, s.heap id = some page := by
  refine ⟨(backed.formed i inRange tls area).nodup, fun id member => ?_⟩
  obtain ⟨page, here, -⟩ := backed.allocated inRange (pagesOf_of_area area ▸ member)
  exact ⟨page, here⟩

/-- A lookup leads to a pair of the table. -/
theorem areaOf_eq_some {tid : Tid} {tls : Area} (found : s.areaOf tid = some tls) :
    ∃ i < maxThreadCount, findTid s tid = some i ∧ (s.pairs i).tls = some tls := by
  obtain ⟨i, search, area⟩ := Option.bind_eq_some_iff.mp found
  exact ⟨i, (firstIndex_eq_some.mp search).1, search, area⟩

/-- The counts of the pages that are shared go up before the pair is filled. -/
theorem Backed.shared (backed : Backed s) (ids : List Nat)
    (allocated : ∀ id ∈ ids, ∃ page, s.heap id = some page) :
    Backed (s.mapPages ids fun page => some { page with refCount := page.refCount + 1 }) ∧
      ∀ id, (s.mapPages ids fun page => some { page with refCount := page.refCount + 1 }).refCount
        id = s.refCount id + if id ∈ ids then 1 else 0 := by
  have counts : ∀ id, (s.mapPages ids fun page =>
      some { page with refCount := page.refCount + 1 }).refCount id =
        s.refCount id + if id ∈ ids then 1 else 0 := by
    intro id
    by_cases member : id ∈ ids
    · obtain ⟨page, here⟩ := allocated id member
      simp [State.refCount, State.mapPages, member, here]
    · simp [State.refCount, State.mapPages, member]
  refine ⟨⟨fun id late => ?_, fun id => ?_, backed.formed, backed.mapPages_address ids fun _ => rfl⟩,
    counts⟩
  · simp only [State.mapPages, backed.unallocated id late, Option.bind_none, ite_self]
  · rw [counts id]
    have old := backed.enough id
    change ((holders maxThreadCount s.pagesOf id).card : Int) ≤ _
    split <;> omega

theorem Backed.clone (backed : Backed s) {target : Tid} {r : Int}
    (called : tlsClone s self target = some (r, t)) : Backed t := by
  simp only [tlsClone] at called
  split at called
  · simp only [Option.some.injEq, Prod.mk.injEq] at called
    exact called.2 ▸ backed
  · split at called
    · simp only [Option.some.injEq, Prod.mk.injEq] at called
      exact called.2 ▸ backed
    next tls found =>
      obtain ⟨k, inRange, -, area⟩ := areaOf_eq_some found
      obtain ⟨nodup, allocated⟩ := backed.pages inRange area
      obtain ⟨backed', counts⟩ := backed.shared tls.pages allocated
      rw [eachPage_eq sharePage_touches nodup allocated] at called
      dsimp only at called
      split at called
      -- without a free pair the counts have gone up all the same
      · simp only [Option.some.injEq, Prod.mk.injEq] at called
        exact called.2 ▸ backed'
      next i free =>
        simp only [Option.some.injEq, Prod.mk.injEq] at called
        rw [← called.2]
        refine ⟨backed'.unallocated, ?_, ?_, backed'.address⟩
        · refine backed.enough_replace (firstIndex_eq_some.mp free).1 tls.pages
            (pagesOf_storePair (s.mapPages _ _) i _) fun id => ?_
          have count := counts id
          change s.refCount id + _ ≤ (s.mapPages _ _).refCount id + _
          rw [count]
          split <;> split <;> omega
        · refine backed'.formed_replace (i := i) rfl fun area' held => ?_
          rw [Option.some.injEq] at held
          exact held ▸ { backed.formed k inRange tls area with }

theorem Backed.destroy (backed : Backed s) {r : Int} (called : tlsDestroy s self = some (r, t)) :
    Backed t := by
  simp only [tlsDestroy] at called
  split at called
  · simp only [Option.some.injEq, Prod.mk.injEq] at called
    exact called.2 ▸ backed
  next i found =>
    have inRange := (firstIndex_eq_some.mp found).1
    split at called
    · simp only [Option.some.injEq, Prod.mk.injEq] at called
      exact called.2 ▸ backed
    next tls area =>
      obtain ⟨nodup, allocated⟩ := backed.pages inRange area
      rw [eachPage_eq releasePage_touches nodup allocated] at called
      simp only [Option.some.injEq, Prod.mk.injEq] at called
      rw [← called.2]
      refine ⟨fun id late => ?_, ?_, ?_, fun id page lookup => ?_⟩
      · change (if id ∈ tls.pages then _ else s.heap id) = none
        rw [backed.unallocated id late, Option.bind_none, ite_self]
      · refine backed.enough_replace inRange [] (pagesOf_storePair (s.mapPages _ _) i ⟨0, none⟩)
          fun id => ?_
        rw [pagesOf_of_area area, if_neg (List.not_mem_nil (a := id))]
        by_cases member : id ∈ tls.pages
        · obtain ⟨page, here⟩ := allocated id member
          by_cases last : page.refCount = 1
          · simp [State.refCount, State.mapPages, State.storePair, member, here, Page.released, last]
          · simp [State.refCount, State.mapPages, State.storePair, member, here, Page.released, last]
        · simp [State.refCount, State.mapPages, State.storePair, member]
      · exact backed.formed_replace (i := i) rfl fun area' held => by simp at held
      · obtain ⟨old, before, address, -⟩ := destroyed_heap_cases (i := i) lookup
        rw [address]
        exact backed.address id old before

end Backed

/-! ### Reading and writing -/

/-- The pages of an area unprotected, as `tls_read` and `tls_write` begin. -/
abbrev State.unprotected (s : State) (tls : Area) : State :=
  s.mapPages tls.pages fun page => some { page with protection := .readWrite }

/-- The pages of an area protected again. -/
abbrev State.protected_ (s : State) (tls : Area) : State :=
  s.mapPages tls.pages fun page => some { page with protection := .none }

/-- Inside a call that works on the area `tls` of pair `i`: its pages can be accessed. -/
structure Accessing (s : State) (i : Nat) (tls : Area) : Prop where
  backed : Backed s
  inRange : i < maxThreadCount
  area : (s.pairs i).tls = some tls
  accessible : ∀ id ∈ tls.pages, ∀ page, s.heap id = some page → page.protection ≠ .none

section Accessing

variable {s t : State} {i : Nat} {tls : Area}

theorem Backed.unprotect (backed : Backed s) (inRange : i < maxThreadCount)
    (area : (s.pairs i).tls = some tls) :
    eachPage tlsUnprotect s tls.pages = some (s.unprotected tls) ∧
      Accessing (s.unprotected tls) i tls := by
  obtain ⟨nodup, allocated⟩ := backed.pages inRange area
  refine ⟨eachPage_eq tlsUnprotect_touches nodup allocated, backed.protection _ _, inRange, area,
    fun id member page lookup => ?_⟩
  obtain ⟨_, -, -, now⟩ := mapPages_protection s _ _ lookup
  rw [now, if_pos member]
  exact Protection.noConfusion

theorem Accessing.protect (accessing : Accessing s i tls) :
    eachPage tlsProtect s tls.pages = some (s.protected_ tls) := by
  obtain ⟨nodup, allocated⟩ := accessing.backed.pages accessing.inRange accessing.area
  exact eachPage_eq tlsProtect_touches nodup allocated

theorem Accessing.allocated (accessing : Accessing s i tls) {id : Nat} (member : id ∈ tls.pages) :
    ∃ page, s.heap id = some page ∧ id < s.next := by
  have held : id ∈ s.pagesOf i := pagesOf_of_area accessing.area ▸ member
  obtain ⟨page, here, -⟩ := accessing.backed.allocated accessing.inRange held
  exact ⟨page, here, accessing.backed.lt_next accessing.inRange held⟩

theorem Accessing.next_notMem (accessing : Accessing s i tls) : s.next ∉ tls.pages := by
  intro member
  obtain ⟨-, -, below⟩ := accessing.allocated member
  exact Nat.lt_irrefl _ below

theorem Accessing.poked (accessing : Accessing s i tls) {id : Nat} {page : Page}
    (member : id ∈ tls.pages) (here : s.heap id = some page) (poff : Nat) (byte : Byte) :
    Accessing (poked s id page poff byte) i tls := by
  obtain ⟨-, -, below⟩ := accessing.allocated member
  have backed := accessing.backed
  refine ⟨⟨fun id' late => ?_, fun id' => ?_, backed.formed, fun id' page' lookup => ?_⟩,
    accessing.inRange, accessing.area, fun id' member' page' lookup => ?_⟩
  · change s.next ≤ id' at late
    have other : id' ≠ id := by omega
    simp only [State.storePage, Function.update_of_ne other]
    exact backed.unallocated id' late
  · rw [poked_refCount here]
    exact backed.enough id'
  · simp only [State.storePage, Function.update_apply] at lookup
    split at lookup
    next same =>
      rw [← Option.some.inj lookup, same]
      exact backed.address id page here
    next => exact backed.address id' page' lookup
  · simp only [State.storePage, Function.update_apply] at lookup
    split at lookup
    next same =>
      rw [← Option.some.inj lookup]
      exact accessing.accessible id member page here
    next => exact accessing.accessible id' member' page' lookup

theorem Accessing.copied (accessing : Accessing s i tls) {pn id : Nat} {page : Page}
    (named : tls.pages[pn]? = some id) (here : s.heap id = some page) :
    Accessing (copied s (s.pairs i).tid i tls pn id page) i (renewed s tls pn) := by
  have member : id ∈ tls.pages := List.mem_of_getElem? named
  have backed := accessing.backed
  have formed := backed.formed i accessing.inRange tls accessing.area
  obtain ⟨-, -, below⟩ := accessing.allocated member
  have notHeld := accessing.next_notMem
  have table := pagesOf_of_area accessing.area
  have unused := backed.unallocated s.next (Nat.le_refl _)
  have entry := mem_set_iff formed.nodup named s.next
  -- A copy moves one reference from the page copied to a new page; the table of the area changes
  -- with it.
  refine ⟨⟨fun x late => ?_, ?_, ?_, fun x page' lookup => ?_⟩, accessing.inRange,
    by simp [State.storePair], fun x member' page' lookup => ?_⟩
  · change (if x = id then _ else if x = s.next then _ else s.heap x) = none
    change s.next + 1 ≤ x at late
    rw [if_neg (by omega), if_neg (by omega)]
    exact backed.unallocated x (by omega)
  · refine backed.enough_replace accessing.inRange (tls.pages.set pn s.next)
      (pagesOf_storePair s i ⟨(s.pairs i).tid, some (renewed s tls pn)⟩) fun x => ?_
    simp only [table, entry]
    -- the page copied, the new page, and the pages that are neither
    by_cases first : x = id
    · subst first
      have apart : x ≠ s.next := by omega
      simp [State.refCount, here, member, apart]
    · by_cases second : x = s.next
      · subst second
        simp [State.refCount, first, unused, notHeld]
      · simp [State.refCount, first, second]
  · refine backed.formed_replace (i := i) rfl fun area held => ?_
    rw [Option.some.injEq] at held
    exact held ▸ renewed_formed formed notHeld
  · rcases copied_heap_cases lookup with ⟨rfl, rfl⟩ | ⟨-, rfl, rfl⟩ | ⟨-, -, before⟩
    · exact backed.address x page here
    · rfl
    · exact backed.address x page' before
  · rcases copied_heap_cases lookup with ⟨rfl, rfl⟩ | ⟨-, -, rfl⟩ | ⟨-, other, before⟩
    · rcases (entry x).mp member' with eq | ⟨-, notOld⟩
      · omega
      · exact absurd rfl notOld
    · exact Protection.noConfusion
    · rcases (entry x).mp member' with eq | ⟨held, -⟩
      · exact absurd eq other
      · exact accessing.accessible x held page' before

/-- What one round of `tls_write` does: it stores its byte in the page of its index, or in a
copy of this page if the page is shared. -/
theorem Accessing.writeByte_eq (accessing : Accessing s i tls) {idx : Int} {id : Nat} {page : Page}
    (named : tls.pages[pageNumber idx]? = some id) (here : s.heap id = some page)
    (inPage : pageOffset idx < pageSize) (byte : Byte) :
    writeByte s i idx byte = some
      (if 1 < page.refCount then
        Tls.poked (Tls.copied s (s.pairs i).tid i tls (pageNumber idx) id page) s.next
          (Tls.fresh s page) (pageOffset idx) byte
      else Tls.poked s id page (pageOffset idx) byte) := by
  have member : id ∈ tls.pages := List.mem_of_getElem? named
  have open_ := accessing.accessible id member page here
  obtain ⟨-, -, below⟩ := accessing.allocated member
  have pair : s.pairs i = ⟨(s.pairs i).tid, some tls⟩ := by rw [← accessing.area]
  simp only [writeByte, accessing.area, named, here]
  by_cases shared : page.refCount > 1
  · simp only [if_pos shared, copyPage_eq pair open_]
    exact storeByte_eq (copied_next below) Protection.noConfusion inPage byte
  · simp only [if_neg shared]
    exact storeByte_eq here open_ inPage byte

/-- An offset past the page is not defined. -/
theorem writeByte_outside {idx : Int} (outside : pageSize ≤ pageOffset idx) {byte : Byte} :
    writeByte s i idx byte = none := by
  have nowhere : ∀ u id, storeByte u id (pageOffset idx) byte = none := by
    intro u id
    unfold storeByte
    split
    · rfl
    · rw [if_pos (Or.inr outside)]
  unfold writeByte
  repeat' split
  all_goals first
    | rfl
    | exact nowhere _ _

theorem Accessing.writeByte (accessing : Accessing s i tls) {idx : Int} {byte : Byte}
    (wrote : writeByte s i idx byte = some t) : ∃ tls', Accessing t i tls' := by
  have wrote' := wrote
  simp only [Tls.writeByte, accessing.area] at wrote'
  cases named : tls.pages[pageNumber idx]? with
  | none => simp [named] at wrote'
  | some id =>
    have member : id ∈ tls.pages := List.mem_of_getElem? named
    obtain ⟨page, here, below⟩ := accessing.allocated member
    by_cases inPage : pageOffset idx < pageSize
    · rw [accessing.writeByte_eq named here inPage, Option.some.injEq] at wrote
      split at wrote
      · have copied := accessing.copied named here
        have new : s.next ∈ (renewed s tls (pageNumber idx)).pages :=
          List.mem_set (List.getElem?_eq_some_iff.mp named).1 _
        subst wrote
        exact ⟨_, copied.poked new (copied_next below) _ _⟩
      · subst wrote
        exact ⟨tls, accessing.poked member here _ _⟩
    · rw [writeByte_outside (Nat.not_lt.mp inPage)] at wrote
      simp at wrote

theorem Accessing.writeLoop (accessing : Accessing s i tls) {offset : BitVec 32}
    {buffer : Nat → Byte} {cnts : List Nat} (loop : writeLoop i offset buffer s cnts = some t) :
    ∃ tls', Accessing t i tls' := by
  induction cnts generalizing s tls with
  | nil =>
    simp only [Tls.writeLoop, Option.some.injEq] at loop
    subst loop
    exact ⟨tls, accessing⟩
  | cons cnt rest ih =>
    simp only [Tls.writeLoop] at loop
    cases round : Tls.writeByte s i (indexOf offset cnt) (buffer cnt) with
    | none => simp [round] at loop
    | some s₁ =>
      simp only [round] at loop
      obtain ⟨tls₁, accessing₁⟩ := accessing.writeByte round
      exact ih accessing₁ loop

theorem Backed.read (backed : Backed s) {self : Tid} {offset length : BitVec 32} {r : Int}
    {bytes : List Byte} (called : tlsRead s self offset length = some (r, bytes, t)) :
    Backed t := by
  simp only [tlsRead] at called
  split at called
  · simp only [Option.some.injEq, Prod.mk.injEq] at called
    exact called.2.2 ▸ backed
  next tls found =>
    obtain ⟨i, inRange, -, area⟩ := areaOf_eq_some found
    obtain ⟨opened, accessing⟩ := backed.unprotect inRange area
    split at called
    · simp only [Option.some.injEq, Prod.mk.injEq] at called
      exact called.2.2 ▸ backed
    · simp only [opened, accessing.protect] at called
      split at called
      · simp at called
      · simp only [Option.some.injEq, Prod.mk.injEq] at called
        exact called.2.2 ▸ accessing.backed.protection _ _

theorem Backed.write (backed : Backed s) {self : Tid} {offset length : BitVec 32}
    {buffer : Nat → Byte} {r : Int} (called : tlsWrite s self offset length buffer = some (r, t)) :
    Backed t := by
  simp only [tlsWrite] at called
  split at called
  · simp only [Option.some.injEq, Prod.mk.injEq] at called
    exact called.2 ▸ backed
  next i found =>
    have inRange := (firstIndex_eq_some.mp found).1
    split at called
    · simp only [Option.some.injEq, Prod.mk.injEq] at called
      exact called.2 ▸ backed
    next tls area =>
      obtain ⟨opened, accessing⟩ := backed.unprotect inRange area
      split at called
      · simp only [Option.some.injEq, Prod.mk.injEq] at called
        exact called.2 ▸ backed
      · simp only [opened] at called
        split at called
        · simp at called
        next s₂ loop =>
          obtain ⟨tls', accessing'⟩ := accessing.writeLoop loop
          simp only [accessing'.area, accessing'.protect, Option.some.injEq, Prod.mk.injEq]
            at called
          exact called.2 ▸ accessing'.backed.protection _ _

theorem Backed.call (backed : Backed s) {c : Call} {r : Reply} (called : call s c = some (r, t)) :
    Backed t := by
  obtain ⟨self, operation⟩ := c
  cases operation with
  | create size =>
    simp only [Tls.call, Option.map_eq_some_iff, Prod.mk.injEq] at called
    obtain ⟨⟨r', t'⟩, created, -, rfl⟩ := called
    exact backed.create created
  | clone target =>
    simp only [Tls.call, Option.map_eq_some_iff, Prod.mk.injEq] at called
    obtain ⟨⟨r', t'⟩, cloned, -, rfl⟩ := called
    exact backed.clone cloned
  | read offset length =>
    simp only [Tls.call, Option.map_eq_some_iff, Prod.mk.injEq] at called
    obtain ⟨⟨r', bytes, t'⟩, read, -, rfl⟩ := called
    exact backed.read read
  | write offset length buffer =>
    simp only [Tls.call, Option.map_eq_some_iff, Prod.mk.injEq] at called
    obtain ⟨⟨r', t'⟩, wrote, -, rfl⟩ := called
    exact backed.write wrote
  | destroy =>
    simp only [Tls.call, Option.map_eq_some_iff, Prod.mk.injEq] at called
    obtain ⟨⟨r', t'⟩, destroyed, -, rfl⟩ := called
    exact backed.destroy destroyed

end Accessing

/-- Every state that calls of any threads lead to. -/
theorem run_backed {calls : List Call} {replies : List Reply} {s : State}
    (ran : Machine.run call State.fresh calls = some (replies, s)) : Backed s :=
  Machine.run_invariant Backed (fun _ _ _ _ backed _ called => backed.call called) fresh_backed
    (Machine.admits_true calls) ran

/-- The globals after a run of calls in a new process. -/
def afterCalls (calls : List Call) : State :=
  match Machine.run call State.fresh calls with
  | some (_, s) => s
  | none => State.fresh

theorem run_afterCalls {calls : List Call}
    (ran : (Machine.run call State.fresh calls).isSome = true) :
    ∃ replies, Machine.run call State.fresh calls = some (replies, afterCalls calls) := by
  obtain ⟨⟨replies, s⟩, eq⟩ := Option.isSome_iff_exists.mp ran
  exact ⟨replies, by simp [afterCalls, eq]⟩

end OperatingSys.Tls
