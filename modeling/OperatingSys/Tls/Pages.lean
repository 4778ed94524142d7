import OperatingSys.Tls.Invariant
import OperatingSys.Lib.Overwrite
import Mathlib.Data.List.Nodup

/-!
# Pages

The loops over the pages of an area, the bytes of an area as its pages hold them, and the
positions that the loops of `tls_read` and `tls_write` visit.
-/

namespace OperatingSys.Tls

open Search Sharing

/-! ### Loops over pages -/

/-- Each of the pages `ids` changed by `f`, which may free it. -/
def State.mapPages (s : State) (ids : List Nat) (f : Page → Option Page) : State :=
  { s with heap := fun id => if id ∈ ids then (s.heap id).bind f else s.heap id }

theorem eachPage_eq {touch : State → Nat → Option State} {f : Page → Option Page}
    (touches : ∀ s id page, s.heap id = some page → touch s id = some (s.storePage id (f page)))
    {s : State} {ids : List Nat} (nodup : ids.Nodup)
    (allocated : ∀ id ∈ ids, ∃ page, s.heap id = some page) :
    eachPage touch s ids = some (s.mapPages ids f) := by
  -- by induction on the list; no page occurs twice, so that each is touched once
  induction ids generalizing s with
  | nil => simp [eachPage, State.mapPages]
  | cons id rest ih =>
    obtain ⟨absent, nodup'⟩ := List.nodup_cons.mp nodup
    obtain ⟨page, here⟩ := allocated id (by simp)
    have unchanged : ∀ id' ∈ rest, (s.storePage id (f page)).heap id' = s.heap id' := by
      intro id' member
      have other : id' ≠ id := fun eq => absent (eq ▸ member)
      simp [State.storePage, other]
    have later := ih (s := s.storePage id (f page)) nodup' fun id' member => by
      rw [unchanged id' member]
      exact allocated id' (List.mem_cons_of_mem _ member)
    simp only [eachPage, touches s id page here, later, Option.some.injEq]
    simp only [State.mapPages, State.storePage, State.mk.injEq, true_and, and_true]
    funext id'
    by_cases first : id' = id
    · subst first
      simp [absent, here]
    · simp [first]

theorem tlsProtect_touches (s : State) (id : Nat) (page : Page) (here : s.heap id = some page) :
    tlsProtect s id = some (s.storePage id (some { page with protection := .none })) := by
  simp only [tlsProtect, setProtection, here]

theorem tlsUnprotect_touches (s : State) (id : Nat) (page : Page) (here : s.heap id = some page) :
    tlsUnprotect s id = some (s.storePage id (some { page with protection := .readWrite })) := by
  simp only [tlsUnprotect, setProtection, here]

theorem sharePage_touches (s : State) (id : Nat) (page : Page) (here : s.heap id = some page) :
    sharePage s id = some (s.storePage id (some { page with refCount := page.refCount + 1 })) := by
  simp only [sharePage, here]

/-- A page after `tls_destroy` gave up one reference to it. -/
def Page.released (page : Page) : Option Page :=
  if page.refCount = 1 then none else some { page with refCount := page.refCount - 1 }

theorem releasePage_touches (s : State) (id : Nat) (page : Page) (here : s.heap id = some page) :
    releasePage s id = some (s.storePage id page.released) := by
  simp only [releasePage, here, Page.released]
  split <;> rfl

/-- A store that is defined. -/
theorem storeByte_eq_some {s s' : State} {id poff : Nat} {byte : Byte}
    (stored : storeByte s id poff byte = some s') :
    ∃ page, s.heap id = some page ∧ page.protection ≠ .none ∧ poff < pageSize ∧
      s' = s.storePage id (some { page with bytes := Function.update page.bytes poff byte }) := by
  unfold storeByte at stored
  split at stored
  · simp at stored
  next page here =>
    split at stored
    · simp at stored
    next allowed =>
      rw [not_or, Nat.not_le] at allowed
      exact ⟨page, here, allowed.1, allowed.2, (Option.some.inj stored).symm⟩

/-! ### The bytes of an area -/

def State.byteOf (s : State) (tls : Area) (q : Nat) : Byte :=
  match tls.pages[q / pageSize]?.bind s.heap with
  | none => 0
  | some page => page.bytes (q % pageSize)

def State.contents (s : State) (tls : Area) : List Byte :=
  (List.range tls.size.toNat).map (s.byteOf tls)

theorem State.length_contents (s : State) (tls : Area) :
    (s.contents tls).length = tls.size.toNat := by
  simp [State.contents]

theorem State.getElem?_contents (s : State) (tls : Area) (q : Nat) :
    (s.contents tls)[q]? = if q < tls.size.toNat then some (s.byteOf tls q) else none := by
  rw [State.contents, List.getElem?_map]
  split
  next inside => rw [List.getElem?_range inside, Option.map_some]
  next outside => rw [List.getElem?_eq_none (by simpa using outside), Option.map_none]

/-- The contents of an area only depend on the bytes of its pages. -/
theorem State.contents_congr {s t : State} {tls : Area}
    (bytes : ∀ id ∈ tls.pages, (t.heap id).map Page.bytes = (s.heap id).map Page.bytes) :
    t.contents tls = s.contents tls := by
  refine List.map_congr_left fun q _ => ?_
  unfold State.byteOf
  cases lookup : tls.pages[q / pageSize]? with
  | none => rfl
  | some id =>
    have same := bytes id (List.mem_of_getElem? lookup)
    simp only [Option.bind_some]
    cases before : s.heap id <;> cases after : t.heap id <;> simp_all

/-! ### Positions -/

theorem index_small {q : Nat} (small : q < 2 ^ 31) :
    pageNumber q = q / pageSize ∧ pageOffset q = q % pageSize := by
  have quotient : (q : Int).tdiv pageSize = (q / pageSize : Nat) := rfl
  have remainder : (q : Int).tmod pageSize = (q % pageSize : Nat) := rfl
  have fits : q / pageSize < 2 ^ 32 := Nat.lt_of_le_of_lt (Nat.div_le_self _ _) (by omega)
  have fits' : q % pageSize < 2 ^ 32 := Nat.lt_of_le_of_lt (Nat.mod_le _ _) (by omega)
  constructor
  · rw [pageNumber, quotient, BitVec.ofInt_natCast, BitVec.toNat_ofNat, Nat.mod_eq_of_lt fits]
  · rw [pageOffset, remainder, BitVec.ofInt_natCast, BitVec.toNat_ofNat, Nat.mod_eq_of_lt fits']

theorem indexOf_small {offset : BitVec 32} {cnt : Nat} (small : offset.toNat + cnt < 2 ^ 31) :
    indexOf offset cnt = (offset.toNat + cnt : Nat) := by
  have sum : (offset + BitVec.ofNat 32 cnt).toNat = offset.toNat + cnt := by
    rw [BitVec.toNat_add, BitVec.toNat_ofNat]
    omega
  rw [indexOf, BitVec.toInt_eq_toNat_of_lt (by omega), sum]

/-- The bounds check and the number of rounds when `offset + length` does not wrap. -/
theorem range_no_wrap {offset length : BitVec 32} (fits : offset.toNat + length.toNat < 2 ^ 32) :
    (offset + length).toNat = offset.toNat + length.toNat ∧
      rounds offset length = length.toNat := by
  have sum : (offset + length).toNat = offset.toNat + length.toNat := by
    rw [BitVec.toNat_add]
    omega
  exact ⟨sum, by rw [rounds, sum]; omega⟩

/-- Every byte of a well-formed area lies in one of its pages. -/
theorem WellFormed.page_of {tls : Area} (formed : WellFormed tls) {q : Nat}
    (inside : q < tls.size.toNat) : q / pageSize < tls.pages.length := by
  have positive := formed.positive
  have last : (tls.size - 1).toNat = tls.size.toNat - 1 := by
    have one : (1 : BitVec 32).toNat = 1 := rfl
    rw [BitVec.toNat_sub_of_le (by rw [BitVec.le_def, one]; exact positive), one]
  rw [formed.pageNum, pageCount, last]
  exact Nat.lt_succ_of_le (Nat.div_le_div_right (by omega))

/-! ### Reading -/

/-- The bytes of a segment of an area, one by one. -/
theorem contents_segment (s : State) (tls : Area) {off n : Nat}
    (inside : off + n ≤ tls.size.toNat) :
    ((s.contents tls).drop off).take n = (List.range n).map fun r => s.byteOf tls (off + r) := by
  apply List.ext_getElem?
  intro r
  rw [List.getElem?_take, List.getElem?_drop, State.getElem?_contents, List.getElem?_map]
  by_cases within : r < n
  · rw [if_pos within, if_pos (by omega), List.getElem?_range within, Option.map_some]
  · rw [if_neg within, List.getElem?_eq_none (by simpa using within), Option.map_none]

theorem readByte_eq {s : State} {tls : Area} (formed : WellFormed tls)
    (open_ : ∀ id ∈ tls.pages, ∃ page, s.heap id = some page ∧ page.protection ≠ .none) {q : Nat}
    (inside : q < tls.size.toNat) (small : q < 2 ^ 31) :
    readByte s tls q = some (s.byteOf tls q) := by
  obtain ⟨number, offset⟩ := index_small small
  have inTable := formed.page_of inside
  obtain ⟨page, here, accessible⟩ := open_ _ (List.getElem_mem inTable)
  have inPage : ¬ pageSize ≤ q % pageSize := Nat.not_le.mpr (Nat.mod_lt _ (by decide))
  simp only [readByte, number, offset, State.byteOf, List.getElem?_eq_getElem inTable,
    Option.bind_some, here, accessible, inPage, or_self, if_false]

theorem readLoop_eq {s : State} {tls : Area} (formed : WellFormed tls)
    (open_ : ∀ id ∈ tls.pages, ∃ page, s.heap id = some page ∧ page.protection ≠ .none)
    (offset : BitVec 32) (cnts : List Nat)
    (inside : ∀ cnt ∈ cnts, offset.toNat + cnt < tls.size.toNat ∧ offset.toNat + cnt < 2 ^ 31) :
    readLoop s tls offset cnts = some (cnts.map fun cnt => s.byteOf tls (offset.toNat + cnt)) := by
  induction cnts with
  | nil => rfl
  | cons cnt rest ih =>
    obtain ⟨here, small⟩ := inside cnt (by simp)
    simp only [readLoop, indexOf_small small, readByte_eq formed open_ here small,
      ih fun cnt' member => inside cnt' (List.mem_cons_of_mem _ member), List.map_cons]

end OperatingSys.Tls
