import OperatingSys.Tls.Overlapping
import OperatingSys.Tls.Protections

/-!
# Threads inside calls

Threads that are inside `tls_read` or `tls_write` work on different pages, and what each of them has
read or written by now is a matter of its own area. No step of one of them disturbs another one.
-/

namespace OperatingSys.Tls

open Search Sharing

/-! ### How far a call has come -/

namespace Inside

variable (v : Inside)

/-- The rounds of the loop over the bytes that are done. -/
def done : Nat :=
  match v.stage with
  | .unprotecting _ => 0
  | .accessing cnt => cnt
  | .protecting _ => v.access.length.toNat

/-- What has become by now of an area that held `old`. -/
def written (old : List Byte) : List Byte :=
  match v.access with
  | .read _ _ => old
  | .write offset _ buffer => old.overwrite offset.toNat ((List.range v.done).map buffer)

/-- What has been delivered by now from an area that held `old`. -/
def read (old : List Byte) : List Byte :=
  match v.access with
  | .read offset _ => (old.drop offset.toNat).take v.done
  | .write _ _ _ => []

theorem written_begun (access : Access) (pair : Nat) (old : List Byte) :
    written ⟨access, pair, .unprotecting 0, []⟩ old = old := by
  cases access <;> simp [written, done]

theorem read_begun (access : Access) (pair : Nat) (old : List Byte) :
    read ⟨access, pair, .unprotecting 0, []⟩ old = [] := by
  cases access <;> simp [read, done]

/-- How far the loops over the pages `ids` have come. -/
def Opened (s : State) (ids : List Nat) : Prop :=
  match v.stage with
  | .unprotecting i => ∀ id ∈ ids.take i, s.Accessible id
  | .accessing _ => ∀ id ∈ ids, s.Accessible id
  | .protecting i => ∀ id ∈ ids.take i, s.Inaccessible id

/-- The area held `before` when the call began, and holds `now`. -/
structure UnderWay (s : State) (tid : Tid) (before now : Option (List Byte)) : Prop where
  holds : ∃ tls, Holds s tid v.pair tls
  inRange : v.done ≤ v.access.length.toNat
  progress : ∃ old, before = some old ∧ now = some (v.written old) ∧ v.delivered = v.read old ∧
    v.access.offset.toNat + v.access.length.toNat ≤ old.length

variable {v}

theorem Opened.congr {s s' : State} {ids : List Nat} (opened : v.Opened s ids)
    (heap : ∀ id ∈ ids, s'.heap id = s.heap id) : v.Opened s' ids := by
  unfold Opened at opened ⊢
  split at opened <;> intro id member page lookup
  · rw [heap id (List.mem_of_mem_take member)] at lookup
    exact opened id member page lookup
  · rw [heap id member] at lookup
    exact opened id member page lookup
  · rw [heap id (List.mem_of_mem_take member)] at lookup
    exact opened id member page lookup

theorem length_written {old : List Byte}
    (fits : v.access.offset.toNat + v.access.length.toNat ≤ old.length)
    (inRange : v.done ≤ v.access.length.toNat) : (v.written old).length = old.length := by
  unfold written
  split
  · rfl
  next offset length buffer access =>
    rw [access] at fits inRange
    simp only [Access.offset, Access.length] at fits inRange
    rw [List.length_overwrite (by omega), List.length_map, List.length_range]
    omega

end Inside

/-- The pages of the area that `tid` is working on. -/
def Process.pages (p : Process) (tid : Tid) : List Nat :=
  match p.inside tid with
  | none => []
  | some v => p.globals.pagesOf v.pair

theorem Process.pages_of {p : Process} {tid : Tid} {v : Inside} (inside : p.inside tid = some v) :
    p.pages tid = p.globals.pagesOf v.pair := by
  simp only [pages, inside]

theorem Process.pages_outside {p : Process} {tid : Tid} (outside : p.inside tid = none) :
    p.pages tid = [] := by
  simp only [pages, outside]

/-- Threads inside calls work on different pages, and no other page can be accessed. -/
structure Fences (p : Process) : Prop where
  opened : ∀ tid v, p.inside tid = some v → v.Opened p.globals (p.pages tid)
  apart : ∀ tid tid', tid ≠ tid' → ∀ id ∈ p.pages tid, id ∉ p.pages tid'
  shut : ∀ id, (∀ tid, id ∉ p.pages tid) → p.globals.Inaccessible id

/-- A step of `self` leaves the fences of the others as they are. -/
theorem Fences.change {p p' : Process} (fences : Fences p) (self : Tid)
    (inside : ∀ tid ≠ self, p'.inside tid = p.inside tid)
    (pages : ∀ tid ≠ self, p'.pages tid = p.pages tid)
    (heap : ∀ tid ≠ self, ∀ id ∈ p.pages tid, p'.globals.heap id = p.globals.heap id)
    (opened : ∀ v, p'.inside self = some v → v.Opened p'.globals (p'.pages self))
    (apart : ∀ tid ≠ self, ∀ id ∈ p'.pages self, id ∉ p.pages tid)
    (shut : ∀ id, (∀ tid, id ∉ p'.pages tid) → p'.globals.Inaccessible id) : Fences p' where
  opened := fun tid v within => by
    by_cases own : tid = self
    · subst own
      exact opened v within
    · rw [inside tid own] at within
      rw [pages tid own]
      exact (fences.opened tid v within).congr (heap tid own)
  apart := fun tid tid' other id member member' => by
    by_cases own : tid = self
    · subst own
      rw [pages tid' (Ne.symm other)] at member'
      exact apart tid' (Ne.symm other) id member member'
    · rw [pages tid own] at member
      by_cases own' : tid' = self
      · subst own'
        exact apart tid own id member' member
      · rw [pages tid' own'] at member'
        exact fences.apart tid tid' other id member member'
  shut := shut

/-- `b` is what the areas hold, `a` what they would hold if the calls under way had not begun. -/
structure Process.Serves (p : Process) (a b : Arrays Tid Byte) : Prop where
  fences : Fences p
  represents : Represents p.globals.shut b
  granted : b.granted = a.granted
  outside : ∀ tid, p.inside tid = none → b.array tid = a.array tid
  within : ∀ tid v, p.inside tid = some v → v.UnderWay p.globals tid (a.array tid) (b.array tid)

section Serves

variable {p : Process} {a b : Arrays Tid Byte} (serves : p.Serves a b) {self : Tid} {v : Inside}
include serves

theorem Process.Serves.counted : Counted p.globals :=
  (counted_shut _).mp serves.represents.resting.counted

/-- The pages of a thread inside a call are in use. -/
theorem Process.Serves.old {tid : Tid} {id : Nat} (member : id ∈ p.pages tid) :
    id < p.globals.next := by
  cases inside : p.inside tid with
  | none => simp [Process.pages_outside inside] at member
  | some v =>
    obtain ⟨tls, holds⟩ := (serves.within tid v inside).holds
    rw [Process.pages_of inside] at member
    exact serves.represents.resting.counted.lt_next holds.1 member

/-- Two threads inside calls were found in different pairs. -/
theorem Process.Serves.pair_ne (inside : p.inside self = some v) {tid : Tid} {u : Inside}
    (other : tid ≠ self) (inside' : p.inside tid = some u) : u.pair ≠ v.pair := by
  obtain ⟨tls, holds⟩ := (serves.within self v inside).holds
  obtain ⟨tls', holds'⟩ := (serves.within tid u inside').holds
  intro same
  have pair := holds'.2
  rw [same, holds.2, Pair.mk.injEq] at pair
  exact other pair.1.symm

/-- A step of `self` inside its call, from `v` to `v'`. -/
theorem Process.Serves.moves (inside : p.inside self = some v) {s' : State} {v' : Inside}
    {b' : Arrays Tid Byte} (represents : Represents s'.shut b') (granted : b'.granted = b.granted)
    (others : ∀ tid ≠ self, b'.array tid = b.array tid)
    (underWay : v'.UnderWay s' self (a.array self) (b'.array self)) (pair : v'.pair = v.pair)
    (pairs : ∀ j ≠ v.pair, s'.pairs j = p.globals.pairs j)
    (heap : ∀ id, id ∉ p.pages self → id ≠ p.globals.next → s'.heap id = p.globals.heap id)
    (new : ∀ id ∈ s'.pagesOf v.pair, id ∈ p.pages self ∨ id = p.globals.next)
    (opened : v'.Opened s' (s'.pagesOf v.pair))
    (left : ∀ id, id ∈ p.pages self ∨ id = p.globals.next → id ∉ s'.pagesOf v.pair →
      s'.Inaccessible id) :
    Process.Serves ⟨s', Function.update p.inside self (some v')⟩ a b' := by
  have own : Process.pages ⟨s', Function.update p.inside self (some v')⟩ self =
      s'.pagesOf v.pair := by
    rw [Process.pages_of (Function.update_self _ _ _), pair]
  -- the others are where they were, in pairs and pages that are as they were
  have rest : ∀ tid ≠ self, Process.pages ⟨s', Function.update p.inside self (some v')⟩ tid =
      p.pages tid := by
    intro tid other
    cases inside' : p.inside tid with
    | none => rw [Process.pages_outside inside', Process.pages_outside
        ((Function.update_of_ne other _ _).trans inside')]
    | some u =>
      rw [Process.pages_of inside', Process.pages_of
        ((Function.update_of_ne other _ _).trans inside'), State.pagesOf, State.pagesOf,
        pairs _ (serves.pair_ne inside other inside')]
  have away : ∀ tid ≠ self, ∀ id ∈ p.pages tid, id ∉ p.pages self ∧ id ≠ p.globals.next :=
    fun tid other id member =>
      ⟨serves.fences.apart tid self other id member, Nat.ne_of_lt (serves.old member)⟩
  refine ⟨serves.fences.change self (fun tid other => Function.update_of_ne other _ _) rest
    (fun tid other id member => heap id (away tid other id member).1 (away tid other id member).2)
    (fun u within => ?_) (fun tid other id member member' => ?_) fun id absent => ?_,
    represents, granted.trans serves.granted, fun tid none_ => ?_, fun tid u within => ?_⟩
  · rw [own]
    obtain rfl : v' = u :=
      Option.some.inj ((Function.update_self self (some v') p.inside).symm.trans within)
    exact opened
  · rw [own] at member
    rcases new id member with held | rfl
    · exact (away tid other id member').1 held
    · exact (away tid other _ member').2 rfl
  · by_cases near : id ∈ p.pages self ∨ id = p.globals.next
    · exact left id near (own ▸ absent self)
    · rw [not_or] at near
      intro page lookup
      rw [heap id near.1 near.2] at lookup
      refine serves.fences.shut id (fun tid member => ?_) page lookup
      by_cases other : tid = self
      · exact near.1 (other ▸ member)
      · exact absent tid ((rest tid other).symm ▸ member)
  · by_cases other : tid = self
    · subst other
      exact absurd ((Function.update_self _ _ _).symm.trans none_) (by simp)
    · rw [others tid other]
      exact serves.outside tid ((Function.update_of_ne other _ _).symm.trans none_)
  · by_cases other : tid = self
    · subst other
      obtain rfl : v' = u :=
        Option.some.inj ((Function.update_self tid (some v') p.inside).symm.trans within)
      exact underWay
    · have within' := (Function.update_of_ne other _ _).symm.trans within
      obtain ⟨⟨tls, holds⟩, inRange, progress⟩ := serves.within tid u within'
      refine ⟨⟨tls, holds.1, ?_⟩, inRange, by rw [others tid other]; exact progress⟩
      rw [pairs _ (serves.pair_ne inside other within')]
      exact holds.2

/-- A step of `self` that at most changes protections of its own pages. -/
theorem Process.Serves.stays (inside : p.inside self = some v) {s' : State} {v' : Inside}
    (same : s'.shut = p.globals.shut)
    (underWay : v'.UnderWay s' self (a.array self) (b.array self)) (pair : v'.pair = v.pair)
    (heap : ∀ id, id ∉ p.pages self → s'.heap id = p.globals.heap id)
    (opened : v'.Opened s' (p.pages self)) :
    Process.Serves ⟨s', Function.update p.inside self (some v')⟩ a b := by
  have pairs : s'.shut.pairs = p.globals.shut.pairs := by rw [same]
  change s'.pairs = p.globals.pairs at pairs
  have own : s'.pagesOf v.pair = p.pages self := by
    rw [Process.pages_of inside, State.pagesOf, pairs]
    rfl
  refine serves.moves inside (same ▸ serves.represents) rfl (fun _ _ => rfl) underWay pair
    (fun j _ => by rw [pairs]) (fun id far _ => heap id far)
    (fun id member => Or.inl (own ▸ member)) (own ▸ opened) fun id near far page lookup => ?_
  rw [own] at far
  -- only the next page is left, and it is not allocated
  obtain rfl := near.resolve_left far
  have unused := serves.represents.resting.counted.unallocated p.globals.next (Nat.le_refl _)
  rw [← same] at unused
  simp [State.shut, lookup] at unused

end Serves

/-- What depends on the rounds that are done only. -/
theorem Inside.UnderWay.congr {v v' : Inside} {s s' : State} {tid : Tid}
    {before now : Option (List Byte)} (underWay : v.UnderWay s tid before now)
    (access : v'.access = v.access) (pair : v'.pair = v.pair) (pairs : s'.pairs = s.pairs)
    (done : v'.done = v.done) (delivered : v'.delivered = v.delivered) :
    v'.UnderWay s' tid before now := by
  obtain ⟨⟨tls, holds⟩, inRange, old, began, now_, delivered_, fits⟩ := underWay
  refine ⟨⟨tls, pair ▸ holds.1, by rw [pairs, pair]; exact holds.2⟩, by rw [done, access]; exact inRange,
    old, began, ?_, ?_, by rw [access]; exact fits⟩
  · rw [now_]
    simp only [Inside.written, access, done]
  · rw [delivered, delivered_]
    simp only [Inside.read, access, done]

theorem State.shut_setProtection {s : State} {id : Nat} {page : Page} (here : s.heap id = some page)
    (protection : Protection) : (s.storePage id (some { page with protection })).shut = s.shut := by
  rw [State.shut_storePage]
  simp only [State.shut, State.storePage, State.mk.injEq, true_and, and_true, Option.map_some]
  funext id'
  simp only [Function.update_apply]
  split
  next same => rw [same, here, Option.map_some]
  next => rfl

/-- A loop over the pages `ids` that sets their protections, one round further. -/
theorem protection_take {s : State} {ids : List Nat} {i id : Nat} {page : Page}
    (good : Protection → Prop) {protection : Protection} (next : ids[i]? = some id)
    (before : ∀ x ∈ ids.take i, ∀ old, s.heap x = some old → good old.protection)
    (now : good protection) :
    ∀ x ∈ ids.take (i + 1), ∀ new,
      (s.storePage id (some { page with protection })).heap x = some new → good new.protection := by
  intro x member new lookup
  simp only [State.storePage, Function.update_apply] at lookup
  split at lookup
  next => exact Option.some.inj lookup ▸ now
  next other =>
    rw [List.take_add_one, next, Option.toList_some, List.mem_append, List.mem_singleton] at member
    exact before x (member.resolve_right other) new lookup

/-! ### The steps inside a call -/

section Goes

variable {p : Process} {a b : Arrays Tid Byte} (serves : p.Serves a b) {self : Tid} {v : Inside}
  (inside : p.inside self = some v)
include serves inside

/-- A step of `self` that neither fails nor returns. -/
abbrev Process.GoesOn (p : Process) (self : Tid) (a : Arrays Tid Byte) : Prop :=
  ∃ p' b', p.step (.goes self) = some (none, p') ∧ Process.Serves p' a b'

theorem Process.Serves.reprotects {id : Nat} {page : Page} (here : p.globals.heap id = some page)
    (member : id ∈ p.pages self) (protection : Protection) {v' : Inside}
    (access : v'.access = v.access) (pair : v'.pair = v.pair) (done : v'.done = v.done)
    (delivered : v'.delivered = v.delivered)
    (opened : v'.Opened (p.globals.storePage id (some { page with protection })) (p.pages self)) :
    Process.Serves ⟨p.globals.storePage id (some { page with protection }),
      Function.update p.inside self (some v')⟩ a b := by
  refine serves.stays inside (State.shut_setProtection here protection)
    ((serves.within self v inside).congr access pair rfl done delivered) pair (fun id' far => ?_)
    opened
  have other : id' ≠ id := fun eq => far (eq.symm ▸ member)
  exact Function.update_of_ne other _ _

theorem Process.Serves.unprotecting {i : Nat} (stage : v.stage = .unprotecting i) :
    p.GoesOn self a := by
  obtain ⟨tls, holds⟩ := (serves.within self v inside).holds
  have pages : p.pages self = tls.pages := (Process.pages_of inside).trans holds.pagesOf
  have opened := serves.fences.opened self v inside
  simp only [Inside.Opened, stage, pages] at opened
  cases next : tls.pages[i]? with
  | none =>
    -- all pages have had their turn
    have last : tls.pages.length ≤ i := List.getElem?_eq_none_iff.mp next
    rw [List.take_of_length_le last] at opened
    refine ⟨⟨p.globals, Function.update p.inside self (some { v with stage := .accessing 0 })⟩, b,
      ?_, serves.stays inside rfl ((serves.within self v inside).congr rfl rfl rfl ?_ rfl) rfl
        (fun _ _ => rfl) (pages ▸ opened)⟩
    · simp only [Process.step, inside, Inside.next, holds.2, stage, next]
    · simp only [Inside.done, stage]
  | some id =>
    have member : id ∈ tls.pages := List.mem_of_getElem? next
    obtain ⟨page, here⟩ := serves.counted.allocated holds.1 (holds.pagesOf ▸ member)
    refine ⟨⟨_, Function.update p.inside self (some { v with stage := .unprotecting (i + 1) })⟩, b,
      ?_, serves.reprotects inside here (pages ▸ member) .readWrite rfl rfl ?_ rfl ?_⟩
    · simp only [Process.step, inside, Inside.next, holds.2, stage, next,
        tlsUnprotect_touches p.globals id page here, Option.map_some]
    · simp only [Inside.done, stage]
    · rw [pages]
      exact protection_take (· ≠ .none) next opened Protection.noConfusion

theorem Process.Serves.protecting {i : Nat} (stage : v.stage = .protecting i) {id : Nat}
    (next : (p.pages self)[i]? = some id) : p.GoesOn self a := by
  obtain ⟨tls, holds⟩ := (serves.within self v inside).holds
  have pages : p.pages self = tls.pages := (Process.pages_of inside).trans holds.pagesOf
  have opened := serves.fences.opened self v inside
  simp only [Inside.Opened, stage, pages] at opened
  have member : id ∈ p.pages self := List.mem_of_getElem? next
  rw [pages] at next
  obtain ⟨page, here⟩ := serves.counted.allocated holds.1 (holds.pagesOf ▸ pages ▸ member)
  refine ⟨⟨_, Function.update p.inside self (some { v with stage := .protecting (i + 1) })⟩, b, ?_,
    serves.reprotects inside here member .none rfl rfl ?_ rfl ?_⟩
  · simp only [Process.step, inside, Inside.next, holds.2, stage, next,
      tlsProtect_touches p.globals id page here, Option.map_some]
  · simp only [Inside.done, stage]
  · rw [pages]
    exact protection_take (· = .none) next opened rfl

/-- The bytes that a call under way is about. -/
theorem Process.Serves.contents :
    ∃ tls old, Holds p.globals self v.pair tls ∧ WellFormed tls ∧ a.array self = some old ∧
      b.array self = some (v.written old) ∧ v.written old = p.globals.contents tls ∧ tls.size.toNat = old.length ∧
      v.delivered = v.read old ∧ old.length < 2 ^ 31 ∧
      v.access.offset.toNat + v.access.length.toNat ≤ old.length := by
  obtain ⟨⟨tls, holds⟩, inRange, old, began, now, delivered, fits⟩ := serves.within self v inside
  have owned : Owns p.globals.shut self (p.globals.contents tls) :=
    ⟨v.pair, tls, holds, State.contents_shut _ _⟩
  have same := now.symm.trans ((serves.represents.owns self _).mpr owned)
  rw [Option.some.injEq] at same
  have length := Inside.length_written fits inRange
  have small := serves.represents.small self _ now
  refine ⟨tls, old, holds, (serves.represents.resting.registered.genuine holds).2, began, now, same, ?_,
    delivered, length ▸ small, fits⟩
  rw [← length, same, State.length_contents]

/-- The number of rounds is the length of the access. -/
theorem Process.Serves.rounds_eq : rounds v.access.offset v.access.length = v.access.length.toNat := by
  obtain ⟨tls, old, -, -, -, -, -, -, -, small, fits⟩ := serves.contents inside
  exact (range_no_wrap (by omega)).2

/-- The loop over the bytes is done. -/
theorem Process.Serves.accessed {cnt : Nat} (stage : v.stage = .accessing cnt)
    (past : ¬ cnt < rounds v.access.offset v.access.length) : p.GoesOn self a := by
  obtain ⟨tls, holds⟩ := (serves.within self v inside).holds
  have inRange := (serves.within self v inside).inRange
  have all := serves.rounds_eq inside
  simp only [Inside.done, stage] at inRange
  refine ⟨⟨p.globals, Function.update p.inside self (some { v with stage := .protecting 0 })⟩, b, ?_,
    serves.stays inside rfl ((serves.within self v inside).congr rfl rfl rfl ?_ rfl) rfl
      (fun _ _ => rfl) ?_⟩
  · simp only [Process.step, inside, Inside.next, holds.2, stage, if_neg past]
  · simp only [Inside.done, stage]
    omega
  · simp [Inside.Opened]

theorem Process.Serves.reads {cnt : Nat} (stage : v.stage = .accessing cnt)
    (under : cnt < rounds v.access.offset v.access.length) {offset length : BitVec 32}
    (access : v.access = .read offset length) : p.GoesOn self a := by
  obtain ⟨tls, old, holds, formed, began, now, same, size, delivered, small, fits⟩ :=
    serves.contents inside
  have pages : p.pages self = tls.pages := (Process.pages_of inside).trans holds.pagesOf
  have opened := serves.fences.opened self v inside
  have more := serves.rounds_eq inside ▸ under
  simp only [Inside.Opened, stage, pages] at opened
  simp only [access, Access.offset, Access.length] at fits more
  simp only [Inside.written, access] at same now
  simp only [Inside.read, access, Inside.done, stage] at delivered
  have position : offset.toNat + cnt < old.length := by omega
  -- The page of this index is open: the first loop of the call has unprotected it, and nobody else
  -- has closed it since.
  have byte : readByte p.globals tls (offset.toNat + cnt : Nat) = some old[offset.toNat + cnt] := by
    rw [readByte_eq formed (fun id member => by
      obtain ⟨page, here⟩ := serves.counted.allocated holds.1 (holds.pagesOf ▸ member)
      exact ⟨page, here, opened id member page here⟩) (by omega) (by omega)]
    have lookup := State.getElem?_contents p.globals tls (offset.toNat + cnt)
    rw [← same, if_pos (by omega), List.getElem?_eq_getElem position] at lookup
    exact lookup.symm
  have index := @indexOf_small offset cnt (by omega)
  refine ⟨⟨p.globals, Function.update p.inside self (some { v with
    stage := .accessing (cnt + 1), delivered := v.delivered ++ [old[offset.toNat + cnt]] })⟩, b, ?_,
    serves.stays inside rfl ⟨⟨tls, holds⟩, ?_, old, began, ?_, ?_, ?_⟩ rfl (fun _ _ => rfl) ?_⟩
  · simp only [Process.step, inside, Inside.next, holds.2, stage, if_pos under]
    simp only [access, Access.round, holds.2, index,
      byte, Option.map_some]
  · simp only [Inside.done, access, Access.length]
    exact more
  · simpa only [Inside.written, access] using now
  · simp only [Inside.read, access, Inside.done, delivered]
    -- one more byte of what the array held when the call began
    rw [List.take_add_one, List.getElem?_drop, List.getElem?_eq_getElem position, Option.toList_some]
  · simpa only [access, Access.offset, Access.length] using fits
  · simp only [Inside.Opened, pages]
    exact opened

theorem Process.Serves.writes {cnt : Nat} (stage : v.stage = .accessing cnt)
    (under : cnt < rounds v.access.offset v.access.length) {offset length : BitVec 32}
    {buffer : Nat → Byte} (access : v.access = .write offset length buffer) : p.GoesOn self a := by
  obtain ⟨tls, old, holds, formed, began, now, same, size, delivered, small, fits⟩ :=
    serves.contents inside
  have pages : p.pages self = tls.pages := (Process.pages_of inside).trans holds.pagesOf
  have opened := serves.fences.opened self v inside
  have more := serves.rounds_eq inside ▸ under
  simp only [Inside.Opened, stage, pages] at opened
  simp only [access, Access.offset, Access.length] at fits more
  simp only [Inside.written, access, Inside.done, stage] at same now
  simp only [Inside.read, access] at delivered
  have index := @indexOf_small offset cnt (by omega)
  obtain ⟨t, tls', stored, resting, changes, holds', pairs, far, table, protections⟩ :=
    serves.represents.resting.writeByte holds opened (q := offset.toNat + cnt) (by omega) (by omega)
      (buffer cnt)
  have own : t.pagesOf v.pair = tls'.pages := holds'.pagesOf
  -- one more byte is written
  have bytes : old.overwrite offset.toNat ((List.range (cnt + 1)).map buffer) =
      (p.globals.contents tls).overwrite (offset.toNat + cnt) [buffer cnt] := by
    have before : ((List.range cnt).map buffer).length = cnt := by simp
    rw [← same, List.range_succ, List.map_append, ← List.overwrite_append (by omega), before]
    rfl
  refine ⟨⟨t, Function.update p.inside self (some { v with
    stage := .accessing (cnt + 1), delivered := v.delivered ++ [] })⟩,
    b.set self (some ((p.globals.contents tls).overwrite (offset.toNat + cnt) [buffer cnt])), ?_,
    serves.moves inside (serves.represents.change resting changes rfl ?_) rfl
      (fun tid other => Function.update_of_ne other _ _)
      ⟨⟨tls', holds'⟩, ?_, old, began, ?_, ?_, ?_⟩ rfl pairs (fun id outside => ?_)
      (fun id member => ?_) (fun id member => ?_) (fun id near left => ?_)⟩
  · simp only [Process.step, inside, Inside.next, holds.2, stage, if_pos under]
    simp only [access, Access.round, index, stored, Option.map_some]
  · rintro _ ⟨⟩
    rw [← bytes, List.length_overwrite (by omega), List.length_map, List.length_range]
    omega
  · simp only [Inside.done, access, Access.length]
    exact more
  · simp only [Arrays.set, Function.update_self, Inside.written, access, Inside.done, bytes]
  · simp only [Inside.read, access, delivered, List.append_nil]
  · simpa only [access, Access.offset, Access.length] using fits
  · exact far id (pages ▸ outside)
  · exact pages ▸ table id (own ▸ member)
  · rw [own] at member
    intro page lookup none_
    exact (protections id (table id member) page lookup).mp none_ member
  · rw [own] at left
    exact fun page lookup => (protections id (pages ▸ near) page lookup).mpr left

/-- The call ends and takes effect. -/
theorem Process.Serves.returns {i : Nat} (stage : v.stage = .protecting i)
    (last : (p.pages self)[i]? = none) :
    ∃ c p', p.step (.goes self) = some (some (c, (a.step c).1), p') ∧
      Process.Serves p' (a.step c).2 b := by
  obtain ⟨tls, old, holds, -, began, now, -, -, delivered, -, fits⟩ := serves.contents inside
  have pages : p.pages self = tls.pages := (Process.pages_of inside).trans holds.pagesOf
  have opened := serves.fences.opened self v inside
  have all : (p.pages self).length ≤ i := List.getElem?_eq_none_iff.mp last
  simp only [Inside.Opened, stage, List.take_of_length_le all] at opened
  -- the arrays reply the same, and only the one of the caller changes
  obtain ⟨reply, granted, own, others⟩ :
      (a.step ⟨self, v.access.operation⟩).1 = (0, v.delivered) ∧
        (a.step ⟨self, v.access.operation⟩).2.granted = a.granted ∧
        (a.step ⟨self, v.access.operation⟩).2.array self = b.array self ∧
        ∀ tid ≠ self, (a.step ⟨self, v.access.operation⟩).2.array tid = a.array tid := by
    rw [now, delivered]
    cases access : v.access with
    | read offset length =>
      simp only [access, Access.offset, Access.length] at fits
      simp only [Access.operation, Arrays.step, Arrays.read, began, if_neg (Nat.not_lt.mpr fits),
        Inside.read, Inside.written, access, Inside.done, stage, Access.length]
      simp
    | write offset length buffer =>
      simp only [access, Access.offset, Access.length] at fits
      simp only [Access.operation, Arrays.step, Arrays.write, began, List.length_map,
        List.length_range, if_neg (Nat.not_lt.mpr fits), Inside.read, Inside.written, access,
        Inside.done, stage, Access.length, Arrays.set, Function.update_self]
      exact ⟨trivial, trivial, trivial, fun tid other => Function.update_of_ne other _ _⟩
  rw [pages] at last
  have gone : Process.pages ⟨p.globals, Function.update p.inside self none⟩ self = [] :=
    Process.pages_outside (Function.update_self _ _ _)
  have rest : ∀ tid ≠ self, Process.pages ⟨p.globals, Function.update p.inside self none⟩ tid =
      p.pages tid := by
    intro tid other
    simp only [Process.pages, Function.update_of_ne other]
  refine ⟨⟨self, v.access.operation⟩, ⟨p.globals, Function.update p.inside self none⟩, ?_,
    serves.fences.change self (fun tid other => Function.update_of_ne other _ _) rest
      (fun _ _ _ _ => rfl) (fun u within => ?_) (fun tid _ id member => ?_) (fun id absent => ?_),
    serves.represents, serves.granted.trans granted.symm, fun tid none_ => ?_, fun tid u within => ?_⟩
  · simp only [Process.step, inside, Inside.next, holds.2, stage, last, reply]
  · exact absurd ((Function.update_self self none p.inside).symm.trans within) (by simp)
  · rw [gone] at member
    exact absurd member List.not_mem_nil
  · by_cases member : id ∈ p.pages self
    · exact opened id member
    · refine serves.fences.shut id fun tid member' => ?_
      by_cases other : tid = self
      · exact member (other ▸ member')
      · exact absent tid ((rest tid other).symm ▸ member')
  · by_cases other : tid = self
    · rw [other, own]
    · rw [others tid other]
      exact serves.outside tid ((Function.update_of_ne other _ _).symm.trans none_)
  · by_cases other : tid = self
    · subst other
      exact absurd ((Function.update_self tid none p.inside).symm.trans within) (by simp)
    · rw [others tid other]
      exact serves.within tid u ((Function.update_of_ne other _ _).symm.trans within)

theorem Process.Serves.goes :
    p.GoesOn self a ∨ ∃ c p', p.step (.goes self) = some (some (c, (a.step c).1), p') ∧
      Process.Serves p' (a.step c).2 b := by
  cases stage : v.stage with
  | unprotecting i => exact Or.inl (serves.unprotecting inside stage)
  | accessing cnt =>
    by_cases under : cnt < rounds v.access.offset v.access.length
    · cases access : v.access with
      | read offset length => exact Or.inl (serves.reads inside stage under access)
      | write offset length buffer => exact Or.inl (serves.writes inside stage under access)
    · exact Or.inl (serves.accessed inside stage under)
  | protecting i =>
    cases next : (p.pages self)[i]? with
    | none => exact Or.inr (serves.returns inside stage next)
    | some id => exact Or.inl (serves.protecting inside stage next)

end Goes

end OperatingSys.Tls
