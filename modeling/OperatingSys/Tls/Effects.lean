import OperatingSys.Tls.Backed

/-!
# What a write does to the pages

`tls_write` goes byte by byte and looks at the count of the page at each byte. A page that is
shared is copied at the first byte that falls in it; from then on the page table names the copy,
whose count is 1, so that no later byte copies it again. The old page loses one reference and
nothing else.
-/

namespace OperatingSys.Tls

open Search

/-- `t` is `s` after the bytes `p, …, p + n - 1` of the area `tls` of pair `i` have been written
and its pages with an index in `touched` have been made its own; `area` is what the area has
become. -/
structure Effect (s t : State) (i : Nat) (tls area : Area) (touched : Nat → Prop) (p n : Nat)
    (buffer : Nat → Byte) : Prop where
  pair : t.pairs i = ⟨(s.pairs i).tid, some area⟩
  others : ∀ j ≠ i, t.pairs j = s.pairs j
  size : area.size = tls.size
  length : area.pages.length = tls.pages.length
  nodup : area.pages.Nodup
  copied : ∀ pn id, tls.pages[pn]? = some id → touched pn → 1 < s.refCount id →
    (∃ id', area.pages[pn]? = some id' ∧ s.next ≤ id' ∧ t.refCount id' = 1) ∧
      t.refCount id = s.refCount id - 1
  kept : ∀ pn id, tls.pages[pn]? = some id → ¬ (touched pn ∧ 1 < s.refCount id) →
    area.pages[pn]? = some id ∧ t.refCount id = s.refCount id
  unwritten : ∀ pn id, tls.pages[pn]? = some id → ¬ touched pn ∨ 1 < s.refCount id →
    (t.heap id).map Page.bytes = (s.heap id).map Page.bytes
  bytes : ∀ q < tls.pages.length * pageSize, t.byteOf area q =
    if p ≤ q ∧ q < p + n then buffer (q - p) else s.byteOf tls q

/-- The effect so far, inside a call that began in `s`. -/
structure Progress (s t : State) (i : Nat) (tls area : Area) (touched : Nat → Prop) (p n : Nat)
    (buffer : Nat → Byte) : Prop where
  begun : Accessing s i tls
  accessing : Accessing t i area
  next : s.next ≤ t.next
  effect : Effect s t i tls area touched p n buffer

section Progress

variable {s t : State} {i p n : Nat} {tls area : Area} {touched : Nat → Prop} {buffer : Nat → Byte}

theorem Accessing.progress (accessing : Accessing s i tls) (p : Nat) (buffer : Nat → Byte) :
    Progress s s i tls tls (fun _ => False) p 0 buffer where
  begun := accessing
  accessing := accessing
  next := Nat.le_refl _
  effect := {
    pair := by rw [← accessing.area]
    others := fun _ _ => rfl
    size := rfl
    length := rfl
    nodup := (accessing.backed.formed i accessing.inRange tls accessing.area).nodup
    copied := fun _ _ _ absurd_ => absurd_.elim
    kept := fun _ _ named _ => ⟨named, rfl⟩
    unwritten := fun _ _ _ _ => rfl
    bytes := fun q _ => by
      rw [if_neg]
      omega }

/-- A page of the area is an old one of the same index, or a new one. -/
theorem Progress.old_or_new (progress : Progress s t i tls area touched p n buffer) {pn id : Nat}
    (named : area.pages[pn]? = some id) : tls.pages[pn]? = some id ∨ s.next ≤ id := by
  have effect := progress.effect
  have inTable := (List.getElem?_eq_some_iff.mp named).1
  rw [effect.length] at inTable
  have old : tls.pages[pn]? = some tls.pages[pn] := List.getElem?_eq_getElem inTable
  by_cases shared : touched pn ∧ 1 < s.refCount tls.pages[pn]
  · obtain ⟨⟨id', new, late, -⟩, -⟩ := effect.copied pn _ old shared.1 shared.2
    rw [named, Option.some.injEq] at new
    exact Or.inr (new ▸ late)
  · obtain ⟨same, -⟩ := effect.kept pn _ old shared
    rw [named, Option.some.injEq] at same
    exact Or.inl (same ▸ old)

/-- A page that has been copied is no page of the area any more. -/
theorem Progress.gone (progress : Progress s t i tls area touched p n buffer) {pn id : Nat}
    (named : tls.pages[pn]? = some id) (touch : touched pn) (shared : 1 < s.refCount id) :
    id ∉ area.pages := by
  intro member
  obtain ⟨k, held⟩ := List.mem_iff_getElem?.mp member
  obtain ⟨-, -, below⟩ := progress.begun.allocated (List.mem_of_getElem? named)
  have nodup := (progress.begun.backed.formed i progress.begun.inRange tls
    progress.begun.area).nodup
  rcases progress.old_or_new held with old | late
  · have inTable := (List.getElem?_eq_some_iff.mp old).1
    have same : k = pn := (List.getElem?_inj inTable nodup).mp (old.trans named.symm)
    obtain ⟨⟨id', new, late, -⟩, -⟩ := progress.effect.copied pn id named touch shared
    rw [← same, held, Option.some.injEq] at new
    omega
  · omega

/-- A page that has not been copied and is held by this area only counts as its own. -/
theorem Progress.mark (progress : Progress s t i tls area touched p n buffer) {k id₀ : Nat}
    (named : area.pages[k]? = some id₀) (single : t.refCount id₀ ≤ 1) :
    Progress s t i tls area (fun pn => touched pn ∨ pn = k) p n buffer := by
  have effect := progress.effect
  have before : ∀ pn id, tls.pages[pn]? = some id → 1 < s.refCount id → touched pn ∨ pn = k →
      touched pn := by
    rintro pn id old shared (touch | rfl)
    · exact touch
    · by_contra untouched
      obtain ⟨same, count⟩ := effect.kept pn id old fun both => untouched both.1
      rw [named, Option.some.injEq] at same
      rw [same, count] at single
      omega
  exact { progress with
    effect := { effect with
      copied := fun pn id old touch shared =>
        effect.copied pn id old (before pn id old shared touch) shared
      kept := fun pn id old not => effect.kept pn id old fun both => not ⟨Or.inl both.1, both.2⟩
      unwritten := fun pn id old why =>
        effect.unwritten pn id old (why.imp_left fun not touch => not (Or.inl touch)) } }

/-- A byte is stored in a page that is the area's own. -/
theorem Progress.poke (progress : Progress s t i tls area touched p n buffer) {id₀ : Nat}
    {page : Page} (named : area.pages[(p + n) / pageSize]? = some id₀)
    (here : t.heap id₀ = some page) (touch : touched ((p + n) / pageSize)) :
    Progress s (Tls.poked t id₀ page ((p + n) % pageSize) (buffer n)) i tls area touched p (n + 1)
      buffer := by
  have effect := progress.effect
  have member := List.mem_of_getElem? named
  have accessing := progress.accessing
  have nodup := effect.nodup
  refine ⟨progress.begun, accessing.poked member here _ _, progress.next, effect.pair, effect.others,
    effect.size, effect.length, nodup, fun pn id old touch' shared => ?_, fun pn id old not => ?_,
    fun pn id old why => ?_, fun q inside => ?_⟩
  · simp only [poked_refCount here]
    exact effect.copied pn id old touch' shared
  · rw [poked_refCount here]
    exact effect.kept pn id old not
  -- the page that is written is neither one that was left behind nor one of another index
  · have other : id ≠ id₀ := by
      rintro rfl
      by_cases touch' : touched pn
      · have shared := why.resolve_left (not_not.mpr touch')
        exact progress.gone old touch' shared member
      · obtain ⟨same, -⟩ := effect.kept pn id old fun both => touch' both.1
        have inTable := (List.getElem?_eq_some_iff.mp same).1
        have index := (List.getElem?_inj inTable nodup).mp (same.trans named.symm)
        exact touch' (index ▸ touch)
    simp only [State.storePage, Function.update_of_ne other]
    exact effect.unwritten pn id old why
  · rw [poked_byteOf nodup named here, effect.bytes q inside]
    by_cases hit : q = p + n
    · rw [if_pos hit, if_pos (by omega), hit, Nat.add_sub_cancel_left]
    · rw [if_neg hit]
      by_cases within : p ≤ q ∧ q < p + n
      · rw [if_pos within, if_pos (by omega)]
      · rw [if_neg within, if_neg (by omega)]

theorem copied_refCount {tid : Tid} {pn id : Nat} {page : Page} (here : t.heap id = some page)
    (x : Nat) : (Tls.copied t tid i area pn id page).refCount x =
      if x = id then t.refCount id - 1 else if x = t.next then 1 else t.refCount x := by
  simp only [State.refCount, here]
  by_cases first : x = id
  · simp [first]
  · by_cases second : x = t.next
    · subst second
      simp [first]
    · simp [first, second]

/-- A shared page is copied: until now no byte has fallen in it. -/
theorem Progress.copy (progress : Progress s t i tls area touched p n buffer) {k id₀ : Nat}
    {page : Page} (named : area.pages[k]? = some id₀) (here : t.heap id₀ = some page)
    (shared : 1 < t.refCount id₀) :
    Progress s (Tls.copied t (t.pairs i).tid i area k id₀ page) i tls (renewed t area k)
      (fun pn => touched pn ∨ pn = k) p n buffer := by
  have effect := progress.effect
  have accessing := progress.accessing
  have begun := progress.begun
  have nodup := (begun.backed.formed i begun.inRange tls begun.area).nodup
  have nodup' := effect.nodup
  have inTable := (List.getElem?_eq_some_iff.mp named).1
  have inTable' : k < tls.pages.length := effect.length ▸ inTable
  obtain ⟨-, -, below⟩ := accessing.allocated (List.mem_of_getElem? named)
  -- it is still the page that the area began with
  have original : tls.pages[k]? = some id₀ ∧ ¬ touched k ∧ t.refCount id₀ = s.refCount id₀ := by
    have old : tls.pages[k]? = some tls.pages[k] := List.getElem?_eq_getElem inTable'
    by_cases both : touched k ∧ 1 < s.refCount tls.pages[k]
    · obtain ⟨⟨id', new, -, one⟩, -⟩ := effect.copied k _ old both.1 both.2
      rw [named, Option.some.injEq] at new
      rw [new] at shared
      omega
    · obtain ⟨same, count⟩ := effect.kept k _ old both
      rw [named, Option.some.injEq] at same
      rw [← same] at both old count
      exact ⟨old, fun touch => both ⟨touch, count ▸ shared⟩, count⟩
  obtain ⟨old₀, untouched, count₀⟩ := original
  -- what the other pages and their counts are
  have elsewhere : ∀ pn id, tls.pages[pn]? = some id → pn ≠ k → id ≠ id₀ ∧ id ≠ t.next := by
    intro pn id old other
    obtain ⟨-, -, early⟩ := begun.allocated (List.mem_of_getElem? old)
    have next := progress.next
    refine ⟨fun same => other ?_, by omega⟩
    exact (List.getElem?_inj (List.getElem?_eq_some_iff.mp old).1 nodup).mp
      (old.trans (same ▸ old₀.symm))
  have pages : (renewed t area k).pages = area.pages.set k t.next := rfl
  refine ⟨begun, accessing.copied named here, Nat.le_succ_of_le progress.next, ?_, fun j other => ?_,
    effect.size, ?_, nodup'.set accessing.next_notMem, fun pn id old touch shared' => ?_, fun pn id old not => ?_,
    fun pn id old why => ?_, fun q inside => ?_⟩
  · simp [State.storePair, effect.pair]
  · simp only [State.storePair, Function.update_of_ne other]
    exact effect.others j other
  · rw [pages, List.length_set]
    exact effect.length
  · rw [pages]
    simp only [copied_refCount here]
    by_cases first : pn = k
    · subst first
      rw [old₀, Option.some.injEq] at old
      subst old
      refine ⟨⟨t.next, List.getElem?_set_self inTable, progress.next, ?_⟩, ?_⟩
      · rw [if_neg (by omega), if_pos rfl]
      · rw [if_pos rfl, count₀]
    · obtain ⟨⟨id', new, late, one⟩, less⟩ := effect.copied pn id old
        (touch.resolve_right first) shared'
      obtain ⟨apart, apart'⟩ := elsewhere pn id old first
      obtain ⟨-, -, early⟩ := accessing.allocated (List.mem_of_getElem? new)
      have other : id' ≠ id₀ := fun same => first
        ((List.getElem?_inj (List.getElem?_eq_some_iff.mp new).1 nodup').mp
          (new.trans (same ▸ named.symm)))
      refine ⟨⟨id', ?_, late, ?_⟩, ?_⟩
      · rw [List.getElem?_set_ne (Ne.symm first)]
        exact new
      · rw [if_neg other, if_neg (by omega)]
        exact one
      · rw [if_neg apart, if_neg apart']
        exact less
  · have other : pn ≠ k := by
      rintro rfl
      rw [old₀, Option.some.injEq] at old
      subst old
      exact not ⟨Or.inr rfl, count₀ ▸ shared⟩
    obtain ⟨same, count⟩ := effect.kept pn id old fun both => not ⟨Or.inl both.1, both.2⟩
    obtain ⟨apart, apart'⟩ := elsewhere pn id old other
    rw [copied_refCount here, if_neg apart, if_neg apart', pages,
      List.getElem?_set_ne (Ne.symm other)]
    exact ⟨same, count⟩
  · have early : id ≠ t.next := by
      obtain ⟨-, -, early⟩ := begun.allocated (List.mem_of_getElem? old)
      have next := progress.next
      omega
    rw [copied_bytes _ _ _ _ here early]
    exact effect.unwritten pn id old (why.imp_left fun not touch => not (Or.inl touch))
  · rw [copied_byteOf below accessing.next_notMem named here]
    exact effect.bytes q inside

/-- The bytes `p, …, p + n - 1` meet page `pn`. -/
def Meets (p n pn : Nat) : Prop := ∃ q, p ≤ q ∧ q < p + n ∧ q / pageSize = pn

theorem meets_succ (p n pn : Nat) : Meets p (n + 1) pn ↔ Meets p n pn ∨ pn = (p + n) / pageSize := by
  constructor
  · rintro ⟨q, low, high, rfl⟩
    by_cases last : q = p + n
    · exact Or.inr (by rw [last])
    · exact Or.inl ⟨q, low, by omega, rfl⟩
  · rintro (⟨q, low, high, rfl⟩ | rfl)
    · exact ⟨q, low, by omega, rfl⟩
    · exact ⟨p + n, by omega, by omega, rfl⟩

/-- One round. -/
theorem Progress.round (progress : Progress s t i tls area (Meets p n) p n buffer)
    (inside : p + n < tls.size.toNat) (small : p + n < 2 ^ 31) :
    ∃ t' area', writeByte t i (p + n : Nat) (buffer n) = some t' ∧
      Progress s t' i tls area' (Meets p (n + 1)) p (n + 1) buffer := by
  have accessing := progress.accessing
  have formed := accessing.backed.formed i accessing.inRange area accessing.area
  obtain ⟨number, offset⟩ := index_small small
  have inTable : (p + n) / pageSize < area.pages.length :=
    formed.page_of (progress.effect.size ▸ inside)
  have named : area.pages[(p + n) / pageSize]? = some area.pages[(p + n) / pageSize] :=
    List.getElem?_eq_getElem inTable
  obtain ⟨page, here, below⟩ := accessing.allocated (List.getElem_mem inTable)
  have count : t.refCount area.pages[(p + n) / pageSize] = page.refCount := by
    simp only [State.refCount, here]
  have written := accessing.writeByte_eq (number.symm ▸ named) here
    (offset.symm ▸ Nat.mod_lt _ (by decide)) (buffer n)
  rw [number, offset] at written
  have reached : Meets p (n + 1) = fun pn => Meets p n pn ∨ pn = (p + n) / pageSize :=
    funext fun pn => propext (meets_succ p n pn)
  rw [reached]
  by_cases shared : 1 < page.refCount
  · rw [if_pos shared] at written
    refine ⟨_, renewed t area ((p + n) / pageSize), written, ?_⟩
    exact (progress.copy named here (count ▸ shared)).poke
      (List.getElem?_set_self inTable) (copied_next below) (Or.inr rfl)
  · rw [if_neg shared] at written
    refine ⟨_, area, written, ?_⟩
    exact (progress.mark named (by omega)).poke named here (Or.inr rfl)

end Progress

section Loop

variable {s : State} {i : Nat} {tls : Area}

/-- The loop writes what it is to write, whatever the pages are that it meets. -/
theorem writeLoop_effect (accessing : Accessing s i tls) (offset : BitVec 32)
    (buffer : Nat → Byte) (n : Nat) (inside : offset.toNat + n ≤ tls.size.toNat)
    (small : ∀ cnt < n, offset.toNat + cnt < 2 ^ 31) :
    ∃ t area, writeLoop i offset buffer s (List.range n) = some t ∧
      Progress s t i tls area (Meets offset.toNat n) offset.toNat n buffer := by
  -- by induction on the rounds, the last one split off
  induction n with
  | zero =>
    refine ⟨s, tls, rfl, ?_⟩
    have nothing : Meets offset.toNat 0 = fun _ => False := by
      funext pn
      simp only [Meets, Nat.add_zero, eq_iff_iff, iff_false]
      rintro ⟨q, low, high, -⟩
      omega
    rw [nothing]
    exact accessing.progress _ buffer
  | succ n ih =>
    obtain ⟨t, area, loop, progress⟩ := ih (by omega) fun cnt below => small cnt (by omega)
    have last := small n (Nat.lt_succ_self n)
    obtain ⟨t', area', round, progress'⟩ := progress.round (by omega) last
    refine ⟨t', area', ?_, progress'⟩
    rw [List.range_succ, writeLoop_append, loop]
    simp only [Option.bind_some, writeLoop, indexOf_small last, round]

end Loop

/-! ### The whole call -/

/-- The same but for protections. -/
structure SameMemory (s t : State) : Prop where
  pairs : t.pairs = s.pairs
  next : t.next = s.next
  refCount : ∀ id, t.refCount id = s.refCount id
  bytes : ∀ id, (t.heap id).map Page.bytes = (s.heap id).map Page.bytes

section Call

variable {s s₁ t t₁ : State} {i p n : Nat} {tls area : Area} {touched : Nat → Prop}
  {buffer : Nat → Byte}

theorem sameMemory_protection (s : State) (ids : List Nat) (protection : Protection) :
    SameMemory s (s.mapPages ids fun page => some { page with protection }) :=
  ⟨rfl, rfl, mapPages_protection_refCount s ids protection,
    mapPages_protection_bytes s ids protection⟩

theorem SameMemory.byteOf (same : SameMemory s t) (tls : Area) (q : Nat) :
    t.byteOf tls q = s.byteOf tls q := by
  unfold State.byteOf
  cases tls.pages[q / pageSize]? with
  | none => rfl
  | some id =>
    have bytes := same.bytes id
    rw [Option.bind_some, Option.bind_some]
    revert bytes
    cases t.heap id <;> cases s.heap id <;> simp_all

theorem Effect.congr (before : SameMemory s s₁) (after : SameMemory t₁ t)
    (effect : Effect s₁ t₁ i tls area touched p n buffer) :
    Effect s t i tls area touched p n buffer where
  pair := by rw [after.pairs, effect.pair, before.pairs]
  others := fun j other => by rw [after.pairs, effect.others j other, before.pairs]
  size := effect.size
  length := effect.length
  nodup := effect.nodup
  copied := by
    simp only [after.refCount]
    simpa only [before.refCount, before.next] using effect.copied
  kept := by
    simp only [after.refCount]
    simpa only [before.refCount] using effect.kept
  unwritten := by
    simp only [after.bytes]
    simpa only [before.refCount, before.bytes] using effect.unwritten
  bytes := by
    simp only [after.byteOf]
    simpa only [before.byteOf] using effect.bytes

theorem tlsWrite_effect {self : Tid} {offset length : BitVec 32} (backed : Backed s)
    (found : findTid s self = some i) (held : (s.pairs i).tls = some tls)
    (inside : offset.toNat + length.toNat ≤ tls.size.toNat)
    (small : ∀ cnt < length.toNat, offset.toNat + cnt < 2 ^ 31) (buffer : Nat → Byte) :
    ∃ t area, tlsWrite s self offset length buffer = some (0, t) ∧
      Effect s t i tls area (Meets offset.toNat length.toNat) offset.toNat length.toNat buffer := by
  have bound := tls.size.isLt
  have fits : offset.toNat + length.toNat < 2 ^ 32 := by omega
  obtain ⟨sum, count⟩ := range_no_wrap fits
  have within : ¬ offset + length > tls.size := by
    rw [gt_iff_lt, BitVec.lt_def, sum]
    omega
  have inRange := (firstIndex_eq_some.mp found).1
  obtain ⟨opened, accessing⟩ := backed.unprotect inRange held
  obtain ⟨t, area, loop, progress⟩ :=
    writeLoop_effect accessing offset buffer length.toNat inside small
  refine ⟨_, area, ?_, progress.effect.congr (sameMemory_protection s tls.pages .readWrite)
    (sameMemory_protection t area.pages .none)⟩
  simp only [tlsWrite, found, held, if_neg within, opened, count, loop, progress.accessing.area,
    progress.accessing.protect]

/-- The caller finds the area it had written to. -/
theorem Effect.areaOf (effect : Effect s t i tls area touched p n buffer) {self : Tid}
    (found : findTid s self = some i) : t.areaOf self = some area := by
  have tids : ∀ j, (t.pairs j).tid = (s.pairs j).tid := by
    intro j
    by_cases here : j = i
    · rw [here, effect.pair]
    · rw [effect.others j here]
  have found' : findTid t self = some i := by
    simp only [findTid, tids]
    exact found
  rw [State.areaOf, found', Option.bind_some, effect.pair]

end Call

/-- **The pages of a write.** After any calls of any threads, a write that ends within an area
of less than 2^31 bytes succeeds. Each shared page that it meets gives way to one new page,
whose count is 1, and loses one reference but no byte; the other pages and their counts are as
they were. The bytes of the range are those of the buffer, all others are as before, and no
other pair of the table changes. -/
theorem tlsWrite_page_effect {calls : List Call} {replies : List Reply} {s : State}
    (ran : Machine.run call State.fresh calls = some (replies, s)) {self : Tid} {i : Nat}
    {tls : Area} (found : findTid s self = some i) (held : (s.pairs i).tls = some tls)
    (small : tls.size.toNat < 2 ^ 31) {offset length : BitVec 32}
    (inside : offset.toNat + length.toNat ≤ tls.size.toNat) (buffer : Nat → Byte) :
    ∃ t area, tlsWrite s self offset length buffer = some (0, t) ∧
      Effect s t i tls area (Meets offset.toNat length.toNat) offset.toNat length.toNat buffer :=
  tlsWrite_effect (run_backed ran) found held inside (fun cnt below => by omega) buffer

/-- Two threads share an area of two pages. -/
def sharedArea : List Call := [⟨1, .create 5000⟩, ⟨2, .clone 1⟩]

set_option maxRecDepth 100000 in
private theorem sharedArea_state :
    (Machine.run call State.fresh sharedArea).isSome = true ∧
      findTid (afterCalls sharedArea) 2 = some 1 ∧
      ((afterCalls sharedArea).pairs 1).tls = some ⟨2, 5000, [0, 1]⟩ := by
  refine ⟨by decide, by decide, rfl⟩

/-- The write meets both pages, so that the second thread gets two pages of its own. -/
theorem tlsWrite_page_effect_shared : ∃ t area,
    tlsWrite (afterCalls sharedArea) 2 4095 2 (fun _ => 7) = some (0, t) ∧
      Effect (afterCalls sharedArea) t 1 ⟨2, 5000, [0, 1]⟩ area (Meets 4095 2) 4095 2 fun _ => 7 := by
  obtain ⟨defined, found, held⟩ := sharedArea_state
  obtain ⟨replies, ran⟩ := run_afterCalls defined
  exact tlsWrite_page_effect ran found held (by decide) (by decide) fun _ => 7

end OperatingSys.Tls
