import OperatingSys.Tls.Effects

/-!
# The bounds check and the positions of the loops

`tls_read` and `tls_write` add `offset` and `length` in 32 bits and keep the position of a byte
in an `int`. A sum that wraps around passes the check although the range exceeds the area, and
from byte 2^31 on the position is negative: its page number lies behind every page table, or its
offset behind the page. What remains is right: ranges that end at or below 2^31.
-/

namespace OperatingSys.Tls

open Search

/-! ### Positions -/

/-- Round `cnt` of the loops stays in the page table, in the page and in the buffer, and is at
byte `offset + cnt` of the area. -/
structure InRange (size offset length : BitVec 32) (cnt : Nat) : Prop where
  number : pageNumber (indexOf offset cnt) < pageCount size
  inPage : pageOffset (indexOf offset cnt) < pageSize
  inBuffer : cnt < length.toNat
  position : pageNumber (indexOf offset cnt) * pageSize + pageOffset (indexOf offset cnt) =
    offset.toNat + cnt

/-- A page table has at most 2^20 entries. -/
theorem pageCount_le (size : BitVec 32) : pageCount size ≤ 2 ^ 20 := by
  have bound := (size - 1).isLt
  simp only [pageCount, pageSize]
  omega

theorem indexOf_large {offset : BitVec 32} {cnt : Nat} (low : 2 ^ 31 ≤ offset.toNat + cnt)
    (high : offset.toNat + cnt < 2 ^ 32) :
    indexOf offset cnt = ((offset.toNat + cnt : Nat) : Int) - 2 ^ 32 := by
  have sum : (offset + BitVec.ofNat 32 cnt).toNat = offset.toNat + cnt := by
    rw [BitVec.toNat_add, BitVec.toNat_ofNat]
    omega
  rw [indexOf, BitVec.toInt_eq_toNat_cond, sum, if_neg (by omega)]
  omega

/-- A negative position is in no page. -/
theorem index_large {q : Nat} (low : 2 ^ 31 ≤ q) (high : q < 2 ^ 32) :
    2 ^ 20 ≤ pageNumber ((q : Int) - 2 ^ 32) ∨ pageSize ≤ pageOffset ((q : Int) - 2 ^ 32) := by
  obtain ⟨k, negative⟩ : ∃ k : Nat, (q : Int) - 2 ^ 32 = -(k : Int) := ⟨2 ^ 32 - q, by omega⟩
  have quotient : (-(k : Int)).tdiv pageSize = -((k / pageSize : Nat) : Int) := by
    rw [Int.neg_tdiv]
    rfl
  have remainder : (-(k : Int)).tmod pageSize = -((k % pageSize : Nat) : Int) := by
    rw [Int.neg_tmod]
    rfl
  rw [negative, pageNumber, pageOffset, quotient, remainder, BitVec.toNat_ofInt,
    BitVec.toNat_ofInt]
  simp only [pageSize]
  omega

/-- **Page indices.** For every size and every range of bytes within it, all
rounds of the loops stay in range exactly if there are none or the range ends at or below
2^31. -/
theorem positions_inRange_iff {size offset length : BitVec 32}
    (inside : offset.toNat + length.toNat ≤ size.toNat) :
    (∀ cnt < rounds offset length, InRange size offset length cnt) ↔
      length = 0 ∨ offset.toNat + length.toNat ≤ 2 ^ 31 := by
  have bound := size.isLt
  have fits : offset.toNat + length.toNat < 2 ^ 32 := by omega
  obtain ⟨-, count⟩ := range_no_wrap fits
  rw [count]
  constructor
  · intro inRange
    by_contra neither
    rw [not_or, Nat.not_le] at neither
    obtain ⟨nonempty, long⟩ := neither
    have some_ : 0 < length.toNat := by
      rw [Nat.pos_iff_ne_zero]
      exact fun zero => nonempty (BitVec.eq_of_toNat_eq zero)
    -- the last round is at a negative position
    obtain ⟨number, inPage, -, -⟩ := inRange (length.toNat - 1) (by omega)
    have limit := pageCount_le size
    have low : 2 ^ 31 ≤ offset.toNat + (length.toNat - 1) := by omega
    rw [indexOf_large low (by omega)] at number inPage
    rcases index_large low (by omega) with late | outside
    · omega
    · omega
  · rintro (empty | low) cnt before
    · rw [empty] at before
      exact absurd before (Nat.not_lt_zero cnt)
    · have small : offset.toNat + cnt < 2 ^ 31 := by omega
      obtain ⟨number, inPage⟩ := index_small small
      have last : (size - 1).toNat = size.toNat - 1 := by
        have one : (1 : BitVec 32).toNat = 1 := rfl
        have low : 1 ≤ size.toNat := by omega
        rw [BitVec.toNat_sub_of_le (by rw [BitVec.le_def, one]; exact low), one]
      rw [← indexOf_small small] at number inPage
      refine ⟨?_, ?_, before, ?_⟩
      · rw [number, pageCount, last]
        exact Nat.lt_succ_of_le (Nat.div_le_div_right (by omega))
      · rw [inPage]
        exact Nat.mod_lt _ (by decide)
      · rw [number, inPage]
        exact Nat.div_add_mod' _ _

/-- 1000 bytes across the end of a page. -/
theorem positions_inRange_iff_across :
    rounds 4000 1000 = 1000 ∧ ∀ cnt < rounds 4000 1000, InRange 5000 4000 1000 cnt :=
  ⟨by decide, (positions_inRange_iff (by decide)).mpr (Or.inr (by decide))⟩

/-- The byte at 2^31 of the largest area: the page number is 4294443008. -/
theorem position_out_of_range :
    (0xffffffff : BitVec 32) ≠ 0 ∧
      (0x80000000 : BitVec 32).toNat + (1 : BitVec 32).toNat ≤ (0xffffffff : BitVec 32).toNat ∧
      0 < rounds 0x80000000 1 ∧ pageCount 0xffffffff = 1048576 ∧
      pageNumber (indexOf 0x80000000 0) = 4294443008 ∧
      ¬ ∀ cnt < rounds 0x80000000 1, InRange 0xffffffff 0x80000000 1 cnt := by
  refine ⟨by decide, by decide, by decide, by decide, by decide, fun inRange => ?_⟩
  exact absurd (inRange 0 (by decide)).number (by decide)

/-! ### The check -/

/-- `tls_read` and `tls_write` by `tid`, whose area is `tls`: they return `-1` exactly if the
range exceeds the area, and if they return `0` they have transferred `length` bytes, starting
at `offset`. -/
structure ChecksExactly (s : State) (tid : Tid) (tls : Area) (offset length : BitVec 32) :
    Prop where
  read : ∃ r bytes t, tlsRead s tid offset length = some (r, bytes, t) ∧
    (r = -1 ↔ tls.size.toNat < offset.toNat + length.toNat) ∧
    (r = 0 → bytes = (List.range length.toNat).map fun k => s.byteOf tls (offset.toNat + k))
  write : ∀ buffer, ∃ r t, tlsWrite s tid offset length buffer = some (r, t) ∧
    (r = -1 ↔ tls.size.toNat < offset.toNat + length.toNat) ∧
    (r = 0 → ∃ area, t.areaOf tid = some area ∧
      ∀ q < tls.pages.length * pageSize, t.byteOf area q =
        if offset.toNat ≤ q ∧ q < offset.toNat + length.toNat then buffer (q - offset.toNat)
        else s.byteOf tls q)

section Check

variable {s : State} {tls : Area} {offset : BitVec 32} {cnt : Nat}

theorem readByte_large (formed : WellFormed tls) (low : 2 ^ 31 ≤ offset.toNat + cnt)
    (high : offset.toNat + cnt < 2 ^ 32) : readByte s tls (indexOf offset cnt) = none := by
  have limit := pageCount_le tls.size
  rw [indexOf_large low high]
  rcases index_large low high with late | outside
  · have behind : tls.pages.length ≤ pageNumber (((offset.toNat + cnt : Nat) : Int) - 2 ^ 32) := by
      rw [formed.pageNum]
      omega
    simp only [readByte, List.getElem?_eq_none behind]
  · unfold readByte
    split
    · rfl
    · split
      · rfl
      · rw [if_pos (Or.inr outside)]

/-- A loop with a round that is not defined is not defined. -/
theorem readLoop_eq_none {cnts : List Nat} (member : cnt ∈ cnts)
    (undefined : readByte s tls (indexOf offset cnt) = none) :
    readLoop s tls offset cnts = none := by
  induction cnts with
  | nil => simp at member
  | cons first rest ih =>
    rcases List.mem_cons.mp member with rfl | later
    · simp only [readLoop, undefined]
    · simp only [readLoop, ih later]
      split <;> rfl

end Check

section Exact

variable {s : State} {tid : Tid} {i : Nat} {tls : Area} {offset length : BitVec 32}
  (backed : Backed s) (found : findTid s tid = some i) (held : (s.pairs i).tls = some tls)
include backed found held

/-- A read that passes the check. -/
theorem tlsRead_eq (passes : (offset + length).toNat ≤ tls.size.toNat) :
    tlsRead s tid offset length =
      (readLoop (s.unprotected tls) tls offset (List.range (rounds offset length))).map fun bytes =>
        (0, bytes, (s.unprotected tls).protected_ tls) := by
  have within : ¬ offset + length > tls.size := by
    rw [gt_iff_lt, BitVec.lt_def]
    omega
  obtain ⟨opened, accessing⟩ := backed.unprotect (firstIndex_eq_some.mp found).1 held
  simp only [tlsRead, found, Option.bind_some, held, if_neg within, opened, accessing.protect]
  cases readLoop (s.unprotected tls) tls offset (List.range (rounds offset length)) <;> rfl

/-- A range within the area whose positions are not negative. -/
theorem tlsRead_bytes (inside : offset.toNat + length.toNat ≤ tls.size.toNat)
    (small : ∀ cnt < length.toNat, offset.toNat + cnt < 2 ^ 31) :
    ∃ t, tlsRead s tid offset length =
      some (0, (List.range length.toNat).map fun k => s.byteOf tls (offset.toNat + k), t) := by
  have bound := tls.size.isLt
  have fits : offset.toNat + length.toNat < 2 ^ 32 := by omega
  obtain ⟨sum, count⟩ := range_no_wrap fits
  have inRange := (firstIndex_eq_some.mp found).1
  obtain ⟨-, accessing⟩ := backed.unprotect inRange held
  have loop := readLoop_eq (backed.formed i inRange tls held) (fun id member => by
      obtain ⟨page, here, -⟩ := accessing.allocated member
      exact ⟨page, here, accessing.accessible id member page here⟩)
    offset (List.range length.toNat) fun cnt member => by
      have below := List.mem_range.mp member
      exact ⟨by omega, small cnt below⟩
  simp only [(sameMemory_protection s tls.pages .readWrite).byteOf] at loop
  rw [tlsRead_eq backed found held (by omega), count, loop]
  exact ⟨_, rfl⟩

/-- A sum that has wrapped around and passes the check: `0` is returned, but no round is made. -/
theorem tlsRead_wrapped (wraps : 2 ^ 32 ≤ offset.toNat + length.toNat)
    (passes : (offset + length).toNat ≤ tls.size.toNat) :
    ∃ t, tlsRead s tid offset length = some (0, [], t) := by
  have none_ : rounds offset length = 0 := by
    have bound := length.isLt
    rw [rounds, BitVec.toNat_add]
    omega
  rw [tlsRead_eq backed found held passes, none_]
  exact ⟨_, rfl⟩

/-- A range within the area that goes past 2^31. -/
theorem tlsRead_undefined (inside : offset.toNat + length.toNat ≤ tls.size.toNat)
    (nonempty : length ≠ 0) (long : 2 ^ 31 < offset.toNat + length.toNat) :
    tlsRead s tid offset length = none := by
  have bound := tls.size.isLt
  have fits : offset.toNat + length.toNat < 2 ^ 32 := by omega
  obtain ⟨sum, count⟩ := range_no_wrap fits
  have some_ : 0 < length.toNat := by
    rw [Nat.pos_iff_ne_zero]
    exact fun zero => nonempty (BitVec.eq_of_toNat_eq zero)
  have formed := backed.formed i (firstIndex_eq_some.mp found).1 tls held
  have last : length.toNat - 1 ∈ List.range length.toNat := List.mem_range.mpr (by omega)
  have low : 2 ^ 31 ≤ offset.toNat + (length.toNat - 1) := by omega
  have undefined := readByte_large (s := s.unprotected tls) formed low (by omega)
  rw [tlsRead_eq backed found held (by omega), count, readLoop_eq_none last undefined]
  rfl

omit backed in
/-- A range that the check refuses. -/
theorem tls_refused (beyond : tls.size.toNat < (offset + length).toNat) :
    tlsRead s tid offset length = some (-1, [], s) ∧
      ∀ buffer, tlsWrite s tid offset length buffer = some (-1, s) := by
  have exceeds : offset + length > tls.size := beyond
  constructor
  · simp only [tlsRead, found, Option.bind_some, held, if_pos exceeds]
  · intro buffer
    simp only [tlsWrite, found, held, if_pos exceeds]

theorem checksExactly_of_small (inside : offset.toNat + length.toNat ≤ tls.size.toNat)
    (small : ∀ cnt < length.toNat, offset.toNat + cnt < 2 ^ 31) :
    ChecksExactly s tid tls offset length := by
  have within : ¬ tls.size.toNat < offset.toNat + length.toNat := Nat.not_lt.mpr inside
  constructor
  · obtain ⟨t, read⟩ := tlsRead_bytes backed found held inside small
    exact ⟨0, _, t, read, iff_of_false (by decide) within, fun _ => rfl⟩
  · intro buffer
    obtain ⟨t, area, wrote, effect⟩ := tlsWrite_effect backed found held inside small buffer
    exact ⟨0, t, wrote, iff_of_false (by decide) within,
      fun _ => ⟨area, effect.areaOf found, effect.bytes⟩⟩

omit backed in
theorem checksExactly_of_refused (beyond : tls.size.toNat < (offset + length).toNat) :
    ChecksExactly s tid tls offset length := by
  have exceeds : tls.size.toNat < offset.toNat + length.toNat := by
    rw [BitVec.toNat_add] at beyond
    exact Nat.lt_of_lt_of_le beyond (Nat.mod_le _ _)
  obtain ⟨read, write⟩ := tls_refused found held beyond
  refine ⟨⟨-1, [], s, read, iff_of_true rfl exceeds, fun zero => absurd zero (by decide)⟩,
    fun buffer => ⟨-1, s, write buffer, iff_of_true rfl exceeds, fun zero => absurd zero (by decide)⟩⟩

end Exact

/-- **The bounds check.** After any calls of any threads, for every area and every range the
check and the transfer are exact if and only if the range ends at or below 2^31, or is empty,
or is refused by the sum in 32 bits already. -/
theorem checksExactly_iff {calls : List Call} {replies : List Reply} {s : State}
    (ran : Machine.run call State.fresh calls = some (replies, s)) {tid : Tid} {tls : Area}
    (held : s.areaOf tid = some tls) (offset length : BitVec 32) :
    ChecksExactly s tid tls offset length ↔
      offset.toNat + length.toNat ≤ 2 ^ 31 ∨ length = 0 ∨
        tls.size.toNat < (offset + length).toNat := by
  have backed := run_backed ran
  obtain ⟨i, -, found, area⟩ := areaOf_eq_some held
  have bound := tls.size.isLt
  have bound' := offset.isLt
  by_cases refused : tls.size.toNat < (offset + length).toNat
  · exact iff_of_true (checksExactly_of_refused found area refused) (Or.inr (Or.inr refused))
  · have passes := Nat.not_lt.mp refused
    by_cases wraps : 2 ^ 32 ≤ offset.toNat + length.toNat
    -- the range exceeds every area, and is not refused
    · obtain ⟨t, read⟩ := tlsRead_wrapped backed found area wraps passes
      refine iff_of_false (fun exact_ => ?_) ?_
      · obtain ⟨r, bytes, t', read', check, -⟩ := exact_.read
        rw [read, Option.some.injEq, Prod.mk.injEq] at read'
        have minus := check.mpr (by omega)
        omega
      · rintro (low | empty | beyond)
        · omega
        · rw [empty] at wraps
          simp only [BitVec.ofNat_eq_ofNat, BitVec.toNat_ofNat, Nat.zero_mod] at wraps
          omega
        · omega
    · have inside : offset.toNat + length.toNat ≤ tls.size.toNat := by
        rwa [(range_no_wrap (Nat.not_le.mp wraps)).1] at passes
      by_cases low : offset.toNat + length.toNat ≤ 2 ^ 31
      · exact iff_of_true (checksExactly_of_small backed found area inside fun cnt below => by omega)
          (Or.inl low)
      · by_cases empty : length = 0
        · refine iff_of_true (checksExactly_of_small backed found area inside fun cnt below => ?_)
            (Or.inr (Or.inl empty))
          rw [empty] at below
          exact absurd below (Nat.not_lt_zero cnt)
        · refine iff_of_false (fun exact_ => ?_) (by rintro (h | h | h) <;> contradiction)
          obtain ⟨r, bytes, t, read, -⟩ := exact_.read
          rw [tlsRead_undefined backed found area inside empty (by omega)] at read
          simp at read

/-- One thread with an area of ten bytes. -/
def tenBytes : List Call := [⟨1, .create 10⟩]

set_option maxRecDepth 100000 in
private theorem tenBytes_state :
    (Machine.run call State.fresh tenBytes).isSome = true ∧
      findTid (afterCalls tenBytes) 1 = some 0 ∧
      ((afterCalls tenBytes).pairs 0).tls = some ⟨1, 10, [0]⟩ ∧
      (afterCalls tenBytes).areaOf 1 = some ⟨1, 10, [0]⟩ :=
  ⟨by decide, by decide, rfl, rfl⟩

/-- The last five bytes. -/
theorem checksExactly_iff_last : ChecksExactly (afterCalls tenBytes) 1 ⟨1, 10, [0]⟩ 5 5 := by
  obtain ⟨defined, -, -, held⟩ := tenBytes_state
  obtain ⟨replies, ran⟩ := run_afterCalls defined
  exact (checksExactly_iff ran held 5 5).mpr (Or.inl (by decide))

/-- `5 + 4294967293` is 2 in 32 bits: the read passes the check, returns `0` and transfers
nothing. -/
theorem wrapped_range_passes :
    (∃ replies, Machine.run call State.fresh tenBytes = some (replies, afterCalls tenBytes)) ∧
      (afterCalls tenBytes).areaOf 1 = some ⟨1, 10, [0]⟩ ∧
      10 < (5 : BitVec 32).toNat + (0xfffffffd : BitVec 32).toNat ∧
      (∃ t, tlsRead (afterCalls tenBytes) 1 5 0xfffffffd = some (0, [], t)) ∧
      ¬ ChecksExactly (afterCalls tenBytes) 1 ⟨1, 10, [0]⟩ 5 0xfffffffd := by
  obtain ⟨defined, found, area, held⟩ := tenBytes_state
  obtain ⟨replies, ran⟩ := run_afterCalls defined
  obtain ⟨t, read⟩ := tlsRead_wrapped (run_backed ran) found area
    (show 2 ^ 32 ≤ (5 : BitVec 32).toNat + (0xfffffffd : BitVec 32).toNat by decide) (by decide)
  refine ⟨⟨replies, ran⟩, held, by decide, ⟨t, read⟩, fun exact_ => ?_⟩
  obtain ⟨r, bytes, t', read', check, -⟩ := exact_.read
  rw [read, Option.some.injEq, Prod.mk.injEq] at read'
  have minus := check.mpr (by decide)
  omega

end OperatingSys.Tls
