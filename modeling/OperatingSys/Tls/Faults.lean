import OperatingSys.Tls.Backed

/-!
# The fault handler

`tls_handle_page_fault` looks for the page of the faulting address in the areas of all 128 pairs,
from the first one on, and does not ask whether a pair has an area. It does what it is for
exactly if all pairs that it looks at have one: those up to the first area with that page, or all
of them if there is no such area.
-/

namespace OperatingSys.Tls

inductive Signal where
  | segv
  | bus
  deriving DecidableEq

/-- What the handler does: `printf`, `pthread_exit`, `signal(sig, SIG_DFL)` or `raise(sig)`. -/
inductive Action where
  | print (text : String)
  | exitThread
  | restoreDefault (sig : Signal)
  | raise (sig : Signal)
  deriving DecidableEq

/-- `si_addr & ~(page_size - 1)`. -/
def faultPage (siAddr : BitVec 64) : BitVec 64 := siAddr &&& ~~~(BitVec.ofNat 64 (pageSize - 1))

/-- The inner loop: whether one of the pages starts at `pFault`. -/
def scanPages (s : State) (pFault : Nat) : List Nat → Option Bool
  | [] => some false
  | id :: rest =>
    match s.heap id with
    | none => none
    | some page => if page.address = pFault then some true else scanPages s pFault rest

/-- The outer loop; `tls->page_num` of a pair without an area is not defined. -/
def scanPairs (s : State) (pFault : Nat) : List Nat → Option Bool
  | [] => some false
  | i :: rest =>
    match (s.pairs i).tls with
    | none => none
    | some tls =>
      match scanPages s pFault tls.pages with
      | none => none
      | some true => some true
      | some false => scanPairs s pFault rest

/-- What the handler does in the inner loop. -/
def endThread : List Action := [.print "Seg Fault Thread", .exitThread]

/-- What the handler does after the loops. -/
def passOn (sig : Signal) : List Action :=
  [.print "Seg Fault", .restoreDefault .segv, .restoreDefault .bus, .raise sig]

def tlsHandlePageFault (s : State) (sig : Signal) (siAddr : BitVec 64) : Option (List Action) :=
  match scanPairs s (faultPage siAddr).toNat (List.range maxThreadCount) with
  | none => none
  | some true => some endThread
  | some false => some (passOn sig)

/-- The address lies in a page of the area of pair `i`. -/
def LiesIn (s : State) (siAddr : BitVec 64) (i : Nat) : Prop :=
  ∃ tls, (s.pairs i).tls = some tls ∧ ∃ id ∈ tls.pages, ∃ page, s.heap id = some page ∧
    page.address ≤ siAddr.toNat ∧ siAddr.toNat < page.address + pageSize

/-- The handler ends the thread if the address lies in a page of a registered area, and
otherwise restores the default actions and raises the signal again. -/
structure Precise (s : State) (sig : Signal) (siAddr : BitVec 64) : Prop where
  inside : (∃ i < maxThreadCount, LiesIn s siAddr i) →
    tlsHandlePageFault s sig siAddr = some endThread
  outside : (∀ i < maxThreadCount, ¬ LiesIn s siAddr i) →
    tlsHandlePageFault s sig siAddr = some (passOn sig)

/-- Every pair that comes before all areas with the page of the address has an area. -/
def FilledUpTo (s : State) (siAddr : BitVec 64) : Prop :=
  ∀ i < maxThreadCount, (∀ j < i, ¬ LiesIn s siAddr j) → (s.pairs i).tls ≠ none

/-- The mask clears the offset in the page. -/
theorem faultPage_toNat (siAddr : BitVec 64) :
    (faultPage siAddr).toNat = siAddr.toNat / pageSize * pageSize := by
  have shifted : faultPage siAddr = siAddr >>> 12 <<< 12 := by
    apply BitVec.eq_of_getLsbD_eq
    intro k inWord
    have mask : (pageSize - 1).testBit k = decide (k < 12) := Nat.testBit_two_pow_sub_one 12 k
    simp only [faultPage, BitVec.getLsbD_and, BitVec.getLsbD_not, BitVec.getLsbD_ofNat, mask,
      BitVec.getLsbD_shiftLeft, BitVec.getLsbD_ushiftRight, inWord, decide_true, Bool.true_and]
    by_cases low : k < 12
    · simp [low]
    · have back : 12 + (k - 12) = k := by omega
      simp [low, back]
  have bound := siAddr.isLt
  rw [shifted, BitVec.toNat_shiftLeft, BitVec.toNat_ushiftRight, Nat.shiftLeft_eq,
    Nat.shiftRight_eq_div_pow]
  simp only [pageSize]
  omega

section Scan

variable {s : State} {siAddr : BitVec 64}

/-- Pages start at multiples of the page size. -/
theorem Backed.starts_iff (backed : Backed s) {id : Nat} {page : Page}
    (here : s.heap id = some page) : page.address = (faultPage siAddr).toNat ↔
      page.address ≤ siAddr.toNat ∧ siAddr.toNat < page.address + pageSize := by
  rw [faultPage_toNat, backed.address id page here]
  simp only [pageSize]
  omega

/-- The inner loop finds the page if it is there. -/
theorem scanPages_eq {pFault : Nat} {ids : List Nat}
    (allocated : ∀ id ∈ ids, ∃ page, s.heap id = some page) :
    ∃ hit, scanPages s pFault ids = some hit ∧
      (hit = true ↔ ∃ id ∈ ids, ∃ page, s.heap id = some page ∧ page.address = pFault) := by
  induction ids with
  | nil => exact ⟨false, rfl, by simp⟩
  | cons id rest ih =>
    obtain ⟨page, here⟩ := allocated id (by simp)
    obtain ⟨hit, scanned, iff_⟩ := ih fun id' member => allocated id' (List.mem_cons_of_mem _ member)
    by_cases first : page.address = pFault
    · refine ⟨true, by simp [scanPages, here, first], iff_of_true rfl ?_⟩
      exact ⟨id, by simp, page, here, first⟩
    · refine ⟨hit, by simp [scanPages, here, first, scanned], iff_.trans ?_⟩
      simp [here, first]

theorem Backed.scanPages_area (backed : Backed s) {i : Nat} {tls : Area}
    (inRange : i < maxThreadCount) (area : (s.pairs i).tls = some tls) :
    ∃ hit, scanPages s (faultPage siAddr).toNat tls.pages = some hit ∧
      (hit = true ↔ LiesIn s siAddr i) := by
  obtain ⟨hit, scanned, found⟩ := @scanPages_eq s (faultPage siAddr).toNat tls.pages
    (backed.pages inRange area).2
  refine ⟨hit, scanned, found.trans ⟨?_, ?_⟩⟩
  · rintro ⟨id, member, page, here, start⟩
    exact ⟨tls, area, id, member, page, here, (backed.starts_iff here).mp start⟩
  · rintro ⟨tls', area', id, member, page, here, inside⟩
    rw [area, Option.some.injEq] at area'
    exact ⟨id, area' ▸ member, page, here, (backed.starts_iff here).mpr inside⟩

/-- The scan goes on after pairs without the page only. -/
theorem scanPairs_append (pFault : Nat) (is js : List Nat) :
    scanPairs s pFault (is ++ js) =
      if scanPairs s pFault is = some false then scanPairs s pFault js
      else scanPairs s pFault is := by
  induction is with
  | nil => simp [scanPairs]
  | cons i rest ih =>
    cases area : (s.pairs i).tls with
    | none => simp [scanPairs, area]
    | some tls =>
      rcases found : scanPages s pFault tls.pages with _ | _ | _
      · simp [scanPairs, area, found]
      · simpa [scanPairs, area, found] using ih
      · simp [scanPairs, area, found]

/-- What the scan of the first `n` pairs comes to. -/
inductive Scanned (s : State) (siAddr : BitVec 64) (n : Nat) : Option Bool → Prop where
  | hit {i : Nat} (inRange : i < n) (liesIn : LiesIn s siAddr i)
      (filled : ∀ j < n, (∀ k < j, ¬ LiesIn s siAddr k) → (s.pairs j).tls ≠ none) :
      Scanned s siAddr n (some true)
  | miss (outside : ∀ i < n, ¬ LiesIn s siAddr i) (filled : ∀ i < n, (s.pairs i).tls ≠ none) :
      Scanned s siAddr n (some false)
  | fault {i : Nat} (inRange : i < n) (empty : (s.pairs i).tls = none)
      (outside : ∀ j < i, ¬ LiesIn s siAddr j) : Scanned s siAddr n none

/-- Induction on the number of pairs: the last pair matters after a miss only. -/
theorem Backed.scanned (backed : Backed s) {n : Nat} (bound : n ≤ maxThreadCount) :
    Scanned s siAddr n (scanPairs s (faultPage siAddr).toNat (List.range n)) := by
  induction n with
  | zero => exact .miss (by simp) (by simp)
  | succ n ih =>
    have scan := ih (by omega)
    rw [List.range_succ, scanPairs_append]
    generalize scanPairs s (faultPage siAddr).toNat (List.range n) = result at scan
    -- after a hit or a fault the loop has ended
    cases scan with
    | hit inRange liesIn filled =>
      simp only [Option.some.injEq, Bool.true_eq_false, if_false]
      refine .hit (Nat.lt_succ_of_lt inRange) liesIn fun j below outside => ?_
      by_cases last : j = n
      · exact absurd liesIn (outside _ (last ▸ inRange))
      · exact filled j (by omega) outside
    | fault inRange empty outside =>
      simp only [reduceCtorEq, if_false]
      exact .fault (Nat.lt_succ_of_lt inRange) empty outside
    | miss outside filled =>
      simp only [if_true, scanPairs]
      cases area : (s.pairs n).tls with
      | none => exact .fault (Nat.lt_succ_self n) area outside
      | some tls =>
        have filled' : ∀ j < n + 1, (s.pairs j).tls ≠ none := by
          intro j below
          by_cases last : j = n
          · rw [last, area]
            simp
          · exact filled j (by omega)
        obtain ⟨hit, scanned, found⟩ := @Backed.scanPages_area s siAddr backed n tls bound area
        simp only [scanned]
        cases hit with
        | true => exact .hit (Nat.lt_succ_self n) (found.mp rfl) fun j below _ => filled' j below
        | false =>
          refine .miss (fun j below => ?_) filled'
          by_cases last : j = n
          · rw [last]
            exact fun liesIn => Bool.noConfusion (found.mpr liesIn)
          · exact outside j (by omega)

end Scan

/-- Wherever the address lies, a handler that follows a NULL pointer is not precise. -/
theorem not_precise_of_none {s : State} {sig : Signal} {siAddr : BitVec 64}
    (undefined : tlsHandlePageFault s sig siAddr = none) : ¬ Precise s sig siAddr := by
  intro precise
  by_cases inside : ∃ i < maxThreadCount, LiesIn s siAddr i
  · have ended := precise.inside inside
    rw [undefined] at ended
    simp at ended
  · have passed := precise.outside (by simpa using inside)
    rw [undefined] at passed
    simp at passed

/-- After any calls of any threads, for every address and either signal: the handler is precise
if and only if all pairs up to the first area with the page of the address have an area. -/
theorem precise_iff {calls : List Call} {replies : List Reply} {s : State}
    (ran : Machine.run call State.fresh calls = some (replies, s)) (sig : Signal)
    (siAddr : BitVec 64) : Precise s sig siAddr ↔ FilledUpTo s siAddr := by
  have scan := @Backed.scanned s siAddr (run_backed ran) maxThreadCount (Nat.le_refl _)
  have handles : tlsHandlePageFault s sig siAddr =
      (scanPairs s (faultPage siAddr).toNat (List.range maxThreadCount)).map
        fun hit => if hit then endThread else passOn sig := by
    unfold tlsHandlePageFault
    rcases scanPairs s (faultPage siAddr).toNat (List.range maxThreadCount) with
      _ | _ | _ <;> rfl
  generalize scanPairs s (faultPage siAddr).toNat (List.range maxThreadCount) = result at *
  cases scan with
  | hit inRange liesIn filled =>
    refine iff_of_true ⟨fun _ => handles, fun outside => ?_⟩ filled
    exact absurd liesIn (outside _ inRange)
  | miss outside filled =>
    refine iff_of_true ⟨?_, fun _ => handles⟩ fun i inRange _ => filled i inRange
    rintro ⟨i, inRange, liesIn⟩
    exact absurd liesIn (outside i inRange)
  | fault inRange empty before =>
    refine iff_of_false (not_precise_of_none handles) fun filled => ?_
    exact filled _ inRange before empty

/-- Two threads with an area each. -/
def twoAreas : List Call := [⟨1, .create 10⟩, ⟨2, .create 10⟩]

/-- The first of them has given its area back. -/
def oneReleased : List Call := twoAreas ++ [⟨1, .destroy⟩]

set_option maxRecDepth 100000 in
private theorem areas_state :
    (Machine.run call State.fresh twoAreas).isSome = true ∧
      (Machine.run call State.fresh oneReleased).isSome = true ∧
      ((afterCalls twoAreas).pairs 0).tls = some ⟨1, 10, [0]⟩ ∧
      ((afterCalls twoAreas).pairs 1).tls = some ⟨2, 10, [1]⟩ ∧
      ((afterCalls oneReleased).pairs 1).tls = some ⟨2, 10, [1]⟩ ∧
      (∃ page, (afterCalls twoAreas).heap 1 = some page ∧ page.address = 8192) ∧
      ∃ page, (afterCalls oneReleased).heap 1 = some page ∧ page.address = 8192 :=
  ⟨by decide, by decide, rfl, rfl, rfl, ⟨_, rfl, rfl⟩, _, rfl, rfl⟩

/-- A fault in the second area, after the first pair, which has an area. -/
theorem precise_iff_second : Precise (afterCalls twoAreas) .segv 8200 := by
  obtain ⟨defined, -, first, second, -, ⟨page, here, start⟩, -⟩ := areas_state
  obtain ⟨replies, ran⟩ := run_afterCalls defined
  refine (precise_iff ran .segv 8200).mpr fun i inRange outside => ?_
  rcases i with _ | _ | i
  · simp [first]
  · simp [second]
  · refine absurd ⟨_, second, 1, by simp, page, here, ?_⟩ (outside 1 (by omega))
    rw [start]
    decide

set_option maxRecDepth 100000 in
/-- The pair that the first thread has given back comes before the area of the second one, and
the unused pairs come after both: the handler follows a NULL pointer on a fault in the area,
and on a fault outside all areas. -/
theorem fault_follows_null :
    (∃ replies, Machine.run call State.fresh oneReleased = some (replies, afterCalls oneReleased)) ∧
      LiesIn (afterCalls oneReleased) 8200 1 ∧
      tlsHandlePageFault (afterCalls oneReleased) .segv 8200 = none ∧
      ¬ Precise (afterCalls oneReleased) .segv 8200 ∧
      (∃ replies, Machine.run call State.fresh twoAreas = some (replies, afterCalls twoAreas)) ∧
      tlsHandlePageFault (afterCalls twoAreas) .segv 0 = none ∧
      ¬ Precise (afterCalls twoAreas) .segv 0 := by
  obtain ⟨defined, defined', -, -, second, -, page, here, start⟩ := areas_state
  have released : tlsHandlePageFault (afterCalls oneReleased) .segv 8200 = none := by decide
  have unused : tlsHandlePageFault (afterCalls twoAreas) .segv 0 = none := by decide
  refine ⟨run_afterCalls defined', ⟨_, second, 1, by simp, page, here, ?_⟩, released,
    not_precise_of_none released, run_afterCalls defined, unused, not_precise_of_none unused⟩
  rw [start]
  decide

end OperatingSys.Tls
