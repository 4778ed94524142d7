import Mathlib.Logic.Basic

/-!
# Searching a table from the front

The loop that looks for the first index of an array with a property.
-/

namespace Search

/-- `for (int i = 0; i < n; i++) if (p(i)) break;`. -/
def firstIndex (n : Nat) (p : Nat → Bool) : Option Nat := (List.range n).find? p

theorem firstIndex_eq_some {n i : Nat} {p : Nat → Bool} :
    firstIndex n p = some i ↔ i < n ∧ p i = true ∧ ∀ j < i, p j = false := by
  rw [firstIndex, List.find?_range_eq_some]
  simp only [List.mem_range, Bool.not_eq_true']
  exact and_left_comm

theorem firstIndex_eq_none {n : Nat} {p : Nat → Bool} :
    firstIndex n p = none ↔ ∀ i < n, p i = false := by
  rw [firstIndex, List.find?_eq_none]
  simp only [List.mem_range, Bool.not_eq_true]

theorem firstIndex_isSome {n : Nat} {p : Nat → Bool} :
    (firstIndex n p).isSome ↔ ∃ i < n, p i = true := by
  cases search : firstIndex n p with
  | none =>
    have absent := firstIndex_eq_none.mp search
    simp only [Option.isSome_none, Bool.false_eq_true, false_iff]
    rintro ⟨i, below, found⟩
    simp [absent i below] at found
  | some i =>
    obtain ⟨below, found, -⟩ := firstIndex_eq_some.mp search
    simp only [Option.isSome_some, true_iff]
    exact ⟨i, below, found⟩

/-- A table filled from the front: the first free slot is the length of its filled part. -/
theorem firstIndex_filled {n m : Nat} {p : Nat → Bool} (bound : m ≤ n)
    (free : ∀ i < n, p i = true ↔ m ≤ i) :
    firstIndex n p = if m < n then some m else none := by
  split
  next below =>
    refine firstIndex_eq_some.mpr ⟨below, (free m below).mpr (Nat.le_refl m), fun j lower => ?_⟩
    have := (free j (by omega)).not
    simpa [lower] using this
  next full =>
    refine firstIndex_eq_none.mpr fun i below => ?_
    have := (free i below).not
    have lower : i < m := by omega
    simpa [lower] using this

/-! ### Counting -/

/-- `for (int i = 0; i < n; i++) if (p(i)) count++;`. -/
def countIndices (n : Nat) (p : Nat → Bool) : Nat := (List.range n).countP p

theorem countIndices_succ (n : Nat) (p : Nat → Bool) :
    countIndices (n + 1) p = countIndices n p + if p n then 1 else 0 := by
  rw [countIndices, countIndices, List.range_succ, List.countP_append, List.countP_singleton]

theorem countIndices_le (n : Nat) (p : Nat → Bool) : countIndices n p ≤ n := by
  have bound := List.countP_le_length (p := p) (l := List.range n)
  rwa [List.length_range] at bound

/-- If as many indices from the front are hits as there are hits in all, there are no others. -/
theorem lt_countIndices {n : Nat} {p : Nat → Bool}
    (filled : ∀ i < countIndices n p, p i = true) {i : Nat} (below : i < n) (hit : p i = true) :
    i < countIndices n p := by
  induction n generalizing i with
  | zero => omega
  | succ n ih =>
    rw [countIndices_succ] at filled ⊢
    cases last : p n with
    | false =>
      simp only [last, Bool.false_eq_true, if_false, Nat.add_zero] at filled ⊢
      have other : i ≠ n := fun same => by
        rw [same, last] at hit
        simp at hit
      exact ih filled (by omega) hit
    | true =>
      simp only [last, if_true] at filled ⊢
      have earlier := fun i before => filled i (Nat.lt_succ_of_lt before)
      by_cases gap : countIndices n p < n
      -- the index of the count is a hit, and so it would be below the count
      · have here := ih earlier gap (filled _ (Nat.lt_succ_self _))
        omega
      · omega

/-- Without gaps the hits are the first indices. -/
theorem filled_of_closed {n : Nat} {p : Nat → Bool}
    (closed : ∀ i < n, ∀ j < i, p i = true → p j = true) :
    ∀ i < countIndices n p, p i = true := by
  induction n with
  | zero => exact fun i below => absurd below (Nat.not_lt_zero i)
  | succ n ih =>
    intro i below
    rw [countIndices_succ] at below
    have bound := countIndices_le n p
    cases last : p n with
    | false =>
      simp only [last, Bool.false_eq_true, if_false, Nat.add_zero] at below
      exact ih (fun i before => closed i (by omega)) i below
    | true =>
      simp only [last, if_true] at below
      by_cases here : i = n
      · rw [here]
        exact last
      · exact closed n (Nat.lt_succ_self n) i (by omega) last

end Search
