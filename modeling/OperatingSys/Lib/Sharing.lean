import Mathlib.Data.Finset.Card
import Mathlib.Logic.Function.Basic

/-!
# Counting the holders of shared cells

Several tables hold cells, each cell at most once. The number of tables that hold a cell is
what a reference count stands for. Replacing one table changes that number by at most one,
in a way that only depends on the old and the new table.
-/

namespace Sharing

variable {α : Type*} [DecidableEq α]

/-- The tables among the first `n` that hold `a`. -/
def holders (n : Nat) (tables : Nat → List α) (a : α) : Finset Nat :=
  (Finset.range n).filter fun i => a ∈ tables i

variable {n : Nat} {tables : Nat → List α} {a : α}

theorem mem_holders {i : Nat} : i ∈ holders n tables a ↔ i < n ∧ a ∈ tables i := by
  rw [holders, Finset.mem_filter, Finset.mem_range]

theorem holders_update {i : Nat} (inRange : i < n) (table : List α) :
    holders n (Function.update tables i table) a =
      if a ∈ table then insert i (holders n tables a) else (holders n tables a).erase i := by
  ext j
  by_cases here : j = i
  · subst here
    split <;> simp_all [mem_holders]
  · split <;> simp [mem_holders, here]

/-- The count after table `i` has been replaced. -/
theorem card_holders_update (tables : Nat → List α) (a : α) {i : Nat} (inRange : i < n) (table : List α) :
    (holders n (Function.update tables i table) a).card + (if a ∈ tables i then 1 else 0) =
      (holders n tables a).card + (if a ∈ table then 1 else 0) := by
  have member : i ∈ holders n tables a ↔ a ∈ tables i := by
    rw [mem_holders]
    exact and_iff_right inRange
  rw [holders_update inRange]
  -- `i` is counted before the update or not, and after it or not
  by_cases old : a ∈ tables i
  · have positive := Finset.card_pos.mpr ⟨i, member.mpr old⟩
    rw [if_pos old]
    split
    · rw [Finset.insert_eq_of_mem (member.mpr old)]
    · rw [Finset.card_erase_of_mem (member.mpr old)]
      omega
  · have absent : i ∉ holders n tables a := fun h => old (member.mp h)
    rw [if_neg old]
    split
    · rw [Finset.card_insert_of_notMem absent]
    · rw [Finset.erase_eq_of_notMem absent]

/-- A cell with one holder is in no other table. -/
theorem notMem_of_card_le_one {i j : Nat} (single : (holders n tables a).card ≤ 1)
    (inRange : i < n) (holds : a ∈ tables i) (inRange' : j < n) (other : j ≠ i) : a ∉ tables j := by
  intro holds'
  have same := Finset.card_le_one.mp single j (mem_holders.mpr ⟨inRange', holds'⟩) i
    (mem_holders.mpr ⟨inRange, holds⟩)
  exact other same

end Sharing
