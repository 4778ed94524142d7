import Mathlib.Logic.Basic

/-!
# Singly linked lists in a heap

`Linked` relates a pointer to the cells that it leads to, with their addresses. The nodes of
the heap are of any type that has a value and a next pointer.
-/

namespace LinkedList

variable {A α ν : Type*} (value : ν → α) (next : ν → Option A)

/-- The pointer leads through the heap to the cells, in this order. -/
def Linked (heap : A → Option ν) : Option A → List (A × α) → Prop
  | p, [] => p = none
  | p, (a, x) :: rest =>
    p = some a ∧ ∃ node, heap a = some node ∧ value node = x ∧ Linked heap (next node) rest

/-- The values that lie on the way of a pointer, up to `fuel` of them. -/
def follow (heap : A → Option ν) : (fuel : Nat) → Option A → List α
  | 0, _ => []
  | _ + 1, none => []
  | fuel + 1, some a =>
    match heap a with
    | none => []
    | some node => value node :: follow heap fuel (next node)

variable {value next} {heap heap' : A → Option ν} {p : Option A} {cells : List (A × α)}

/-- Only the nodes of the list matter. -/
theorem Linked.congr (linked : Linked value next heap p cells)
    (kept : ∀ cell ∈ cells, heap' cell.1 = heap cell.1) : Linked value next heap' p cells := by
  induction cells generalizing p with
  | nil => exact linked
  | cons cell rest ih =>
    obtain ⟨points, node, here, holds, tail⟩ := linked
    refine ⟨points, node, ?_, holds, ih tail fun other member => kept other (by simp [member])⟩
    rw [kept cell (by simp), here]

theorem Linked.lookup (linked : Linked value next heap p cells) {cell : A × α}
    (member : cell ∈ cells) : ∃ node, heap cell.1 = some node ∧ value node = cell.2 := by
  induction cells generalizing p with
  | nil => exact absurd member List.not_mem_nil
  | cons first rest ih =>
    obtain ⟨-, node, here, holds, tail⟩ := linked
    rcases List.mem_cons.mp member with rfl | later
    · exact ⟨node, here, holds⟩
    · exact ih tail later

/-- Enough fuel leads through the whole list. -/
theorem Linked.follow_eq {fuel : Nat} (linked : Linked value next heap p cells)
    (short : cells.length ≤ fuel) : follow value next heap fuel p = cells.map Prod.snd := by
  induction cells generalizing p fuel with
  | nil =>
    cases fuel with
    | zero => rfl
    | succ fuel => rw [linked, follow, List.map_nil]
  | cons cell rest ih =>
    obtain ⟨points, node, here, holds, tail⟩ := linked
    cases fuel with
    | zero => exact absurd short (Nat.not_succ_le_zero _)
    | succ fuel =>
      simp only [points, follow, here, holds, List.map_cons]
      rw [ih tail (Nat.le_of_succ_le_succ short)]

/-- A new last node, to which the old last one now points. -/
theorem Linked.append {front : List (A × α)} {last a : A} {x y : α}
    (linked : Linked value next heap p (front ++ [(last, x)]))
    (kept : ∀ cell ∈ front, heap' cell.1 = heap cell.1)
    (joined : ∃ node, heap' last = some node ∧ value node = x ∧ next node = some a)
    (added : ∃ node, heap' a = some node ∧ value node = y ∧ next node = none) :
    Linked value next heap' p (front ++ [(last, x)] ++ [(a, y)]) := by
  induction front generalizing p with
  | nil =>
    obtain ⟨node, here, holds, points⟩ := joined
    obtain ⟨node', here', holds', ends⟩ := added
    exact ⟨linked.1, node, here, holds, points, node', here', holds', ends⟩
  | cons cell rest ih =>
    obtain ⟨points, node, here, holds, tail⟩ := linked
    refine ⟨points, node, ?_, holds, ih tail fun other member => kept other (by simp [member])⟩
    rw [kept cell (by simp), here]

end LinkedList
