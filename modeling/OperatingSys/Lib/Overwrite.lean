import Mathlib.Logic.Basic

/-!
# Overwriting a segment of a list

Writing `data` at a position of a list replaces what is there and extends the list when
`data` reaches past its end. Consecutive writes compose into one.
-/

namespace List

variable {α : Type*}

/-- `data` written over `old` from position `off` on. -/
def overwrite (old : List α) (off : Nat) (data : List α) : List α :=
  old.take off ++ data ++ old.drop (off + data.length)

theorem length_overwrite {old data : List α} {off : Nat} (inside : off ≤ old.length) :
    (overwrite old off data).length = max old.length (off + data.length) := by
  simp only [overwrite, length_append, length_take, length_drop]
  omega

theorem getElem?_overwrite {old data : List α} {off : Nat} (inside : off ≤ old.length) (p : Nat) :
    (overwrite old off data)[p]? =
      if off ≤ p ∧ p < off + data.length then data[p - off]? else old[p]? := by
  have front : (old.take off).length = off := by
    rw [length_take]
    omega
  by_cases before : p < off
  · rw [if_neg (by omega), overwrite, append_assoc, getElem?_append_left (by omega),
      getElem?_take_of_lt before]
  · by_cases written : p < off + data.length
    · rw [if_pos (by omega), overwrite, getElem?_append_left (by simp; omega),
        getElem?_append_right (by omega), front]
    · rw [if_neg (by omega), overwrite, getElem?_append_right (by simp; omega), getElem?_drop,
        length_append, front]
      congr 1
      omega

@[simp] theorem overwrite_nil (old : List α) (off : Nat) : overwrite old off [] = old := by
  simp [overwrite]

/-- Two writes in a row are one write of both pieces. -/
theorem overwrite_append {old : List α} {off : Nat} (inside : off ≤ old.length) (a b : List α) :
    overwrite (overwrite old off a) (off + a.length) b = overwrite old off (a ++ b) := by
  have reaches : off + a.length ≤ (overwrite old off a).length := by
    rw [length_overwrite inside]
    omega
  apply ext_getElem?
  intro p
  rw [getElem?_overwrite reaches, getElem?_overwrite inside, getElem?_overwrite inside,
    length_append]
  by_cases second : off + a.length ≤ p ∧ p < off + a.length + b.length
  · rw [if_pos second, if_pos (by omega), getElem?_append_right (by omega)]
    congr 1
    omega
  · rw [if_neg second]
    by_cases first : off ≤ p ∧ p < off + a.length
    · rw [if_pos first, if_pos (by omega), getElem?_append_left (by omega)]
    · rw [if_neg first, if_neg (by omega)]

end List
