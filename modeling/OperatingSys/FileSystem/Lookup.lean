import OperatingSys.FileSystem.Operations

/-!
# Comparing names

When the bounded comparison of names that the search loops of fs.c use is equality of
names.
-/

namespace OperatingSys.FileSystem

/-- The characters of a buffer before its first NUL. -/
def beforeNul (buffer : List Byte) : List Byte := buffer.takeWhile (· ≠ 0#8)

theorem beforeNul_eq (buffer : List Byte) :
    beforeNul buffer = if buffer.headD 0#8 = 0#8 then []
      else buffer.headD 0#8 :: beforeNul buffer.tail := by
  cases buffer with
  | nil => simp [beforeNul]
  | cons x rest =>
    by_cases zero : x = 0#8
    · simp [beforeNul, zero]
    · simp [beforeNul, zero]

theorem zero_notMem_beforeNul (buffer : List Byte) : 0#8 ∉ beforeNul buffer := by
  intro member
  have nonzero := List.all_eq_true.mp (List.all_takeWhile (l := buffer)) 0#8 member
  simp at nonzero

theorem beforeNul_of_not_mem {chars : List Byte} (clean : 0#8 ∉ chars) :
    beforeNul chars = chars := by
  induction chars with
  | nil => rfl
  | cons x rest ih =>
    simp only [List.mem_cons, not_or] at clean
    have nonzero : x ≠ 0#8 := fun eq => clean.1 eq.symm
    rw [beforeNul_eq]
    simp [nonzero, ih clean.2]

/-- `strncmp` returns zero exactly when the first `n` characters agree. -/
theorem strncmp_eq_zero_iff (a b : List Byte) (n : Nat) :
    strncmp a b n = 0 ↔ (beforeNul a).take n = (beforeNul b).take n := by
  -- by induction on the number of characters still to compare; past its end a string reads as 0
  induction n generalizing a b with
  | zero => simp [strncmp]
  | succ n ih =>
    rw [strncmp, beforeNul_eq a, beforeNul_eq b]
    generalize a.headD 0#8 = x
    generalize b.headD 0#8 = y
    by_cases same : x = y
    · subst same
      by_cases zero : x = 0#8
      · simp [zero]
      · simpa [zero] using ih a.tail b.tail
    -- the first characters differ, and one of them may be the terminator
    · have difference : (x.toNat : Int) - y.toNat ≠ 0 := by
        intro zero
        exact same (BitVec.eq_of_toNat_eq (by omega))
      have apart : (if x = 0#8 then [] else x :: beforeNul a.tail).take (n + 1) ≠
          (if y = 0#8 then [] else y :: beforeNul b.tail).take (n + 1) := by
        by_cases zx : x = 0#8
        · have zy : y ≠ 0#8 := fun eq => same (zx.trans eq.symm)
          simp [zx, zy]
        · by_cases zy : y = 0#8
          · simp [zx, zy]
          · simp [zx, zy, same]
      simp only [ne_eq, same, not_false_eq_true, if_true]
      exact ⟨fun zero => absurd zero difference, fun eq => absurd eq apart⟩

/-- The field of a stored name: its characters, then zeros. -/
private theorem ofFn_strncpy (name : CString) :
    List.ofFn (strncpy name) =
      name.1.take maxFileName ++ List.replicate (maxFileName - name.1.length) 0#8 := by
  apply List.ext_getElem
  · simp
    omega
  · intro k inField _
    simp only [List.length_ofFn] at inField
    by_cases inside : k < name.1.length
    · have short : k < (name.1.take maxFileName).length := by simp; omega
      rw [List.getElem_append_left short]
      simp [strncpy, inside]
    · have long : (name.1.take maxFileName).length ≤ k := by simp; omega
      rw [List.getElem_append_right long]
      simp [strncpy, inside]

/-- The characters a directory entry keeps of a name. -/
theorem beforeNul_strncpy (name : CString) :
    beforeNul (List.ofFn (strncpy name)) = name.1.take maxFileName := by
  have clean : 0#8 ∉ name.1.take maxFileName := fun member => name.2 (List.mem_of_mem_take member)
  rw [ofFn_strncpy, beforeNul, List.takeWhile_append_of_pos]
  · simp
  · intro c member
    have nonzero : c ≠ 0#8 := fun eq => clean (eq ▸ member)
    simpa using nonzero

/-- A stored name matches a given one when they agree in their first 15 characters. -/
theorem stored_matches (stored name : CString) :
    strncmp (List.ofFn (strncpy stored)) name.1 maxFileName = 0 ↔
      stored.1.take maxFileName = name.1.take maxFileName := by
  rw [strncmp_eq_zero_iff, beforeNul_strncpy, beforeNul_of_not_mem name.2, List.take_take,
    Nat.min_self]

theorem strncmp_comm_zero (a b : List Byte) (n : Nat) :
    strncmp a b n = 0 ↔ strncmp b a n = 0 := by
  rw [strncmp_eq_zero_iff, strncmp_eq_zero_iff]
  exact eq_comm

/-- Among names that fit their field, matching is equality. -/
theorem stored_matches_short {stored name : CString} (fits : strlen stored ≤ maxFileName)
    (short : strlen name ≤ maxFileName) :
    strncmp (List.ofFn (strncpy stored)) name.1 maxFileName = 0 ↔ stored = name := by
  rw [stored_matches, List.take_of_length_le fits, List.take_of_length_le short]
  exact Subtype.ext_iff.symm

end OperatingSys.FileSystem
