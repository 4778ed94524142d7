import Mathlib.Logic.Function.Basic
import OperatingSys.Lib.Search

/-!
# Descriptor tables

The descriptors of a process, as POSIX has them: each is closed or refers to an open file
description, a new one is the lowest that is closed, and `dup2` from a closed one changes
nothing. Only finitely many are open, so that there always is a closed one.
-/

namespace Descriptors

open Search

structure Table (δ : Type*) where
  entries : Nat → Option δ
  bound : Nat
  closed : ∀ fd, bound ≤ fd → entries fd = none

namespace Table

variable {δ : Type*} (t : Table δ)

/-- The lowest closed descriptor. -/
def lowest : Nat := (firstIndex t.bound fun fd => (t.entries fd).isNone).getD t.bound

theorem entries_lowest : t.entries t.lowest = none := by
  unfold lowest
  cases search : firstIndex t.bound fun fd => (t.entries fd).isNone with
  | none => exact t.closed _ (Nat.le_refl _)
  | some fd => simpa using (firstIndex_eq_some.mp search).2.1

theorem ne_lowest {fd : Nat} (isOpen : t.entries fd ≠ none) : fd ≠ t.lowest := by
  rintro rfl
  exact isOpen t.entries_lowest

/-- Descriptor `fd` refers to `d`. -/
def install (fd : Nat) (d : δ) : Table δ where
  entries := Function.update t.entries fd (some d)
  bound := max t.bound (fd + 1)
  closed := fun fd' above => by
    rw [Function.update_of_ne (by omega)]
    exact t.closed fd' (by omega)

@[simp] theorem install_entries (fd : Nat) (d : δ) :
    (t.install fd d).entries = Function.update t.entries fd (some d) := rfl

/-- `open`: the new descriptor and the table. -/
def openFile (d : δ) : Nat × Table δ := (t.lowest, t.install t.lowest d)

def close (fd : Nat) : Table δ where
  entries := Function.update t.entries fd none
  bound := t.bound
  closed := fun fd' above => by
    by_cases same : fd' = fd
    · simp [same]
    · rw [Function.update_of_ne same]
      exact t.closed fd' above

@[simp] theorem close_entries (fd : Nat) :
    (t.close fd).entries = Function.update t.entries fd none := rfl

/-- `dup2`: a closed `old` leaves the table as it is. -/
def dup2 (old new : Nat) : Table δ :=
  match t.entries old with
  | none => t
  | some d => t.install new d

theorem dup2_of_open {old : Nat} {d : δ} (isOpen : t.entries old = some d) (new : Nat) :
    t.dup2 old new = t.install new d := by
  rw [dup2, isOpen]

theorem dup2_of_closed {old : Nat} (closed : t.entries old = none) (new : Nat) :
    t.dup2 old new = t := by
  rw [dup2, closed]

theorem dup2_self_entries (fd : Nat) : (t.dup2 fd fd).entries = t.entries := by
  cases found : t.entries fd with
  | none => rw [dup2_of_closed _ found]
  | some d => rw [dup2_of_open _ found, install_entries, ← found, Function.update_eq_self]

/-- `pipe`: the descriptors of the two ends and the table. -/
def pipe (readEnd writeEnd : δ) : (Nat × Nat) × Table δ :=
  let (fd₀, t) := t.openFile readEnd
  let (fd₁, t) := t.openFile writeEnd
  ((fd₀, fd₁), t)

/-- The two descriptors of a pipe are new and differ from each other. -/
theorem pipe_spec (readEnd writeEnd : δ) :
    ∃ fd₀ fd₁ t', t.pipe readEnd writeEnd = ((fd₀, fd₁), t') ∧ t.entries fd₀ = none ∧
      t.entries fd₁ = none ∧ fd₀ ≠ fd₁ ∧
      t'.entries = Function.update (Function.update t.entries fd₀ (some readEnd)) fd₁
        (some writeEnd) := by
  have second := (t.install t.lowest readEnd).entries_lowest
  have ne : t.lowest ≠ (t.install t.lowest readEnd).lowest :=
    (t.install t.lowest readEnd).ne_lowest (by simp)
  rw [install_entries, Function.update_of_ne ne.symm] at second
  exact ⟨_, _, _, rfl, t.entries_lowest, second, ne, rfl⟩

/-- Opening a file, moving it to an open descriptor and closing the one it was opened at. -/
theorem redirect_entries {fd : Nat} (isOpen : t.entries fd ≠ none) (d : δ) :
    (((t.openFile d).2.dup2 (t.openFile d).1 fd).close (t.openFile d).1).entries =
      Function.update t.entries fd (some d) := by
  have ne := t.ne_lowest isOpen
  have found : (t.openFile d).2.entries (t.openFile d).1 = some d := by simp [openFile]
  rw [dup2_of_open _ found]
  simp only [openFile, close_entries, install_entries]
  funext fd'
  by_cases opened : fd' = t.lowest
  · subst opened
    rw [Function.update_self, Function.update_of_ne ne.symm, t.entries_lowest]
  · rw [Function.update_of_ne opened]
    by_cases target : fd' = fd
    · subst target
      rw [Function.update_self, Function.update_self]
    · rw [Function.update_of_ne target, Function.update_of_ne target, Function.update_of_ne opened]

end Table

end Descriptors
