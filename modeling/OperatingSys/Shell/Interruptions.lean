import OperatingSys.Shell.Running

/-!
# Interrupted reads

`main` does not look at what `fgets` returns, only at whether it has met the end of the file. When
SIGCHLD interrupts `fgets`, the buffer still holds the line before, and that is built and run
once more.
-/

namespace OperatingSys.Shell

variable {s s' : Session} {effect : Option Effect}

/-! ### Lines -/

/-- Zombies have been heard of. -/
def Session.Heard (s : Session) : Prop :=
  ∀ child ∈ s.children, child.exited = true → s.pending = true

/-- The children and the signal are as before, or there is a new child. -/
theorem Session.Heard.mono (heard : s.Heard) (pending : s'.pending = s.pending)
    (children : ∀ child ∈ s'.children, child.exited = true → child ∈ s.children) : s'.Heard := by
  intro child member exited
  rw [pending]
  exact heard child (children child member exited) exited

theorem Session.Continues.running (continues : s.Continues s') :
    ∀ freed, s'.control ≠ .ended freed := by
  rcases continues.control with control | ⟨input, control⟩ <;> simp [control]

section Runs

variable {t : Session} {events : List Event} {outputs : List (Option Effect)}

end Runs

end OperatingSys.Shell
