import OperatingSys.Shell.Grammar

/-!
# Segments of a line

The tokens between two pipes belong to one command. What is read from them does not depend on
what follows the pipe, so that a line can be looked at segment by segment.
-/

namespace OperatingSys.Shell

/-- The tokens between the pipes. -/
def segments (tokens : List Token) : List (List Token) := tokens.splitOn .pipe

/-- A line is its first segment, alone or with a pipe and further segments after it. -/
theorem segments_cases (tokens : List Token) :
    ∃ segment, .pipe ∉ segment ∧
      ((tokens = segment ∧ segments tokens = [segment]) ∨
        ∃ more, tokens = segment ++ .pipe :: more ∧
          segments tokens = segment :: segments more) := by
  by_cases piped : .pipe ∈ tokens
  · obtain ⟨segment, more, rfl, first⟩ := List.eq_append_cons_of_mem piped
    exact ⟨segment, first, Or.inr ⟨more, rfl, List.splitOn_append_cons_self_of_not_mem first more⟩⟩
  · exact ⟨tokens, piped, Or.inl ⟨rfl, List.splitOn_eq_singleton piped⟩⟩

theorem segment_infix {tokens segment : List Token} (member : segment ∈ segments tokens) :
    segment <:+: tokens := by
  induction size : tokens.length using Nat.strong_induction_on generalizing tokens with
  | _ size ih =>
    obtain ⟨first, -, ⟨rfl, split⟩ | ⟨more, rfl, split⟩⟩ := segments_cases tokens
    · rw [split, List.mem_singleton] at member
      exact member ▸ List.infix_refl tokens
    · rw [split] at member
      rcases List.mem_cons.mp member with rfl | later
      · exact List.infix_append_left
      · have inside := ih more.length (by simp [← size]; omega) later rfl
        exact List.infix_append_of_infix_right (List.infix_cons inside)

/-! ### What follows makes no difference -/

section Append

variable {tail : List Token}

theorem readArgs_append (stops : Avoids tail .word) (segment : List Token) :
    readArgs (segment ++ tail) = (readArgs segment).map fun r => (r.1, r.2 ++ tail) := by
  induction segment with
  | nil => exact readArgs_words stops fun w member => absurd member List.not_mem_nil
  | cons first rest ih =>
    cases first with
    | word w =>
      rw [List.cons_append, readArgs, readArgs, ih]
      split
      · rfl
      · rw [Option.map_map, Option.map_map]
        rfl
    | _ => simp [readArgs]

theorem readRedirect_append {angle : Token} (notWord : angle.type ≠ .word)
    (avoids : Avoids tail angle.type) (stops : Avoids tail .word) (segment : List Token) :
    readRedirect angle (segment ++ tail) =
      (readRedirect angle segment).map fun r => (r.1, r.2 ++ tail) := by
  rcases readRedirect_cases notWord segment with
    ⟨absent, read⟩ | ⟨path, rest, rfl, short, read⟩ | ⟨rest, rfl, unusable, read⟩
  · rw [read, Option.map_some]
    apply readRedirect_avoids angle
    intro t head
    cases segment with
    | nil => exact avoids t head
    | cons first rest => exact absent t head
  · rw [read]
    simp [readRedirect, Nat.not_lt.mpr short]
  · rw [read, Option.map_none]
    -- the token after the angle is no path: neither in the segment nor after it
    have first : ∀ path, .word path ∈ (rest ++ tail).head? → path.length > maxWordLength := by
      intro path head
      cases rest with
      | nil => exact absurd rfl (stops (.word path) head)
      | cons second rest => exact unusable path head
    rw [List.cons_append]
    generalize rest ++ tail = after at first
    cases after with
    | nil => simp [readRedirect]
    | cons second more =>
      cases second with
      | word path => simp [readRedirect, first path rfl]
      | _ => simp [readRedirect]

theorem readRedirects_append (ends : Ends tail) (input output : Option Word)
    (segment : List Token) :
    readRedirects input output (segment ++ tail) =
      (readRedirects input output segment).map fun r => (r.1, r.2.1, r.2.2 ++ tail) := by
  have left := @readRedirect_append tail .leftAngle (by decide) ends.left ends.word
  have right := @readRedirect_append tail .rightAngle (by decide) ends.right ends.word
  fun_induction readRedirects input output segment with
  | case1 input output tokens first =>
    rw [readRedirects_eq, left, first]
    rfl
  | case2 input output tokens inPath rest first second =>
    rw [readRedirects_eq, left, first, Option.map_some]
    dsimp only
    rw [right, second]
    rfl
  | case3 input output tokens inPath rest first outPath rest' second both ih =>
    rw [readRedirects_eq, left, first, Option.map_some]
    dsimp only
    rw [right, second, Option.map_some]
    dsimp only
    rw [if_pos both, ih]
  | case4 input output tokens inPath rest first outPath rest' second both =>
    rw [readRedirects_eq, left, first, Option.map_some]
    dsimp only
    rw [right, second, Option.map_some]
    dsimp only
    rw [if_neg both]
    rfl

/-- What is read of a command is read from its segment. -/
theorem readCommand_append (ends : Ends tail) (segment : List Token) :
    readCommand (segment ++ tail) = (readCommand segment).map fun r => (r.1, r.2 ++ tail) := by
  rw [readCommand, readCommand, readArgs_append ends.word]
  cases readArgs segment with
  | none => rfl
  | some r =>
    dsimp only [Option.map_some]
    by_cases empty : r.1 = []
    · rw [if_pos empty, if_pos empty]
      rfl
    · rw [if_neg empty, if_neg empty, readRedirects_append ends]
      cases readRedirects none none r.2 with
      | none => rfl
      | some redirects => rfl

end Append

section Pipe

variable {segment more rest : List Token} {c : Command}

theorem readCommand_segment (read : readCommand (segment ++ .pipe :: more) = some (c, rest)) :
    ∃ r, readCommand segment = some (c, r) ∧ rest = r ++ .pipe :: more := by
  rw [readCommand_append (ends_pipe more)] at read
  obtain ⟨⟨c', r⟩, inSegment, eq⟩ := Option.map_eq_some_iff.mp read
  rw [Prod.mk.injEq] at eq
  obtain ⟨rfl, rfl⟩ := eq
  exact ⟨r, inSegment, rfl⟩

theorem readCommand_noPipe (noPipe : .pipe ∉ segment) (read : readCommand segment = some (c, rest)) :
    .pipe ∉ rest := by
  obtain ⟨used, rfl, -⟩ := readCommand_consumes read
  exact fun inside => noPipe (List.mem_append_right _ inside)

theorem avoids_pipe {tokens : List Token} (noPipe : .pipe ∉ tokens) : Avoids tokens .pipe := by
  intro t head same
  cases t with
  | pipe => exact noPipe (List.mem_of_mem_head? head)
  | _ => exact TokenType.noConfusion same

/-- A pipe that comes first comes right after the command. -/
theorem pipe_first {r after : List Token} (noPipe : .pipe ∉ r)
    (eq : .pipe :: after = r ++ .pipe :: more) : r = [] ∧ after = more := by
  cases r with
  | nil => exact ⟨rfl, by simpa using eq⟩
  | cons first r =>
    rw [List.cons_append, List.cons.injEq] at eq
    exact absurd (by simp [eq.1]) noPipe

end Pipe

end OperatingSys.Shell
