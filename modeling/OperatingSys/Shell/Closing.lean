import OperatingSys.Shell.Wiring
import OperatingSys.Shell.Grammar

/-!
# The shell closes what it opens (myshell.c)

Every `doCommand` opens the two ends of a pipe. The shell closes the write end at once, the
read end in the next `doCommand` that gets it as its input, and the read end of the last
command right away.
-/

namespace OperatingSys.Shell

open Descriptors

/-- The shell between two commands of the loop of `main`: what `doCommand` has returned, and the
process. -/
def betweenCommands (isBackground : Bool) : ShellProcess → (inputFd : Nat) →
    List PipelineCommand → List (Nat × ShellProcess)
  | s, inputFd, command :: next :: rest =>
    let (inputFd, _, s) := doCommand s command isBackground inputFd false
    (inputFd, s) :: betweenCommands isBackground s inputFd (next :: rest)
  | _, _, _ => []

/-- The descriptors are those of `own`, and `input` is one more if it is not standard input. -/
structure Carries (own : Nat → Option Description) (s : ShellProcess) (input : Nat) : Prop where
  stdin : own stdinFileno ≠ none
  same : ∀ fd, input = 0 ∨ fd ≠ input → s.table.entries fd = own fd
  extra : input ≠ 0 → own input = none ∧ s.table.entries input ≠ none

theorem Carries.start {s : ShellProcess} (stdin : s.table.entries stdinFileno ≠ none) :
    Carries s.table.entries s 0 :=
  ⟨stdin, fun _ _ => rfl, fun nonzero => absurd rfl nonzero⟩

/-- What the shell closes of a table. -/
theorem parentTable_closes (t : Table Description) (fd : Nat × Nat) (input n : Nat) (end_ : Bool) :
    (parentTable t fd input end_).entries n =
      if n = fd.2 ∨ (input ≠ 0 ∧ n = input) ∨ (end_ = true ∧ n = fd.1) then none
      else t.entries n := by
  split
  next closed =>
    simp only [parentTable]
    rcases closed with rfl | ⟨nonzero, rfl⟩ | ⟨last, rfl⟩
    · split <;> split <;> simp [Function.update_apply]
    · rw [if_pos nonzero]
      split <;> simp [Function.update_apply]
    · rw [if_pos last]
      simp
  next kept =>
    rw [not_or, not_or] at kept
    apply parentTable_entries t kept.1
    · intro nonzero here
      exact kept.2.1 ⟨nonzero, here⟩
    · intro last here
      exact kept.2.2 ⟨last, here⟩

section Carries

variable {own : Nat → Option Description} {s : ShellProcess} {input : Nat}
  (carries : Carries own s input)
include carries

/-- A closed descriptor of the shell is not one of `own`, and not the input. -/
theorem Carries.closed {fd : Nat} (closed : s.table.entries fd = none) :
    own fd = none ∧ fd ≠ 0 ∧ (input ≠ 0 → fd ≠ input) := by
  have apart : input ≠ 0 → fd ≠ input := by
    rintro nonzero rfl
    exact (carries.extra nonzero).2 closed
  have same := carries.same fd (or_iff_not_imp_left.mpr apart)
  rw [closed] at same
  refine ⟨same.symm, ?_, apart⟩
  rintro rfl
  exact carries.stdin same.symm

/-- `doCommand` leaves the read end of its pipe open, unless it is the last one, and nothing
else. -/
theorem Carries.doCommand (command : PipelineCommand) (isBackground end_ : Bool) :
    ∃ fd exec s', doCommand s command isBackground input end_ = (fd, exec, s') ∧
      own fd = none ∧ fd ≠ 0 ∧
      s'.table.entries = if end_ then own else Function.update own fd (some (.readEnd s.pipes)) := by
  obtain ⟨fd₀, fd₁, t, made, new₀, new₁, apart, entries⟩ :=
    s.table.pipe_spec (.readEnd s.pipes) (.writeEnd s.pipes)
  obtain ⟨absent₀, nonzero₀, other₀⟩ := carries.closed new₀
  obtain ⟨absent₁, nonzero₁, other₁⟩ := carries.closed new₁
  refine ⟨fd₀, ⟨command, childTable t command isBackground (fd₀, fd₁) input end_⟩,
    ⟨parentTable t (fd₀, fd₁) input end_, s.pipes + 1⟩, ?_, absent₀, nonzero₀, ?_⟩
  · simp only [Shell.doCommand, made]
  · have others : ∀ fd, fd ≠ fd₀ → (if end_ then own
        else Function.update own fd₀ (some (.readEnd s.pipes))) fd = own fd := by
      intro fd other
      split
      · rfl
      · exact Function.update_of_ne other _ _
    -- the parent closes the write end, its `input`, and the read end after the last command
    funext fd
    rw [parentTable_closes]
    by_cases write : fd = fd₁
    · rw [if_pos (Or.inl write), others fd (write ▸ Ne.symm apart), write, absent₁]
    by_cases read : fd = fd₀
    · subst read
      cases end_ with
      | true => rw [if_pos (Or.inr (Or.inr ⟨rfl, rfl⟩)), if_pos rfl, absent₀]
      | false =>
        have kept : ¬ (fd = fd₁ ∨ (input ≠ 0 ∧ fd = input) ∨ (false = true ∧ fd = fd)) := by
          rintro (here | ⟨nonzero, here⟩ | ⟨last, -⟩)
          · exact write here
          · exact other₀ nonzero here
          · simp at last
        rw [if_neg kept, entries, Function.update_of_ne write, Function.update_self,
          if_neg Bool.false_ne_true, Function.update_self]
    rw [others fd read]
    -- the descriptor handed on to this command is closed in the first table
    by_cases carried : input ≠ 0 ∧ fd = input
    · rw [if_pos (Or.inr (Or.inl carried)), carried.2, (carries.extra carried.1).1]
    · have kept : ¬ (fd = fd₁ ∨ (input ≠ 0 ∧ fd = input) ∨ (end_ = true ∧ fd = fd₀)) := by
        rintro (here | here | ⟨-, here⟩)
        · exact write here
        · exact carried here
        · exact read here
      rw [if_neg kept, entries, Function.update_of_ne write, Function.update_of_ne read]
      exact carries.same fd (or_iff_not_imp_left.mpr fun nonzero here => carried ⟨nonzero, here⟩)

/-- The next command gets the read end. -/
theorem Carries.next {s' : ShellProcess} {fd : Nat} {d : Description} (absent : own fd = none)
    (entries : s'.table.entries = Function.update own fd (some d)) : Carries own s' fd := by
  refine ⟨carries.stdin, fun fd' other => ?_, fun _ => ⟨absent, by simp [entries]⟩⟩
  rw [entries, Function.update_of_ne]
  rintro rfl
  rcases other with rfl | apart
  · exact carries.stdin absent
  · exact apart rfl

end Carries

/-! ### The whole pipeline -/

/-- By induction on the commands: the shell carries one descriptor from each to the next. -/
theorem runCommands_closes (isBackground : Bool) (commands : List PipelineCommand)
    {own : Nat → Option Description} {s : ShellProcess} {input : Nat}
    (carries : Carries own s input) (nonempty : commands ≠ []) :
    (∃ execs s', runCommands isBackground s input commands = some (execs, s') ∧
      s'.table.entries = own) ∧
    (betweenCommands isBackground s input commands).length + 1 = commands.length ∧
    ∀ between ∈ betweenCommands isBackground s input commands,
      own between.1 = none ∧ ∃ pipe,
        between.2.table.entries = Function.update own between.1 (some (.readEnd pipe)) := by
  induction commands generalizing s input with
  | nil => exact absurd rfl nonempty
  | cons command rest ih =>
    cases rest with
    | nil =>
      obtain ⟨fd, exec, s', done, -, -, entries⟩ := carries.doCommand command isBackground true
      refine ⟨⟨[exec], s', by simp only [runCommands, done], entries⟩, rfl, ?_⟩
      intro between member
      exact absurd member List.not_mem_nil
    | cons next rest =>
      obtain ⟨fd, exec, s', done, absent, -, entries⟩ := carries.doCommand command isBackground false
      obtain ⟨⟨execs, s'', ran, restored⟩, length, later⟩ := ih (carries.next absent entries) (by simp)
      refine ⟨⟨exec :: execs, s'', ?_, restored⟩, ?_, ?_⟩
      · simp only [runCommands, done, ran, Option.map_some]
      · simp only [betweenCommands, done, List.length_cons, length]
      · intro between member
        simp only [betweenCommands, done] at member
        rcases List.mem_cons.mp member with rfl | more
        · exact ⟨absent, _, entries⟩
        · exact later between more

/-- **No descriptor leaks.** After all commands of an accepted line the shell has the descriptors
that it had before, and between two commands one more, the read end for the next command. -/
theorem runPipeline_closes {garbage : Nat → Nat → Option Word} {line : List Char}
    {pipeline : Pipeline} (accepted : pipelineBuild garbage line = some (some pipeline))
    {s : ShellProcess} (stdin : s.table.entries stdinFileno ≠ none) :
    (∃ execs s', runPipeline s pipeline = some (execs, s') ∧
      s'.table.entries = s.table.entries) ∧
    (betweenCommands pipeline.isBackground s 0 pipeline.commands).length + 1 =
      pipeline.commands.length ∧
    ∀ between ∈ betweenCommands pipeline.isBackground s 0 pipeline.commands,
      s.table.entries between.1 = none ∧ ∃ pipe, between.2.table.entries =
        Function.update s.table.entries between.1 (some (.readEnd pipe)) := by
  have nonempty : pipeline.commands ≠ [] := by
    intro empty
    apply (pipelineBuild_sound accepted).nonempty
    simp [Pipeline.view, empty]
  exact runCommands_closes pipeline.isBackground pipeline.commands (Carries.start stdin) nonempty

/-- The line `a >o | b | c &`. -/
theorem runPipeline_closes_three :
    ∃ pipeline execs s', pipelineBuild (fun _ _ => none)
        ['a', ' ', '>', 'o', '|', 'b', '|', 'c', '&', '\n'] = some (some pipeline) ∧
      runPipeline loginShell pipeline = some (execs, s') ∧
      s'.table.entries = loginShell.table.entries := by
  obtain ⟨pipeline, accepted, -⟩ := pipelineBuild_of_view
    (show (pipelineBuild (fun _ _ => none)
      ['a', ' ', '>', 'o', '|', 'b', '|', 'c', '&', '\n']).map (Option.map Pipeline.view) =
      some (some ⟨[⟨[['a']], none, some ['o']⟩, ⟨[['b']], none, none⟩, ⟨[['c']], none, none⟩],
        true⟩) by decide)
  obtain ⟨execs, s', ran, entries⟩ :=
    (runPipeline_closes accepted (loginShell_started.standard 0 (by decide))).1
  exact ⟨pipeline, execs, s', accepted, ran, entries⟩

end OperatingSys.Shell
