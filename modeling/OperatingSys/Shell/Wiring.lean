import OperatingSys.Lib.Descriptors
import OperatingSys.Shell.Parser

/-!
# Running a pipeline (myshell.c)

`doCommand` and the loop of `main` over the commands of a pipeline, as far as descriptors go:
the table of the shell, and that of each child when it calls `execvp`. All calls succeed but
for a `dup2` from a closed descriptor. Waiting for a child moves no descriptor.
-/

namespace OperatingSys.Shell

open Descriptors

/-- Open file descriptions: one of those that were there at the start, an end of the pipe with
this number, or a file opened with `O_RDONLY` or with `O_WRONLY | O_CREAT | O_TRUNC`. -/
inductive Description where
  | inherited (id : Nat)
  | readEnd (pipe : Nat)
  | writeEnd (pipe : Nat)
  | fileIn (path : Word)
  | fileOut (path : Word)
  deriving DecidableEq

def stdinFileno : Nat := 0

def stdoutFileno : Nat := 1

/-- The descriptors of the shell and how many pipes it has made. -/
structure ShellProcess where
  table : Table Description
  pipes : Nat

/-- `execvp` of a command, with the descriptors of the child that calls it. -/
structure Exec where
  command : PipelineCommand
  table : Table Description

/-- `open`, `dup2` to `fileno` and `close`, if there is a path. -/
def redirect (t : Table Description) (file : Word → Description) (fileno : Nat) :
    Option Word → Table Description
  | none => t
  | some path =>
    let (fd, t) := t.openFile (file path)
    (t.dup2 fd fileno).close fd

/-- The child of `doCommand` up to `execvp`. -/
def childTable (t : Table Description) (command : PipelineCommand) (isBackground : Bool)
    (fd : Nat × Nat) (input : Nat) (end_ : Bool) : Table Description :=
  let t := redirect t .fileOut stdoutFileno command.redirectOutPath
  let t := redirect t .fileIn stdinFileno command.redirectInPath
  let t := if isBackground then t.close fd.2 else t
  if !end_ ∧ input = 0 then t.dup2 fd.2 stdoutFileno
  else if !end_ ∧ input ≠ 0 then (t.dup2 input stdinFileno).dup2 fd.2 stdoutFileno
  else t.dup2 input stdinFileno

/-- The parent of `doCommand`. -/
def parentTable (t : Table Description) (fd : Nat × Nat) (input : Nat) (end_ : Bool) :
    Table Description :=
  let t := t.close fd.2
  let t := if input ≠ 0 then t.close input else t
  if end_ then t.close fd.1 else t

/-- `doCommand` on the first of the commands: `fd[0]`, what the child executes, and the shell
afterwards. -/
def doCommand (s : ShellProcess) (command : PipelineCommand) (isBackground : Bool) (input : Nat)
    (end_ : Bool) : Nat × Exec × ShellProcess :=
  let (fd, t) := s.table.pipe (.readEnd s.pipes) (.writeEnd s.pipes)
  (fd.1, { command, table := childTable t command isBackground fd input end_ },
    { table := parentTable t fd input end_, pipes := s.pipes + 1 })

/-- The loop of `main` over the commands and the last call after it; without a first command
it goes through a null pointer. -/
def runCommands (isBackground : Bool) : ShellProcess → (inputFd : Nat) → List PipelineCommand →
    Option (List Exec × ShellProcess)
  | _, _, [] => none
  | s, inputFd, [command] =>
    let (_, exec, s) := doCommand s command isBackground inputFd true
    some ([exec], s)
  | s, inputFd, command :: next :: rest =>
    let (inputFd, exec, s) := doCommand s command isBackground inputFd false
    (runCommands isBackground s inputFd (next :: rest)).map fun r => (exec :: r.1, r.2)

def runPipeline (s : ShellProcess) (pipeline : Pipeline) : Option (List Exec × ShellProcess) :=
  runCommands pipeline.isBackground s 0 pipeline.commands

/-! ### What a child gets -/

/-- What `input` is for a command: the pipe of the command before it can be read there, if
there is one. -/
def Feeds (t : Table Description) (input : Nat) : (previous : Option Nat) → Prop
  | none => input = 0
  | some pipe => 2 < input ∧ t.entries input = some (.readEnd pipe)

/-- The standard descriptors are open, and are those of `own`. -/
def Standard (own : Nat → Option Description) (t : Table Description) : Prop :=
  ∀ fd ≤ 2, own fd ≠ none ∧ t.entries fd = own fd

/-- Standard input at `execvp`. -/
def actualIn (own : Nat → Option Description) (previous : Option Nat) (command : PipelineCommand) :
    Option Description :=
  match previous with
  | none => command.redirectInPath.elim (own stdinFileno) fun path => some (.fileIn path)
  | some pipe => some (.readEnd pipe)

/-- Standard output at `execvp`; `pipe` is the one made for the command. -/
def actualOut (own : Nat → Option Description) (pipe : Nat) (isBackground end_ : Bool)
    (command : PipelineCommand) : Option Description :=
  if end_ = true ∨ isBackground = true then
    command.redirectOutPath.elim (own stdoutFileno) fun path => some (.fileOut path)
  else some (.writeEnd pipe)

theorem redirect_entries (t : Table Description) (file : Word → Description) {fileno : Nat}
    (isOpen : t.entries fileno ≠ none) (path : Option Word) :
    (redirect t file fileno path).entries =
      path.elim t.entries fun p => Function.update t.entries fileno (some (file p)) := by
  cases path with
  | none => rfl
  | some p => exact t.redirect_entries isOpen (file p)

section Child

variable {own : Nat → Option Description} {t : Table Description}

/-- The table of the child once the redirects are done. -/
theorem redirect_redirect_entries (command : PipelineCommand) (stdin : t.entries stdinFileno ≠ none)
    (stdout : t.entries stdoutFileno ≠ none) :
    ∃ t', redirect (redirect t .fileOut stdoutFileno command.redirectOutPath) .fileIn stdinFileno
        command.redirectInPath = t' ∧
      t'.entries stdinFileno =
        command.redirectInPath.elim (t.entries stdinFileno) (fun p => some (.fileIn p)) ∧
      t'.entries stdoutFileno =
        command.redirectOutPath.elim (t.entries stdoutFileno) (fun p => some (.fileOut p)) ∧
      ∀ fd, 2 < fd → t'.entries fd = t.entries fd := by
  have out := redirect_entries t .fileOut stdout command.redirectOutPath
  have still : (redirect t .fileOut stdoutFileno command.redirectOutPath).entries stdinFileno =
      t.entries stdinFileno := by
    rw [out]
    cases command.redirectOutPath <;> rfl
  refine ⟨_, rfl, ?_⟩
  rw [redirect_entries _ _ (still ▸ stdin), out]
  refine ⟨?_, ?_, fun fd above => ?_⟩
  · cases command.redirectInPath <;> cases command.redirectOutPath <;> rfl
  · cases command.redirectInPath <;> cases command.redirectOutPath <;> rfl
  · have notIn : fd ≠ stdinFileno := by simp only [stdinFileno]; omega
    have notOut : fd ≠ stdoutFileno := by simp only [stdoutFileno]; omega
    cases command.redirectInPath <;> cases command.redirectOutPath <;> simp [notIn, notOut]

/-- The descriptors of a child at `execvp`. -/
theorem childTable_entries (command : PipelineCommand) (isBackground end_ : Bool) (fd : Nat × Nat)
    {input pipe : Nat} {previous : Option Nat} (standard : Standard own t)
    (high : 2 < fd.2) (writes : t.entries fd.2 = some (.writeEnd pipe))
    (feeds : Feeds t input previous) :
    (childTable t command isBackground fd input end_).entries stdinFileno =
        actualIn own previous command ∧
      (childTable t command isBackground fd input end_).entries stdoutFileno =
        actualOut own pipe isBackground end_ command := by
  obtain ⟨someIn, sameIn⟩ := standard stdinFileno (by decide)
  obtain ⟨someOut, sameOut⟩ := standard stdoutFileno (by decide)
  obtain ⟨t', redirected, stdin, stdout, others⟩ :=
    redirect_redirect_entries command (sameIn ▸ someIn) (sameOut ▸ someOut)
  rw [sameIn] at stdin
  rw [sameOut] at stdout
  -- `close(fd[1])` in the background, before `fd[1]` is used
  obtain ⟨t'', closed, stdin', stdout', write', others'⟩ : ∃ t'',
      (if isBackground = true then t'.close fd.2 else t') = t'' ∧
      t''.entries stdinFileno = t'.entries stdinFileno ∧
      t''.entries stdoutFileno = t'.entries stdoutFileno ∧
      t''.entries fd.2 = (if isBackground = true then none else some (.writeEnd pipe)) ∧
      ∀ n ≠ fd.2, t''.entries n = t'.entries n := by
    refine ⟨_, rfl, ?_⟩
    have notIn : stdinFileno ≠ fd.2 := by simp only [stdinFileno]; omega
    have notOut : stdoutFileno ≠ fd.2 := by simp only [stdoutFileno]; omega
    cases isBackground with
    | false => exact ⟨rfl, rfl, (others _ high).trans writes, fun _ _ => rfl⟩
    | true =>
      simp only [if_true, Table.close_entries, Function.update_self]
      exact ⟨Function.update_of_ne notIn _ _, Function.update_of_ne notOut _ _, trivial,
        fun n other => Function.update_of_ne other _ _⟩
  rw [stdin] at stdin'
  rw [stdout] at stdout'
  -- what `dup2(fd[1], STDOUT_FILENO)` makes of the table
  have piped : ∀ u : Table Description, u.entries fd.2 = t''.entries fd.2 →
      u.entries stdoutFileno = t''.entries stdoutFileno →
      (u.dup2 fd.2 stdoutFileno).entries stdinFileno = u.entries stdinFileno ∧
        (u.dup2 fd.2 stdoutFileno).entries stdoutFileno =
          actualOut own pipe isBackground false command := by
    intro u same same'
    rw [write'] at same
    cases isBackground with
    | false =>
      rw [Table.dup2_of_open u same]
      exact ⟨rfl, rfl⟩
    | true =>
      rw [Table.dup2_of_closed u same, same', stdout']
      exact ⟨rfl, rfl⟩
  simp only [childTable, redirected, closed]
  cases previous with
  | none =>
    obtain rfl : input = 0 := feeds
    cases end_ with
    | false =>
      obtain ⟨stdin'', stdout''⟩ := piped t'' rfl rfl
      exact ⟨stdin''.trans stdin', stdout''⟩
    | true =>
      have same := t''.dup2_self_entries stdinFileno
      simp only [Bool.not_true, Bool.false_eq_true, false_and, if_false]
      exact ⟨(congrFun same _).trans stdin', (congrFun same _).trans stdout'⟩
  | some pipe' =>
    obtain ⟨above, readable⟩ := feeds
    have other : input ≠ fd.2 := by
      rintro rfl
      rw [writes] at readable
      exact absurd readable (by simp)
    have nonzero : input ≠ 0 := by omega
    have found : t''.entries input = some (.readEnd pipe') := by
      rw [others' input other, others input above, readable]
    have notIn : fd.2 ≠ stdinFileno := by simp only [stdinFileno]; omega
    simp only [nonzero, and_false, if_false, ne_eq, not_false_eq_true, and_true]
    rw [Table.dup2_of_open t'' found]
    cases end_ with
    | false =>
      obtain ⟨stdin'', stdout''⟩ := piped (t''.install stdinFileno (.readEnd pipe'))
        (Function.update_of_ne notIn _ _) rfl
      exact ⟨stdin'', stdout''⟩
    | true => exact ⟨rfl, stdout'⟩

end Child

/-! ### The whole pipeline -/

/-- The pipe of the command before number `k`, when the first pipe has number `base`. -/
def previousPipe (base : Nat) : (k : Nat) → Option Nat
  | 0 => none
  | k + 1 => some (base + k)

theorem parentTable_entries (t : Table Description) {fd : Nat × Nat} {input n : Nat} {end_ : Bool}
    (notWrite : n ≠ fd.2) (notInput : input ≠ 0 → n ≠ input) (notRead : end_ = true → n ≠ fd.1) :
    (parentTable t fd input end_).entries n = t.entries n := by
  have first : (t.close fd.2).entries n = t.entries n := Function.update_of_ne notWrite _ _
  have second : (if input ≠ 0 then (t.close fd.2).close input else t.close fd.2).entries n =
      t.entries n := by
    split
    next nonzero => exact (Function.update_of_ne (notInput nonzero) _ _).trans first
    next => exact first
  simp only [parentTable]
  split
  next last => exact (Function.update_of_ne (notRead last) _ _).trans second
  next => exact second

/-- `doCommand` hands the read end of its pipe to the next command. -/
theorem doCommand_spec {own : Nat → Option Description} {s : ShellProcess} {input base k : Nat}
    (standard : Standard own s.table) (feeds : Feeds s.table input (previousPipe base k))
    (pipes : s.pipes = base + k) (command : PipelineCommand) (isBackground end_ : Bool) :
    ∃ inputFd exec s', doCommand s command isBackground input end_ = (inputFd, exec, s') ∧
      exec.table.entries stdinFileno = actualIn own (previousPipe base k) command ∧
      exec.table.entries stdoutFileno = actualOut own (base + k) isBackground end_ command ∧
      Standard own s'.table ∧ s'.pipes = base + (k + 1) ∧
      (end_ = false → Feeds s'.table inputFd (previousPipe base (k + 1))) := by
  obtain ⟨fd₀, fd₁, t, made, new₀, new₁, apart, entries⟩ :=
    s.table.pipe_spec (.readEnd s.pipes) (.writeEnd s.pipes)
  -- the standard descriptors are open, so `pipe` hands out higher ones
  have high : ∀ fd, s.table.entries fd = none → 2 < fd := by
    intro fd closed
    by_contra low
    obtain ⟨isOpen, same⟩ := standard fd (by omega)
    exact isOpen (same ▸ closed)
  have high₀ := high fd₀ new₀
  have high₁ := high fd₁ new₁
  have others : ∀ fd, fd ≠ fd₀ → fd ≠ fd₁ → t.entries fd = s.table.entries fd := by
    intro fd other₀ other₁
    rw [entries, Function.update_of_ne other₁, Function.update_of_ne other₀]
  have reads : t.entries fd₀ = some (.readEnd s.pipes) := by
    rw [entries, Function.update_of_ne apart, Function.update_self]
  have writes : t.entries fd₁ = some (.writeEnd s.pipes) := by rw [entries, Function.update_self]
  have standard' : Standard own t := by
    intro fd low
    rw [others fd (by omega) (by omega)]
    exact standard fd low
  -- the new pipe takes closed descriptors, so the child still reads from the previous one
  have feeds' : Feeds t input (previousPipe base k) := by
    cases k with
    | zero => exact feeds
    | succ k =>
      obtain ⟨above, readable⟩ := feeds
      refine ⟨above, ?_⟩
      rw [others input (fun eq => ?_) (fun eq => ?_)]
      · exact readable
      · rw [eq, new₀] at readable
        exact absurd readable (by simp)
      · rw [eq, new₁] at readable
        exact absurd readable (by simp)
  obtain ⟨stdin, stdout⟩ := childTable_entries command isBackground end_ (fd₀, fd₁) standard'
    high₁ writes feeds'
  rw [pipes] at stdout
  -- what the parent closes as `input` is open, and so neither standard nor the new read end
  have fed : input ≠ 0 → 2 < input ∧ s.table.entries input ≠ none := by
    intro nonzero
    cases k with
    | zero => exact absurd feeds nonzero
    | succ k => exact ⟨feeds.1, by simp [feeds.2]⟩
  refine ⟨fd₀, ⟨command, childTable t command isBackground (fd₀, fd₁) input end_⟩,
    ⟨parentTable t (fd₀, fd₁) input end_, s.pipes + 1⟩, ?_, stdin, stdout, fun fd low => ?_, ?_, fun more => ⟨high₀, ?_⟩⟩
  · simp only [doCommand, made]
  · dsimp only
    rw [parentTable_entries t (by dsimp only; omega) (fun nonzero => by have := (fed nonzero).1; omega)
      (fun _ => by dsimp only; omega)]
    exact standard' fd low
  · dsimp only
    omega
  · dsimp only
    rw [parentTable_entries t apart (fun nonzero eq => (fed nonzero).2 (eq ▸ new₀))
      (fun last => absurd (more.symm.trans last) (by decide)), reads, pipes]

/-- **What the commands get.** The standard descriptors of every child. -/
theorem runCommands_spec {own : Nat → Option Description} (isBackground : Bool) (base : Nat)
    (commands : List PipelineCommand) :
    ∀ {s : ShellProcess} (input k : Nat), Standard own s.table →
      Feeds s.table input (previousPipe base k) → s.pipes = base + k → commands ≠ [] →
      ∃ execs s', runCommands isBackground s input commands = some (execs, s') ∧
        execs.length = commands.length ∧
        ∀ j command, commands[j]? = some command → ∃ exec, execs[j]? = some exec ∧
          exec.table.entries stdinFileno = actualIn own (previousPipe base (k + j)) command ∧
          exec.table.entries stdoutFileno =
            actualOut own (base + (k + j)) isBackground (j + 1 = commands.length) command := by
  -- Induction on the commands. Each one leaves the standard descriptors alone and feeds the next
  -- one from its own pipe.
  induction commands with
  | nil => exact fun _ _ _ _ _ nonempty => absurd rfl nonempty
  | cons command rest ih =>
    intro s input k standard feeds pipes _
    cases rest with
    | nil =>
      obtain ⟨inputFd, exec, s', done, stdin, stdout, -, -, -⟩ :=
        doCommand_spec standard feeds pipes command isBackground true
      refine ⟨[exec], s', by simp only [runCommands, done], rfl, fun j command' found => ?_⟩
      cases j with
      | zero =>
        obtain rfl : command = command' := by simpa using found
        exact ⟨exec, rfl, stdin, stdout⟩
      | succ j => simp at found
    | cons next rest =>
      obtain ⟨inputFd, exec, s', done, stdin, stdout, standard', pipes', feeds'⟩ :=
        doCommand_spec standard feeds pipes command isBackground false
      obtain ⟨execs, s'', ran, length, each⟩ := ih inputFd (k + 1) standard' (feeds' rfl) pipes' (by simp)
      refine ⟨exec :: execs, s'', ?_, by simp [length], fun j command' found => ?_⟩
      · simp only [runCommands, done, ran, Option.map_some]
      · cases j with
        | zero =>
          obtain rfl : command = command' := by simpa using found
          exact ⟨exec, rfl, stdin, by simpa using stdout⟩
        | succ j =>
          obtain ⟨exec', found', stdin', stdout'⟩ := each j command' (by simpa using found)
          refine ⟨exec', by simpa using found', ?_, ?_⟩
          · rw [stdin', Nat.add_right_comm, Nat.add_assoc]
          · rw [stdout', show k + 1 + j = k + (j + 1) by omega]
            simp

/-! ### The wiring -/

/-- The standard descriptors are open, and nothing is open on a pipe that is yet to be made. -/
structure Started (s : ShellProcess) : Prop where
  standard : ∀ fd ≤ 2, s.table.entries fd ≠ none
  writeEnds : ∀ fd pipe, s.table.entries fd = some (.writeEnd pipe) → pipe < s.pipes

/-- Standard input of command `k`: its `<` file, or else the pipe of the command before it; the
pipe made for command `k` is number `s.pipes + k`. -/
def expectedIn (s : ShellProcess) (k : Nat) (command : PipelineCommand) : Option Description :=
  match command.redirectInPath with
  | some path => some (.fileIn path)
  | none => if k = 0 then s.table.entries stdinFileno else some (.readEnd (s.pipes + (k - 1)))

/-- Standard output of command `k` of `n`: its `>` file, or else its pipe. -/
def expectedOut (s : ShellProcess) (n k : Nat) (command : PipelineCommand) : Option Description :=
  match command.redirectOutPath with
  | some path => some (.fileOut path)
  | none => if k + 1 = n then s.table.entries stdoutFileno else some (.writeEnd (s.pipes + k))

/-- Every command is executed with the standard input and output it should have. -/
def Wired (s : ShellProcess) (commands : List PipelineCommand) (execs : List Exec) : Prop :=
  execs.length = commands.length ∧
    ∀ k command, commands[k]? = some command → ∃ exec, execs[k]? = some exec ∧
      exec.table.entries stdinFileno = expectedIn s k command ∧
      exec.table.entries stdoutFileno = expectedOut s commands.length k command

/-- No `<` but on the first command; a `>` on the commands before the last exactly if the
pipeline is in the background. -/
def Wirable (pipeline : Pipeline) : Prop :=
  ∀ k command, pipeline.commands[k]? = some command →
    (0 < k → command.redirectInPath = none) ∧
    (k + 1 < pipeline.commands.length → command.redirectOutPath.isSome = pipeline.isBackground)

theorem actualIn_eq_expectedIn (s : ShellProcess) (k : Nat) (command : PipelineCommand) :
    actualIn s.table.entries (previousPipe s.pipes k) command = expectedIn s k command ↔
      (0 < k → command.redirectInPath = none) := by
  cases k with
  | zero => cases path : command.redirectInPath <;> simp [actualIn, previousPipe, expectedIn, path]
  | succ k => cases path : command.redirectInPath <;> simp [actualIn, previousPipe, expectedIn, path]

theorem actualOut_eq_expectedOut {s : ShellProcess} (started : Started s) {n k : Nat}
    (inside : k < n) (isBackground : Bool) (command : PipelineCommand) :
    actualOut s.table.entries (s.pipes + k) isBackground (k + 1 = n) command =
        expectedOut s n k command ↔
      (k + 1 < n → command.redirectOutPath.isSome = isBackground) := by
  by_cases last : k + 1 = n
  · cases path : command.redirectOutPath <;> simp [actualOut, expectedOut, path, last]
  · have before : k + 1 < n := by omega
    -- the output of the shell is not the pipe that is made later
    have notMine : s.table.entries stdoutFileno ≠ some (.writeEnd (s.pipes + k)) := by
      intro same
      have := started.writeEnds _ _ same
      omega
    cases isBackground <;> cases path : command.redirectOutPath <;>
      simp [actualOut, expectedOut, path, last, before, notMine]

/-- **Wiring.** A pipeline runs with the standard input and output that each of its commands
should have if and only if no redirect gets in the way of a pipe, and none is needed instead of
one that is closed early. -/
theorem runPipeline_wired_iff {s : ShellProcess} (started : Started s) {pipeline : Pipeline}
    (nonempty : pipeline.commands ≠ []) :
    ∃ execs s', runPipeline s pipeline = some (execs, s') ∧
      (Wired s pipeline.commands execs ↔ Wirable pipeline) := by
  have standard : Standard s.table.entries s.table := fun fd low => ⟨started.standard fd low, rfl⟩
  obtain ⟨execs, s', ran, length, each⟩ := runCommands_spec pipeline.isBackground s.pipes
    pipeline.commands 0 0 standard rfl rfl nonempty
  refine ⟨execs, s', ran, ?_⟩
  have here : ∀ k command, pipeline.commands[k]? = some command →
      ((∃ exec, execs[k]? = some exec ∧
        exec.table.entries stdinFileno = expectedIn s k command ∧
        exec.table.entries stdoutFileno = expectedOut s pipeline.commands.length k command) ↔
      (0 < k → command.redirectInPath = none) ∧
      (k + 1 < pipeline.commands.length →
        command.redirectOutPath.isSome = pipeline.isBackground)) := by
    intro k command found
    obtain ⟨inside, -⟩ := List.getElem?_eq_some_iff.mp found
    obtain ⟨exec, found', stdin, stdout⟩ := each k command found
    rw [Nat.zero_add] at stdin stdout
    rw [← actualIn_eq_expectedIn s k command,
      ← actualOut_eq_expectedOut started inside pipeline.isBackground command, ← stdin, ← stdout]
    constructor
    · rintro ⟨exec', same, both⟩
      rw [found', Option.some.injEq] at same
      subst same
      exact both
    · exact fun both => ⟨exec, found', both⟩
  constructor
  · rintro ⟨-, wired⟩ k command found
    exact (here k command found).mp (wired k command found)
  · intro wirable
    exact ⟨length, fun k command found => (here k command found).mpr (wirable k command found)⟩

/-- A shell with its standard descriptors. -/
def loginShell : ShellProcess where
  table := ⟨fun fd => if fd < 3 then some (.inherited fd) else none, 3, fun fd above => by simp [above]⟩
  pipes := 0

theorem loginShell_started : Started loginShell := by
  refine ⟨fun fd low => ?_, fun fd pipe found => ?_⟩
  · have inside : fd < 3 := by omega
    simp [loginShell, inside]
  · simp only [loginShell] at found
    split at found <;> simp at found

/-- A command with one word. -/
def simpleCommand (redirectIn redirectOut : Option Word) : PipelineCommand where
  commandArgs := fun i => if i = 0 then some ['a'] else none
  redirectInPath := redirectIn
  redirectOutPath := redirectOut

/-- `a < i | a > o`. -/
theorem runPipeline_wired_iff_two :
    ∃ execs s', runPipeline loginShell
        ⟨[simpleCommand (some ['i']) none, simpleCommand none (some ['o'])], false⟩ =
        some (execs, s') ∧
      Wired loginShell [simpleCommand (some ['i']) none, simpleCommand none (some ['o'])] execs := by
  have nonempty : Pipeline.commands
      ⟨[simpleCommand (some ['i']) none, simpleCommand none (some ['o'])], false⟩ ≠ [] := by simp
  obtain ⟨execs, s', ran, iff_⟩ := runPipeline_wired_iff loginShell_started nonempty
  refine ⟨execs, s', ran, iff_.mpr fun k command found => ?_⟩
  match k, found with
  | 0, found =>
    obtain rfl : simpleCommand (some ['i']) none = command := by simpa using found
    exact ⟨fun positive => absurd positive (by decide), fun _ => rfl⟩
  | 1, found =>
    obtain rfl : simpleCommand none (some ['o']) = command := by simpa using found
    exact ⟨fun _ => rfl, fun before => absurd before (by simp)⟩
  | k + 2, found => simp at found

/-- In `a > o | a` the pipe takes the place of the file, and in `a | a &` the first command
writes to the output of the shell. -/
theorem runPipeline_miswired :
    (∃ execs s', runPipeline loginShell
        ⟨[simpleCommand none (some ['o']), simpleCommand none none], false⟩ = some (execs, s') ∧
      ¬ Wired loginShell [simpleCommand none (some ['o']), simpleCommand none none] execs) ∧
    ∃ execs s', runPipeline loginShell
        ⟨[simpleCommand none none, simpleCommand none none], true⟩ = some (execs, s') ∧
      ¬ Wired loginShell [simpleCommand none none, simpleCommand none none] execs := by
  constructor
  · refine ⟨_, _, rfl, fun wired => ?_⟩
    obtain ⟨exec, found, -, stdout⟩ := wired.2 0 _ rfl
    rw [← Option.some.inj found] at stdout
    revert stdout
    decide
  · refine ⟨_, _, rfl, fun wired => ?_⟩
    obtain ⟨exec, found, -, stdout⟩ := wired.2 0 _ rfl
    rw [← Option.some.inj found] at stdout
    revert stdout
    decide

end OperatingSys.Shell
