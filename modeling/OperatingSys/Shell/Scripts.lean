import OperatingSys.Shell.Session

/-!
# What a script means, and that the shell does it

A script is a list of command lines, and what it means is the list of the programs that are to
be started, with their arguments, standard input and standard output. The shell works off this
list one program after the other, whenever its children end and whenever it hears of it.
-/

namespace OperatingSys.Shell

open Descriptors

/-! ### What a script means -/

/-- A program, started. -/
structure Launch where
  args : List Word
  stdin : Option Description
  stdout : Option Description
  deriving DecidableEq

/-- Command `k` of a pipeline whose first pipe has number `base`, in a shell with the descriptors
of `own`. -/
def Command.launch (own : Nat → Option Description) (base k : Nat) (last : Bool) (c : Command) :
    Launch where
  args := c.args
  stdin := match c.redirectIn with
    | some path => some (.fileIn path)
    | none => if k = 0 then own stdinFileno else some (.readEnd (base + (k - 1)))
  stdout := match c.redirectOut with
    | some path => some (.fileOut path)
    | none => if last then own stdoutFileno else some (.writeEnd (base + k))

/-- The commands of a pipeline from number `k` on. -/
def launches (own : Nat → Option Description) (base : Nat) : (k : Nat) → List Command → List Launch
  | _, [] => []
  | k, c :: rest => c.launch own base k rest.isEmpty :: launches own base (k + 1) rest

def scriptLaunches (own : Nat → Option Description) : (pipes : Nat) → List CommandLine → List Launch
  | _, [] => []
  | pipes, l :: script =>
    launches own pipes 0 l.commands ++ scriptLaunches own (pipes + l.commands.length) script

/-- What `execvp` starts. -/
def Exec.launch (exec : Exec) : Launch where
  args := exec.command.view.args
  stdin := exec.table.entries stdinFileno
  stdout := exec.table.entries stdoutFileno

/-- Commands from number `k` on: `<` only on the first of the pipeline, `>` only on the last. -/
def Unredirected (k : Nat) (commands : List Command) : Prop :=
  ∀ j c, commands[j]? = some c →
    (0 < k + j → c.redirectIn = none) ∧ (j + 1 < commands.length → c.redirectOut = none)

instance (k : Nat) (commands : List Command) : Decidable (Unredirected k commands) :=
  decidable_of_iff (∀ j < commands.length, ∀ c ∈ commands[j]?,
      (0 < k + j → c.redirectIn = none) ∧ (j + 1 < commands.length → c.redirectOut = none))
    ⟨fun each j c found => each j (List.getElem?_eq_some_iff.mp found).1 c found,
      fun each j _ c found => each j c found⟩

/-- A pipeline that the shell waits for, without redirects in the way of its pipes. -/
structure CommandLine.Foreground (l : CommandLine) : Prop extends l.WellFormed where
  waits : l.background = false
  unredirected : Unredirected 0 l.commands

instance (l : CommandLine) : Decidable l.Foreground :=
  decidable_of_iff (l.WellFormed ∧ l.background = false ∧ Unredirected 0 l.commands)
    ⟨fun ⟨f, w, u⟩ => ⟨f, w, u⟩, fun ⟨f, w, u⟩ => ⟨f, w, u⟩⟩

/-- The characters are those of such lines, one after the other, each short enough for the buffer
and ended by a newline. -/
def Types : List CommandLine → List Char → Prop
  | [], stdin => stdin = []
  | l :: script, stdin => l.Foreground ∧ ∃ text rest, stdin = text ++ '\n' :: rest ∧
      '\n' ∉ text ∧ Prints l (text ++ ['\n']) ∧ text.length + 1 < maxCommandLength ∧
      Types script rest

theorem Unredirected.tail {k : Nat} {c : Command} {rest : List Command}
    (unredirected : Unredirected k (c :: rest)) : Unredirected (k + 1) rest := by
  intro j c' found
  obtain ⟨first, last⟩ := unredirected (j + 1) c' (by simpa using found)
  refine ⟨fun _ => first (by omega), fun more => last ?_⟩
  rw [List.length_cons]
  omega

/-! ### Reading a line -/

theorem fgetsFrom_line {text rest : List Char} (oneLine : '\n' ∉ text) {room : Nat}
    (fits : text.length < room) :
    fgetsFrom room (text ++ '\n' :: rest) = (text ++ ['\n'], false, rest) := by
  induction text generalizing room with
  | nil =>
    obtain ⟨room, rfl⟩ : ∃ m, room = m + 1 := ⟨room - 1, by simp at fits; omega⟩
    simp [fgetsFrom]
  | cons c text ih =>
    obtain ⟨room, rfl⟩ : ∃ m, room = m + 1 := ⟨room - 1, by simp at fits; omega⟩
    rw [List.mem_cons, not_or] at oneLine
    have tail := ih oneLine.2 (show text.length < room by simpa using fits)
    simp only [List.cons_append, fgetsFrom, Ne.symm oneLine.1, if_false, tail]

theorem fgets_line {text rest : List Char} (oneLine : '\n' ∉ text)
    (short : text.length + 1 < maxCommandLength) :
    fgets maxCommandLength (text ++ '\n' :: rest) = (text ++ ['\n'], false, rest) :=
  fgetsFrom_line oneLine (by omega)

theorem Token.noNul {token : Token} (valid : Valid [token]) : '\x00' ∉ token.text := by
  cases token with
  | word w =>
    intro member
    exact (isWordChar_iff.mp ((valid w (by simp)).2 _ member)).2.2 rfl
  | _ => decide

/-- A printed line holds no NUL. -/
theorem Written.noNul {tokens : List Token} {line : List Char} (valid : Valid tokens)
    (written : Written tokens line) : '\x00' ∉ line := by
  have blank : ∀ {gap}, Blank gap → '\x00' ∉ gap := fun blanks member =>
    absurd (blanks _ member) (by decide)
  induction tokens generalizing line with
  | nil => exact blank written
  | cons token rest ih =>
    obtain ⟨gap, tail, gapBlank, rfl, -, writtenRest⟩ := written
    simp only [List.mem_append, not_or]
    exact ⟨blank gapBlank, Token.noNul valid.head, ih valid.tail writtenRest⟩

theorem cString_of_noNul {chars : List Char} (noNul : '\x00' ∉ chars) : cString chars = chars := by
  rw [cString, List.takeWhile_eq_self_iff]
  intro c member
  have other : c ≠ '\x00' := by
    rintro rfl
    exact noNul member
  simpa using other

theorem handlerLoop_eq {children : List Child} {rounds : Nat} (enough : children.length < rounds) :
    handlerLoop rounds children = children.filter (!·.exited) := by
  induction rounds generalizing children with
  | zero => exact absurd enough (Nat.not_lt_zero _)
  | succ rounds ih =>
    by_cases zombies : children.any (·.exited) = true
    · -- one zombie less
      obtain ⟨child, member, exited⟩ := List.any_eq_true.mp zombies
      obtain ⟨zombie, before, after, -, gone, split, erased⟩ :=
        List.exists_of_eraseP member exited
      rw [handlerLoop, waitAny, if_pos zombies, erased, split]
      dsimp only
      rw [ih, List.filter_append, List.filter_append, List.filter_cons, gone]
      · rfl
      · rw [split, List.length_append, List.length_cons] at enough
        rw [List.length_append]
        omega
    · rw [handlerLoop, waitAny, if_neg zombies]
      symm
      rw [List.filter_eq_self]
      intro child member
      rw [List.any_eq_true, not_exists] at zombies
      simpa [member] using zombies child

/-- The handler waits for every zombie, and its loop ends after the last. -/
theorem signalHandler_eq (children : List Child) :
    signalHandler children = children.filter (!·.exited) :=
  handlerLoop_eq (Nat.lt_succ_self _)

/-! ### Freeing an accepted pipeline -/

/-- The loop over the words of a command ends at a NULL within the array. -/
theorem freeArgsFrom_isSome {entries : Nat → Option Word} {left arg : Nat}
    (fewer : (wordsUntilNull ((List.range' arg left).map entries)).length < left) :
    (freeArgsFrom entries left arg).isSome = true := by
  induction left generalizing arg with
  | zero => exact absurd fewer (Nat.not_lt_zero _)
  | succ left ih =>
    rw [List.range'_succ, List.map_cons] at fewer
    rw [freeArgsFrom]
    cases here : entries arg with
    | none => rfl
    | some w =>
      rw [here, wordsUntilNull, List.length_cons] at fewer
      simpa using @ih (arg + 1) (by omega)

/-- The words of a command that can be printed are freed. -/
theorem pipelineCommandFreeArgs_isSome {command : PipelineCommand}
    (room : command.view.args.length < maxArgvLength) :
    (pipelineCommandFreeArgs command).isSome = true := by
  rw [PipelineCommand.view, List.range_eq_range'] at room
  exact freeArgsFrom_isSome room

theorem freeCommands_isSome {commands : List PipelineCommand}
    (room : ∀ command ∈ commands, command.view.args.length < maxArgvLength) :
    (freeCommands commands).isSome = true := by
  induction commands with
  | nil => rfl
  | cons command rest ih =>
    obtain ⟨args, freed⟩ := Option.isSome_iff_exists.mp
      (pipelineCommandFreeArgs_isSome (room command (by simp)))
    rw [freeCommands, freed]
    simpa using ih fun command' member => room command' (List.mem_cons_of_mem _ member)

/-! ### One command -/

/-- Between two commands: the descriptors are those of `own`, but for the read end of the pipe
of the command before number `k`. -/
structure Linked (own : Nat → Option Description) (shell : ShellProcess) (input base k : Nat) :
    Prop where
  carries : Carries own shell input
  feeds : Feeds shell.table input (previousPipe base k)
  pipes : shell.pipes = base + k

section Linked

variable {own : Nat → Option Description} {shell : ShellProcess} {input base k : Nat}

theorem Linked.standard (linked : Linked own shell input base k)
    (isOpen : ∀ fd ≤ 2, own fd ≠ none) : Standard own shell.table := by
  intro fd low
  refine ⟨isOpen fd low, linked.carries.same fd ?_⟩
  have feeds := linked.feeds
  cases k with
  | zero => exact Or.inl feeds
  | succ k =>
    have high : 2 < input := feeds.1
    exact Or.inr (by omega)

theorem Linked.start (isOpen : ∀ fd ≤ 2, own fd ≠ none) (same : shell.table.entries = own) :
    Linked own shell 0 shell.pipes 0 where
  carries := by
    subst same
    exact Carries.start (isOpen 0 (by decide))
  feeds := rfl
  pipes := rfl

/-- The descriptors of the shell after a command: those of `own` after the last one. -/
def Resumes (own : Nat → Option Description) (shell : ShellProcess) (fd base k : Nat)
    (last : Bool) : Prop :=
  if last then shell.table.entries = own ∧ shell.pipes = base + k
  else Linked own shell fd base k

/-- What the first of some commands is started with, and what the shell goes on with. -/
theorem Linked.doCommand (linked : Linked own shell input base k)
    (isOpen : ∀ fd ≤ 2, own fd ≠ none) {command : PipelineCommand} {rest : List PipelineCommand}
    (unredirected : Unredirected k ((command :: rest).map PipelineCommand.view)) :
    ∃ fd exec shell', Shell.doCommand shell command false input rest.isEmpty =
        (fd, exec, shell') ∧
      exec.launch = command.view.launch own base k rest.isEmpty ∧
      Resumes own shell' fd base (k + 1) rest.isEmpty := by
  obtain ⟨fd, exec, shell', done, stdin, stdout, -, pipes, feeds⟩ :=
    doCommand_spec (linked.standard isOpen) linked.feeds linked.pipes command false rest.isEmpty
  obtain ⟨fd', exec', shell'', done', absent, -, entries⟩ :=
    linked.carries.doCommand command false rest.isEmpty
  rw [done, Prod.mk.injEq, Prod.mk.injEq] at done'
  obtain ⟨rfl, rfl, rfl⟩ := done'
  have command_ : exec.command = command := by
    have same := congrArg (fun r => r.2.1.command) done
    exact same.symm
  obtain ⟨first, last⟩ := unredirected 0 command.view (by simp)
  refine ⟨fd, exec, shell', done, ?_, ?_⟩
  · rw [Exec.launch, Command.launch, stdin, stdout, command_]
    congr 1
    · -- a command that reads from a pipe has no `<`
      cases k with
      | zero =>
        cases path : command.redirectInPath <;>
          simp [actualIn, previousPipe, PipelineCommand.view, path]
      | succ k =>
        have none_ : command.redirectInPath = none := first (by omega)
        simp [actualIn, previousPipe, PipelineCommand.view, none_]
    · cases rest with
      | nil => cases path : command.redirectOutPath <;> simp [actualOut, PipelineCommand.view, path]
      | cons next rest =>
        have none_ : command.redirectOutPath = none := last (by simp)
        simp [actualOut, PipelineCommand.view, none_]
  · rw [Resumes]
    split
    next isLast =>
      rw [isLast] at entries
      exact ⟨entries, pipes⟩
    next more =>
      have more' : rest.isEmpty = false := by simpa using more
      rw [more'] at entries
      exact ⟨linked.carries.next absent entries, feeds more', pipes⟩

end Linked

end OperatingSys.Shell
