import OperatingSys.Shell.Closing
import OperatingSys.Shell.Freeing
import OperatingSys.Lib.Machine

/-!
# A session of the shell (myshell.c)

`main` from the first line that it reads to the end of its input, with the children that it
forks and SIGCHLD. What `main` does by itself is one step up to its next system call. A
signal that is pending is delivered before the next call that may block, and it interrupts one
that does: the handler is set without `SA_RESTART`. A child that ends leaves a zombie and a
pending signal at once. The terminal hands over whole lines, so that an `fgets` that is
interrupted has read nothing. System calls succeed, also in the children: every program can be
executed and every file opened.
-/

namespace OperatingSys.Shell

open Descriptors

def maxCommandLength : Nat := 256

/-- `fgets` with room for this many characters: what it has read, whether it met the end of the
file, and what is left. -/
def fgetsFrom : (room : Nat) → List Char → List Char × Bool × List Char
  | 0, stdin => ([], false, stdin)
  | _ + 1, [] => ([], true, [])
  | room + 1, c :: stdin =>
    if c = '\n' then ([c], false, stdin)
    else
      let (chunk, feof, rest) := fgetsFrom room stdin
      (c :: chunk, feof, rest)

/-- One character of the buffer is for the NUL. -/
def fgets (size : Nat) (stdin : List Char) : List Char × Bool × List Char :=
  fgetsFrom (size - 1) stdin

/-- The string in a buffer that holds these characters and a NUL. -/
def cString (chars : List Char) : List Char := chars.takeWhile (· ≠ '\x00')

/-! ### Children -/

/-- A child that has not been waited for; one that has `exited` is a zombie. -/
structure Child where
  pid : Nat
  exec : Exec
  exited : Bool

/-- `waitpid(-1, &status, WNOHANG)`: a zombie is gone, or the call returns 0 or -1. -/
def waitAny (children : List Child) : Option (List Child) :=
  if children.any (·.exited) then some (children.eraseP (·.exited)) else none

/-- The loop of `signalHandler`. -/
def handlerLoop : (rounds : Nat) → List Child → List Child
  | 0, children => children
  | rounds + 1, children =>
    match waitAny children with
    | none => children
    | some children => handlerLoop rounds children

/-- Every round but the last takes a child away. -/
def signalHandler (children : List Child) : List Child :=
  handlerLoop (children.length + 1) children

/-! ### The state -/

/-- Where `main` is. -/
inductive Control where
  /-- before `fgets` -/
  | prompt
  /-- in `fgets` -/
  | reading
  /-- before `doCommand`, with `input_fd` -/
  | commands (input : Nat)
  /-- in `doCommand`, after `fork` has returned in the parent -/
  | forked (pid : Nat) (fd : Nat × Nat) (input : Nat)
  /-- in `waitpid` -/
  | waiting (pid : Nat) (fd : Nat × Nat) (input : Nat)
  /-- after `pipeline_free`, with what that has freed -/
  | ended (freed : List Command)

structure Session where
  /-- What has not been read. -/
  stdin : List Char
  /-- The string in `input`. -/
  input : List Char
  /-- `pipeline`: not assigned yet, NULL, or a pipeline that begins with its current command. -/
  pipeline : Option (Option Pipeline)
  shell : ShellProcess
  children : List Child
  nextPid : Nat
  /-- SIGCHLD is pending. -/
  pending : Bool
  control : Control

/-- What others see of a step: a line that was read or, after an interrupted `fgets`, not read
goes to `pipeline_build`; a child is forked and calls `execvp`. -/
inductive Effect where
  | reads (line : List Char)
  | again (line : List Char)
  | forks (exec : Exec)

inductive Event where
  /-- `main` goes on; `garbage` is what `malloc` finds in memory -/
  | main (garbage : Nat → Nat → Option Word)
  /-- the child with this number ends -/
  | exits (pid : Nat)
  /-- SIGCHLD is delivered -/
  | signal (garbage : Nat → Nat → Option Word)

/-- `main` before its first line. -/
def Session.start (shell : ShellProcess) (input stdin : List Char) : Session where
  stdin := stdin
  input := input
  pipeline := none
  shell := shell
  children := []
  nextPid := 0
  pending := false
  control := .prompt

namespace Session

variable (s : Session)

/-- The current pipeline; `none` stands for a pointer that must not be followed. -/
def current : Option Pipeline := s.pipeline.join

/-- `pipeline = pipeline_build(input)` and the test for NULL after it. -/
def build (garbage : Nat → Nat → Option Word) : Option Session :=
  match pipelineBuild garbage s.input with
  | none => none
  | some none => some { s with pipeline := some none, control := .prompt }
  | some (some pipeline) =>
    some { s with pipeline := some (some pipeline), control := .commands 0 }

/-- `doCommand` up to `fork`. -/
def fork (input : Nat) : Option (Exec × Session) :=
  match s.current with
  | none | some ⟨[], _⟩ => none
  | some ⟨command :: rest, isBackground⟩ =>
    let (fd, t) := s.shell.table.pipe (.readEnd s.shell.pipes) (.writeEnd s.shell.pipes)
    let exec := { command, table := childTable t command isBackground fd input rest.isEmpty }
    some (exec, { s with
      shell := { table := t, pipes := s.shell.pipes + 1 }
      children := s.children ++ [⟨s.nextPid, exec, false⟩]
      nextPid := s.nextPid + 1
      control := .forked s.nextPid fd input })

/-- `doCommand` after `waitpid`, and the loop of `main` around it. -/
def finish (fd : Nat × Nat) (input : Nat) : Option Session :=
  match s.current with
  | none | some ⟨[], _⟩ => none
  | some ⟨_ :: rest, isBackground⟩ =>
    let s := { s with
      shell := { s.shell with table := parentTable s.shell.table fd input rest.isEmpty } }
    match rest with
    | [] => some { s with control := .prompt }
    | _ :: _ => some { s with
        pipeline := some (some { commands := rest, isBackground })
        control := .commands fd.1 }

/-- The loop of `main` is left, and `pipeline_free(pipeline)` follows. -/
def leave : Option Session :=
  match s.pipeline with
  | none => none
  | some none => some { s with control := .ended [] }
  | some (some pipeline) =>
    (pipelineFree pipeline).map fun freed => { s with control := .ended freed }

/-- The child with this number has not ended. -/
def alive (pid : Nat) : Bool := s.children.any fun child => child.pid == pid && !child.exited

def main (garbage : Nat → Nat → Option Word) : Option (Option Effect × Session) :=
  match s.control with
  | .prompt => if s.pending then none else some (none, { s with control := .reading })
  | .reading =>
    let (chunk, feof, rest) := fgets maxCommandLength s.stdin
    let s := { s with stdin := rest, input := cString chunk }
    if feof then s.leave.map (none, ·) else (s.build garbage).map (some (.reads s.input), ·)
  | .commands input => (s.fork input).map fun r => (some (.forks r.1), r.2)
  | .forked pid fd input =>
    match s.current with
    | none => none
    | some pipeline =>
      if pipeline.isBackground then (s.finish fd input).map (none, ·)
      else if s.pending then none
      else some (none, { s with control := .waiting pid fd input })
  | .waiting pid fd input =>
    if s.alive pid then none
    else
      let s := { s with children := s.children.filter (·.pid != pid) }
      (s.finish fd input).map (none, ·)
  | .ended _ => none

/-- SIGCHLD is delivered: the handler runs, and `waitpid` or `fgets` returns with an error.
`main` looks at neither, and the end of the file has not been met. -/
def signal (garbage : Nat → Nat → Option Word) : Option (Option Effect × Session) :=
  if !s.pending then none
  else
    let s := { s with pending := false, children := signalHandler s.children }
    match s.control with
    | .reading => (s.build garbage).map (some (.again s.input), ·)
    | .waiting _ fd input => (s.finish fd input).map (none, ·)
    | .ended _ => none
    | .prompt | .commands _ | .forked .. => some (none, s)

def exits (pid : Nat) : Option (Option Effect × Session) :=
  match s.control with
  | .ended _ => none
  | _ =>
    if s.alive pid then some (none, { s with
      pending := true
      children := s.children.map fun child =>
        if child.pid = pid then { child with exited := true } else child })
    else none

def step : Event → Option (Option Effect × Session)
  | .main garbage => s.main garbage
  | .exits pid => s.exits pid
  | .signal garbage => s.signal garbage

end Session

end OperatingSys.Shell
