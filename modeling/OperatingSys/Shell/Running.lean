import OperatingSys.Shell.Children

/-!
# The shell runs a script

The state of the shell between any two steps of a session, while it works off a script of
foreground pipelines: what is still to be started, and how many steps that can take.
-/

namespace OperatingSys.Shell

open Descriptors

/-! ### What is left -/

/-- Steps that the children can still cause: each that runs can end, and a signal be delivered. -/
def Session.load (s : Session) : Nat :=
  2 * (s.children.filter (!·.exited)).length + s.pending.toNat

/-- For a line two steps, for a command five: `fork`, `waitpid`, its return, and those of its
child. -/
def scriptSteps : List CommandLine → Nat
  | [] => 0
  | l :: script => 2 + 5 * l.commands.length + scriptSteps script

/-- What a step starts. -/
def launched : Option Effect → List Launch
  | some (.forks exec) => [exec.launch]
  | some (.reads _) | some (.again _) | none => []

/-- `pipeline_free` at the end of `main` has a pipeline to free. -/
def Session.Freeable (s : Session) : Prop :=
  ∃ pipeline, s.pipeline = some (some pipeline) ∧ (pipelineFree pipeline).isSome = true

/-- These are the commands from the current one on, in the foreground. -/
structure Session.Runs (s : Session) (commands : List PipelineCommand) : Prop where
  pipeline : s.pipeline = some (some ⟨commands, false⟩)
  room : ∀ command ∈ commands, command.view.args.length < maxArgvLength

/-- The shell works off a script: what it still has to start, and for how many steps of its own. -/
inductive OnScript (own : Nat → Option Description) : Session → List Launch → Nat → Prop where
  | prompt {s : Session} {script : List CommandLine} (control : s.control = .prompt)
      (waits : s.Waits) (same : s.shell.table.entries = own) (types : Types script s.stdin)
      (assigned : script = [] → s.Freeable) :
      OnScript own s (scriptLaunches own s.shell.pipes script) (scriptSteps script + 2)
  | reading {s : Session} {script : List CommandLine} (control : s.control = .reading)
      (waits : s.Waits) (same : s.shell.table.entries = own) (types : Types script s.stdin)
      (assigned : script = [] → s.Freeable) :
      OnScript own s (scriptLaunches own s.shell.pipes script) (scriptSteps script + 1)
  | commands {s : Session} {script : List CommandLine} {input base k : Nat}
      {command : PipelineCommand} {rest : List PipelineCommand}
      (control : s.control = .commands input) (runs : s.Runs (command :: rest))
      (unredirected : Unredirected k ((command :: rest).map PipelineCommand.view))
      (linked : Linked own s.shell input base k) (types : Types script s.stdin) :
      OnScript own s
        (launches own base k ((command :: rest).map PipelineCommand.view) ++
          scriptLaunches own (base + k + (rest.length + 1)) script)
        (5 * (rest.length + 1) + (scriptSteps script + 2))
  | command {s : Session} {script : List CommandLine} {pid input base k left : Nat}
      {fd : Nat × Nat} {command : PipelineCommand} {rest : List PipelineCommand}
      (control : (s.control = .forked pid fd input ∧ left = 2) ∨
        (s.control = .waiting pid fd input ∧ left = 1))
      (runs : s.Runs (command :: rest))
      (unredirected : Unredirected (k + 1) (rest.map PipelineCommand.view))
      (resumes : Resumes own ⟨parentTable s.shell.table fd input rest.isEmpty, s.shell.pipes⟩ fd.1
        base (k + 1) rest.isEmpty)
      (types : Types script s.stdin) :
      OnScript own s
        (launches own base (k + 1) (rest.map PipelineCommand.view) ++
          scriptLaunches own (base + (k + 1) + rest.length) script)
        (5 * rest.length + left + (scriptSteps script + 2))
  | ended {s : Session} {freed : List Command} (control : s.control = .ended freed)
      (same : s.shell.table.entries = own) : OnScript own s [] 0

section Steps

variable {own : Nat → Option Description} {s s' : Session} {todo : List Launch} {n : Nat}
  {effect : Option Effect}

theorem Session.Runs.current {commands : List PipelineCommand} (runs : s.Runs commands) :
    s.current = some ⟨commands, false⟩ := by
  rw [Session.current, runs.pipeline]
  rfl

theorem Session.Runs.freeable {commands : List PipelineCommand} (runs : s.Runs commands) :
    s.Freeable := ⟨_, runs.pipeline, freeCommands_isSome runs.room⟩

theorem Session.Runs.waits {commands : List PipelineCommand} (runs : s.Runs commands) :
    s.Waits := by
  intro pipeline here
  rw [runs.pipeline, Option.some.injEq, Option.some.injEq] at here
  rw [← here]

theorem OnScript.waits (onScript : OnScript own s todo n)
    (running : ∀ freed, s.control ≠ .ended freed) : s.Waits := by
  cases onScript with
  | prompt control waits => exact waits
  | reading control waits => exact waits
  | commands control runs => exact runs.waits
  | command control runs => exact runs.waits
  | ended control => exact absurd control (running _)

/-- What the shell has to do does not depend on its children. -/
theorem OnScript.heard (onScript : OnScript own s todo n) (children : List Child) (pending : Bool) :
    OnScript own { s with children, pending } todo n := by
  cases onScript with
  | prompt control waits same types assigned => exact .prompt control waits same types assigned
  | reading control waits same types assigned => exact .reading control waits same types assigned
  | commands control runs unredirected linked types =>
    exact .commands control ⟨runs.pipeline, runs.room⟩ unredirected linked types
  | command control runs unredirected resumes types =>
    exact .command control ⟨runs.pipeline, runs.room⟩ unredirected resumes types
  | ended control same => exact .ended control same

/-- After `waitpid` the shell goes on with the next command, or with the next line. -/
theorem OnScript.finish {script : List CommandLine} {input base k : Nat} {fd : Nat × Nat}
    {command : PipelineCommand} {rest : List PipelineCommand} (runs : s.Runs (command :: rest))
    (unredirected : Unredirected (k + 1) (rest.map PipelineCommand.view))
    (resumes : Resumes own ⟨parentTable s.shell.table fd input rest.isEmpty, s.shell.pipes⟩ fd.1
      base (k + 1) rest.isEmpty)
    (types : Types script s.stdin) :
    ∃ s', s.finish fd input = some s' ∧ s'.load = s.load ∧ OnScript own s'
      (launches own base (k + 1) (rest.map PipelineCommand.view) ++
        scriptLaunches own (base + (k + 1) + rest.length) script)
      (5 * rest.length + (scriptSteps script + 2)) := by
  cases rest with
  | nil =>
    obtain ⟨same, pipes⟩ := resumes
    have pipes' : s.shell.pipes = base + (k + 1) := pipes
    have prompt := OnScript.prompt (s := { s with
      shell := { s.shell with table := parentTable s.shell.table fd input true }
      control := .prompt }) rfl runs.waits same types fun _ => runs.freeable
    refine ⟨_, by simp only [Session.finish, runs.current]; rfl, ?_, ?_⟩
    · rfl
    · simpa [launches, pipes'] using prompt
  | cons next rest =>
    have room : ∀ command ∈ next :: rest, command.view.args.length < maxArgvLength :=
      fun command' member => runs.room command' (List.mem_cons_of_mem _ member)
    refine ⟨_, by simp only [Session.finish, runs.current]; rfl, ?_, ?_⟩
    · rfl
    · exact .commands rfl ⟨rfl, room⟩ unredirected resumes types

/-! ### One step -/

/-- `main` reads a line of the script and builds it. -/
theorem Session.build_line {l : CommandLine} {line : List Char}
    (foreground : l.Foreground) (prints : Prints l line) (short : line.length < maxCommandLength)
    (garbage : Nat → Nat → Option Word) (input : s.input = line) :
    ∃ command rest, (command :: rest).map PipelineCommand.view = l.commands ∧
      (∀ c ∈ command :: rest, c.view.args.length < maxArgvLength) ∧
      s.build garbage = some { s with
        pipeline := some (some ⟨command :: rest, false⟩), control := .commands 0 } := by
  have fits : line.length ≤ maxLineLength :=
    Nat.le_trans (Nat.le_of_lt short) (by decide)
  have buildable := foreground.buildable prints fits
  obtain ⟨pipeline, built, view⟩ := pipelineBuild_prints garbage buildable prints
  obtain ⟨commands, isBackground⟩ := pipeline
  have views : commands.map PipelineCommand.view = l.commands := congrArg CommandLine.commands view
  have waits : isBackground = false :=
    (congrArg CommandLine.background view).trans foreground.waits
  subst waits
  cases commands with
  | nil => exact absurd views.symm foreground.nonempty
  | cons command rest =>
    refine ⟨command, rest, views, fun c member => ?_, ?_⟩
    · exact (buildable.sound _ (views ▸ List.mem_map_of_mem member)).room
    · rw [Session.build, input, built]

/-- What a step does to what is left of the script. -/
def WorksOff (own : Nat → Option Description) (todo : List Launch) (n : Nat)
    (effect : Option Effect) (s' : Session) : Prop :=
  ∃ todo' n', OnScript own s' todo' n' ∧ n' + s'.load < n ∧ todo = launched effect ++ todo'

/-- What `fgets` makes of the lines that are left: the end of the file, or the next of them. -/
theorem OnScript.reads (isOpen : ∀ fd ≤ 2, own fd ≠ none) {script : List CommandLine}
    (control : s.control = .reading) (same : s.shell.table.entries = own)
    (types : Types script s.stdin) (assigned : script = [] → s.Freeable)
    (garbage : Nat → Nat → Option Word) :
    ∃ effect s', s.main garbage = some (effect, s') ∧
      WorksOff own (scriptLaunches own s.shell.pipes script) (scriptSteps script + 1 + s.load)
        effect s' := by
  simp only [Session.main, control]
  cases script with
  | nil =>
    obtain ⟨pipeline, assigned, freeable⟩ := assigned rfl
    obtain ⟨freed, freed_⟩ := Option.isSome_iff_exists.mp freeable
    have empty : s.stdin = [] := types
    have eof : fgets maxCommandLength [] = ([], true, []) := rfl
    simp only [empty, eof, if_true, Session.leave, assigned, freed_, Option.map_some]
    refine ⟨_, _, rfl, _, _, .ended rfl same, ?_, rfl⟩
    simp only [Session.load]
    omega
  | cons l script =>
    obtain ⟨foreground, text, rest, stdin, oneLine, prints, short, types⟩ := types
    have noNul := Written.noNul foreground.valid prints
    have short' : (text ++ ['\n']).length < maxCommandLength := by simpa using short
    obtain ⟨command, more, views, room, built⟩ := Session.build_line
      (s := { s with stdin := rest, input := text ++ ['\n'], control := .reading }) foreground
      prints short' garbage rfl
    simp only [stdin, fgets_line oneLine short, Bool.false_eq_true, if_false,
      cString_of_noNul noNul, built, Option.map_some]
    have length : l.commands.length = more.length + 1 := by simp [← views]
    refine ⟨_, _, rfl, _, _, .commands rfl ⟨rfl, room⟩ ?_ (Linked.start isOpen same) types, ?_, ?_⟩
    · rw [views]
      exact foreground.unredirected
    · simp only [Session.load, scriptSteps, length]
      omega
    · simp [launched, scriptLaunches, views, length]

theorem OnScript.main (isOpen : ∀ fd ≤ 2, own fd ≠ none) (calm : s.Calm)
    (onScript : OnScript own s todo n) {garbage : Nat → Nat → Option Word}
    (stepped : s.main garbage = some (effect, s')) :
    WorksOff own todo (n + s.load) effect s' := by
  cases onScript with
  | @prompt script control waits same types assigned =>
    simp only [Session.main, control] at stepped
    split at stepped
    · simp at stepped
    · simp only [Option.some.injEq, Prod.mk.injEq] at stepped
      obtain ⟨rfl, rfl⟩ := stepped
      refine ⟨_, _, .reading rfl waits same types assigned, ?_, rfl⟩
      simp only [Session.load]
      omega
  | reading control waits same types assigned =>
    obtain ⟨effect', s'', stepped', worksOff⟩ :=
      OnScript.reads isOpen control same types assigned garbage
    rw [stepped, Option.some.injEq, Prod.mk.injEq] at stepped'
    obtain ⟨rfl, rfl⟩ := stepped'
    exact worksOff
  | @commands script input base k command rest control runs unredirected linked types =>
    obtain ⟨fd, exec, shell', done, launch, resumes⟩ := linked.doCommand isOpen unredirected
    simp only [Session.main, control, Session.fork, runs.current, Option.map_some,
      Option.some.injEq, Prod.mk.injEq] at stepped
    obtain ⟨rfl, rfl⟩ := stepped
    simp only [Shell.doCommand, Prod.mk.injEq] at done
    obtain ⟨rfl, rfl, rfl⟩ := done
    refine ⟨_, _, .command (Or.inl ⟨rfl, rfl⟩) ⟨runs.pipeline, runs.room⟩ unredirected.tail resumes
      types, ?_, ?_⟩
    · simp only [Session.load, List.filter_append, List.length_append, List.filter_cons,
        List.filter_nil, Bool.not_false, if_true, List.length_cons, List.length_nil]
      omega
    · simp only [launched, launch, List.map_cons, launches, List.isEmpty_map, List.cons_append,
        List.nil_append]
      congr 3
      omega
  | @command script pid input base k left fd command rest control runs unredirected resumes types =>
    rcases control with ⟨control, rfl⟩ | ⟨control, rfl⟩
    · simp only [Session.main, control, runs.current, Bool.false_eq_true, if_false] at stepped
      split at stepped
      · simp at stepped
      · simp only [Option.some.injEq, Prod.mk.injEq] at stepped
        obtain ⟨rfl, rfl⟩ := stepped
        refine ⟨_, _, .command (Or.inr ⟨rfl, rfl⟩) ⟨runs.pipeline, runs.room⟩ unredirected resumes
          types, ?_, rfl⟩
        simp only [Session.load]
        omega
    · -- `waitpid` returns, and no child is left
      have lone : s.Lone pid := by
        unfold Session.Calm at calm
        rw [control] at calm
        exact calm.1
      simp only [Session.main, control] at stepped
      split at stepped
      · simp at stepped
      · obtain ⟨s'', finished, eq⟩ := Option.map_eq_some_iff.mp stepped
        obtain ⟨rfl, rfl⟩ := Prod.mk.inj eq
        obtain ⟨s₁, finished', load, onScript⟩ := OnScript.finish (s := { s with
          children := s.children.filter (·.pid != pid)
          control := .waiting pid fd input }) ⟨runs.pipeline, runs.room⟩ unredirected resumes types
        obtain rfl := Option.some.inj (finished.symm.trans finished')
        refine ⟨_, _, onScript, ?_, rfl⟩
        rw [load]
        simp only [Session.load, lone.waited, List.filter_nil, List.length_nil]
        omega
  | ended control same => simp [Session.main, control] at stepped

/-- A child that ends can no longer do so, but is heard of. -/
theorem Session.load_exits (calm : s.Calm) {pid : Nat} (alive : s.alive pid = true) :
    ({ s with
      pending := true
      children := s.children.map fun child =>
        if child.pid = pid then { child with exited := true } else child } : Session).load <
      s.load := by
  have few := calm.length_children
  simp only [Session.alive, Session.load] at alive ⊢
  rcases children : s.children with _ | ⟨child, _ | ⟨other, rest⟩⟩
  · simp [children] at alive
  · simp only [children, List.any_cons, List.any_nil, Bool.or_false, Bool.and_eq_true, beq_iff_eq,
      Bool.not_eq_true'] at alive
    simp [alive.1, alive.2]
    omega
  · simp [children] at few

theorem Session.load_signal (pending : s.pending = true) :
    ({ s with pending := false, children := signalHandler s.children } : Session).load <
      s.load := by
  simp [Session.load, signalHandler_eq, List.filter_filter, pending]

theorem OnScript.signal (calm : s.Calm) (onScript : OnScript own s todo n)
    {garbage : Nat → Nat → Option Word} (stepped : s.signal garbage = some (effect, s')) :
    WorksOff own todo (n + s.load) effect s' := by
  have pending : s.pending = true := by
    by_contra quiet
    simp [Session.signal, quiet] at stepped
  have less := Session.load_signal pending
  have heard := onScript.heard (signalHandler s.children) false
  have passes : (some (none, { s with pending := false, children := signalHandler s.children }) :
      Option (Option Effect × Session)) = some (effect, s') →
      WorksOff own todo (n + s.load) effect s' := by
    intro same
    obtain ⟨rfl, rfl⟩ := Prod.mk.inj (Option.some.inj same)
    exact ⟨_, _, heard, by omega, rfl⟩
  simp only [Session.signal, pending, Bool.not_true, Bool.false_eq_true, if_false] at stepped
  unfold Session.Calm at calm
  cases onScript with
  | prompt control | commands control =>
    simp only [control] at stepped passes
    exact passes stepped
  | reading control =>
    rw [control] at calm
    exact absurd (calm.2.symm.trans pending) (by decide)
  | @command script pid input base k left fd command rest control runs unredirected resumes types =>
    rcases control with ⟨control, rfl⟩ | ⟨control, rfl⟩
    · simp only [control] at stepped passes
      exact passes stepped
    · -- `waitpid` is interrupted
      simp only [control] at stepped
      obtain ⟨s'', finished, eq⟩ := Option.map_eq_some_iff.mp stepped
      obtain ⟨rfl, rfl⟩ := Prod.mk.inj eq
      obtain ⟨s₁, finished', load, onScript⟩ := OnScript.finish (s := { s with
        pending := false
        children := signalHandler s.children
        control := .waiting pid fd input }) ⟨runs.pipeline, runs.room⟩ unredirected resumes types
      obtain rfl := Option.some.inj (finished.symm.trans finished')
      refine ⟨_, _, onScript, ?_, rfl⟩
      rw [load]
      simp only [Session.load] at less ⊢
      omega
  | ended control => simp [control] at stepped

theorem OnScript.step (isOpen : ∀ fd ≤ 2, own fd ≠ none) (calm : s.Calm)
    (onScript : OnScript own s todo n) {event : Event}
    (stepped : s.step event = some (effect, s')) :
    WorksOff own todo (n + s.load) effect s' := by
  cases event with
  | main garbage => exact onScript.main isOpen calm stepped
  | exits pid =>
    obtain ⟨rfl, alive, -, rfl⟩ := Session.exits_eq stepped
    have less := Session.load_exits calm alive
    exact ⟨_, _, onScript.heard _ _, by omega, rfl⟩
  | signal garbage => exact onScript.signal calm stepped

/-- Before the end something can happen: `main` goes on, or what it waits for happens: a signal
is delivered, or a child ends. -/
theorem OnScript.progress (isOpen : ∀ fd ≤ 2, own fd ≠ none) (onScript : OnScript own s todo n)
    (stuck : ∀ event, s.step event = none) :
    (∃ freed, s.control = .ended freed) ∧ todo = [] ∧ s.shell.table.entries = own := by
  have main := stuck (.main fun _ _ => none)
  have signal := stuck (.signal fun _ _ => none)
  simp only [Session.step] at main signal
  -- in each phase, what `main` waits for is an event that can happen
  cases onScript with
  | prompt control waits same types assigned =>
    cases pending : s.pending with
    | false => simp [Session.main, control, pending] at main
    | true => simp [Session.signal, control, pending] at signal
  | reading control waits same types assigned =>
    obtain ⟨effect, s', stepped, -⟩ :=
      OnScript.reads isOpen control same types assigned fun _ _ => none
    exact absurd (main.symm.trans stepped) (by simp)
  | commands control runs unredirected linked types =>
    simp [Session.main, control, Session.fork, runs.current] at main
  | @command script pid input base k left fd command rest control runs unredirected resumes types =>
    rcases control with ⟨control, -⟩ | ⟨control, -⟩
    · cases pending : s.pending with
      | false => simp [Session.main, control, runs.current, pending] at main
      | true => simp [Session.signal, control, pending] at signal
    · cases alive : s.alive pid with
      | true =>
        have exits := stuck (.exits pid)
        simp [Session.step, Session.exits, control, alive] at exits
      | false =>
        simp only [Session.main, control, alive, Bool.false_eq_true, if_false,
          Option.map_eq_none_iff] at main
        obtain ⟨s'', finish, -⟩ := OnScript.finish (s := { s with
          children := s.children.filter (·.pid != pid)
          control := .waiting pid fd input }) ⟨runs.pipeline, runs.room⟩ unredirected resumes types
        exact absurd (main.symm.trans finish) (by simp)
  | ended control same => exact ⟨⟨_, control⟩, rfl, same⟩

end Steps

end OperatingSys.Shell
