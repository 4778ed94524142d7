import OperatingSys.Shell.Scripts

/-!
# The children of the shell

Where the children are while `main` waits for each pipeline: at most one is there, and an
`fgets` is not interrupted. And, in any session, what an interrupted `fgets` does: `main` takes
the line that it has read before for the next one.
-/

namespace OperatingSys.Shell

variable {s s' : Session} {effect : Option Effect}

/-! ### Sessions without background pipelines -/

/-- `main` waits for the commands of its current pipeline. -/
def Session.Waits (s : Session) : Prop :=
  ∀ pipeline, s.pipeline = some (some pipeline) → pipeline.isBackground = false

/-- No child is there but this one, and it has not ended without a signal. -/
inductive Session.Lone (s : Session) (pid : Nat) : Prop where
  | there (exec : Exec) (exited : Bool) (child : s.children = [⟨pid, exec, exited⟩])
      (heard : exited = true → s.pending = true)
  | gone (childless : s.children = [])

/-- There is a child only between `fork` and the return of `waitpid`, and no signal is on its
way to `fgets`, or to `waitpid` from another child. -/
def Session.Calm (s : Session) : Prop :=
  match s.control with
  | .prompt | .commands _ | .ended _ => s.children = []
  | .reading => s.children = [] ∧ s.pending = false
  | .forked pid _ _ => s.Lone pid
  | .waiting pid _ _ =>
    s.Lone pid ∧ (s.pending = true → ∀ child ∈ s.children, child.exited = true)

theorem Session.Lone.length_children {pid : Nat} (lone : s.Lone pid) : s.children.length ≤ 1 := by
  cases lone with
  | there exec exited child heard => simp [child]
  | gone childless => simp [childless]

theorem Session.Calm.length_children (calm : s.Calm) : s.children.length ≤ 1 := by
  unfold Calm at calm
  cases control : s.control with
  | prompt | commands | ended => simp_all
  | reading => simp_all
  | forked pid fd input =>
    rw [control] at calm
    exact calm.length_children
  | waiting pid fd input =>
    rw [control] at calm
    exact calm.1.length_children

/-- A child that ends is the only one. -/
theorem Session.Lone.alive {pid pid' : Nat} (lone : s.Lone pid) (alive : s.alive pid' = true) :
    ∃ exec, s.children = [⟨pid, exec, false⟩] ∧ pid' = pid := by
  cases lone with
  | there exec exited child heard =>
    simp only [Session.alive, child, List.any_cons, List.any_nil, Bool.or_false, Bool.and_eq_true,
      beq_iff_eq, Bool.not_eq_true'] at alive
    obtain ⟨rfl, rfl⟩ := alive
    exact ⟨exec, child, rfl⟩
  | gone childless => simp [Session.alive, childless] at alive

/-- When `waitpid` can return by itself, it takes the last child away. -/
theorem Session.Lone.waited {pid : Nat} (lone : s.Lone pid) :
    s.children.filter (·.pid != pid) = [] := by
  cases lone with
  | there exec exited child heard => simp [child]
  | gone childless => simp [childless]

/-- The handler waits for the child if it has ended. -/
theorem Session.Lone.handled {pid : Nat} (lone : s.Lone pid) :
    ({ s with pending := false, children := signalHandler s.children } : Session).Lone pid := by
  cases lone with
  | there exec exited child heard =>
    cases exited with
    | true => exact .gone (by simp [signalHandler_eq, child])
    | false => exact .there exec false (by simp [signalHandler_eq, child]) (by simp)
  | gone childless => exact .gone (by simp [signalHandler_eq, childless])

/-- `main` is before a command or a line, and nothing has been read or has happened to a child. -/
structure Session.Continues (s s' : Session) : Prop where
  stdin : s'.stdin = s.stdin
  input : s'.input = s.input
  children : s'.children = s.children
  pending : s'.pending = s.pending
  control : s'.control = .prompt ∨ ∃ input, s'.control = .commands input

theorem Session.finish_continues {fd : Nat × Nat} {input : Nat}
    (finished : s.finish fd input = some s') : s.Continues s' := by
  unfold Session.finish at finished
  split at finished
  · simp at finished
  · simp at finished
  next command rest isBackground current =>
    cases rest with
    | nil =>
      obtain rfl := Option.some.inj finished
      exact ⟨rfl, rfl, rfl, rfl, Or.inl rfl⟩
    | cons next rest =>
      obtain rfl := Option.some.inj finished
      exact ⟨rfl, rfl, rfl, rfl, Or.inr ⟨_, rfl⟩⟩

theorem Session.build_continues {garbage : Nat → Nat → Option Word}
    (built : s.build garbage = some s') : s.Continues s' := by
  unfold Session.build at built
  split at built
  · simp at built
  · obtain rfl := Option.some.inj built
    exact ⟨rfl, rfl, rfl, rfl, Or.inl rfl⟩
  · obtain rfl := Option.some.inj built
    exact ⟨rfl, rfl, rfl, rfl, Or.inr ⟨_, rfl⟩⟩

/-- There must not be a child then. -/
theorem Session.Continues.calm (continues : s.Continues s') (childless : s.children = []) :
    s'.Calm := by
  have childless' : s'.children = [] := continues.children.trans childless
  unfold Calm
  rcases continues.control with control | ⟨input, control⟩ <;> rw [control] <;> exact childless'

/-- What a child that ends changes. -/
theorem Session.exits_eq {pid : Nat} (stepped : s.exits pid = some (effect, s')) :
    effect = none ∧ s.alive pid = true ∧ (∀ freed, s.control ≠ .ended freed) ∧
      s' = { s with
        pending := true
        children := s.children.map fun child =>
          if child.pid = pid then { child with exited := true } else child } := by
  unfold Session.exits at stepped
  split at stepped
  · simp at stepped
  next running =>
    split at stepped
    next alive =>
      simp only [Option.some.injEq, Prod.mk.injEq] at stepped
      exact ⟨stepped.1.symm, alive, running, stepped.2.symm⟩
    · simp at stepped

theorem Session.Calm.exits (calm : s.Calm) {pid : Nat}
    (stepped : s.exits pid = some (effect, s')) : s'.Calm := by
  obtain ⟨-, alive, running, rfl⟩ := Session.exits_eq stepped
  have somebody : s.children ≠ [] := by
    intro childless
    simp [Session.alive, childless] at alive
  unfold Calm at calm ⊢
  cases control : s.control with
  | prompt | commands input =>
    rw [control] at calm
    exact absurd calm somebody
  | reading =>
    rw [control] at calm
    exact absurd calm.1 somebody
  | ended freed => exact absurd control (running freed)
  | forked pid' fd input =>
    rw [control] at calm
    obtain ⟨exec, child, rfl⟩ := calm.alive alive
    exact .there exec true (by simp [child]) fun _ => rfl
  | waiting pid' fd input =>
    rw [control] at calm
    obtain ⟨exec, child, rfl⟩ := calm.1.alive alive
    exact ⟨.there exec true (by simp [child]) fun _ => rfl, fun _ => by simp [child]⟩

/-- A signal that is delivered takes zombies away; it interrupts `waitpid` only after the child
has ended. -/
theorem Session.Calm.signal (calm : s.Calm) {garbage : Nat → Nat → Option Word}
    (stepped : s.signal garbage = some (effect, s')) : s'.Calm ∧ effect = none := by
  have pending : s.pending = true := by
    by_contra quiet
    simp [Session.signal, quiet] at stepped
  have none_left : s.children = [] → signalHandler s.children = [] := fun childless => by
    rw [childless]
    rfl
  simp only [Session.signal, pending, Bool.not_true, Bool.false_eq_true, if_false] at stepped
  unfold Calm at calm
  cases control : s.control with
  | prompt | commands input =>
    simp only [control, Option.some.injEq, Prod.mk.injEq] at calm stepped
    obtain ⟨rfl, rfl⟩ := stepped
    exact ⟨none_left calm, rfl⟩
  | reading =>
    rw [control] at calm
    exact absurd (calm.2.symm.trans pending) (by decide)
  | ended freed => simp [control] at stepped
  | forked pid fd input =>
    simp only [control, Option.some.injEq, Prod.mk.injEq] at calm stepped
    obtain ⟨rfl, rfl⟩ := stepped
    have handled := calm.handled
    rw [control] at handled
    exact ⟨handled, rfl⟩
  | waiting pid fd input =>
    simp only [control] at calm stepped
    obtain ⟨s'', finished, eq⟩ := Option.map_eq_some_iff.mp stepped
    obtain ⟨rfl, rfl⟩ := Prod.mk.inj eq
    refine ⟨(Session.finish_continues finished).calm ?_, rfl⟩
    -- no child is left that has not ended
    change signalHandler s.children = []
    rw [signalHandler_eq, List.filter_eq_nil_iff]
    intro child member
    simp [calm.2 pending child member]

theorem Session.Calm.main (calm : s.Calm) (waits : s.Waits) {garbage : Nat → Nat → Option Word}
    (stepped : s.main garbage = some (effect, s')) :
    s'.Calm ∧ ∀ line, effect ≠ some (.again line) := by
  unfold Calm at calm
  cases control : s.control with
  | prompt =>
    simp only [Session.main, control] at calm stepped
    split at stepped
    · simp at stepped
    -- no signal is pending: the handler would have run before the prompt
    next quiet =>
      simp only [Option.some.injEq, Prod.mk.injEq] at stepped
      obtain ⟨rfl, rfl⟩ := stepped
      exact ⟨⟨calm, by simpa using quiet⟩, by simp⟩
  | reading =>
    simp only [Session.main, control] at calm stepped
    split at stepped
    · obtain ⟨s'', left, eq⟩ := Option.map_eq_some_iff.mp stepped
      obtain ⟨rfl, rfl⟩ := Prod.mk.inj eq
      refine ⟨?_, by simp⟩
      unfold Session.leave at left
      split at left
      · simp at left
      · obtain rfl := Option.some.inj left
        exact calm.1
      · obtain ⟨freed, -, rfl⟩ := Option.map_eq_some_iff.mp left
        exact calm.1
    · obtain ⟨s'', built, eq⟩ := Option.map_eq_some_iff.mp stepped
      obtain ⟨rfl, rfl⟩ := Prod.mk.inj eq
      exact ⟨(Session.build_continues built).calm calm.1, by simp⟩
  | commands input =>
    simp only [Session.main, control] at calm stepped
    obtain ⟨⟨exec, s''⟩, forked, eq⟩ := Option.map_eq_some_iff.mp stepped
    obtain ⟨rfl, rfl⟩ := Prod.mk.inj eq
    unfold Session.fork at forked
    split at forked
    · simp at forked
    · simp at forked
    · simp only [Option.some.injEq, Prod.mk.injEq] at forked
      obtain ⟨-, rfl⟩ := forked
      -- between two commands there is no child, so the new one is the only one
      exact ⟨.there _ false (by rw [calm]; rfl) (by simp), by simp⟩
  | forked pid fd input =>
    simp only [Session.main, control] at calm stepped
    split at stepped
    · simp at stepped
    next pipeline current =>
      -- no background pipeline, so the shell goes on to wait for its child
      have foreground := waits pipeline (Option.join_eq_some_iff.mp current)
      rw [foreground] at stepped
      simp only [Bool.false_eq_true, if_false] at stepped
      split at stepped
      · simp at stepped
      next quiet =>
        simp only [Option.some.injEq, Prod.mk.injEq] at stepped
        obtain ⟨rfl, rfl⟩ := stepped
        refine ⟨⟨?_, fun pending => absurd pending quiet⟩, by simp⟩
        cases calm with
        | there exec exited child heard => exact .there exec exited child heard
        | gone childless => exact .gone childless
  | waiting pid fd input =>
    simp only [Session.main, control] at calm stepped
    split at stepped
    · simp at stepped
    · obtain ⟨s'', finished, eq⟩ := Option.map_eq_some_iff.mp stepped
      obtain ⟨rfl, rfl⟩ := Prod.mk.inj eq
      -- the child waited for is the only one, and it leaves the table
      exact ⟨(Session.finish_continues finished).calm calm.1.waited, by simp⟩
  | ended freed => simp [Session.main, control] at stepped

theorem Session.Calm.step (calm : s.Calm) (waits : s.Waits) {event : Event}
    (stepped : s.step event = some (effect, s')) :
    s'.Calm ∧ ∀ line, effect ≠ some (.again line) := by
  cases event with
  | main garbage => exact calm.main waits stepped
  | exits pid =>
    obtain ⟨rfl, -⟩ := Session.exits_eq stepped
    exact ⟨calm.exits stepped, by simp⟩
  | signal garbage =>
    obtain ⟨calm', rfl⟩ := calm.signal stepped
    exact ⟨calm', by simp⟩

end OperatingSys.Shell
