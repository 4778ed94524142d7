import Mathlib.Logic.Basic

/-!
# Partial machines with outputs

A machine is a function `step : σ → ι → Option (ο × σ)`: in a state it takes one
input and either produces an output and a next state, or has no defined outcome.
This module holds the rules every development over such a machine uses: an
invariant carried along all runs, a property that holds along a run exactly
when every input of the run meets a condition, two conditions that admit the
same runs, and the simulation of a machine by a total abstract one.
-/

namespace Machine

variable {σ ι ο α : Type*}

/-- Feed the inputs in order, collecting the outputs. -/
def run (step : σ → ι → Option (ο × σ)) : σ → List ι → Option (List ο × σ)
  | s, [] => some ([], s)
  | s, i :: rest =>
    match step s i with
    | none => none
    | some (o, next) =>
      match run step next rest with
      | none => none
      | some (os, last) => some (o :: os, last)

/-- Every input meets `ok` in the state in which it arrives. -/
def Admits (step : σ → ι → Option (ο × σ)) (ok : σ → ι → Prop) : σ → List ι → Prop
  | _, [] => True
  | s, i :: rest => ok s i ∧ ∀ o next, step s i = some (o, next) → Admits step ok next rest

/-- `P` holds in every state the run passes through, its first one included. -/
def Always (step : σ → ι → Option (ο × σ)) (P : σ → Prop) : σ → List ι → Prop
  | s, [] => P s
  | s, i :: rest => P s ∧ ∀ o next, step s i = some (o, next) → Always step P next rest

/-- `t` ends a run from `s` all of whose inputs meet `ok`. -/
def Reaches (step : σ → ι → Option (ο × σ)) (ok : σ → ι → Prop) (s t : σ) : Prop :=
  ∃ inputs outputs, Admits step ok s inputs ∧ run step s inputs = some (outputs, t)

variable {step : σ → ι → Option (ο × σ)} {ok cond : σ → ι → Prop}

instance Admits.decidable [∀ s i, Decidable (ok s i)] :
    ∀ s inputs, Decidable (Admits step ok s inputs)
  | _, [] => isTrue trivial
  | s, i :: rest =>
    match stepped : step s i with
    | none => decidable_of_iff (ok s i) (by simp [Admits, stepped])
    | some (o, next) =>
      have := Admits.decidable next rest
      decidable_of_iff (ok s i ∧ Admits step ok next rest) (by simp [Admits, stepped])

theorem admits_true {s : σ} (inputs : List ι) : Admits step (fun _ _ => True) s inputs := by
  induction inputs generalizing s with
  | nil => trivial
  | cons i rest ih => exact ⟨trivial, fun _ _ _ => ih⟩

/-- A condition on the inputs alone. -/
theorem admits_of_forall {valid : ι → Prop} {s : σ} {inputs : List ι}
    (all : ∀ i ∈ inputs, valid i) : Admits step (fun _ i => valid i) s inputs := by
  induction inputs generalizing s with
  | nil => trivial
  | cons i rest ih =>
    exact ⟨all i (by simp), fun _ _ _ => ih fun j member => all j (List.mem_cons_of_mem _ member)⟩

/-- The first step of a successful run, and the run that remains. -/
theorem run_cons_eq_some {s t : σ} {i : ι} {rest : List ι} {outputs : List ο}
    (ran : run step s (i :: rest) = some (outputs, t)) :
    ∃ o next os, step s i = some (o, next) ∧ run step next rest = some (os, t) ∧
      outputs = o :: os := by
  simp only [run] at ran
  cases first : step s i with
  | none => simp [first] at ran
  | some result =>
    obtain ⟨o, next⟩ := result
    cases tail : run step next rest with
    | none => simp [first, tail] at ran
    | some final =>
      obtain ⟨os, last⟩ := final
      simp only [first, tail, Option.some.injEq, Prod.mk.injEq] at ran
      obtain ⟨rfl, rfl⟩ := ran
      exact ⟨o, next, os, rfl, tail, rfl⟩

/-- Two runs, one after the other. -/
theorem run_append {s t u : σ} {inputs rest : List ι} {outputs outputs' : List ο}
    (first : run step s inputs = some (outputs, t)) (second : run step t rest = some (outputs', u)) :
    run step s (inputs ++ rest) = some (outputs ++ outputs', u) := by
  induction inputs generalizing s outputs with
  | nil =>
    simp only [run, Option.some.injEq, Prod.mk.injEq] at first
    obtain ⟨rfl, rfl⟩ := first
    exact second
  | cons i inputs ih =>
    obtain ⟨o, next, os, stepped, tail, rfl⟩ := run_cons_eq_some first
    simp only [List.cons_append, run, stepped, ih tail]

/-- What every admitted step preserves holds at the end of every admitted run. -/
theorem run_invariant (inv : σ → Prop)
    (preserved : ∀ s i o next, inv s → ok s i → step s i = some (o, next) → inv next)
    {s t : σ} {inputs : List ι} {outputs : List ο} (initial : inv s)
    (admitted : Admits step ok s inputs) (ran : run step s inputs = some (outputs, t)) :
    inv t := by
  -- by induction on the run, from its first step on
  induction inputs generalizing s outputs with
  | nil =>
    simp only [run, Option.some.injEq, Prod.mk.injEq] at ran
    exact ran.2 ▸ initial
  | cons i rest ih =>
    obtain ⟨o, next, os, stepped, tail, -⟩ := run_cons_eq_some ran
    exact ih (preserved s i o next initial admitted.1 stepped)
      (admitted.2 o next stepped) tail

/-- The invariant rule for reachable states. -/
theorem Reaches.invariant (inv : σ → Prop)
    (preserved : ∀ s i o next, inv s → ok s i → step s i = some (o, next) → inv next)
    {s t : σ} (initial : inv s) (reached : Reaches step ok s t) : inv t := by
  obtain ⟨inputs, outputs, admitted, ran⟩ := reached
  exact run_invariant inv preserved initial admitted ran

/-- What every admitted step preserves holds all along every admitted run. -/
theorem always_of_invariant (inv : σ → Prop) {P : σ → Prop} (implies : ∀ s, inv s → P s)
    (preserved : ∀ s i o next, inv s → ok s i → step s i = some (o, next) → inv next)
    {s : σ} {inputs : List ι} (initial : inv s) (admitted : Admits step ok s inputs) :
    Always step P s inputs := by
  induction inputs generalizing s with
  | nil => exact implies s initial
  | cons i rest ih =>
    refine ⟨implies s initial, fun o next stepped => ?_⟩
    exact ih (preserved s i o next initial admitted.1 stepped) (admitted.2 o next stepped)

/-- What holds of every admitted step from a good state holds of every step of an admitted run. -/
theorem admits_of_invariant (inv : σ → Prop) (implies : ∀ s i, inv s → ok s i → cond s i)
    (preserved : ∀ s i o next, inv s → ok s i → step s i = some (o, next) → inv next)
    {s : σ} {inputs : List ι} (initial : inv s) (admitted : Admits step ok s inputs) :
    Admits step cond s inputs := by
  induction inputs generalizing s with
  | nil => trivial
  | cons i rest ih =>
    refine ⟨implies s i initial admitted.1, fun o next stepped => ?_⟩
    exact ih (preserved s i o next initial admitted.1 stepped) (admitted.2 o next stepped)

theorem Always.first {P : σ → Prop} {s : σ} {inputs : List ι} (always : Always step P s inputs) :
    P s := by
  cases inputs with
  | nil => exact always
  | cons _ _ => exact always.1

/-- What holds all along a run holds all along what is left of it. -/
theorem Always.of_append {P : σ → Prop} {s t : σ} {inputs rest : List ι} {outputs : List ο}
    (always : Always step P s (inputs ++ rest)) (ran : run step s inputs = some (outputs, t)) :
    Always step P t rest := by
  induction inputs generalizing s outputs with
  | nil =>
    simp only [run, Option.some.injEq, Prod.mk.injEq] at ran
    exact ran.2 ▸ always
  | cons i inputs ih =>
    obtain ⟨o, next, os, stepped, tail, -⟩ := run_cons_eq_some ran
    exact ih (always.2 o next stepped) tail

/-- What is left of an admitted run is admitted. -/
theorem Admits.of_append {s t : σ} {inputs rest : List ι} {outputs : List ο}
    (admitted : Admits step ok s (inputs ++ rest))
    (ran : run step s inputs = some (outputs, t)) : Admits step ok t rest := by
  induction inputs generalizing s outputs with
  | nil =>
    simp only [run, Option.some.injEq, Prod.mk.injEq] at ran
    exact ran.2 ▸ admitted
  | cons i inputs ih =>
    obtain ⟨o, next, os, stepped, tail, -⟩ := run_cons_eq_some ran
    exact ih (admitted.2 o next stepped) tail

/-- What holds all along a run holds where the run ends. -/
theorem Always.last {P : σ → Prop} {s t : σ} {inputs : List ι} {outputs : List ο}
    (always : Always step P s inputs) (ran : run step s inputs = some (outputs, t)) : P t := by
  rw [← List.append_nil inputs] at always
  exact always.of_append ran

/-- If from good states a step keeps `P` exactly when its input meets `cond`, then `P`
holds all along a run exactly when every input of the run meets `cond`. -/
theorem always_iff_admits (inv : σ → Prop) {P : σ → Prop}
    (exact_step : ∀ s i o next, inv s → P s → ok s i → step s i = some (o, next) →
      (P next ↔ cond s i) ∧ (P next → inv next))
    (undefined : ∀ s i, step s i = none → cond s i)
    {s : σ} {inputs : List ι} (initial : inv s) (good : P s)
    (admitted : Admits step ok s inputs) :
    Always step P s inputs ↔ Admits step cond s inputs := by
  induction inputs generalizing s with
  | nil => simp [Always, Admits, good]
  | cons i rest ih =>
    simp only [Always, Admits, good, true_and]
    -- a step that is not defined ends the run, and then there is nothing left to keep
    cases stepped : step s i with
    | none => simp [undefined s i stepped]
    | some result =>
      obtain ⟨o, next⟩ := result
      have tailAdmitted := admitted.2 o next stepped
      obtain ⟨kept, carried⟩ := exact_step s i o next initial good admitted.1 stepped
      constructor
      · intro always
        have tail := always o next rfl
        have here := tail.first
        refine ⟨kept.mp here, ?_⟩
        rintro _ _ ⟨⟩
        exact (ih (carried here) here tailAdmitted).mp tail
      · rintro ⟨met, rest_met⟩
        have here := kept.mpr met
        rintro _ _ ⟨⟩
        exact (ih (carried here) here tailAdmitted).mpr (rest_met o next rfl)

/-- Two conditions that agree in good states admit the same runs, if the steps they admit
lead from good states to good ones. -/
theorem admits_iff_admits (inv : σ → Prop) {good : σ → ι → Prop}
    (same : ∀ s i, inv s → ok s i → (good s i ↔ cond s i))
    (preserved : ∀ s i o next, inv s → ok s i → cond s i → step s i = some (o, next) → inv next)
    {s : σ} {inputs : List ι} (initial : inv s) (admitted : Admits step ok s inputs) :
    Admits step good s inputs ↔ Admits step cond s inputs := by
  induction inputs generalizing s with
  | nil => exact Iff.rfl
  | cons i rest ih =>
    have here := same s i initial admitted.1
    constructor
    · rintro ⟨first, tail⟩
      refine ⟨here.mp first, fun o next stepped => ?_⟩
      have kept := preserved s i o next initial admitted.1 (here.mp first) stepped
      exact (ih kept (admitted.2 o next stepped)).mp (tail o next stepped)
    · rintro ⟨first, tail⟩
      refine ⟨here.mpr first, fun o next stepped => ?_⟩
      have kept := preserved s i o next initial admitted.1 first stepped
      exact (ih kept (admitted.2 o next stepped)).mpr (tail o next stepped)

/-! ### Simulation by a total machine -/

/-- The outputs and the last state of a total machine. -/
def total (step : α → ι → ο × α) : α → List ι → List ο × α
  | a, [] => ([], a)
  | a, i :: rest =>
    let (o, next) := step a i
    let (os, last) := total step next rest
    (o :: os, last)

/-- If each admitted step from related states is defined, produces the output of the
abstract step and leads to related states, then every admitted run is defined and
produces exactly the outputs of the abstract run. -/
theorem simulation (R : σ → α → Prop) (spec : α → ι → ο × α)
    (simulates : ∀ s a i, R s a → ok s i →
      ∃ next, step s i = some ((spec a i).1, next) ∧ R next (spec a i).2)
    {s : σ} {a : α} {inputs : List ι} (related : R s a) (admitted : Admits step ok s inputs) :
    ∃ t, run step s inputs = some ((total spec a inputs).1, t) ∧
      R t (total spec a inputs).2 := by
  induction inputs generalizing s a with
  | nil => exact ⟨s, rfl, related⟩
  | cons i rest ih =>
    obtain ⟨next, stepped, related'⟩ := simulates s a i related admitted.1
    obtain ⟨t, ran, final⟩ := ih related' (admitted.2 _ _ stepped)
    exact ⟨t, by simp [run, total, stepped, ran], final⟩

/-- The simulation rule for runs that stay good: the abstract run ends in a good state, and
no step of it leads from a bad state to a good one. -/
theorem simulation_good (R : σ → α → Prop) (spec : α → ι → ο × α) (good : α → Prop)
    {valid : ι → Prop} (backwards : ∀ a i, good (spec a i).2 → good a)
    (simulates : ∀ s a i, R s a → valid i → good (spec a i).2 →
      ∃ next, step s i = some ((spec a i).1, next) ∧ R next (spec a i).2)
    {s : σ} {a : α} {inputs : List ι} (related : R s a) (all : ∀ i ∈ inputs, valid i)
    (ends : good (total spec a inputs).2) :
    ∃ t, run step s inputs = some ((total spec a inputs).1, t) ∧
      R t (total spec a inputs).2 := by
  -- a run that ends in a good state has been good all the way
  have early : ∀ a, ∀ inputs : List ι, good (total spec a inputs).2 → good a := by
    intro a inputs
    induction inputs generalizing a with
    | nil => exact id
    | cons i rest ih => exact fun later => backwards a i (ih _ later)
  induction inputs generalizing s a with
  | nil => exact ⟨s, rfl, related⟩
  | cons i rest ih =>
    obtain ⟨next, stepped, related'⟩ :=
      simulates s a i related (all i (by simp)) (early _ rest ends)
    obtain ⟨t, ran, final⟩ :=
      ih related' (fun j member => all j (List.mem_cons_of_mem _ member)) ends
    exact ⟨t, by simp [run, total, stepped, ran], final⟩

/-! ### Runs that work something off -/

end Machine
