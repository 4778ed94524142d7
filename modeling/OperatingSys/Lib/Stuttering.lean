import Mathlib.Data.List.ReduceOption
import OperatingSys.Lib.Machine

/-!
# Machines of smaller steps

Two machines with optional outputs, the steps of one of which are smaller. It takes some of them
without an output, and the other machine follows it only when a larger step is done.
-/

namespace Machine

variable {σ ι ο α : Type*} {small : σ → ι → Option (Option ο × σ)}
  {large : α → ι → Option (Option ο × α)} {R : σ → α → Prop}

/-- If each small step from related states either has no output and leads to a state that is related
to the same large one, or is matched by a large step with the same input and output, then the large
machine follows every run of the small one, leaving inputs out. -/
theorem follows_run
    (follows : ∀ s a i o s', R s a → small s i = some (o, s') →
      (o = none ∧ R s' a) ∨ ∃ a', large a i = some (o, a') ∧ R s' a')
    {s t : σ} {a : α} {inputs : List ι} {outputs : List (Option ο)} (related : R s a)
    (ran : run small s inputs = some (outputs, t)) :
    ∃ inputs' outputs' b, inputs'.Sublist inputs ∧ run large a inputs' = some (outputs', b) ∧
      outputs'.reduceOption = outputs.reduceOption ∧ R t b := by
  induction inputs generalizing s a outputs with
  | nil =>
    simp only [run, Option.some.injEq, Prod.mk.injEq] at ran
    obtain ⟨rfl, rfl⟩ := ran
    exact ⟨[], [], a, List.Sublist.refl _, rfl, rfl, related⟩
  | cons i rest ih =>
    obtain ⟨o, next, os, stepped, tail, rfl⟩ := run_cons_eq_some ran
    rcases follows s a i o next related stepped with ⟨rfl, still⟩ | ⟨a', stepped', related'⟩
    · obtain ⟨inputs', outputs', b, fewer, ran', same, ends⟩ := ih still tail
      exact ⟨inputs', outputs', b, fewer.cons i, ran', same, ends⟩
    · obtain ⟨inputs', outputs', b, fewer, ran', same, ends⟩ := ih related' tail
      refine ⟨i :: inputs', o :: outputs', b, fewer.cons_cons i, ?_, ?_, ends⟩
      · simp only [run, stepped', ran']
      · cases o with
        | none => simpa using same
        | some o => simpa using same

/-- If each large step is made up of small ones, so is every run. -/
theorem expands_run
    (expands : ∀ s a i o a', R s a → large a i = some (o, a') →
      ∃ inputs outputs s', [i].Sublist inputs ∧ run small s inputs = some (outputs, s') ∧
        outputs.reduceOption = [o].reduceOption ∧ R s' a')
    {s : σ} {a b : α} {inputs : List ι} {outputs : List (Option ο)} (related : R s a)
    (ran : run large a inputs = some (outputs, b)) :
    ∃ inputs' outputs' t, inputs.Sublist inputs' ∧ run small s inputs' = some (outputs', t) ∧
      outputs'.reduceOption = outputs.reduceOption ∧ R t b := by
  induction inputs generalizing s a outputs with
  | nil =>
    simp only [run, Option.some.injEq, Prod.mk.injEq] at ran
    obtain ⟨rfl, rfl⟩ := ran
    exact ⟨[], [], s, List.Sublist.refl _, rfl, rfl, related⟩
  | cons i rest ih =>
    obtain ⟨o, next, os, stepped, tail, rfl⟩ := run_cons_eq_some ran
    obtain ⟨first, outputs₁, s', more, ran₁, same₁, related'⟩ := expands s a i o next related stepped
    obtain ⟨later, outputs₂, t, more', ran₂, same₂, ends⟩ := ih related' tail
    refine ⟨first ++ later, outputs₁ ++ outputs₂, t, more.append more', run_append ran₁ ran₂, ?_,
      ends⟩
    rw [List.reduceOption_append, same₁, same₂, ← List.reduceOption_append, List.singleton_append]

/-! ### Calls that take several steps -/

/-- If each admitted step from related states is defined, and either leads to a state that is
related to the same abstract one or ends a call with the reply of the abstract step, then every
admitted run is defined, and the replies are those of the calls done one after the other, in the
order in which they end. -/
theorem run_serial {κ ρ : Type*} {step : σ → ι → Option (Option (κ × ρ) × σ)}
    {ok : σ → ι → Prop} (spec : α → κ → ρ × α)
    (serves : ∀ s a i, R s a → ok s i →
      (∃ s', step s i = some (none, s') ∧ R s' a) ∨
      ∃ c s', step s i = some (some (c, (spec a c).1), s') ∧ R s' (spec a c).2)
    {s : σ} {a : α} {inputs : List ι} (related : R s a) (admitted : Admits step ok s inputs) :
    ∃ outputs t, run step s inputs = some (outputs, t) ∧
      outputs.reduceOption.map Prod.snd =
        (total spec a (outputs.reduceOption.map Prod.fst)).1 ∧
      R t (total spec a (outputs.reduceOption.map Prod.fst)).2 := by
  induction inputs generalizing s a with
  | nil => exact ⟨[], s, rfl, rfl, related⟩
  | cons i rest ih =>
    rcases serves s a i related admitted.1 with
      ⟨s', stepped, still⟩ | ⟨c, s', stepped, related'⟩
    · obtain ⟨outputs, t, ran, replies, ends⟩ := ih still (admitted.2 _ _ stepped)
      exact ⟨none :: outputs, t, by simp only [run, stepped, ran], replies, ends⟩
    · obtain ⟨outputs, t, ran, replies, ends⟩ := ih related' (admitted.2 _ _ stepped)
      refine ⟨some (c, (spec a c).1) :: outputs, t, by simp only [run, stepped, ran], ?_, ends⟩
      simp only [List.reduceOption_cons_of_some, List.map_cons, total, replies]

end Machine
