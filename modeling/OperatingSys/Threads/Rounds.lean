import Mathlib.Data.Fintype.Card
import Mathlib.Logic.Function.Basic

/-!
# A counter that every leaver resets

What a barrier with one counter does, whatever its threads are: a party calls, counts itself,
leaves when the counter has reached the number of parties, resets the counter and returns.
The arrivals that the counter still counts are those since the last reset.
-/

namespace OperatingSys.Threads

/-- Where a party is in its call. -/
inductive Phase where
  | idle
  | called
  | waiting
  | leaving
  | done
  deriving DecidableEq

namespace Phase

/-- How many calls, arrivals and resets the phase adds to those of the calls that returned. -/
def calls : Phase → Nat
  | .idle => 0
  | .called | .waiting | .leaving | .done => 1

def arrivals : Phase → Nat
  | .idle | .called => 0
  | .waiting | .leaving | .done => 1

def resets : Phase → Nat
  | .idle | .called | .waiting | .leaving => 0
  | .done => 1

theorem arrivals_le_calls (phase : Phase) : phase.arrivals ≤ phase.calls := by
  cases phase <;> decide

end Phase

structure Rounds (T : Type) where
  counter : Int
  phase : T → Phase
  returns : T → Nat

namespace Rounds

variable {T : Type} (r : Rounds T) (t : T)

def calls : Nat := r.returns t + (r.phase t).calls

def arrivals : Nat := r.returns t + (r.phase t).arrivals

def resets : Nat := r.returns t + (r.phase t).resets

variable {r t} in
/-- Between its arrival and its reset a party is one arrival ahead of its own resets. -/
theorem arrivals_inside (inside : r.phase t = .waiting ∨ r.phase t = .leaving) :
    r.arrivals t = r.resets t + 1 := by
  rcases inside with phase | phase <;> simp [arrivals, resets, phase, Phase.arrivals, Phase.resets]

variable [DecidableEq T]

def setPhase (phase : Phase) : Rounds T := { r with phase := Function.update r.phase t phase }

/-- One step of party `t`. -/
inductive Step [Fintype T] (r : Rounds T) (t : T) : Rounds T → Prop where
  | call (before : r.phase t = .idle) : Step r t (r.setPhase t .called)
  | arrive (before : r.phase t = .called) :
    Step r t { r.setPhase t .waiting with counter := r.counter + 1 }
  | leave (before : r.phase t = .waiting) (full : Fintype.card T ≤ r.counter) :
    Step r t (r.setPhase t .leaving)
  | reset (before : r.phase t = .leaving) : Step r t { r.setPhase t .done with counter := 0 }
  | finish (before : r.phase t = .done) :
    Step r t { r.setPhase t .idle with returns := Function.update r.returns t (r.returns t + 1) }

variable [Fintype T] {r t} {r' : Rounds T}

/-- The other parties do not move. -/
theorem Step.other (step : Step r t r') {u : T} (other : u ≠ t) :
    r'.phase u = r.phase u ∧ r'.returns u = r.returns u := by
  cases step <;> simp [setPhase, other]

theorem Step.arrivals_of_ne (step : Step r t r') {u : T} (other : u ≠ t) :
    r'.arrivals u = r.arrivals u := by
  rw [arrivals, arrivals, (step.other other).1, (step.other other).2]

theorem Step.resets_of_ne (step : Step r t r') {u : T} (other : u ≠ t) :
    r'.resets u = r.resets u := by
  rw [resets, resets, (step.other other).1, (step.other other).2]

/-- Arriving counts as an arrival, and no other step does. -/
theorem Step.arrivals_self (step : Step r t r') :
    r'.arrivals t = r.arrivals t + if r.phase t = .called then 1 else 0 := by
  cases step with
  | call before => simp [arrivals, setPhase, Phase.arrivals, before]
  | arrive before => simp [arrivals, setPhase, Phase.arrivals, before]
  | leave before _ => simp [arrivals, setPhase, Phase.arrivals, before]
  | reset before => simp [arrivals, setPhase, Phase.arrivals, before]
  | finish before => simp [arrivals, setPhase, Phase.arrivals, before]

/-- Resetting counts as a reset, and no other step does. -/
theorem Step.resets_self (step : Step r t r') :
    r'.resets t = r.resets t + if r.phase t = .leaving then 1 else 0 := by
  cases step with
  | call before => simp [resets, setPhase, Phase.resets, before]
  | arrive before => simp [resets, setPhase, Phase.resets, before]
  | leave before _ => simp [resets, setPhase, Phase.resets, before]
  | reset before => simp [resets, setPhase, Phase.resets, before]
  | finish before => simp [resets, setPhase, Phase.resets, before]

/-- Calling counts as a call, and no other step does. -/
theorem Step.calls_eq (step : Step r t r') (u : T) :
    r'.calls u = r.calls u + if u = t ∧ r.phase t = .idle then 1 else 0 := by
  by_cases self : u = t
  · subst self
    cases step with
    | call before => simp [calls, setPhase, Phase.calls, before]
    | arrive before => simp [calls, setPhase, Phase.calls, before]
    | leave before _ => simp [calls, setPhase, Phase.calls, before]
    | reset before => simp [calls, setPhase, Phase.calls, before]
    | finish before => simp [calls, setPhase, Phase.calls, before]
  · rw [if_neg (fun both => self both.1), calls, calls, (step.other self).1, (step.other self).2,
      Nat.add_zero]

theorem Step.arrivals_mono (step : Step r t r') (u : T) : r.arrivals u ≤ r'.arrivals u := by
  by_cases self : u = t
  · subst self
    rw [step.arrivals_self]
    exact Nat.le_add_right _ _
  · exact Nat.le_of_eq (step.arrivals_of_ne self).symm

theorem Step.resets_mono (step : Step r t r') (u : T) : r.resets u ≤ r'.resets u := by
  by_cases self : u = t
  · subst self
    rw [step.resets_self]
    exact Nat.le_add_right _ _
  · exact Nat.le_of_eq (step.resets_of_ne self).symm

/-! ### No party returns early -/

/-- The parties `present` are those that the counter counts. -/
structure Orderly (r : Rounds T) (present : Finset T) : Prop where
  counted : r.counter = present.card
  inside : ∀ t ∈ present, r.phase t = .waiting ∨ r.phase t = .leaving
  behind : ∀ t u, r.resets t ≤ r.arrivals u
  ahead : ∀ t, ∀ u ∈ present, r.resets t < r.arrivals u
  together : ∀ t u, r.phase t = .leaving → r.arrivals t ≤ r.arrivals u

/-- The parties counted after a step. -/
def presentAfter (r : Rounds T) (t : T) (present : Finset T) : Finset T :=
  match r.phase t with
  | .called => insert t present
  | .leaving => ∅
  | .idle | .waiting | .done => present

variable {present : Finset T}

omit [DecidableEq T] in
/-- A full counter counts everybody. -/
theorem Orderly.everybody (orderly : Orderly r present) (full : Fintype.card T ≤ r.counter) :
    present = Finset.univ := by
  refine Finset.eq_univ_of_card present (Nat.le_antisymm (Finset.card_le_univ _) ?_)
  have := orderly.counted
  omega

/-- Nobody resets more often than anybody arrives, after a step as before it. -/
theorem Orderly.behind_step (orderly : Orderly r present) (step : Step r t r') (u v : T) :
    r'.resets u ≤ r'.arrivals v := by
  refine Nat.le_trans ?_ (step.arrivals_mono v)
  by_cases self : u = t
  · subst self
    rw [step.resets_self]
    split
    next leaving =>
      -- the reset ends the call with which this party arrived together with all others
      rw [← arrivals_inside (Or.inr leaving)]
      exact orderly.together u v leaving
    next => exact orderly.behind u v
  · rw [step.resets_of_ne self]
    exact orderly.behind u v

theorem Orderly.step (orderly : Orderly r present) (step : Step r t r') :
    Orderly r' (r.presentAfter t present) := by
  have behind := orderly.behind_step step
  have absent : r.phase t = .idle ∨ r.phase t = .called ∨ r.phase t = .done → t ∉ present := by
    intro phase member
    rcases orderly.inside t member with inside | inside <;> simp [inside] at phase
  have ahead : r.phase t ≠ .leaving → ∀ u, ∀ v ∈ present, r'.resets u < r'.arrivals v := by
    intro staying u v member
    refine Nat.lt_of_lt_of_le ?_ (step.arrivals_mono v)
    by_cases self : u = t
    · subst self
      rw [step.resets_self, if_neg staying]
      exact orderly.ahead u v member
    · rw [step.resets_of_ne self]
      exact orderly.ahead u v member
  have inside : ∀ u ∈ present, u ≠ t → r'.phase u = .waiting ∨ r'.phase u = .leaving := by
    intro u member other
    rw [(step.other other).1]
    exact orderly.inside u member
  have together : ∀ u v, u ≠ t → r'.phase u = .leaving → r'.arrivals u ≤ r'.arrivals v := by
    intro u v other leaving
    rw [(step.other other).1] at leaving
    rw [step.arrivals_of_ne other]
    exact Nat.le_trans (orderly.together u v leaving) (step.arrivals_mono v)
  have self : ∀ phase, r'.phase t = phase → phase ≠ .leaving →
      ∀ u v, r'.phase u = .leaving → r'.arrivals u ≤ r'.arrivals v := by
    intro phase now staying u v leaving
    by_cases self : u = t
    · subst self
      exact absurd (now.symm.trans leaving) staying
    · exact together u v self leaving
  -- which of the clauses a step touches depends on its kind; the facts above are the untouched ones
  cases step with
  | call before =>
    simp only [presentAfter, before]
    have notCounted := absent (Or.inl before)
    refine ⟨orderly.counted, fun u member => inside u member ?_, behind, ahead (by simp [before]),
      self .called (by simp [setPhase]) (by decide)⟩
    exact fun eq => notCounted (eq ▸ member)
  | arrive before =>
    simp only [presentAfter, before]
    have notCounted := absent (Or.inr (Or.inl before))
    refine ⟨?_, fun u member => ?_, behind, fun u v member => ?_,
      self .waiting (by simp [setPhase]) (by decide)⟩
    · have counted := orderly.counted
      rw [Finset.card_insert_of_notMem notCounted]
      dsimp only
      omega
    · by_cases own : u = t
      · exact Or.inl (by simp [setPhase, own])
      · exact inside u ((Finset.mem_insert.mp member).resolve_left own) own
    · rcases Finset.mem_insert.mp member with rfl | counted
      · -- the arrival of `v` is one more than all resets so far
        have before' := orderly.behind u v
        have arrived := (Step.arrive before).arrivals_self
        rw [if_pos before] at arrived
        have unreset : ∀ w, Rounds.resets { r.setPhase v .waiting with counter := r.counter + 1 } w =
            r.resets w := by
          intro w
          by_cases own : w = v
          · subst own
            rw [(Step.arrive before).resets_self, if_neg (by simp [before]), Nat.add_zero]
          · exact (Step.arrive before).resets_of_ne own
        rw [unreset, arrived]
        omega
      · exact ahead (by simp [before]) u v counted
  | leave before full =>
    simp only [presentAfter, before]
    have everybody := orderly.everybody full
    refine ⟨orderly.counted, fun u member => ?_, behind, ahead (by simp [before]), fun u v leaving => ?_⟩
    · by_cases own : u = t
      · exact Or.inr (by simp [setPhase, own])
      · exact inside u member own
    -- whoever sees the counter full has as many arrivals as everybody else
    · by_cases own : u = t
      · subst own
        have met := orderly.ahead u v (by simp [everybody])
        refine Nat.le_trans ?_ ((Step.leave before full).arrivals_mono v)
        rw [(Step.leave before full).arrivals_self, if_neg (by simp [before]), Nat.add_zero,
          arrivals_inside (Or.inl before)]
        exact met
      · exact together u v own leaving
  -- after a reset nobody is counted
  | reset before =>
    simp only [presentAfter, before]
    exact ⟨rfl, fun u member => absurd member (Finset.notMem_empty u), behind,
      fun u v member => absurd member (Finset.notMem_empty v),
      self .done (by simp [setPhase]) (by decide)⟩
  | finish before =>
    simp only [presentAfter, before]
    have notCounted := absent (Or.inr (Or.inr before))
    refine ⟨orderly.counted, fun u member => inside u member ?_, behind, ahead (by simp [before]),
      self .idle (by simp [setPhase]) (by decide)⟩
    exact fun eq => notCounted (eq ▸ member)

omit [DecidableEq T] [Fintype T] in
/-- A party has returned from no more calls than any other has made. -/
theorem Orderly.returns_le_calls (orderly : Orderly r present) (t u : T) :
    r.returns t ≤ r.calls u :=
  calc r.returns t ≤ r.resets t := Nat.le_add_right _ _
    _ ≤ r.arrivals u := orderly.behind t u
    _ ≤ r.calls u := Nat.add_le_add_left (Phase.arrivals_le_calls _) _

/-! ### No arrival is lost -/

/-- An arrival that the counter no longer counts belongs to a round that somebody has already
finished. -/
structure Lossless (r : Rounds T) (present : Finset T) : Prop where
  lost : ∀ t, r.phase t = .waiting → t ∉ present → ∃ u, r.arrivals t ≤ r.resets u
  level : ∀ t u, r.phase t = .waiting → r.phase u = .leaving → r.arrivals t ≤ r.arrivals u

/-- Nobody arrives while somebody is leaving. -/
theorem Lossless.step (lossless : Lossless r present) (orderly : Orderly r present)
    (step : Step r t r') (patient : r.phase t = .called → ∀ u, r.phase u ≠ .leaving) :
    Lossless r' (r.presentAfter t present) := by
  have lost : ∀ u, u ≠ t → r'.phase u = .waiting → u ∉ present →
      ∃ v, r'.arrivals u ≤ r'.resets v := by
    intro u other waiting absent
    rw [(step.other other).1] at waiting
    obtain ⟨v, le⟩ := lossless.lost u waiting absent
    rw [step.arrivals_of_ne other]
    exact ⟨v, Nat.le_trans le (step.resets_mono v)⟩
  have level : ∀ u v, u ≠ t → v ≠ t → r'.phase u = .waiting → r'.phase v = .leaving →
      r'.arrivals u ≤ r'.arrivals v := by
    intro u v other other' waiting leaving
    rw [(step.other other).1] at waiting
    rw [(step.other other').1] at leaving
    rw [step.arrivals_of_ne other, step.arrivals_of_ne other']
    exact lossless.level u v waiting leaving
  have apart : ∀ {u phase}, r'.phase u = phase → r'.phase t ≠ phase → u ≠ t := by
    rintro u phase eq ne rfl
    exact ne eq
  cases step with
  | call before =>
    simp only [presentAfter, before]
    have now : (r.setPhase t .called).phase t = .called := by simp [setPhase]
    refine ⟨fun u waiting absent => ?_, fun u v waiting leaving => ?_⟩
    · exact lost u (apart waiting (by simp [now])) waiting absent
    · exact level u v (apart waiting (by simp [now])) (apart leaving (by simp [now])) waiting leaving
  | arrive before =>
    simp only [presentAfter, before]
    have now : (r.setPhase t .waiting).phase t = .waiting := by simp [setPhase]
    refine ⟨fun u waiting absent => ?_, fun u v _ leaving => ?_⟩
    · rw [Finset.mem_insert, not_or] at absent
      exact lost u absent.1 waiting absent.2
    · have other := apart leaving (by simp [now])
      refine absurd ?_ (patient before v)
      simpa [setPhase, other] using leaving
  | leave before full =>
    simp only [presentAfter, before]
    have now : (r.setPhase t .leaving).phase t = .leaving := by simp [setPhase]
    have everybody := orderly.everybody full
    refine ⟨fun u _ absent => absurd (by simp [everybody]) absent, fun u v waiting leaving => ?_⟩
    have other := apart waiting (by simp [now])
    by_cases own : v = t
    · subst own
      -- everybody has arrived for the round that `v` leaves
      have waiting' := waiting
      rw [((Step.leave before full).other other).1] at waiting'
      rw [(Step.leave before full).arrivals_of_ne other, arrivals_inside (Or.inl waiting')]
      exact Nat.le_trans (orderly.ahead u v (by simp [everybody]))
        ((Step.leave before full).arrivals_mono v)
    · exact level u v other own waiting leaving
  | reset before =>
    simp only [presentAfter, before]
    have now : (r.setPhase t .done).phase t = .done := by simp [setPhase]
    refine ⟨fun u waiting _ => ?_, fun u v waiting leaving => ?_⟩
    · have other := apart waiting (by simp [now])
      by_cases counted : u ∈ present
      · -- this reset drops the arrival of `u`, but it also finishes the round of `u`
        have waiting' := waiting
        rw [((Step.reset before).other other).1] at waiting'
        refine ⟨t, ?_⟩
        rw [(Step.reset before).arrivals_of_ne other, (Step.reset before).resets_self, if_pos before,
          ← arrivals_inside (Or.inr before)]
        exact lossless.level u t waiting' before
      · exact lost u other waiting counted
    · exact level u v (apart waiting (by simp [now])) (apart leaving (by simp [now])) waiting leaving
  | finish before =>
    simp only [presentAfter, before]
    have now : (r.setPhase t .idle).phase t = .idle := by simp [setPhase]
    refine ⟨fun u waiting absent => ?_, fun u v waiting leaving => ?_⟩
    · exact lost u (apart waiting (by simp [now])) waiting absent
    · exact level u v (apart waiting (by simp [now])) (apart leaving (by simp [now])) waiting leaving

omit [DecidableEq T] in
/-- Unless somebody has gone on to a later round, the counter counts everybody who waits. -/
theorem Lossless.not_stuck (lossless : Lossless r present) (orderly : Orderly r present)
    (waiting : ∀ t, r.phase t = .waiting) (round : ∀ t u, r.calls t = r.calls u) :
    Fintype.card T ≤ r.counter := by
  have everybody : present = Finset.univ := by
    refine Finset.eq_univ_of_forall fun t => ?_
    by_contra absent
    obtain ⟨u, le⟩ := lossless.lost t (waiting t) absent
    have same := round t u
    simp only [arrivals, resets, calls, waiting, Phase.arrivals, Phase.resets, Phase.calls]
      at le same
    omega
  rw [orderly.counted, everybody, Finset.card_univ]

end Rounds

end OperatingSys.Threads
