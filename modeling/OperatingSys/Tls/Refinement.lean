import OperatingSys.Tls.Allotment
import OperatingSys.Tls.Abstract
import OperatingSys.Lib.Machine

/-!
# The areas refine independent arrays

Pages are shared between any number of areas, but each call answers as if every thread had
an array of its own.
-/

namespace OperatingSys.Tls

/-- The abstract step. -/
def Arrays.step (a : Arrays Tid Byte) (c : Call) : Reply × Arrays Tid Byte :=
  match c.operation with
  | .create size => (((a.create c.self 0 size.toNat).1, []), (a.create c.self 0 size.toNat).2)
  | .clone tid => (((a.clone c.self tid).1, []), (a.clone c.self tid).2)
  | .read offset length => (a.read c.self offset.toNat length.toNat, a)
  | .write offset length buffer =>
    let data := (List.range length.toNat).map buffer
    (((a.write c.self offset.toNat data).1, []), (a.write c.self offset.toNat data).2)
  | .destroy => (((a.destroy c.self).1, []), (a.destroy c.self).2)

/-- Thread ids are genuine, sizes below `2 ^ 31`, and `offset + length` does not wrap. -/
def Call.Valid (c : Call) : Prop :=
  Genuine c.self ∧
    match c.operation with
    | .create size => size.toNat < 2 ^ 31
    | .clone tid => Genuine tid
    | .read offset length => offset.toNat + length.toNat < 2 ^ 32
    | .write offset length _ => offset.toNat + length.toNat < 2 ^ 32
    | .destroy => True

instance : DecidablePred Call.Valid
  | ⟨_, .create _⟩ | ⟨_, .clone _⟩ | ⟨_, .read _ _⟩ | ⟨_, .write _ _ _⟩ | ⟨_, .destroy⟩ =>
    inferInstanceAs (Decidable (_ ∧ _))

/-- The arrays are the contents of the areas. -/
structure Represents (s : State) (a : Arrays Tid Byte) : Prop where
  resting : Resting s a.granted
  owns : ∀ tid bytes, a.array tid = some bytes ↔ Owns s tid bytes
  small : ∀ tid bytes, a.array tid = some bytes → bytes.length < 2 ^ 31

section Represented

variable {s : State} {a : Arrays Tid Byte} (represents : Represents s a) {self : Tid}
include represents

theorem Represents.cases (genuine : Genuine self) :
    (findTid s self = none ∧ a.array self = none ∧ ∀ i tls, ¬ Holds s self i tls) ∨
    ∃ i tls, Holds s self i tls ∧ findTid s self = some i ∧
      a.array self = some (s.contents tls) := by
  rcases represents.resting.registered.findTid_cases genuine with
    ⟨missing, without⟩ | ⟨i, tls, holds, found⟩
  · refine Or.inl ⟨missing, ?_, without⟩
    cases lookup : a.array self with
    | none => rfl
    | some bytes =>
      obtain ⟨i, tls, holds, -⟩ := (represents.owns self bytes).mp lookup
      exact absurd holds (without i tls)
  · exact Or.inr ⟨i, tls, holds, found, (represents.owns self _).mpr ⟨i, tls, holds, rfl⟩⟩

/-- A call that changes the area of `self` and the abstract call that sets its array. -/
theorem Represents.change {s' : State} {a' : Arrays Tid Byte} {new : Option (List Byte)}
    (resting' : Resting s' a'.granted) (changes : Changes s s' self new)
    (array : a'.array = Function.update a.array self new)
    (small : ∀ bytes, new = some bytes → bytes.length < 2 ^ 31) : Represents s' a' := by
  refine ⟨resting', fun tid bytes => ?_, fun tid bytes => ?_⟩
  · rw [array]
    by_cases own : tid = self
    · subst own
      rw [Function.update_self, changes.own]
    · rw [Function.update_of_ne own, represents.owns, changes.others tid own]
  · rw [array]
    by_cases own : tid = self
    · subst own
      rw [Function.update_self]
      exact small bytes
    · rw [Function.update_of_ne own]
      exact represents.small tid bytes

variable {size : BitVec 32} {target : Tid} {offset length : BitVec 32} {buffer : Nat → Byte}

/-- A call answers as the arrays do and leads to a state that represents theirs. -/
abbrev Simulates (s : State) (a : Arrays Tid Byte) (c : Call) : Prop :=
  ∃ s', call s c = some ((a.step c).1, s') ∧ Represents s' (a.step c).2

theorem Represents.create (genuine : Genuine self) (small : size.toNat < 2 ^ 31)
    (few : (a.create self 0 size.toNat).2.granted ≤ maxThreadCount) :
    Simulates s a ⟨self, .create size⟩ := by
  have begun : (if s.initialized then s else tlsInit s) = s :=
    if_pos represents.resting.initialized
  simp only [Simulates, call, Arrays.step, Arrays.create] at few ⊢
  by_cases zero : size = 0
  · have zero' : size.toNat = 0 := by rw [zero]; rfl
    rw [if_pos (Or.inl zero')]
    exact ⟨s, by simp only [tlsCreate, begun, if_pos zero, Option.map_some], represents⟩
  have positive : size.toNat ≠ 0 := fun eq => zero (BitVec.eq_of_toNat_eq eq)
  rcases represents.cases genuine with ⟨-, nothing, without⟩ | ⟨i, tls, -, found, array⟩
  · rw [nothing, if_neg (by simp [positive])] at few ⊢
    obtain ⟨s', created, resting', changes⟩ :=
      tlsCreate_spec represents.resting few genuine without zero
    refine ⟨s', by rw [created, Option.map_some], represents.change resting' changes rfl ?_⟩
    rintro bytes ⟨⟩
    rw [List.length_replicate]
    exact small
  · rw [array, Option.isSome_some, if_pos (Or.inr rfl)]
    exact ⟨s, by simp only [tlsCreate, begun, if_neg zero, found, Option.isSome_some, if_true,
      Option.map_some], represents⟩

theorem Represents.clone (genuine : Genuine self) (genuine' : Genuine target)
    (few : (a.clone self target).2.granted ≤ maxThreadCount) :
    Simulates s a ⟨self, .clone target⟩ := by
  simp only [Simulates, call, Arrays.step, Arrays.clone] at few ⊢
  rcases represents.cases genuine with ⟨missing, nothing, without⟩ | ⟨i, tls, holds, found, array⟩
  · rcases represents.cases genuine' with ⟨missing', nothing', -⟩ | ⟨i, tls, holds, -, array⟩
    · rw [nothing, nothing']
      exact ⟨s, by simp [tlsClone, missing, missing'], represents⟩
    · rw [nothing, array] at few ⊢
      obtain ⟨s', cloned, resting', changes⟩ :=
        tlsClone_spec represents.resting few genuine without holds
      refine ⟨s', by rw [cloned, Option.map_some], represents.change resting' changes rfl ?_⟩
      rintro bytes ⟨⟩
      exact represents.small target _ array
  · rw [array]
    exact ⟨s, by simp [tlsClone, found, holds.2], represents⟩

theorem Represents.read (genuine : Genuine self) (fits : offset.toNat + length.toNat < 2 ^ 32) :
    Simulates s a ⟨self, .read offset length⟩ := by
  simp only [Simulates, call, Arrays.step, Arrays.read]
  rcases represents.cases genuine with ⟨missing, nothing, -⟩ | ⟨i, tls, holds, -, array⟩
  · rw [nothing, (tls_missing missing).1]
    exact ⟨s, rfl, represents⟩
  · have small := represents.small self _ array
    rw [array]
    simp only [State.length_contents] at small ⊢
    by_cases exceeds : tls.size.toNat < offset.toNat + length.toNat
    · rw [if_pos exceeds, (tls_out_of_bounds represents.resting holds fits exceeds).1]
      exact ⟨s, rfl, represents⟩
    · obtain ⟨s', read, resting', owns⟩ :=
        tlsRead_spec represents.resting holds fits (Nat.le_of_not_lt exceeds) (by omega)
      rw [if_neg exceeds, read]
      exact ⟨s', rfl, resting', fun tid bytes => (represents.owns tid bytes).trans
        (owns tid bytes).symm, represents.small⟩

theorem Represents.write (genuine : Genuine self) (fits : offset.toNat + length.toNat < 2 ^ 32) :
    Simulates s a ⟨self, .write offset length buffer⟩ := by
  simp only [Simulates, call, Arrays.step, Arrays.write, List.length_map, List.length_range]
  rcases represents.cases genuine with ⟨missing, nothing, -⟩ | ⟨i, tls, holds, -, array⟩
  · rw [nothing, (tls_missing missing).2.1]
    exact ⟨s, rfl, represents⟩
  · have small := represents.small self _ array
    rw [array]
    simp only [State.length_contents] at small ⊢
    by_cases exceeds : tls.size.toNat < offset.toNat + length.toNat
    · rw [if_pos exceeds, (tls_out_of_bounds represents.resting holds fits exceeds).2]
      exact ⟨s, rfl, represents⟩
    · obtain ⟨s', written, resting', changes⟩ :=
        tlsWrite_spec represents.resting holds fits (Nat.le_of_not_lt exceeds) (by omega) buffer
      rw [if_neg exceeds, written]
      refine ⟨s', rfl, represents.change resting' changes rfl ?_⟩
      rintro bytes ⟨⟩
      rw [List.length_overwrite, State.length_contents]
      · simp only [List.length_map, List.length_range]
        omega
      · rw [State.length_contents]
        omega

theorem Represents.destroy (genuine : Genuine self) : Simulates s a ⟨self, .destroy⟩ := by
  simp only [Simulates, call, Arrays.step, Arrays.destroy]
  rcases represents.cases genuine with ⟨missing, nothing, -⟩ | ⟨i, tls, holds, -, array⟩
  · rw [nothing, (tls_missing missing).2.2]
    exact ⟨s, rfl, represents⟩
  · obtain ⟨s', destroyed, resting', changes⟩ := tlsDestroy_spec represents.resting holds
    rw [array, destroyed]
    exact ⟨s', rfl, represents.change resting' changes rfl fun bytes eq => by simp at eq⟩

theorem Represents.simulates {c : Call} (valid : c.Valid)
    (few : (a.step c).2.granted ≤ maxThreadCount) : Simulates s a c := by
  obtain ⟨self, operation⟩ := c
  obtain ⟨genuine, ok⟩ := valid
  cases operation with
  | create size => exact represents.create genuine ok few
  | clone target => exact represents.clone genuine ok few
  | read offset length => exact represents.read genuine ok
  | write offset length buffer => exact represents.write genuine ok
  | destroy => exact represents.destroy genuine

end Represented

/-! ### Before the first `tls_create` -/

theorem tlsInit_fresh_represents : Represents (tlsInit State.fresh) Arrays.empty := by
  refine ⟨tlsInit_fresh_resting, fun tid bytes => ?_, fun tid bytes array => ?_⟩
  · simp [Arrays.empty, Owns, tlsInit_fresh_nobody]
  · simp [Arrays.empty] at array

/-- Either nothing has been created yet, or the table represents the arrays. -/
def Related (s : State) (a : Arrays Tid Byte) : Prop :=
  (s = State.fresh ∧ a = Arrays.empty) ∨ Represents s a

theorem Related.simulates {s : State} {a : Arrays Tid Byte} {c : Call} (related : Related s a)
    (valid : c.Valid) (few : (a.step c).2.granted ≤ maxThreadCount) :
    ∃ s', call s c = some ((a.step c).1, s') ∧ Related s' (a.step c).2 := by
  rcases related with ⟨rfl, rfl⟩ | represents
  · obtain ⟨self, operation⟩ := c
    obtain ⟨read, write, destroy⟩ := tls_missing (findTid_fresh valid.1)
    cases operation with
    | create size =>
      -- the first `tls_create` starts the table
      obtain ⟨s', created, represents⟩ := tlsInit_fresh_represents.simulates valid few
      exact ⟨s', created, Or.inr represents⟩
    | clone target =>
      refine ⟨State.fresh, ?_, Or.inl ⟨rfl, rfl⟩⟩
      simp only [call, tlsClone, findTid_fresh valid.1, findTid_fresh valid.2]
      rfl
    | read offset length =>
      exact ⟨State.fresh, by simp only [call, read]; rfl, Or.inl ⟨rfl, rfl⟩⟩
    | write offset length buffer =>
      exact ⟨State.fresh, by simp only [call, write]; rfl, Or.inl ⟨rfl, rfl⟩⟩
    | destroy => exact ⟨State.fresh, by simp only [call, destroy]; rfl, Or.inl ⟨rfl, rfl⟩⟩
  · obtain ⟨s', called, represents'⟩ := represents.simulates valid few
    exact ⟨s', called, Or.inr represents'⟩

theorem Arrays.granted_le_step (a : Arrays Tid Byte) (c : Call) :
    a.granted ≤ (a.step c).2.granted := by
  obtain ⟨self, operation⟩ := c
  cases operation with
  | create size =>
    simp only [Arrays.step, Arrays.create]
    split
    · exact Nat.le_refl _
    · exact Nat.le_succ _
  | clone target =>
    simp only [Arrays.step, Arrays.clone]
    split
    · exact Nat.le_succ _
    · exact Nat.le_refl _
  | read offset length => exact Nat.le_refl _
  | write offset length buffer =>
    simp only [Arrays.step, Arrays.write]
    split
    · exact Nat.le_refl _
    · split <;> exact Nat.le_refl _
  | destroy =>
    simp only [Arrays.step, Arrays.destroy]
    split <;> exact Nat.le_refl _

/-- A write of one thread does not change what another thread reads. -/
theorem Related.isolated {s : State} {a : Arrays Tid Byte} (related : Related s a)
    (few : a.granted ≤ maxThreadCount) {writer reader : Tid} (other : reader ≠ writer)
    {offset length : BitVec 32} {buffer : Nat → Byte} {offset' length' : BitVec 32}
    (valid : Call.Valid ⟨writer, .write offset length buffer⟩)
    (valid' : Call.Valid ⟨reader, .read offset' length'⟩) :
    ∃ r s', call s ⟨writer, .write offset length buffer⟩ = some (r, s') ∧
      (call s' ⟨reader, .read offset' length'⟩).map Prod.fst =
        (call s ⟨reader, .read offset' length'⟩).map Prod.fst := by
  have unchanged : (a.step ⟨writer, .write offset length buffer⟩).2.granted = a.granted := by
    simp only [Arrays.step, Arrays.write]
    split
    · rfl
    · split <;> rfl
  obtain ⟨s', written, related'⟩ := related.simulates valid (by rw [unchanged]; exact few)
  obtain ⟨t, before, -⟩ := related.simulates valid' few
  obtain ⟨t', after, -⟩ := related'.simulates valid' (by
    rw [Arrays.step, unchanged]
    exact few)
  refine ⟨_, s', written, ?_⟩
  rw [before, after, Option.map_some, Option.map_some, Option.some.injEq]
  simp only [Arrays.step, Arrays.read, a.array_write_of_ne writer other]

/-- **Refinement.** From a new process every run of valid calls in which at most 128 areas
are given out is defined, and its return values and the bytes it delivers are those of
independent arrays; in the state it reaches, no write of one thread changes what another
thread reads. -/
theorem tls_refines_arrays {calls : List Call} (valid : ∀ c ∈ calls, c.Valid)
    (few : (Machine.total Arrays.step Arrays.empty calls).2.granted ≤ maxThreadCount) :
    ∃ t, Machine.run call State.fresh calls =
        some ((Machine.total Arrays.step Arrays.empty calls).1, t) ∧
      ∀ writer reader offset length buffer offset' length', reader ≠ writer →
        Call.Valid ⟨writer, .write offset length buffer⟩ →
        Call.Valid ⟨reader, .read offset' length'⟩ →
        ∃ r t', call t ⟨writer, .write offset length buffer⟩ = some (r, t') ∧
          (call t' ⟨reader, .read offset' length'⟩).map Prod.fst =
            (call t ⟨reader, .read offset' length'⟩).map Prod.fst := by
  obtain ⟨t, ran, related⟩ := Machine.simulation_good Related Arrays.step
    (fun a => a.granted ≤ maxThreadCount)
    (fun a c later => Nat.le_trans (a.granted_le_step c) later)
    (fun s a c related valid few => related.simulates valid few)
    (Or.inl ⟨rfl, rfl⟩) valid few
  exact ⟨t, ran, fun _ _ _ _ _ _ _ other valid valid' => related.isolated few other valid valid'⟩

/-- One thread writes, a second clones it and writes over the copy, a third clones the
second and outlives it. -/
def cloneThenWrite : List Call :=
  [⟨1, .create 4⟩, ⟨1, .write 1 2 fun _ => 7⟩, ⟨2, .clone 1⟩, ⟨2, .write 2 1 fun _ => 9⟩,
    ⟨3, .clone 2⟩, ⟨2, .destroy⟩, ⟨1, .read 0 4⟩, ⟨3, .read 0 4⟩, ⟨2, .read 0 1⟩]

theorem tls_refines_arrays_clones :
    ∃ t, Machine.run call State.fresh cloneThenWrite =
      some ([(0, []), (0, []), (0, []), (0, []), (0, []), (0, []), (0, [0, 7, 7, 0]),
        (0, [0, 7, 9, 0]), (-1, [])], t) := by
  obtain ⟨t, ran, -⟩ := @tls_refines_arrays cloneThenWrite (by decide) (by decide)
  exact ⟨t, ran⟩

end OperatingSys.Tls
