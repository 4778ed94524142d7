import Mathlib.Data.List.Rotate

/-!
# Taking turns around a ring

The indices below `n` in cyclic order from the one after `a` round to `a` itself, and those
of them that wait for a turn. Whoever is served next goes to the back of the line, so that
the line has been served once, and stands as before, after as many turns as it is long.
-/

namespace Cyclic

/-- The indices below `n`, from `a + 1` on, round to `a`. -/
def after (n a : Nat) : List Nat := (List.range n).rotate (a + 1)

/-- Those of them that wait. -/
def line (n : Nat) (waits : Nat → Bool) (a : Nat) : List Nat := (after n a).filter waits

variable {n : Nat}

@[simp] theorem length_after (a : Nat) : (after n a).length = n := by
  rw [after, List.length_rotate, List.length_range]

theorem getElem_after {a i : Nat} (below : i < (after n a).length) :
    (after n a)[i] = (a + 1 + i) % n := by
  simp only [after, List.getElem_rotate, List.getElem_range, List.length_range]
  rw [Nat.add_comm i]

theorem after_perm (a : Nat) : (after n a).Perm (List.range n) := List.rotate_perm _ _

theorem line_perm (waits : Nat → Bool) (a : Nat) :
    (line n waits a).Perm ((List.range n).filter waits) :=
  (after_perm a).filter waits

theorem line_congr {waits waits' : Nat → Bool} (same : ∀ i < n, waits i = waits' i) (a : Nat) :
    line n waits a = line n waits' a := by
  apply List.filter_congr
  intro i member
  exact same i (List.mem_range.mp ((after_perm a).mem_iff.mp member))

theorem getLast?_after {a : Nat} (below : a < n) : (after n a).getLast? = some a := by
  have last : n - 1 < (after n a).length := by
    rw [length_after]
    omega
  rw [List.getLast?_eq_getElem?, length_after, List.getElem?_eq_getElem last, getElem_after]
  have around : a + 1 + (n - 1) = a + n := by omega
  rw [around, Nat.add_mod_right, Nat.mod_eq_of_lt below]

/-- Going on from an index that has been passed: what came before it comes last. -/
theorem after_of_append {a b : Nat} {front back : List Nat}
    (split : after n a = front ++ b :: back) : after n b = back ++ (front ++ [b]) := by
  have place : front.length < (after n a).length := by
    rw [split, List.length_append, List.length_cons]
    omega
  have index : b = (a + 1 + front.length) % n := by
    rw [← getElem_after place]
    simp [split]
  have whole : ∀ k, (List.range n).rotate (k % n) = (List.range n).rotate k := by
    intro k
    have := List.rotate_mod (List.range n) k
    rwa [List.length_range] at this
  have turned : after n b = (after n a).rotate (front.length + 1) := calc
    after n b = (List.range n).rotate ((b + 1) % n) := (whole _).symm
    _ = (List.range n).rotate ((a + 1 + front.length + 1) % n) := by rw [index, Nat.mod_add_mod]
    _ = (after n a).rotate (front.length + 1) := by rw [whole, after, List.rotate_rotate]; rfl
  have parts : front ++ b :: back = (front ++ [b]) ++ back := by simp
  have size : front.length + 1 = (front ++ [b]).length := by simp
  rw [turned, split, parts, size, List.rotate_append_length_eq]

/-- Who is served next goes to the back of the line. -/
theorem line_next {waits : Nat → Bool} {a b : Nat} (next : (after n a).find? waits = some b) :
    ∃ rest, line n waits a = b :: rest ∧ line n waits b = rest ++ [b] := by
  obtain ⟨waiting, front, back, split, passed⟩ := List.find?_eq_some_iff_append.mp next
  have none_ : front.filter waits = [] := by
    rw [List.filter_eq_nil_iff]
    intro c member
    simpa using passed c member
  refine ⟨back.filter waits, ?_, ?_⟩
  · rw [line, split, List.filter_append, none_, List.nil_append, List.filter_cons_of_pos waiting]
  · rw [line, after_of_append split, List.filter_append, List.filter_append, none_]
    simp [waiting]

/-! ### Who comes first -/

/-- Going round from `a`, index `i` comes before index `j`. -/
def Before (n a i j : Nat) : Prop := i ∈ (after n a).takeWhile (· ≠ j)

/-- How many indices come before `i`, going round from `a`. -/
def distance (n a i : Nat) : Nat := ((after n a).takeWhile (· ≠ i)).length

theorem takeWhile_ne {l : List Nat} {i : Nat} (absent : i ∉ l) (more : List Nat) :
    (l ++ more).takeWhile (· ≠ i) = l ++ more.takeWhile (· ≠ i) := by
  apply List.takeWhile_append_of_pos
  intro c member
  simpa using fun same : c = i => absent (same ▸ member)

theorem takeWhile_ne_cons {l : List Nat} {i : Nat} (absent : i ∉ l) (more : List Nat) :
    (l ++ i :: more).takeWhile (· ≠ i) = l := by
  rw [takeWhile_ne absent, List.takeWhile_cons_of_neg (by simp), List.append_nil]

theorem mem_after {a i : Nat} (below : i < n) : i ∈ after n a :=
  (after_perm a).mem_iff.mpr (List.mem_range.mpr below)

theorem distance_lt {a i : Nat} (below : i < n) : distance n a i < n := by
  obtain ⟨near, far, split, absent⟩ := List.eq_append_cons_of_mem (mem_after (a := a) below)
  have whole := congrArg List.length split
  rw [length_after, List.length_append, List.length_cons] at whole
  rw [distance, split, takeWhile_ne_cons absent]
  omega

/-- Everybody else comes before the index that the walk starts from. -/
theorem before_self {a i : Nat} (below : i < n) (other : i ≠ a) (start : a < n) :
    Before n a i a := by
  obtain ⟨front, split⟩ := List.getLast?_eq_some_iff.mp (getLast?_after start)
  have nodup : (after n a).Nodup := (after_perm a).nodup_iff.mpr List.nodup_range
  have member := mem_after (a := a) below
  rw [split, List.nodup_append] at nodup
  rw [split, List.mem_append, List.mem_singleton] at member
  have absent : a ∉ front := fun inside => nodup.2.2 a inside a (by simp) rfl
  rw [Before, split, takeWhile_ne_cons absent]
  exact member.resolve_right other

section Next

variable {waits : Nat → Bool} {a b : Nat} (next : (after n a).find? waits = some b)
include next

/-- Whoever is served before an index that waits stands before it in the ring. -/
theorem takeWhile_after {i : Nat} (below : i < n) (waiting : waits i = true) (other : b ≠ i) :
    ∃ passed, (∀ c ∈ passed, waits c = false) ∧
      (after n a).takeWhile (· ≠ i) = passed ++ b :: (after n b).takeWhile (· ≠ i) := by
  obtain ⟨-, front, back, split, passed⟩ := List.find?_eq_some_iff_append.mp next
  have ahead : i ∉ front := by
    intro member
    simpa [waiting] using passed i member
  have behind : i ∈ back := by
    have member := mem_after (a := a) below
    rw [split, List.mem_append, List.mem_cons] at member
    exact (member.resolve_left ahead).resolve_left (Ne.symm other)
  obtain ⟨near, far, rfl, absent⟩ := List.eq_append_cons_of_mem behind
  refine ⟨front, fun c member => by simpa using passed c member, ?_⟩
  rw [after_of_append split, split, takeWhile_ne ahead,
    List.takeWhile_cons_of_pos (by simpa using other), List.append_assoc, List.cons_append,
    takeWhile_ne_cons absent, takeWhile_ne_cons absent]

/-- Whoever waits and is not served moves up. -/
theorem distance_next {i : Nat} (below : i < n) (waiting : waits i = true) (other : b ≠ i) :
    distance n b i < distance n a i := by
  obtain ⟨passed, -, split⟩ := takeWhile_after next below waiting other
  rw [distance, distance, split, List.length_append, List.length_cons]
  omega

/-- Nobody is served while somebody waits who comes before. -/
theorem ne_of_before {i j : Nat} (waiting : waits i = true) (before : Before n a i j) : b ≠ j := by
  rintro rfl
  obtain ⟨served, front, back, split, passed⟩ := List.find?_eq_some_iff_append.mp next
  have absent : b ∉ front := by
    intro member
    simpa [served] using passed b member
  rw [Before, split, takeWhile_ne_cons absent] at before
  simpa [waiting] using passed i before

/-- Those who wait and are not served stay in their order. -/
theorem before_next {i j : Nat} (waiting : waits i = true) (other : b ≠ i) (below : j < n)
    (waiting' : waits j = true) (before : Before n a i j) : Before n b i j := by
  have later := ne_of_before next waiting before
  obtain ⟨passed, idle, split⟩ := takeWhile_after next below waiting' later
  rw [Before, split, List.mem_append, List.mem_cons] at before
  rcases before with skipped | same | behind
  · simpa [waiting] using idle i skipped
  · exact absurd same.symm other
  · exact behind

end Next

/-- Where nobody waits from `n` on, the walk around more indices than `n` finds the same. -/
theorem find?_after_of_le {m a : Nat} {waits : Nat → Bool} (le : n ≤ m) (start : a < n)
    (inside : ∀ i < m, waits i = true → i < n) :
    (after m a).find? waits = (after n a).find? waits := by
  obtain ⟨more, rfl⟩ := Nat.exists_eq_add_of_le le
  have far : ((List.range more).map (n + ·)).find? waits = none := by
    rw [List.find?_eq_none]
    intro i member waiting
    obtain ⟨d, below, rfl⟩ := List.mem_map.mp member
    have short := inside (n + d) (Nat.add_lt_add_left (List.mem_range.mp below) n) waiting
    omega
  have size : a + 1 ≤ (List.range n).length := by
    rw [List.length_range]
    exact start
  rw [after, after, List.rotate_eq_drop_append_take size, List.rotate_eq_drop_append_take,
    List.range_add, List.drop_append_of_le_length size, List.take_append_of_le_length size,
    List.find?_append, List.find?_append, List.find?_append, far, Option.or_none]
  rw [List.length_range]
  omega

/-- The last of the line is the index it starts from. -/
theorem getLast?_line {waits : Nat → Bool} {a : Nat} (below : a < n) (waiting : waits a = true) :
    (line n waits a).getLast? = some a := by
  obtain ⟨front, split⟩ := List.getLast?_eq_some_iff.mp (getLast?_after below)
  rw [line, split, List.filter_append, List.filter_cons_of_pos waiting, List.filter_nil,
    List.getLast?_concat]

end Cyclic
