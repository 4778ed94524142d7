import OperatingSys.Tls.Refinement
import OperatingSys.Lib.Stuttering

/-!
# Calls that overlap

Nothing in tls.c keeps one thread out of `tls_read` and `tls_write` while another is inside.
Here these two go page by page and byte by byte, and between two such steps any other thread
may go on. The other three calls are still one step.
-/

namespace OperatingSys.Tls

open Search

/-- The arguments of `tls_read` or `tls_write`. -/
inductive Access where
  | read (offset length : BitVec 32)
  | write (offset length : BitVec 32) (buffer : Nat → Byte)

namespace Access

def operation : Access → Operation
  | .read offset length => .read offset length
  | .write offset length buffer => .write offset length buffer

def offset : Access → BitVec 32
  | .read offset _ => offset
  | .write offset _ _ => offset

def length : Access → BitVec 32
  | .read _ length => length
  | .write _ length _ => length

/-- One round of the loop over the bytes: what it puts into the buffer of the caller, and the
globals. -/
def round (s : State) (pair cnt : Nat) : Access → Option (List Byte × State)
  | .read offset _ =>
    match (s.pairs pair).tls with
    | none => none
    | some tls => (readByte s tls (indexOf offset cnt)).map fun byte => ([byte], s)
  | .write offset _ buffer =>
    (writeByte s pair (indexOf offset cnt) (buffer cnt)).map fun s' => ([], s')

end Access

/-- The three loops of `tls_read` and `tls_write`, with their counters. -/
inductive Stage where
  | unprotecting (i : Nat)
  | accessing (cnt : Nat)
  | protecting (i : Nat)

/-- A thread inside `tls_read` or `tls_write`, past the checks; `tls` was found in pair `pair`. -/
structure Inside where
  access : Access
  pair : Nat
  stage : Stage
  delivered : List Byte

/-- Its next step. No stage comes after the return. -/
def Inside.next (v : Inside) (s : State) : Option (Option Inside × State) :=
  match (s.pairs v.pair).tls with
  | none => none
  | some tls =>
    match v.stage with
    | .unprotecting i =>
      match tls.pages[i]? with
      | none => some (some { v with stage := .accessing 0 }, s)
      | some id =>
        (tlsUnprotect s id).map fun s' => (some { v with stage := .unprotecting (i + 1) }, s')
    | .accessing cnt =>
      if cnt < rounds v.access.offset v.access.length then
        (v.access.round s v.pair cnt).map fun r =>
          (some { v with stage := .accessing (cnt + 1), delivered := v.delivered ++ r.1 }, r.2)
      else some (some { v with stage := .protecting 0 }, s)
    | .protecting i =>
      match tls.pages[i]? with
      | none => some (none, s)
      | some id =>
        (tlsProtect s id).map fun s' => (some { v with stage := .protecting (i + 1) }, s')

/-- The globals, and who is inside a call. -/
structure Process where
  globals : State
  inside : Tid → Option Inside

inductive Event where
  /-- A call of `tls_create`, `tls_clone` or `tls_destroy`. -/
  | call (c : Call)
  | enters (self : Tid) (access : Access)
  | goes (self : Tid)

/-- Pairs `i` and `j` have no page in common. -/
def State.Apart (s : State) (i j : Nat) : Prop := ∀ id ∈ s.pagesOf i, id ∉ s.pagesOf j

instance (s : State) (i j : Nat) : Decidable (s.Apart i j) :=
  inferInstanceAs (Decidable (∀ id ∈ s.pagesOf i, id ∉ s.pagesOf j))

namespace Process

def fresh : Process where
  globals := State.fresh
  inside := fun _ => none

variable (p : Process)

/-- One step, with the call that returns in it and its reply. -/
def step : Event → Option (Option (Call × Reply) × Process)
  | .call c => (call p.globals c).map fun r => (some (c, r.1), { p with globals := r.2 })
  | .enters self access =>
    let refused := (some (⟨self, access.operation⟩, (-1, [])), p)
    match findTid p.globals self with
    | none => some refused
    | some i =>
      match (p.globals.pairs i).tls with
      | none => some refused
      | some tls =>
        if access.offset + access.length > tls.size then some refused
        else some (none, { p with
          inside := Function.update p.inside self (some ⟨access, i, .unprotecting 0, []⟩) })
  | .goes self =>
    match p.inside self with
    | none => none
    | some v =>
      match v.next p.globals with
      | none => none
      | some (some v', s) => some (none, ⟨s, Function.update p.inside self (some v')⟩)
      | some (none, s) =>
        some (some (⟨self, v.access.operation⟩, (0, v.delivered)),
          ⟨s, Function.update p.inside self none⟩)

/-! ### A thread that nobody disturbs -/

/-- With some steps of `self`, none of which returns, `p` becomes `q`. -/
def Quietly (self : Tid) (p q : Process) : Prop :=
  ∃ n outputs, Machine.run step p (List.replicate n (.goes self)) = some (outputs, q) ∧
    outputs.reduceOption = []

theorem Quietly.refl (self : Tid) (p : Process) : Quietly self p p := ⟨0, [], rfl, rfl⟩

theorem Quietly.cons {self : Tid} {p q r : Process} (stepped : p.step (.goes self) = some (none, q))
    (later : Quietly self q r) : Quietly self p r := by
  obtain ⟨n, outputs, ran, silent⟩ := later
  refine ⟨n + 1, none :: outputs, ?_, silent⟩
  simp only [List.replicate_succ, Machine.run, stepped, ran]

theorem Quietly.trans {self : Tid} {p q r : Process} (first : Quietly self p q)
    (second : Quietly self q r) : Quietly self p r := by
  obtain ⟨n, outputs, ran, silent⟩ := first
  obtain ⟨m, outputs', ran', silent'⟩ := second
  refine ⟨n + m, outputs ++ outputs', ?_, ?_⟩
  · rw [← List.replicate_append_replicate]
    exact Machine.run_append ran ran'
  · rw [List.reduceOption_append, silent, silent', List.append_nil]

/-- Thread `self` is inside a call, at `v`, and the globals are `s`. -/
abbrev at_ (self : Tid) (s : State) (v : Inside) : Process :=
  ⟨s, Function.update p.inside self (some v)⟩

section Undisturbed

variable {p} {self : Tid} {v : Inside} {tls : Area}

theorem step_at {s s' : State} {v v' : Inside} (next : v.next s = some (some v', s')) :
    (p.at_ self s v).step (.goes self) = some (none, p.at_ self s' v') := by
  simp only [step, at_, Function.update_self, next, Function.update_idem]

theorem quietly_unprotecting {ids : List Nat} :
    ∀ {s s' : State} {i : Nat}, (s.pairs v.pair).tls = some tls → tls.pages.drop i = ids →
      eachPage tlsUnprotect s ids = some s' → s'.pairs = s.pairs ∧
        Quietly self (p.at_ self s { v with stage := .unprotecting i })
          (p.at_ self s' { v with stage := .accessing 0 }) := by
  -- by induction on the pages that are left
  induction ids with
  | nil =>
    intro s s' i found left ran
    have past : tls.pages[i]? = none :=
      List.getElem?_eq_none (List.drop_eq_nil_iff.mp left)
    obtain rfl := Option.some.inj ran
    refine ⟨rfl, (Quietly.refl self _).cons (step_at ?_)⟩
    simp only [Inside.next, found, past]
  | cons id rest ih =>
    intro s s' i found left ran
    have next : tls.pages[i]? = some id := by
      rw [← Nat.add_zero i, ← List.getElem?_drop, left, List.getElem?_cons_zero]
    have left' : tls.pages.drop (i + 1) = rest := by
      rw [← List.tail_drop, left, List.tail_cons]
    simp only [eachPage] at ran
    cases here : s.heap id with
    | none => simp [tlsUnprotect, setProtection, here] at ran
    | some page =>
      rw [tlsUnprotect_touches s id page here] at ran
      obtain ⟨pairs, later⟩ := ih (i := i + 1)
        (s := s.storePage id (some { page with protection := .readWrite })) found left' ran
      refine ⟨pairs, later.cons (step_at ?_)⟩
      simp only [Inside.next, found, next, tlsUnprotect_touches s id page here, Option.map_some]

theorem quietly_protecting {ids : List Nat} :
    ∀ {s s' : State} {i : Nat}, (s.pairs v.pair).tls = some tls → tls.pages.drop i = ids →
      eachPage tlsProtect s ids = some s' → s'.pairs = s.pairs ∧
        ∃ j, tls.pages[j]? = none ∧ Quietly self (p.at_ self s { v with stage := .protecting i })
          (p.at_ self s' { v with stage := .protecting j }) := by
  induction ids with
  | nil =>
    intro s s' i found left ran
    obtain rfl := Option.some.inj ran
    exact ⟨rfl, i, List.getElem?_eq_none (List.drop_eq_nil_iff.mp left), Quietly.refl self _⟩
  | cons id rest ih =>
    intro s s' i found left ran
    have next : tls.pages[i]? = some id := by
      rw [← Nat.add_zero i, ← List.getElem?_drop, left, List.getElem?_cons_zero]
    have left' : tls.pages.drop (i + 1) = rest := by
      rw [← List.tail_drop, left, List.tail_cons]
    simp only [eachPage] at ran
    cases here : s.heap id with
    | none => simp [tlsProtect, setProtection, here] at ran
    | some page =>
      rw [tlsProtect_touches s id page here] at ran
      obtain ⟨pairs, j, past, later⟩ := ih (i := i + 1)
        (s := s.storePage id (some { page with protection := .none })) found left' ran
      refine ⟨pairs, j, past, later.cons (step_at ?_)⟩
      simp only [Inside.next, found, next, tlsProtect_touches s id page here, Option.map_some]

theorem quietly_reading {s : State} {offset length : BitVec 32} (found : (s.pairs v.pair).tls = some tls)
    (access : v.access = .read offset length) (n : Nat) :
    ∀ {c : Nat} {before bytes : List Byte}, c + n = rounds offset length →
      readLoop s tls offset (List.range' c n) = some bytes →
        Quietly self (p.at_ self s { v with stage := .accessing c, delivered := before })
          (p.at_ self s { v with stage := .protecting 0, delivered := before ++ bytes }) := by
  induction n with
  | zero =>
    intro c before bytes all ran
    obtain rfl := Option.some.inj ran
    have past : ¬ c < rounds offset length := by omega
    refine (Quietly.refl self _).cons (step_at ?_)
    simp only [Inside.next, found, access, Access.offset, Access.length, if_neg past,
      List.append_nil]
  | succ n ih =>
    intro c before bytes all ran
    simp only [List.range'_succ, readLoop] at ran
    cases first : readByte s tls (indexOf offset c) with
    | none => simp [first] at ran
    | some byte =>
      cases tail : readLoop s tls offset (List.range' (c + 1) n) with
      | none => simp [first, tail] at ran
      | some rest =>
        simp only [first, tail, Option.some.injEq] at ran
        subst ran
        have under : c < rounds offset length := by omega
        rw [List.append_cons]
        refine (ih (by omega) tail).cons (step_at ?_)
        simp only [Inside.next, found, access, Access.offset, Access.length, if_pos under,
          Access.round, first, Option.map_some]

theorem quietly_writing {offset length : BitVec 32} {buffer : Nat → Byte}
    (access : v.access = .write offset length buffer) (n : Nat) :
    ∀ {s s' : State} {c : Nat}, c + n = rounds offset length →
      writeLoop v.pair offset buffer s (List.range' c n) = some s' →
      (s'.pairs v.pair).tls = some tls →
        Quietly self (p.at_ self s { v with stage := .accessing c })
          (p.at_ self s' { v with stage := .protecting 0 }) := by
  induction n with
  | zero =>
    intro s s' c all ran found
    obtain rfl := Option.some.inj ran
    have past : ¬ c < rounds offset length := by omega
    refine (Quietly.refl self _).cons (step_at ?_)
    simp only [Inside.next, found, access, Access.offset, Access.length, if_neg past]
  | succ n ih =>
    intro s s' c all ran found
    simp only [List.range'_succ, writeLoop] at ran
    cases first : writeByte s v.pair (indexOf offset c) (buffer c) with
    | none => simp [first] at ran
    | some t =>
      simp only [first] at ran
      have under : c < rounds offset length := by omega
      refine (ih (by omega) ran found).cons (step_at ?_)
      cases area : (s.pairs v.pair).tls with
      | none => simp [writeByte, area] at first
      | some tls' =>
        simp only [Inside.next, area, access, Access.offset, Access.length, if_pos under,
          Access.round, first, Option.map_some, List.append_nil]

/-- The return after the last loop. -/
theorem returns_after {q : Process} {s : State} {j : Nat} (found : (s.pairs v.pair).tls = some tls)
    (outside : p.inside self = none) (past : tls.pages[j]? = none)
    (quiet : Quietly self q (p.at_ self s { v with stage := .protecting j })) :
    ∃ n outputs, Machine.run step q (List.replicate n (.goes self)) =
        some (outputs, { p with globals := s }) ∧
      outputs.reduceOption = [(⟨self, v.access.operation⟩, (0, v.delivered))] := by
  obtain ⟨n, outputs, ran, silent⟩ := quiet
  refine ⟨n + 1, outputs ++ [some (⟨self, v.access.operation⟩, (0, v.delivered))], ?_, ?_⟩
  · rw [← List.replicate_append_replicate]
    refine Machine.run_append ran ?_
    have back : Function.update p.inside self none = p.inside := by
      rw [← outside, Function.update_eq_self]
    simp only [List.replicate_one, Machine.run, step, at_, Function.update_self, Inside.next, found,
      past, Function.update_idem, back]
  · rw [List.reduceOption_append, silent]
    rfl

theorem undisturbed_read {i : Nat} {offset length : BitVec 32} {r : Reply} {s : State}
    (outside : p.inside self = none) (found : findTid p.globals self = some i)
    (area : (p.globals.pairs i).tls = some tls) (fits : ¬ offset + length > tls.size)
    (called : call p.globals ⟨self, .read offset length⟩ = some (r, s)) :
    ∃ n outputs, Machine.run step
        (p.at_ self p.globals ⟨.read offset length, i, .unprotecting 0, []⟩)
        (List.replicate n (.goes self)) = some (outputs, { p with globals := s }) ∧
      outputs.reduceOption = [(⟨self, .read offset length⟩, r)] := by
  let v : Inside := ⟨.read offset length, i, .unprotecting 0, []⟩
  simp only [call, tlsRead, found, Option.bind_some, area, if_neg fits, Option.map_eq_some_iff]
    at called
  obtain ⟨result, called, eq⟩ := called
  split at called
  · simp at called
  -- the three loops of `tls_read`, one after the other: unprotect, copy, protect
  next s₁ unprotected =>
    have first : s₁.pairs = p.globals.pairs ∧ Quietly self (p.at_ self p.globals v)
        (p.at_ self s₁ { v with stage := .accessing 0 }) :=
      quietly_unprotecting (v := v) area List.drop_zero unprotected
    have found₁ : (s₁.pairs v.pair).tls = some tls := by rw [first.1]; exact area
    split at called
    · simp at called
    next bytes loop =>
      rw [List.range_eq_range'] at loop
      have second : Quietly self (p.at_ self s₁ { v with stage := .accessing 0 })
          (p.at_ self s₁ { v with stage := .protecting 0, delivered := bytes }) :=
        quietly_reading found₁ rfl (rounds offset length) (Nat.zero_add _) loop
      split at called
      · simp at called
      next s₂ protected_ =>
        obtain rfl := Option.some.inj called
        simp only [Prod.mk.injEq] at eq
        obtain ⟨rfl, rfl⟩ := eq
        obtain ⟨pairs, j, past, third⟩ := quietly_protecting (p := p) (v := { v with delivered := bytes })
          found₁ List.drop_zero protected_
        exact returns_after (v := { v with delivered := bytes }) (by rw [pairs]; exact found₁) outside
          past ((first.2.trans second).trans third)

theorem undisturbed_write {i : Nat} {offset length : BitVec 32} {buffer : Nat → Byte} {r : Reply}
    {s : State} (outside : p.inside self = none) (found : findTid p.globals self = some i)
    (area : (p.globals.pairs i).tls = some tls) (fits : ¬ offset + length > tls.size)
    (called : call p.globals ⟨self, .write offset length buffer⟩ = some (r, s)) :
    ∃ n outputs, Machine.run step
        (p.at_ self p.globals ⟨.write offset length buffer, i, .unprotecting 0, []⟩)
        (List.replicate n (.goes self)) = some (outputs, { p with globals := s }) ∧
      outputs.reduceOption = [(⟨self, .write offset length buffer⟩, r)] := by
  let v : Inside := ⟨.write offset length buffer, i, .unprotecting 0, []⟩
  simp only [call, tlsWrite, found, area, if_neg fits, Option.map_eq_some_iff] at called
  obtain ⟨result, called, eq⟩ := called
  split at called
  · simp at called
  next s₁ unprotected =>
    have first : s₁.pairs = p.globals.pairs ∧ Quietly self (p.at_ self p.globals v)
        (p.at_ self s₁ { v with stage := .accessing 0 }) :=
      quietly_unprotecting (v := v) area List.drop_zero unprotected
    split at called
    · simp at called
    next s₂ loop =>
      rw [List.range_eq_range'] at loop
      split at called
      · simp at called
      -- the pages may have been copied, and the last loop goes over those of now
      next tls' area' =>
        have second : Quietly self (p.at_ self s₁ { v with stage := .accessing 0 })
            (p.at_ self s₂ { v with stage := .protecting 0 }) :=
          quietly_writing rfl (rounds offset length) (Nat.zero_add _) loop area'
        split at called
        · simp at called
        next s₃ protected_ =>
          obtain rfl := Option.some.inj called
          simp only [Prod.mk.injEq] at eq
          obtain ⟨rfl, rfl⟩ := eq
          obtain ⟨pairs, j, past, third⟩ :=
            quietly_protecting (p := p) (v := v) area' List.drop_zero protected_
          exact returns_after (v := v) (by rw [pairs]; exact area') outside past
            ((first.2.trans second).trans third)

end Undisturbed

/-- An access that nobody disturbs is the whole call. -/
theorem undisturbed {self : Tid} {access : Access} {r : Reply} {s : State}
    (outside : p.inside self = none)
    (called : call p.globals ⟨self, access.operation⟩ = some (r, s)) :
    ∃ n outputs, Machine.run step p (.enters self access :: List.replicate n (.goes self)) =
        some (outputs, { p with globals := s }) ∧
      outputs.reduceOption = [(⟨self, access.operation⟩, r)] := by
  -- a call that is refused has no further steps
  have refused (stepped : p.step (.enters self access) =
        some (some (⟨self, access.operation⟩, (-1, [])), p))
      (same : call p.globals ⟨self, access.operation⟩ = some ((-1, []), p.globals)) :
      ∃ n outputs, Machine.run step p (.enters self access :: List.replicate n (.goes self)) =
          some (outputs, { p with globals := s }) ∧
        outputs.reduceOption = [(⟨self, access.operation⟩, r)] := by
    rw [same, Option.some.injEq, Prod.mk.injEq] at called
    obtain ⟨rfl, rfl⟩ := called
    refine ⟨0, [some (⟨self, access.operation⟩, (-1, []))], ?_, rfl⟩
    simp only [List.replicate_zero, Machine.run, stepped]
  cases found : findTid p.globals self with
  | none =>
    refine refused (by simp only [step, found]) ?_
    cases access <;> simp [Access.operation, call, tlsRead, tlsWrite, found]
  | some i =>
    cases area : (p.globals.pairs i).tls with
    | none =>
      refine refused (by simp only [step, found, area]) ?_
      cases access <;> simp [Access.operation, call, tlsRead, tlsWrite, found, area]
    | some tls =>
      by_cases exceeds : access.offset + access.length > tls.size
      · refine refused (by simp only [step, found, area, if_pos exceeds]) ?_
        cases access <;> simp only [Access.offset, Access.length] at exceeds <;>
          simp [Access.operation, call, tlsRead, tlsWrite, found, area, exceeds]
      have entered : p.step (.enters self access) =
          some (none, p.at_ self p.globals ⟨access, i, .unprotecting 0, []⟩) := by
        simp only [step, found, area, if_neg exceeds]
      suffices goes : ∃ n outputs, Machine.run step
          (p.at_ self p.globals ⟨access, i, .unprotecting 0, []⟩) (List.replicate n (.goes self)) =
            some (outputs, { p with globals := s }) ∧
          outputs.reduceOption = [(⟨self, access.operation⟩, r)] by
        obtain ⟨n, outputs, ran, replies⟩ := goes
        exact ⟨n, none :: outputs, by simp only [Machine.run, entered, ran], replies⟩
      cases access with
      | read offset length => exact undisturbed_read outside found area exceeds called
      | write offset length buffer => exact undisturbed_write outside found area exceeds called

/-! ### Which steps are considered -/

/-- Pair `j` is that of another thread than `tid`, and that thread is inside a call. -/
def Busy (tid : Tid) (j : Nat) : Prop :=
  (p.globals.pairs j).tid ≠ tid ∧ (p.inside (p.globals.pairs j).tid).isSome = true

instance (tid : Tid) (j : Nat) : Decidable (p.Busy tid j) := inferInstanceAs (Decidable (_ ∧ _))

/-- No other thread that is inside a call shares a page with `tid`. -/
def Alone (tid : Tid) : Prop :=
  ∀ i < maxThreadCount, (p.globals.pairs i).tid = tid →
    ∀ j < maxThreadCount, p.Busy tid j → p.globals.Apart i j

instance (tid : Tid) : Decidable (p.Alone tid) :=
  inferInstanceAs (Decidable (∀ i < maxThreadCount, _ → ∀ j < maxThreadCount, _ → _))

/-- An entry of the table is left. -/
def Room : Prop :=
  p.globals.initialized = true → ∃ i < maxThreadCount, (p.globals.pairs i).tid = -1

instance : Decidable p.Room := inferInstanceAs (Decidable (_ → ∃ i < maxThreadCount, _))

/-- The arguments are valid, there is room in the table, and while a thread is inside a call no
thread that shares pages with it makes a call or is cloned. -/
def Ok : Event → Prop
  | .call c => c.Valid ∧ (p.inside c.self).isNone = true ∧
    match c.operation with
    | .create _ => p.Room
    | .clone tid => p.Room ∧ (p.inside tid).isNone = true ∧ p.Alone tid
    | .destroy => p.Alone c.self
    -- these go step by step
    | .read _ _ | .write _ _ _ => False
  | .enters self access =>
    Call.Valid ⟨self, access.operation⟩ ∧ (p.inside self).isNone = true ∧ p.Alone self
  | .goes self => (p.inside self).isSome = true

instance : (e : Event) → Decidable (p.Ok e)
  | .call ⟨_, .create _⟩ | .call ⟨_, .clone _⟩ | .call ⟨_, .destroy⟩ | .call ⟨_, .read _ _⟩
  | .call ⟨_, .write _ _ _⟩ | .enters _ _ => inferInstanceAs (Decidable (_ ∧ _ ∧ _))
  | .goes _ => inferInstanceAs (Decidable (_ = _))

end Process

end OperatingSys.Tls
