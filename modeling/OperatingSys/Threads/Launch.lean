import Mathlib.Data.List.Basic
import OperatingSys.Lib.Amd64
import OperatingSys.Lib.Machine
import OperatingSys.Threads.Scheduler

/-!
# How a new thread begins (ec440threads.h, pthread_create)

`pthread_create` writes a buffer of registers for `longjmp` and one return address on a new
stack; `start_thunk` makes a call of the thread's function of it. What `longjmp` does to the
registers is not in the source: it is a parameter here.
-/

namespace OperatingSys.Threads

open Amd64

/-- `enum JBL`. -/
inductive Jbl where
  | rbx
  | rbp
  | r12
  | r13
  | r14
  | r15
  | rsp
  | pc
  deriving DecidableEq

/-- `__jmpbuf`, by the places of the registers in it. -/
abbrev JmpBuf := Jbl → BitVec 64

/-! ### Mangled pointers -/

/-- `_ptr_mangle`; `guard` is the quadword at `%fs:0x30`. -/
def ptrMangle (guard p : BitVec 64) : BitVec 64 := (p ^^^ guard).rotateLeft 0x11

/-- `_ptr_demangle`. -/
def ptrDemangle (guard p : BitVec 64) : BitVec 64 := p.rotateRight 0x11 ^^^ guard

theorem ptrDemangle_ptrMangle (guard p : BitVec 64) :
    ptrDemangle guard (ptrMangle guard p) = p := by
  unfold ptrDemangle ptrMangle
  grind

def setReg (guard : BitVec 64) (buf : JmpBuf) (reg : Jbl) (val : BitVec 64) : JmpBuf :=
  match reg with
  | .rbx | .rbp | .rsp | .pc => Function.update buf reg (ptrMangle guard val)
  | .r12 | .r13 | .r14 | .r15 => Function.update buf reg val

def getReg (guard : BitVec 64) (buf : JmpBuf) (reg : Jbl) : BitVec 64 :=
  match reg with
  | .rbx | .rbp | .rsp | .pc => ptrDemangle guard (buf reg)
  | .r12 | .r13 | .r14 | .r15 => buf reg

theorem getReg_congr {guard : BitVec 64} {buf buf' : JmpBuf} {reg : Jbl}
    (same : buf' reg = buf reg) : getReg guard buf' reg = getReg guard buf reg := by
  cases reg <;> simp only [getReg, same]

/-- A register that is set is got back, and the others are as they were. -/
theorem getReg_setReg (guard : BitVec 64) (buf : JmpBuf) (reg reg' : Jbl) (val : BitVec 64) :
    getReg guard (setReg guard buf reg val) reg' =
      if reg' = reg then val else getReg guard buf reg' := by
  by_cases same : reg' = reg
  · subst same
    cases reg' <;> simp [getReg, setReg, ptrDemangle_ptrMangle]
  · rw [if_neg same]
    apply getReg_congr
    cases reg <;> exact Function.update_of_ne same _ _

/-! ### `pthread_create` and `start_thunk` -/

def threadStackSize : Nat := 1 <<< 15

/-- Where the linker has put the functions whose addresses the source takes. -/
structure Symbols where
  startThunk : Address
  pthreadExit : Address

/-- What a thread is to begin with. -/
structure Plan where
  stack : Address
  startRoutine : Address
  arg : BitVec 64
  deriving DecidableEq

/-- `stackPointer`. -/
def Plan.stackPointer (plan : Plan) : Address := plan.stack + BitVec.ofNat 64 threadStackSize - 8

/-- The bytes of the new stack. -/
def Plan.Stack (plan : Plan) : Address → Prop := Within plan.stack threadStackSize

section Pieces

variable (symbols : Symbols) (guard : BitVec 64)

/-- The registers that `pthread_create` sets in `threads[tid].regs`. -/
def startRegs (buf : JmpBuf) (plan : Plan) : JmpBuf :=
  let buf := setReg guard buf .pc symbols.startThunk
  let buf := setReg guard buf .r13 plan.arg
  let buf := setReg guard buf .r12 plan.startRoutine
  setReg guard buf .rsp plan.stackPointer

/-- The address of `pthread_exit` on the new stack. -/
def startStack (memory : Memory) (plan : Plan) : Memory :=
  store memory plan.stackPointer symbols.pthreadExit

/-- `start_thunk`: what the compiler puts before it, and the instructions of the source. -/
def startThunk : List Instr :=
  [.push .rbp, .mov .rsp .rbp] ++ [.pop .rbp, .mov .r13 .rdi, .push .r12, .ret]

end Pieces

/-- A function as it is entered: where, with what first argument and stack pointer, and where it
will return to. -/
structure Entry where
  rip : Address
  rdi : BitVec 64
  rsp : Address
  returnsTo : Address
  deriving DecidableEq

def entryOf (cpu : Cpu) : Entry where
  rip := cpu.rip
  rdi := cpu.regs .rdi
  rsp := cpu.regs .rsp
  returnsTo := load cpu.memory (cpu.regs .rsp)

/-- What `longjmp` is to do with a buffer: the registers of the buffer are restored, and memory is
left alone. -/
structure Restores (guard : BitVec 64) (longjmp : JmpBuf → Cpu → Cpu) : Prop where
  rip : ∀ buf cpu, (longjmp buf cpu).rip = getReg guard buf .pc
  rsp : ∀ buf cpu, (longjmp buf cpu).regs .rsp = getReg guard buf .rsp
  r12 : ∀ buf cpu, (longjmp buf cpu).regs .r12 = getReg guard buf .r12
  r13 : ∀ buf cpu, (longjmp buf cpu).regs .r13 = getReg guard buf .r13
  memory : ∀ buf cpu, (longjmp buf cpu).memory = cpu.memory

/-! ### Threads begin in any order -/

/-- Memory, the saved registers, and the threads that have been created and have not begun. -/
structure World where
  memory : Memory
  regs : Tid → JmpBuf
  plans : Tid → Option Plan

/-- A thread is created in an entry of `threads`, on a stack from `malloc`; a thread that runs
writes a byte, or its registers are saved; `schedule` switches to a thread that has not begun,
with whatever is in the registers then. -/
inductive Happening where
  | creates (tid : Tid) (plan : Plan)
  | writes (a : Address) (b : BitVec 8)
  | saves (tid : Tid) (buf : JmpBuf)
  | begins (tid : Tid) (regs : Reg → BitVec 64) (rip : Address)

section World

variable (symbols : Symbols) (guard : BitVec 64) (longjmp : JmpBuf → Cpu → Cpu)

/-- For a thread that begins, the function that it enters. -/
def World.step (w : World) : Happening → Option (Option Entry × World)
  | .creates tid plan => some (none, {
      memory := startStack symbols w.memory plan
      regs := Function.update w.regs tid (startRegs symbols guard (w.regs tid) plan)
      plans := Function.update w.plans tid (some plan) })
  | .writes a b => some (none, { w with memory := Function.update w.memory a b })
  | .saves tid buf => some (none, { w with regs := Function.update w.regs tid buf })
  | .begins tid regs rip =>
    let cpu := longjmp (w.regs tid) { regs, rip, memory := w.memory }
    if cpu.rip = symbols.startThunk then
      let cpu := cpu.exec startThunk
      some (some (entryOf cpu), { w with
        memory := cpu.memory
        plans := Function.update w.plans tid none })
    else none

/-- A new stack is apart from those of the threads that have not begun, nobody writes there, and
only registers of other threads are saved. -/
def Careful (w : World) : Happening → Prop
  | .creates tid plan => w.plans tid = none ∧
      ∀ tid' plan', w.plans tid' = some plan' → ∀ a, plan.Stack a → ¬ plan'.Stack a
  | .writes a _ => ∀ tid plan, w.plans tid = some plan → ¬ plan.Stack a
  | .saves tid _ => w.plans tid = none
  | .begins tid _ _ => w.plans tid ≠ none

/-- What a thread should enter: its function, with its argument, at the end of its stack, to
return to `pthread_exit`. -/
def Plan.entry (plan : Plan) : Entry where
  rip := plan.startRoutine
  rdi := plan.arg
  rsp := plan.stackPointer
  returnsTo := symbols.pthreadExit

/-- Threads as they should begin. -/
def begin_ (plans : Tid → Option Plan) : Happening → Option Entry × (Tid → Option Plan)
  | .creates tid plan => (none, Function.update plans tid (some plan))
  | .writes _ _ | .saves _ _ => (none, plans)
  | .begins tid _ _ => ((plans tid).map (Plan.entry symbols), Function.update plans tid none)

end World

section Ready

variable {symbols : Symbols} {guard : BitVec 64} {longjmp : JmpBuf → Cpu → Cpu}

theorem Plan.inside (plan : Plan) :
    Inside plan.stack threadStackSize plan.stackPointer ∧
      Inside plan.stack threadStackSize (plan.stackPointer - 8) := by
  have top : plan.stackPointer - plan.stack = BitVec.ofNat 64 threadStackSize - 8 := by
    unfold Plan.stackPointer
    grind
  have below : plan.stackPointer - 8 - plan.stack = BitVec.ofNat 64 threadStackSize - 8 - 8 := by
    unfold Plan.stackPointer
    grind
  rw [Inside, Inside, top, below]
  decide

/-- `start_thunk` calls the function in `r12` with the argument in `r13`. -/
theorem exec_startThunk (cpu : Cpu) :
    cpu.exec startThunk = {
      regs := Function.update cpu.regs .rdi (cpu.regs .r13)
      rip := cpu.regs .r12
      memory := store (store cpu.memory (cpu.regs .rsp - 8) (cpu.regs .rbp)) (cpu.regs .rsp - 8)
        (cpu.regs .r12) } := by
  have split : startThunk =
      [.push .rbp, .mov .rsp .rbp, .pop .rbp] ++ ([.mov .r13 .rdi] ++ [.push .r12, .ret]) := rfl
  rw [split, Cpu.exec_append, Cpu.exec_append, Cpu.exec_frame cpu (by decide), Cpu.exec_push_ret]
  rfl

/-- The registers and the return address of a thread that has not begun. -/
structure World.Ready (symbols : Symbols) (guard : BitVec 64) (w : World) (tid : Tid)
    (plan : Plan) : Prop where
  pc : getReg guard (w.regs tid) .pc = symbols.startThunk
  rsp : getReg guard (w.regs tid) .rsp = plan.stackPointer
  r12 : getReg guard (w.regs tid) .r12 = plan.startRoutine
  r13 : getReg guard (w.regs tid) .r13 = plan.arg
  returnsTo : load w.memory plan.stackPointer = symbols.pthreadExit

theorem World.ready_created (w : World) (tid : Tid) (plan : Plan) :
    World.Ready symbols guard {
      memory := startStack symbols w.memory plan
      regs := Function.update w.regs tid (startRegs symbols guard (w.regs tid) plan)
      plans := Function.update w.plans tid (some plan) } tid plan := by
  constructor <;> simp [startRegs, startStack, getReg_setReg]

/-- A thread stays ready while its registers and its stack are left alone. -/
theorem World.Ready.mono {w w' : World} {tid : Tid} {plan : Plan}
    (ready : w.Ready symbols guard tid plan) (regs : w'.regs tid = w.regs tid)
    (stack : ∀ a, plan.Stack a → w'.memory a = w.memory a) :
    w'.Ready symbols guard tid plan where
  pc := regs ▸ ready.pc
  rsp := regs ▸ ready.rsp
  r12 := regs ▸ ready.r12
  r13 := regs ▸ ready.r13
  returnsTo := (plan.inside.1.load_eq stack).trans ready.returnsTo

/-- A thread that begins enters its function, and has written to nothing but its stack. -/
theorem World.Ready.begins (restores : Restores guard longjmp) {w : World} {tid : Tid}
    {plan : Plan} (ready : w.Ready symbols guard tid plan) (cpu : Cpu)
    (memory : cpu.memory = w.memory) :
    (longjmp (w.regs tid) cpu).rip = symbols.startThunk ∧
      entryOf ((longjmp (w.regs tid) cpu).exec startThunk) = plan.entry symbols ∧
      ∀ a, ¬ plan.Stack a → ((longjmp (w.regs tid) cpu).exec startThunk).memory a = w.memory a := by
  have rsp := (restores.rsp (w.regs tid) cpu).trans ready.rsp
  have written : ∀ a, (a - (plan.stackPointer - 8)).toNat ≥ 8 →
      ((longjmp (w.regs tid) cpu).exec startThunk).memory a = w.memory a := by
    intro a far
    rw [exec_startThunk, restores.memory, memory, rsp]
    have apart : ¬ (a - (plan.stackPointer - 8)).toNat < 8 := by omega
    simp only [store, if_neg apart]
  refine ⟨(restores.rip _ _).trans ready.pc, ?_, fun a outside => written a ?_⟩
  · -- the return address lies above what the thunk has pushed
    have returnsTo : load ((longjmp (w.regs tid) cpu).exec startThunk).memory plan.stackPointer =
        symbols.pthreadExit := by
      refine (load_congr fun k below => written _ ?_).trans ready.returnsTo
      have above : plan.stackPointer + BitVec.ofNat 64 k - (plan.stackPointer - 8) =
          BitVec.ofNat 64 k + 8 := by grind
      rw [above, BitVec.toNat_add, BitVec.toNat_ofNat]
      have eight : (8 : BitVec 64).toNat = 8 := rfl
      omega
    have pointer : ((longjmp (w.regs tid) cpu).exec startThunk).regs .rsp = plan.stackPointer := by
      rw [exec_startThunk, ← rsp]
      rfl
    rw [entryOf, pointer, returnsTo, exec_startThunk]
    simp [Plan.entry, restores.r12, restores.r13, ready.r12, ready.r13]
  · by_contra near
    exact outside (plan.inside.2.within (by omega))

theorem World.step_plans {w w' : World} {happening : Happening} {entry : Option Entry}
    (stepped : w.step symbols guard longjmp happening = some (entry, w')) :
    w'.plans = (begin_ symbols w.plans happening).2 := by
  cases happening with
  | begins tid regs rip =>
    simp only [World.step] at stepped
    split at stepped
    · simp only [Option.some.injEq, Prod.mk.injEq] at stepped
      rw [← stepped.2]
      rfl
    · simp at stepped
  | _ =>
    simp only [World.step, Option.some.injEq, Prod.mk.injEq] at stepped
    rw [← stepped.2]
    rfl

/-! ### Any number of threads -/

/-- The threads that have not begun are ready, on stacks of their own. -/
structure World.Follows (symbols : Symbols) (guard : BitVec 64) (w : World)
    (plans : Tid → Option Plan) : Prop where
  same : w.plans = plans
  ready : ∀ tid plan, plans tid = some plan → w.Ready symbols guard tid plan
  apart : ∀ tid plan tid' plan', plans tid = some plan → plans tid' = some plan' → tid ≠ tid' →
    ∀ a, plan.Stack a → ¬ plan'.Stack a

theorem World.Follows.step (restores : Restores guard longjmp) {w : World}
    {plans : Tid → Option Plan} (follows : w.Follows symbols guard plans) {happening : Happening}
    (careful : Careful w happening) :
    ∃ w', w.step symbols guard longjmp happening = some ((begin_ symbols plans happening).1, w') ∧
      w'.Follows symbols guard (begin_ symbols plans happening).2 := by
  obtain ⟨rfl, ready, apart⟩ := follows
  -- each happening is framed by the stacks it may not touch; only `creates` and `begins` change
  -- the plans
  cases happening with
  | creates tid plan =>
    obtain ⟨unused, new⟩ := careful
    refine ⟨_, rfl, rfl, fun tid' plan' planned => ?_, ?_⟩
    · simp only [begin_] at planned
      -- the new thread is set up by this step, and the others do not own the words it writes
      by_cases here : tid' = tid
      · subst here
        rw [Function.update_self, Option.some.injEq] at planned
        subst planned
        exact World.ready_created w _ _
      · rw [Function.update_of_ne here] at planned
        refine (ready tid' plan' planned).mono (Function.update_of_ne here _ _) fun a inside => ?_
        exact store_apart plan.inside.1 (fun own => new tid' plan' planned a own inside) _ _
    · intro tid₁ plan₁ tid₂ plan₂ planned₁ planned₂ other a inside
      simp only [begin_, Function.update_apply] at planned₁ planned₂
      split at planned₁
      next here₁ =>
        rw [if_neg (fun here₂ => other (here₁.trans here₂.symm))] at planned₂
        rw [← Option.some.inj planned₁] at inside
        exact new tid₂ plan₂ planned₂ a inside
      next elsewhere₁ =>
        split at planned₂
        next here₂ =>
          rw [← Option.some.inj planned₂]
          exact fun own => new tid₁ plan₁ planned₁ a own inside
        next elsewhere₂ => exact apart tid₁ plan₁ tid₂ plan₂ planned₁ planned₂ other a inside
  | writes a b =>
    refine ⟨_, rfl, rfl, fun tid plan planned => ?_, apart⟩
    -- a careful thread does not write to the stack of one that has not begun
    refine (ready tid plan planned).mono rfl fun a' inside => Function.update_of_ne ?_ _ _
    rintro rfl
    exact careful tid plan planned inside
  | saves tid buf =>
    refine ⟨_, rfl, rfl, fun tid' plan planned => ?_, apart⟩
    -- only a thread that has begun is saved, so no prepared buffer is overwritten
    refine (ready tid' plan planned).mono (Function.update_of_ne ?_ _ _) fun _ _ => rfl
    rintro rfl
    exact absurd (careful.symm.trans planned) (by simp)
  | begins tid regs rip =>
    obtain ⟨plan, planned⟩ := Option.ne_none_iff_exists'.mp careful
    obtain ⟨thunk, entry, elsewhere⟩ :=
      (ready tid plan planned).begins restores { regs, rip, memory := w.memory } rfl
    refine ⟨_, by simp only [World.step, thunk, if_true, entry, begin_, planned]; rfl, rfl, ?_, ?_⟩
    · intro tid' plan' planned'
      simp only [begin_, Function.update_apply] at planned'
      split at planned'
      next => exact absurd planned' (by simp)
      next other =>
        -- `start_thunk` and `longjmp` stay on the stack of the thread that begins
        refine (ready tid' plan' planned').mono rfl fun a inside => elsewhere a ?_
        exact apart tid' plan' tid plan planned' planned other a inside
    · intro tid₁ plan₁ tid₂ plan₂ planned₁ planned₂ other
      simp only [begin_, Function.update_apply] at planned₁ planned₂
      split at planned₁
      next => exact absurd planned₁ (by simp)
      next =>
        split at planned₂
        next => exact absurd planned₂ (by simp)
        next => exact apart tid₁ plan₁ tid₂ plan₂ planned₁ planned₂ other

end Ready

/-- **Threads begin as they should.** Whatever the threads that run do to their own memory and
registers, and in whatever order threads are created and switched to: each of them enters its
own function with its own argument, on its own stack, and will return to `pthread_exit`. -/
theorem threads_begin {symbols : Symbols} {guard : BitVec 64} {longjmp : JmpBuf → Cpu → Cpu}
    (restores : Restores guard longjmp) {w : World} (fresh : ∀ tid, w.plans tid = none)
    {happenings : List Happening}
    (careful : Machine.Admits (World.step symbols guard longjmp) Careful w happenings) :
    ∃ w', Machine.run (World.step symbols guard longjmp) w happenings =
      some ((Machine.total (begin_ symbols) (fun _ => none) happenings).1, w') := by
  have follows : w.Follows symbols guard fun _ => none :=
    ⟨funext fresh, fun _ _ planned => absurd planned (by simp),
      fun _ _ _ _ planned => absurd planned (by simp)⟩
  obtain ⟨w', ran, -⟩ := Machine.simulation (World.Follows symbols guard) (begin_ symbols)
    (fun w plans happening follows careful => follows.step restores careful) follows careful
  exact ⟨w', ran⟩

/-- A `longjmp` for buffers laid out as `enum JBL` says. -/
def plainLongjmp (guard : BitVec 64) (buf : JmpBuf) (cpu : Cpu) : Cpu where
  regs := fun
    | .rbx => getReg guard buf .rbx
    | .rbp => getReg guard buf .rbp
    | .rsp => getReg guard buf .rsp
    | .r12 => getReg guard buf .r12
    | .r13 => getReg guard buf .r13
    | .r14 => getReg guard buf .r14
    | .r15 => getReg guard buf .r15
    | r => cpu.regs r
  rip := getReg guard buf .pc
  memory := cpu.memory

/-- Two threads, the second of which begins first, and a byte that it writes. -/
theorem threads_begin_two :
    ∃ w', Machine.run (World.step ⟨0x401000, 0x402000⟩ 0xdeadbeef (plainLongjmp 0xdeadbeef))
      { memory := fun _ => 0x55, regs := fun _ _ => 0x77, plans := fun _ => none }
      [.creates 1 ⟨0x10000, 0x403000, 7⟩, .creates 2 ⟨0x20000, 0x404000, 8⟩,
        .begins 2 (fun _ => 0x99) 0x405000, .writes 0x27fe0 0xff, .begins 1 (fun _ => 0x66) 0x405000] =
      some ([none, none, some ⟨0x404000, 8, 0x27ff8, 0x402000⟩, none,
        some ⟨0x403000, 7, 0x17ff8, 0x402000⟩], w') := by
  have restores : Restores 0xdeadbeef (plainLongjmp 0xdeadbeef) :=
    ⟨fun _ _ => rfl, fun _ _ => rfl, fun _ _ => rfl, fun _ _ => rfl, fun _ _ => rfl⟩
  refine threads_begin restores (fun _ => rfl)
    ⟨⟨rfl, fun _ _ planned => absurd planned (by simp)⟩, fun _ w₁ stepped₁ => ?_⟩
  -- the two stacks are apart
  have plans₁ := World.step_plans stepped₁
  refine ⟨⟨by rw [plans₁]; rfl, fun tid plan planned a own other => ?_⟩, fun _ w₂ stepped₂ => ?_⟩
  · rw [plans₁] at planned
    simp only [begin_, Function.update_apply] at planned
    split at planned
    next =>
      obtain rfl := Option.some.inj planned
      simp only [Plan.Stack, Within, threadStackSize] at own other
      bv_omega
    next => exact absurd planned (by simp)
  have plans₂ := (World.step_plans stepped₂).trans (by rw [plans₁])
  refine ⟨by rw [Careful, plans₂]; simp [begin_], fun _ w₃ stepped₃ => ?_⟩
  have plans₃ := (World.step_plans stepped₃).trans (by rw [plans₂])
  refine ⟨fun tid plan planned own => ?_, fun _ w₄ stepped₄ => ?_⟩
  · rw [plans₃] at planned
    simp only [begin_, Function.update_apply] at planned
    split at planned
    next => exact absurd planned (by simp)
    next =>
      split at planned
      next =>
        obtain rfl := Option.some.inj planned
        exact absurd own (show ¬ Within 0x10000 threadStackSize 0x27fe0 by decide)
      next => exact absurd planned (by simp)
  have plans₄ := (World.step_plans stepped₄).trans (by rw [plans₃])
  exact ⟨by rw [Careful, plans₄]; simp [begin_], fun _ _ _ => trivial⟩

end OperatingSys.Threads
