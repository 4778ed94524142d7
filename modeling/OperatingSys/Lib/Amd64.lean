import Mathlib.Logic.Function.Basic
import OperatingSys.Lib.LittleEndian

/-!
# A fragment of AMD64

Quadwords in byte memory, with addresses that wrap around, and the instructions that move them
between registers and the stack.
-/

namespace Amd64

open LittleEndian

abbrev Address := BitVec 64

abbrev Memory := Address → BitVec 8

/-! ### Memory -/

def load (m : Memory) (a : Address) : BitVec 64 :=
  BitVec.ofNat 64 (value (fun k => m (a + BitVec.ofNat 64 k)) 8)

def store (m : Memory) (a : Address) (v : BitVec 64) : Memory :=
  fun b => if (b - a).toNat < 8 then byte v.toNat (b - a).toNat else m b

/-- The addresses of a region. -/
def Within (base : Address) (size : Nat) (a : Address) : Prop := (a - base).toNat < size

instance (base : Address) (size : Nat) (a : Address) : Decidable (Within base size a) :=
  inferInstanceAs (Decidable (_ < _))

/-- A quadword lies in a region. -/
def Inside (base : Address) (size : Nat) (a : Address) : Prop := (a - base).toNat + 8 ≤ size

theorem offset_toNat (a : Address) {k : Nat} (below : k < 8) :
    (a + BitVec.ofNat 64 k - a).toNat = k := by
  rw [BitVec.add_comm, BitVec.add_sub_cancel, BitVec.toNat_ofNat]
  omega

@[simp] theorem load_store (m : Memory) (a : Address) (v : BitVec 64) :
    load (store m a v) a = v := by
  refine word_of_bytes (by decide) v fun k below => ?_
  rw [store, offset_toNat a below, if_pos below]

theorem load_congr {m m' : Memory} {a : Address}
    (same : ∀ k < 8, m' (a + BitVec.ofNat 64 k) = m (a + BitVec.ofNat 64 k)) :
    load m' a = load m a := by
  rw [load, load, value_congr same]

/-- The bytes of a quadword inside a region are of the region. -/
theorem Inside.within {base a b : Address} {size : Nat} (inside : Inside base size a)
    (near : (b - a).toNat < 8) : Within base size b := by
  have split : b - base = (b - a) + (a - base) := by grind
  rw [Inside] at inside
  rw [Within, split, BitVec.toNat_add]
  omega

theorem store_apart {base a b : Address} {size : Nat} (inside : Inside base size a)
    (apart : ¬ Within base size b) (m : Memory) (v : BitVec 64) : store m a v b = m b :=
  if_neg fun near => apart (inside.within near)

/-- What changes no byte of a region changes no quadword inside it. -/
theorem Inside.load_eq {base a : Address} {size : Nat} (inside : Inside base size a)
    {m m' : Memory} (same : ∀ b, Within base size b → m' b = m b) : load m' a = load m a :=
  load_congr fun k below => same _ (inside.within (by rw [offset_toNat a below]; exact below))

/-! ### Instructions -/

inductive Reg where
  | rax | rbx | rcx | rdx | rsi | rdi | rbp | rsp
  | r8 | r9 | r10 | r11 | r12 | r13 | r14 | r15
  deriving DecidableEq

structure Cpu where
  regs : Reg → BitVec 64
  rip : Address
  memory : Memory

/-- Quadword instructions; the source operand comes first. -/
inductive Instr where
  | mov (source target : Reg)
  | push (source : Reg)
  | pop (target : Reg)
  | ret
  deriving DecidableEq

namespace Cpu

def setReg (cpu : Cpu) (r : Reg) (v : BitVec 64) : Cpu :=
  { cpu with regs := Function.update cpu.regs r v }

def step (cpu : Cpu) : Instr → Cpu
  | .mov source target => cpu.setReg target (cpu.regs source)
  | .push source =>
    let rsp := cpu.regs .rsp - 8
    { cpu.setReg .rsp rsp with memory := store cpu.memory rsp (cpu.regs source) }
  | .pop target =>
    (cpu.setReg .rsp (cpu.regs .rsp + 8)).setReg target (load cpu.memory (cpu.regs .rsp))
  | .ret => { cpu.setReg .rsp (cpu.regs .rsp + 8) with rip := load cpu.memory (cpu.regs .rsp) }

/-- Instructions one after the other. -/
def exec (cpu : Cpu) (code : List Instr) : Cpu := code.foldl step cpu

theorem exec_append (cpu : Cpu) (first second : List Instr) :
    cpu.exec (first ++ second) = (cpu.exec first).exec second := List.foldl_append

/-- A register that is pushed and returned to is jumped to. -/
theorem exec_push_ret (cpu : Cpu) (r : Reg) :
    cpu.exec [.push r, .ret] = { cpu with
      rip := cpu.regs r
      memory := store cpu.memory (cpu.regs .rsp - 8) (cpu.regs r) } := by
  simp only [exec, step, setReg, List.foldl_cons, List.foldl_nil, BitVec.ofNat_eq_ofNat,
    BitVec.sub_add_cancel, Function.update_self, Function.update_idem, Function.update_eq_self,
    load_store]

/-- A frame set up and taken down at once leaves the registers as they were. -/
theorem exec_frame (cpu : Cpu) {r : Reg} (other : r ≠ .rsp) :
    cpu.exec [.push r, .mov .rsp r, .pop r] =
      { cpu with memory := store cpu.memory (cpu.regs .rsp - 8) (cpu.regs r) } := by
  have back : Function.update (Function.update (Function.update
      (Function.update cpu.regs .rsp (cpu.regs .rsp - 8)) r (cpu.regs .rsp - 8)) .rsp
      (cpu.regs .rsp - 8 + 8)) r (cpu.regs r) = cpu.regs := by
    funext r'
    by_cases same : r' = r
    · rw [same, Function.update_self]
    · rw [Function.update_of_ne same]
      by_cases pointer : r' = .rsp
      · rw [pointer, Function.update_self, BitVec.sub_add_cancel]
      · rw [Function.update_of_ne pointer, Function.update_of_ne same,
          Function.update_of_ne pointer]
  simpa [exec, step, setReg, Function.update_of_ne other.symm] using back

end Cpu

end Amd64
