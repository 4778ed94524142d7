import Mathlib.Algebra.Order.Group.Nat
import Mathlib.Data.Nat.Init

/-!
# Little-endian machine words

Fixed-width words as they lie in memory: `byte n k` is byte `k` of `n`, least
significant first, and `value bytes w` reads `w` bytes back.
-/

namespace LittleEndian

/-- Byte `k` of `n`. -/
def byte (n k : Nat) : BitVec 8 := BitVec.ofNat 8 (n / 256 ^ k)

/-- The number held by the first `w` bytes. -/
def value (bytes : Nat → BitVec 8) : Nat → Nat
  | 0 => 0
  | w + 1 => value bytes w + 256 ^ w * (bytes w).toNat

theorem value_byte (n w : Nat) : value (byte n) w = n % 256 ^ w := by
  induction w with
  | zero => simp [value, Nat.mod_one]
  | succ w ih =>
    rw [value, ih, byte, BitVec.toNat_ofNat, show 2 ^ 8 = 256 from rfl]
    exact Nat.mod_pow_succ.symm

/-- Reading depends on the bytes read and on nothing else. -/
theorem value_congr {f g : Nat → BitVec 8} {w : Nat} (agree : ∀ k < w, f k = g k) :
    value f w = value g w := by
  induction w with
  | zero => rfl
  | succ w ih =>
    rw [value, value, ih (fun k below => agree k (Nat.lt_succ_of_lt below)),
      agree w (Nat.lt_succ_self w)]

/-- A word of `8 * w` bits is recovered from its bytes. -/
theorem word_of_bytes {m w : Nat} (width : 256 ^ w = 2 ^ m) (v : BitVec m)
    {bytes : Nat → BitVec 8} (stored : ∀ k < w, bytes k = byte v.toNat k) :
    BitVec.ofNat m (value bytes w) = v := by
  apply BitVec.eq_of_toNat_eq
  rw [BitVec.toNat_ofNat, value_congr stored, value_byte, width, Nat.mod_mod]
  exact Nat.mod_eq_of_lt v.isLt

/-- Zero bytes hold the number zero. -/
theorem value_zero {bytes : Nat → BitVec 8} {w : Nat} (zero : ∀ k < w, bytes k = 0#8) :
    value bytes w = 0 := by
  induction w with
  | zero => rfl
  | succ w ih =>
    rw [value, ih (fun k below => zero k (Nat.lt_succ_of_lt below)),
      zero w (Nat.lt_succ_self w)]
    simp

end LittleEndian
