import Mathlib.Algebra.Order.Group.Nat
import Mathlib.Data.Nat.Bitwise
import Mathlib.Tactic.Ring

/-!
# Alignment

An address is rounded up to a multiple of its alignment by adding and clearing the low bits.
The shift is shorter than the alignment. On a grid that divides both, it is shorter by a whole
step of the grid.
-/

namespace FlashBench

/-- The least multiple of the alignment from the address on. -/
def alignUp (address align : ℕ) : ℕ := (address + align - 1) / align * align

/-- Clearing the low bits of a word rounds down. -/
theorem and_highBits_eq {x width k : ℕ} (fits : x < 2 ^ width) (k_le : k ≤ width) :
    x &&& (2 ^ width - 2 ^ k) = x / 2 ^ k * 2 ^ k := by
  have mask : 2 ^ width - 2 ^ k = (2 ^ (width - k) - 1) <<< k := by
    rw [Nat.shiftLeft_eq, Nat.sub_mul, Nat.one_mul, ← Nat.pow_add, Nat.sub_add_cancel k_le]
  have rounded : x / 2 ^ k * 2 ^ k = (x >>> k) <<< k := by
    rw [Nat.shiftRight_eq_div_pow, Nat.shiftLeft_eq]
  rw [mask, rounded]
  refine Nat.eq_of_testBit_eq fun i => ?_
  rw [Nat.testBit_and, Nat.testBit_shiftLeft, Nat.testBit_shiftLeft, Nat.testBit_shiftRight,
    Nat.testBit_two_pow_sub_one]
  by_cases low : k ≤ i
  · by_cases high : i < width
    · simp [low, show i - k < width - k by omega, Nat.add_sub_cancel' low]
    · have zero : x.testBit i = false :=
        Nat.testBit_lt_two_pow (fits.trans_le (Nat.pow_le_pow_right (by decide) (by omega)))
      simp [zero, Nat.add_sub_cancel' low]
  · simp [low]

section AlignUp

variable {address align grid : ℕ}

theorem dvd_alignUp : align ∣ alignUp address align := Nat.dvd_mul_left _ _

theorem le_alignUp (align_pos : 0 < align) : address ≤ alignUp address align := by
  have split := Nat.div_add_mod' (address + align - 1) align
  have rest_lt := Nat.mod_lt (address + align - 1) align_pos
  unfold alignUp
  omega

theorem alignUp_lt (align_pos : 0 < align) : alignUp address align < address + align := by
  have rounded := Nat.div_mul_le_self (address + align - 1) align
  unfold alignUp
  omega

/-- A common grid of the address and the alignment shortens the shift by a step. -/
theorem alignUp_add_le (align_pos : 0 < align) (onGrid : grid ∣ address)
    (coarser : grid ∣ align) : alignUp address align + grid ≤ address + align := by
  have shift_lt : alignUp address align < address + align := alignUp_lt align_pos
  have onBoth : grid ∣ address + align - alignUp address align :=
    Nat.dvd_sub (Nat.dvd_add onGrid coarser) (coarser.trans dvd_alignUp)
  have step := Nat.le_of_dvd (by omega) onBoth
  omega

end AlignUp

end FlashBench
