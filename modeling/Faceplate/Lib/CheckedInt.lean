import Mathlib.Algebra.Order.Group.Unbundled.Int
import Mathlib.Tactic.SplitIfs

/-!
# Signed arithmetic that must not overflow

The value of a sum, a difference, a product or a quotient of machine integers, which is
undefined where it is no value of the type.
-/

namespace CheckedInt

/-- A value of a signed type of 32 bits. -/
def Fits (n : ℤ) : Prop := -2147483648 ≤ n ∧ n < 2147483648

instance (n : ℤ) : Decidable (Fits n) := inferInstanceAs (Decidable (_ ∧ _))

/-- A result in 32 bits. -/
def int32 (n : ℤ) : Option ℤ := if Fits n then some n else none

theorem int32_of_fits {n : ℤ} (h : Fits n) : int32 n = some n := if_pos h

theorem int32_eq_none {n : ℤ} (h : ¬ Fits n) : int32 n = none := if_neg h

theorem int32_eq_some_iff {n m : ℤ} : int32 n = some m ↔ Fits n ∧ n = m := by
  unfold int32
  split_ifs with h <;> simp [h]

/-- A quotient, rounded towards zero. -/
def div32 (n d : ℤ) : Option ℤ := if d = 0 then none else int32 (n.tdiv d)

theorem div32_of_ne {n d : ℤ} (h : d ≠ 0) : div32 n d = int32 (n.tdiv d) := if_neg h

/-- Where a quotient by a positive number lies between 0 and a bound. -/
theorem tdiv_mem_iff {n d k : ℤ} (hd : 0 < d) (hk : 0 ≤ k) :
    0 ≤ n.tdiv d ∧ n.tdiv d ≤ k ↔ -d < n ∧ n < (k + 1) * d := by
  rcases Int.le_total 0 n with hn | hn
  · have hquot : n.tdiv d = n / d := Int.tdiv_eq_ediv_of_nonneg hn
    have hbound : n / d ≤ k ↔ n < (k + 1) * d := by
      rw [← Int.lt_add_one_iff, Int.ediv_lt_iff_lt_mul hd]
    have hlow : 0 ≤ n / d := Int.ediv_nonneg hn (Int.le_of_lt hd)
    rw [hquot, hbound]
    exact ⟨fun h => ⟨by omega, h.2⟩, fun h => ⟨hlow, h.2⟩⟩
  · -- a negative number is divided as its opposite, and rounded up
    have hquot : n.tdiv d = -(-n / d) := by
      rw [← Int.neg_tdiv_neg, Int.tdiv_neg, Int.tdiv_eq_ediv_of_nonneg (by omega)]
    have hbound : -n / d ≤ 0 ↔ -n < d := by
      rw [← Int.lt_add_one_iff, Int.zero_add, Int.ediv_lt_iff_lt_mul hd, Int.one_mul]
    have hlow : 0 ≤ -n / d := Int.ediv_nonneg (by omega) (Int.le_of_lt hd)
    have hpos : 0 < (k + 1) * d := Int.mul_pos (by omega) hd
    rw [hquot]
    constructor
    · rintro ⟨hzero, -⟩
      have hlt := hbound.mp (by omega)
      exact ⟨by omega, by omega⟩
    · rintro ⟨hlt, -⟩
      have hzero := hbound.mpr (by omega)
      exact ⟨by omega, by omega⟩

end CheckedInt
