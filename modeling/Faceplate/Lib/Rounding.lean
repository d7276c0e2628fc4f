import Mathlib.Data.Int.Log
import Mathlib.Data.Rat.Floor
import Mathlib.Tactic.Linarith
import Mathlib.Tactic.Ring
import Mathlib.Tactic.Positivity

/-!
# Rounded arithmetic

A computation in floating point is a computation on rational numbers with a rounding
after each operation. What is proved for every rounding of bounded relative error
holds for exact arithmetic, where the bound is zero, and for doubles.
-/

namespace Faceplate

/-- A rounding of rational numbers with a bound for its relative error, and the numbers
that can be represented at all. -/
structure Rounding where
  round : ℚ → ℚ
  unit : ℚ
  unit_nonneg : 0 ≤ unit
  error : ∀ q, |round q - q| ≤ unit * |q|
  inRange : ℚ → Bool

namespace Rounding

/-- No rounding at all. -/
def exact : Rounding where
  round := id
  unit := 0
  unit_nonneg := le_refl 0
  error := by simp
  inRange _ := true

/-- The nearest integer, and the even one of two. -/
def roundEven (x : ℚ) : ℤ :=
  let f := ⌊x⌋
  if x - f < 1 / 2 then f
  else if 1 / 2 < x - f then f + 1
  else if f % 2 = 0 then f else f + 1

theorem abs_roundEven_sub_le (x : ℚ) : |(roundEven x : ℚ) - x| ≤ 1 / 2 := by
  have hle := Int.floor_le x
  have hlt := Int.lt_floor_add_one x
  simp only [roundEven]
  split_ifs with hlow hhigh heven
  · rw [abs_le]
    constructor <;> linarith
  · rw [abs_le]
    push_cast
    constructor <;> linarith
  · rw [abs_le]
    constructor <;> linarith
  · rw [abs_le]
    push_cast
    constructor <;> linarith

/-- The distance of doubles around a number. -/
def ulp (q : ℚ) : ℚ := 2 ^ (Int.log 2 |q| - 52)

/-- The nearest double, with 53 significant bits. -/
def roundDouble (q : ℚ) : ℚ := if q = 0 then 0 else roundEven (q / ulp q) * ulp q

theorem ulp_pos (q : ℚ) : 0 < ulp q := zpow_pos (by norm_num) _

theorem ulp_le {q : ℚ} (hq : q ≠ 0) : ulp q ≤ 2 ^ (-52 : ℤ) * |q| := by
  have hlog := Int.zpow_log_le_self (b := 2) (by decide) (abs_pos.mpr hq)
  rw [ulp, sub_eq_add_neg, zpow_add₀ (by norm_num), mul_comm]
  exact mul_le_mul_of_nonneg_left (by exact_mod_cast hlog) (zpow_pos (by norm_num) _).le

/-- Rounding to a double changes a number by half an ulp at most. -/
theorem roundDouble_error (q : ℚ) : |roundDouble q - q| ≤ 2 ^ (-53 : ℤ) * |q| := by
  by_cases hq : q = 0
  · simp [roundDouble, hq]
  · have hpos := ulp_pos q
    have hhalf := abs_roundEven_sub_le (q / ulp q)
    have hulp := ulp_le hq
    have hsplit : roundDouble q - q = (roundEven (q / ulp q) - q / ulp q) * ulp q := by
      rw [roundDouble, if_neg hq, sub_mul, div_mul_cancel₀ q hpos.ne']
    have hpow : (2 : ℚ) ^ (-53 : ℤ) = 1 / 2 * 2 ^ (-52 : ℤ) := by norm_num
    rw [hsplit, abs_mul, abs_of_pos hpos, hpow, mul_assoc]
    exact mul_le_mul hhalf hulp hpos.le (by norm_num)

/-- Doubles. Sums of doubles do not underflow, so the smallest exponent matters for
numerals only. -/
def double : Rounding where
  round := roundDouble
  unit := 2 ^ (-53 : ℤ)
  unit_nonneg := (zpow_pos (by norm_num) _).le
  error := roundDouble_error
  inRange q := q == 0 ||
    (-1022 ≤ Int.log 2 |roundDouble q| && Int.log 2 |roundDouble q| ≤ 1023)

variable (R : Rounding)

/-- The error of `n` operations in a row, as a factor. -/
def factor (n : ℕ) : ℚ := (1 + R.unit) ^ n - 1

@[simp]
theorem factor_zero : R.factor 0 = 0 := by simp [factor]

theorem factor_one : R.factor 1 = R.unit := by simp [factor]

/-- One operation more. -/
theorem factor_succ (n : ℕ) : R.factor (n + 1) = (1 + R.unit) * R.factor n + R.unit := by
  rw [factor, factor, pow_succ]
  ring

theorem factor_mono {m n : ℕ} (h : m ≤ n) : R.factor m ≤ R.factor n := by
  have hone : 1 ≤ 1 + R.unit := le_add_of_nonneg_right R.unit_nonneg
  exact sub_le_sub_right (pow_le_pow_right₀ hone h) 1

theorem factor_nonneg (n : ℕ) : 0 ≤ R.factor n := by
  rw [← R.factor_zero]
  exact R.factor_mono (Nat.zero_le n)

/-- A rounded number, from the error it came with. -/
theorem round_error {x a m : ℚ} {n : ℕ} (h : |x - a| ≤ R.factor n * m) (ha : |a| ≤ m) :
    |R.round x - a| ≤ R.factor (n + 1) * m := by
  have hround := R.error x
  have hx : |x| ≤ m + R.factor n * m := by
    have htri := abs_add_le a (x - a)
    rw [add_sub_cancel] at htri
    linarith
  have hmul : R.unit * |x| ≤ R.unit * (m + R.factor n * m) :=
    mul_le_mul_of_nonneg_left hx R.unit_nonneg
  rw [R.factor_succ]
  calc |R.round x - a| = |(R.round x - x) + (x - a)| := by rw [sub_add_sub_cancel]
    _ ≤ |R.round x - x| + |x - a| := abs_add_le _ _
    _ ≤ R.unit * (m + R.factor n * m) + R.factor n * m := by linarith
    _ = ((1 + R.unit) * R.factor n + R.unit) * m := by ring

/-- One more rounded number is added to a sum. -/
theorem sum_error {p a d m : ℚ} {n : ℕ} (hp : |p - a| ≤ R.factor (n + 1) * m) (ha : |a| ≤ m) :
    |R.round (p + R.round d) - (a + d)| ≤ R.factor (n + 2) * (m + |d|) := by
  refine R.round_error ?_ ((abs_add_le a d).trans (by linarith))
  have hd : |R.round d - d| ≤ R.factor (n + 1) * |d| := by
    refine (R.error d).trans (mul_le_mul_of_nonneg_right ?_ (abs_nonneg d))
    rw [← R.factor_one]
    exact R.factor_mono (by omega)
  calc |p + R.round d - (a + d)| = |(p - a) + (R.round d - d)| := by rw [add_sub_add_comm]
    _ ≤ |p - a| + |R.round d - d| := abs_add_le _ _
    _ ≤ R.factor (n + 1) * (m + |d|) := by rw [mul_add]; exact add_le_add hp hd

/-- The difference of two rounded numbers. -/
theorem difference_error {y a b : ℚ} (hy : |y - b| ≤ R.unit * |b|) :
    |R.round (R.round a - y) - (a - b)| ≤ R.factor 2 * (|a| + |b|) := by
  refine R.round_error ?_ ((abs_sub a b))
  have ha := R.error a
  rw [R.factor_one]
  calc |R.round a - y - (a - b)| = |(R.round a - a) - (y - b)| := by rw [sub_sub_sub_comm]
    _ ≤ |R.round a - a| + |y - b| := abs_sub _ _
    _ ≤ R.unit * (|a| + |b|) := by rw [mul_add]; exact add_le_add ha hy

end Rounding

end Faceplate
