import Mathlib.Data.Nat.Notation

/-!
# Reference counts

An object that counts its references is there as long as somebody holds one, and its
count is the number of holders. A count is an option, with `none` for an object that
is not there. This file relates the two operations on counts to the number of holders.
-/

namespace Refs

/-- The count of an object with this many holders. -/
def counted (holders : ℕ) : Option ℕ := if holders = 0 then none else some holders

/-- Take a reference. A count of zero is left alone. -/
def incr (count : Option ℕ) : Option ℕ := count.map fun n => if n = 0 then n else n + 1

/-- Drop a reference, and free the object with the last one. -/
def decr : Option ℕ → Option ℕ
  | none => none
  | some n => if n = 0 then some n else if n = 1 then none else some (n - 1)

@[simp] theorem counted_zero : counted 0 = none := rfl

theorem counted_of_pos {holders : ℕ} (h : 0 < holders) : counted holders = some holders :=
  if_neg (Nat.ne_of_gt h)

theorem counted_eq_none_iff {holders : ℕ} : counted holders = none ↔ holders = 0 := by
  unfold counted
  by_cases h : holders = 0
  · simp [h]
  · simp [h]

/-- One more holder of an object that is there. -/
theorem incr_counted {holders : ℕ} (h : 0 < holders) :
    incr (counted holders) = counted (holders + 1) := by
  rw [counted_of_pos h, counted_of_pos (Nat.succ_pos holders)]
  simp [incr, Nat.ne_of_gt h]

/-- One holder less. -/
theorem decr_counted (holders : ℕ) : decr (counted (holders + 1)) = counted holders := by
  rw [counted_of_pos (Nat.succ_pos holders)]
  cases holders with
  | zero => rfl
  | succ n => simp [decr, counted]

end Refs
