import Mathlib.Data.Nat.Notation
import Mathlib.Algebra.Group.Nat.Defs

/-!
# Little endian numbers

A number stored in a fixed count of bytes, least byte first, and read back from
the place in memory where it stands.
-/

namespace Faceplate.LittleEndian

/-- The `n` low bytes of a number. -/
def bytes : ℕ → ℕ → List UInt8
  | 0, _ => []
  | n + 1, v => v.toUInt8 :: bytes n (v / 256)

/-- The number that some bytes spell. -/
def value : List UInt8 → ℕ
  | [] => 0
  | b :: bs => b.toNat + 256 * value bs

/-- The number in the `n` bytes at position `i`. -/
def word (mem : List UInt8) (i n : ℕ) : ℕ := value ((mem.drop i).take n)

@[simp]
theorem length_bytes (n v : ℕ) : (bytes n v).length = n := by
  induction n generalizing v with
  | zero => rfl
  | succ n ih => simp [bytes, ih]

/-- Storing keeps the low bytes. -/
theorem value_bytes (n v : ℕ) : value (bytes n v) = v % 256 ^ n := by
  induction n generalizing v with
  | zero => simp [bytes, value, Nat.mod_one]
  | succ n ih =>
    have hlow : v.toUInt8.toNat = v % 256 := by simp [Nat.toUInt8]
    rw [bytes, value, ih, hlow, Nat.pow_succ, Nat.mul_comm (256 ^ n), Nat.mod_mul]

/-- A number that was stored is read back. -/
theorem word_of_drop {mem rest : List UInt8} {i n v : ℕ} (hv : v < 256 ^ n)
    (h : mem.drop i = bytes n v ++ rest) : word mem i n = v := by
  have htake : (bytes n v ++ rest).take n = bytes n v := by
    rw [List.take_append_of_le_length (by simp)]
    exact List.take_of_length_le (by simp)
  rw [word, h, htake, value_bytes, Nat.mod_eq_of_lt hv]

end Faceplate.LittleEndian
