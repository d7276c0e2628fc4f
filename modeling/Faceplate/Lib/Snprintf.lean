import Mathlib.Algebra.Group.Nat.Defs
import Faceplate.Lib.Writes

/-!
# Texts written one behind the other

`snprintf` writes as much of a text as there is room for and a NUL behind it, and returns
the length the whole text would have had. A caller that goes on behind that length may
leave its buffer. The cells of a buffer are of any type, with one value for the NUL, so
that bytes that have not been written may be told from others.
-/

namespace Snprintf

open Writes

variable {α : Type*}

/-- Subtraction of values of type `size_t`. -/
def subSize (a b : ℕ) : ℕ := (a + 2 ^ 64 - b) % 2 ^ 64

theorem subSize_of_le {a b : ℕ} (h : b ≤ a) (ha : a < 2 ^ 64) : subSize a b = a - b := by
  have hsum : a + 2 ^ 64 - b = (a - b) + 2 ^ 64 := by omega
  rw [subSize, hsum, Nat.add_mod_right, Nat.mod_eq_of_lt (by omega)]

/-- What `snprintf` writes to a place of a buffer, told that there is some room. -/
def snprintf (nul : α) (buf : List α) (k room : ℕ) (text : List α) : Option (List α) :=
  if room = 0 then some buf else copy buf k (text.take (room - 1) ++ [nul])

theorem length_snprintf {nul : α} {buf buf' text : List α} {k room : ℕ}
    (h : snprintf nul buf k room text = some buf') : buf'.length = buf.length := by
  unfold snprintf at h
  split_ifs at h
  · obtain rfl := Option.some.inj h
    rfl
  · exact length_copy h

/-- Where the room is there, the text is cut to it. -/
theorem snprintf_append (nul : α) (pre rest text : List α) {room : ℕ} (hroom : 0 < room)
    (hrest : room ≤ rest.length) :
    ∃ rest', snprintf nul (pre ++ rest) pre.length room text =
        some (pre ++ text.take (room - 1) ++ nul :: rest') ∧
      rest'.length + (text.take (room - 1)).length + 1 = rest.length := by
  have hle : (text.take (room - 1) ++ [nul]).length ≤ rest.length := by
    simp only [List.length_append, List.length_take, List.length_singleton]
    omega
  refine ⟨rest.drop (text.take (room - 1) ++ [nul]).length, ?_, ?_⟩
  · rw [snprintf, if_neg (Nat.ne_of_gt hroom), copy_append pre rest hle]
    simp
  · simp only [List.length_append, List.length_take, List.length_singleton, List.length_drop]
    omega

end Snprintf
