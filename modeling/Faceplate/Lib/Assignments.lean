import Mathlib.Data.List.Induction
import Mathlib.Tactic.SplitIfs

/-!
# Logs of assignments

A file of `key=value` lines, or several of them one after the other, as the list
of what they assign. Only the last assignment of a key counts.
-/

namespace Assignments

variable {κ α : Type*} [DecidableEq κ]

/-- The value that a log leaves under a key. -/
def last (k : κ) (log : List (κ × α)) : Option α :=
  log.foldl (fun value entry => if entry.1 = k then some entry.2 else value) none

@[simp] theorem last_nil (k : κ) : last k ([] : List (κ × α)) = none := rfl

theorem last_concat (k : κ) (log : List (κ × α)) (entry : κ × α) :
    last k (log ++ [entry]) = if entry.1 = k then some entry.2 else last k log := by
  simp [last]

theorem last_concat_self (k : κ) (log : List (κ × α)) (a : α) :
    last k (log ++ [(k, a)]) = some a := by
  rw [last_concat, if_pos rfl]

theorem last_concat_of_ne {k k' : κ} (h : k' ≠ k) (log : List (κ × α)) (a : α) :
    last k (log ++ [(k', a)]) = last k log := by
  rw [last_concat, if_neg h]

/-- What is left under a key was assigned to it. -/
theorem mem_of_last {k : κ} {log : List (κ × α)} {a : α} (h : last k log = some a) :
    (k, a) ∈ log := by
  induction log using List.reverseRecOn with
  | nil => simp at h
  | append_singleton log entry ih =>
    rw [last_concat] at h
    split_ifs at h with hkey
    · obtain rfl := Option.some.inj h
      simp [← hkey]
    · exact List.mem_append_left _ (ih h)

end Assignments
