import Mathlib.Data.List.Basic
import Mathlib.Data.List.TakeWhile
import Mathlib.Tactic.SplitIfs

/-!
# Reading memory by place and length

A read is undefined outside of the memory, and it fails there with a value the caller names.
The lemmas speak about a place behind some bytes and about the bytes that follow it.
-/

namespace Scan

variable {α ε : Type} (outside : ε) (mem : List α)

/-- One cell. -/
def peek (pos : ℕ) : Except ε α :=
  match mem[pos]? with
  | none => .error outside
  | some c => .ok c

/-- Some cells in a row. -/
def slice (pos n : ℕ) : Except ε (List α) :=
  if pos + n ≤ mem.length then .ok ((mem.drop pos).take n) else .error outside

/-- `memchr`: the place of the first cell with this content among some cells. -/
def memchr [DecidableEq α] (c : α) : ℕ → ℕ → Except ε (Option ℕ)
  | _, 0 => .ok none
  | pos, n + 1 => do
    let d ← peek outside mem pos
    if d = c then return some pos else memchr c (pos + 1) n

variable {mem}

theorem peek_append (pre : List α) (c : α) (rest : List α) :
    peek outside (pre ++ c :: rest) pre.length = .ok c := by
  rw [peek, List.getElem?_append_right (Nat.le_refl _), Nat.sub_self]
  rfl

theorem slice_append (pre s rest : List α) :
    slice outside (pre ++ s ++ rest) pre.length s.length = .ok s := by
  rw [slice, if_pos (by simp), List.append_assoc, List.drop_left, List.take_left]

variable [DecidableEq α] {c : α}

theorem memchr_none {s : List α} (h : c ∉ s) (pre rest : List α) :
    memchr outside (pre ++ s ++ rest) c pre.length s.length = .ok none := by
  induction s generalizing pre with
  | nil => rfl
  | cons d s ih =>
    obtain ⟨hd, hs⟩ := not_or.mp (mt List.mem_cons.mpr h)
    have hpeek := peek_append outside pre d (s ++ rest)
    have hnext := ih hs (pre ++ [d])
    simp only [List.append_assoc, List.cons_append, List.nil_append, List.length_append,
      List.length_cons, List.length_nil] at hnext ⊢
    rw [memchr, hpeek]
    exact (if_neg (Ne.symm hd)).trans hnext

theorem memchr_some {before : List α} (h : c ∉ before) (after pre rest : List α) :
    memchr outside (pre ++ (before ++ c :: after) ++ rest) c pre.length
      (before ++ c :: after).length = .ok (some (pre.length + before.length)) := by
  induction before generalizing pre with
  | nil =>
    have hpeek := peek_append outside pre c (after ++ rest)
    simp only [List.append_assoc, List.cons_append, List.nil_append, List.length_cons,
      List.length_nil] at hpeek ⊢
    rw [memchr, hpeek]
    exact if_pos rfl
  | cons d before ih =>
    obtain ⟨hd, hbefore⟩ := not_or.mp (mt List.mem_cons.mpr h)
    have hpeek := peek_append outside pre d (before ++ c :: after ++ rest)
    have hnext := ih hbefore (pre ++ [d])
    simp only [List.append_assoc, List.cons_append, List.nil_append, List.length_append,
      List.length_cons, List.length_nil] at hpeek hnext ⊢
    rw [memchr, hpeek]
    refine (if_neg (Ne.symm hd)).trans (hnext.trans ?_)
    rw [Nat.add_assoc, Nat.add_comm (0 + 1), Nat.zero_add]

end Scan
