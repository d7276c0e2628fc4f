import Mathlib.Data.List.Basic
import Mathlib.Logic.Basic
import Mathlib.Tactic.SplitIfs
import Faceplate.Lib.Loops

/-!
# Loops that write to memory

A memory is a list of cells. A loop computes a place and a value in each of its rounds
and writes there; a round without a result and a write outside the memory are
undefined. Where the value depends on the place alone, the order of the rounds does not
matter.
-/

namespace Writes

variable {α ι : Type*}

/-- Write to a place of a memory. -/
def write (mem : List α) (k : ℕ) (a : α) : Option (List α) :=
  if k < mem.length then some (mem.set k a) else none

/-- A write behind some cells replaces the next one. -/
@[simp] theorem write_append (pre rest : List α) (a b : α) :
    write (pre ++ a :: rest) pre.length b = some (pre ++ b :: rest) := by
  simp [write]

/-- Write some values to consecutive places. -/
def copy (mem : List α) (k : ℕ) (values : List α) : Option (List α) :=
  if k + values.length ≤ mem.length then
    some (mem.take k ++ values ++ mem.drop (k + values.length))
  else none

theorem copy_of_le {mem values : List α} {k : ℕ} (h : k + values.length ≤ mem.length) :
    copy mem k values = some (mem.take k ++ values ++ mem.drop (k + values.length)) :=
  if_pos h

/-- Writing behind some cells replaces the next ones. -/
theorem copy_append (pre rest : List α) {values : List α} (h : values.length ≤ rest.length) :
    copy (pre ++ rest) pre.length values = some (pre ++ values ++ rest.drop values.length) := by
  rw [copy_of_le (by simpa using h), List.take_left, List.drop_append, Nat.add_sub_cancel_left,
    List.drop_eq_nil_of_le (Nat.le_add_right _ _), List.nil_append]

theorem length_copy {mem mem' values : List α} {k : ℕ} (h : copy mem k values = some mem') :
    mem'.length = mem.length := by
  unfold copy at h
  split_ifs at h with hle
  obtain rfl := Option.some.inj h
  simp only [List.length_append, List.length_take, List.length_drop]
  omega

/-- A memory of cells that are nothing before they are written, filled from the front. -/
def filled (size : ℕ) (values : List α) : List (Option α) :=
  values.map some ++ List.replicate (size - values.length) none

theorem write_filled {size : ℕ} {values : List α} (h : values.length < size) (a : α) :
    write (filled size values) values.length (some a) = some (filled size (values ++ [a])) := by
  obtain ⟨k, hk⟩ : ∃ k, size - values.length = k + 1 := ⟨size - values.length - 1, by omega⟩
  have hrest : size - (values ++ [a]).length = k := by
    rw [List.length_append, List.length_singleton]
    omega
  have hwrite := write_append (values.map some) (List.replicate k none) none (some a)
  rw [List.length_map] at hwrite
  unfold filled
  rw [hk, hrest, List.replicate_succ, hwrite, List.map_append, List.append_assoc]
  rfl

theorem filled_full {size : ℕ} {values : List α} (h : values.length = size) :
    filled size values = values.map some := by
  rw [filled, h, Nat.sub_self, List.replicate_zero, List.append_nil]

/-- The loop over `rounds` in which `next` computes the writes. -/
def loop (next : ι → Option (ℕ × α)) (mem : List α) (rounds : List ι) : Option (List α) :=
  rounds.foldlM (fun mem i => (next i).bind fun w => write mem w.1 w.2) mem

@[simp] theorem loop_nil (next : ι → Option (ℕ × α)) (mem : List α) :
    loop next mem [] = some mem := rfl

theorem loop_cons (next : ι → Option (ℕ × α)) (mem : List α) (i : ι) (rounds : List ι) :
    loop next mem (i :: rounds) =
      ((next i).bind fun w => write mem w.1 w.2).bind fun mem => loop next mem rounds := rfl

/-- A round writes to this place. -/
def Hits (next : ι → Option (ℕ × α)) (rounds : List ι) (k : ℕ) : Prop :=
  ∃ i ∈ rounds, ∃ a, next i = some (k, a)

/-- Where every round writes to the memory, and what it writes is determined by the place,
the loop leaves these values where it has written and the old ones elsewhere. -/
theorem loop_spec (next : ι → Option (ℕ × α)) (f : ℕ → α) (rounds : List ι) (mem : List α)
    (h : ∀ i ∈ rounds, ∃ k < mem.length, next i = some (k, f k)) :
    ∃ mem', loop next mem rounds = some mem' ∧ mem'.length = mem.length ∧
      (∀ k, Hits next rounds k → mem'[k]? = some (f k)) ∧
      ∀ k, ¬ Hits next rounds k → mem'[k]? = mem[k]? := by
  induction rounds generalizing mem with
  | nil => exact ⟨mem, rfl, rfl, fun k ⟨i, hi, _⟩ => absurd hi (by simp), fun k _ => rfl⟩
  | cons i rounds ih =>
    obtain ⟨place, hlt, hnext⟩ := h i (by simp)
    have hwrite : write mem place (f place) = some (mem.set place (f place)) := if_pos hlt
    have hlen : (mem.set place (f place)).length = mem.length := by simp
    obtain ⟨mem', hloop, hlen', hhit, hkept⟩ := ih (mem.set place (f place)) (fun j hj => by
      rw [hlen]
      exact h j (by simp [hj]))
    refine ⟨mem', ?_, hlen'.trans hlen, fun k hk => ?_, fun k hk => ?_⟩
    · rw [loop_cons, hnext, Option.bind_some, hwrite, Option.bind_some, hloop]
    · by_cases hrest : Hits next rounds k
      · exact hhit k hrest
      · obtain ⟨j, hj, a, ha⟩ := hk
        rcases List.mem_cons.mp hj with rfl | hj
        · obtain rfl := (Prod.mk.inj (Option.some.inj (hnext.symm.trans ha))).1
          rw [hkept place hrest, List.getElem?_set_self hlt]
        · exact absurd ⟨j, hj, a, ha⟩ hrest
    · have hne : place ≠ k := by
        rintro rfl
        exact hk ⟨i, by simp, _, hnext⟩
      have hrest : ¬ Hits next rounds k := fun ⟨j, hj, hja⟩ => hk ⟨j, by simp [hj], hja⟩
      rw [hkept k hrest, List.getElem?_set_ne hne]

/-- One undefined round makes the loop undefined. -/
theorem loop_eq_none {next : ι → Option (ℕ × α)} {rounds : List ι} {i : ι} (hi : i ∈ rounds)
    (h : next i = none) (mem : List α) : loop next mem rounds = none :=
  Loops.foldlM_eq_none hi (fun mem => by rw [h, Option.bind_none]) mem

end Writes
