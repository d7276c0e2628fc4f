import Mathlib.Data.List.Basic
import Mathlib.Data.List.Nodup

/-!
# Lists of entries under keys

A list of entries, each under a key, as a linked list of objects with their addresses is. Where
the keys are different the entry under a key has one place in the list, and what is done to it
leaves what stands in front of it and behind it alone.
-/

namespace Entries

variable {κ α : Type*} [DecidableEq κ]

/-- Change what is under a key. -/
def modify (k : κ) (f : α → α) (l : List (κ × α)) : List (κ × α) :=
  l.map fun e => if e.1 = k then (e.1, f e.2) else e

/-- The entry under a key. -/
def lookup (k : κ) (l : List (κ × α)) : Option (κ × α) := l.find? (·.1 = k)

variable {k : κ} {f : α → α} {l before after : List (κ × α)} {e : κ × α}

@[simp] theorem keys_modify : (modify k f l).map Prod.fst = l.map Prod.fst := by
  rw [modify, List.map_map]
  apply List.map_congr_left
  intro e he
  rw [Function.comp_apply]
  split_ifs <;> rfl

theorem mem_modify {e' : κ × α} (h : e' ∈ modify k f l) :
    ∃ e ∈ l, e' = if e.1 = k then (e.1, f e.2) else e := by
  obtain ⟨e, he, heq⟩ := List.mem_map.mp h
  exact ⟨e, he, heq.symm⟩

theorem modify_of_notMem (h : k ∉ l.map Prod.fst) : modify k f l = l := by
  rw [modify, List.map_congr_left (g := id), List.map_id]
  intro e he
  apply if_neg
  rintro rfl
  exact h (List.mem_map_of_mem he)

theorem mem_of_lookup (h : lookup k l = some e) : e ∈ l ∧ e.1 = k :=
  ⟨List.mem_of_find?_eq_some h, by simpa using List.find?_some h⟩

theorem lookup_eq_none : lookup k l = none ↔ k ∉ l.map Prod.fst := by
  rw [lookup, List.find?_eq_none]
  simp only [decide_eq_true_eq, List.mem_map, not_exists, not_and]

omit [DecidableEq κ] in
/-- Entries under one key are the same. -/
theorem eq_of_key_eq (hl : (l.map Prod.fst).Nodup) {e' : κ × α} (he : e ∈ l) (he' : e' ∈ l)
    (h : e.1 = e'.1) : e = e' := List.inj_on_of_nodup_map hl he he' h

theorem lookup_of_mem (hl : (l.map Prod.fst).Nodup) (he : e ∈ l) : lookup e.1 l = some e := by
  obtain ⟨e', he'⟩ := Option.isSome_iff_exists.mp
    (show (lookup e.1 l).isSome = true from List.find?_isSome.mpr ⟨e, he, by simp⟩)
  obtain ⟨hmem, hkey⟩ := mem_of_lookup he'
  rw [he', eq_of_key_eq hl hmem he hkey]

/-- The place of an entry, what taking it out leaves, and what changing it does. -/
theorem split [DecidableEq α] (hl : (l.map Prod.fst).Nodup) (he : e ∈ l) :
    ∃ before after, l = before ++ e :: after ∧ l.erase e = before ++ after ∧
      ∀ f, modify e.1 f l = before ++ (e.1, f e.2) :: after := by
  obtain ⟨before, after, -, hsplit, herase⟩ := List.exists_erase_eq he
  refine ⟨before, after, hsplit, herase, fun f => ?_⟩
  rw [hsplit, List.map_append, List.map_cons, List.nodup_middle, ← List.map_append] at hl
  have hnew := (List.nodup_cons.mp hl).1
  rw [List.map_append, List.mem_append, not_or] at hnew
  obtain ⟨hbefore, hafter⟩ := hnew
  have happend : modify e.1 f (before ++ e :: after) =
      modify e.1 f before ++ (e.1, f e.2) :: modify e.1 f after := by
    simp [modify]
  rw [hsplit, happend, modify_of_notMem hbefore, modify_of_notMem hafter]

/-- What is left when an entry is taken out is under other keys. -/
theorem mem_erase_iff [DecidableEq α] (hl : (l.map Prod.fst).Nodup) (he : e ∈ l) {e' : κ × α} :
    e' ∈ l.erase e ↔ e' ∈ l ∧ e'.1 ≠ e.1 := by
  rw [hl.of_map.mem_erase_iff, and_comm]
  exact and_congr_right fun hmem => not_congr ⟨fun h => by rw [h], eq_of_key_eq hl hmem he⟩

end Entries
