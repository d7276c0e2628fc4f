import Mathlib.Data.List.Nodup
import Mathlib.Data.List.Perm.Subperm

/-!
# Walking along a list that changes

A walk visits the elements of a list from the first one on. Meanwhile elements are removed
anywhere and inserted at the end. An element is visited once its predecessors are out of the
way, and one that is inserted when nothing is ahead any more stays unvisited. What is inserted
has not been in the list before, so that every element is there once.
-/

namespace Walk

/-- What happens during a walk. -/
inductive Event (α : Type*) where
  | visit (a : α)
  | remove (a : α)
  | insert (a : α)

variable {α : Type*}

/-- The elements visited, in order. -/
def visited (log : List (Event α)) : List α :=
  log.filterMap fun
    | .visit a => some a
    | _ => none

/-- The elements inserted. -/
def inserted (log : List (Event α)) : List α :=
  log.filterMap fun
    | .insert a => some a
    | _ => none

/-- An element is removed before it has been visited. -/
def Skipped (log : List (Event α)) (a : α) : Prop :=
  ∃ log₁ log₂, log = log₁ ++ .remove a :: log₂ ∧ a ∉ visited log₁

/-- The list, divided where the walk is. -/
structure Place (α : Type*) where
  behind : List α
  ahead : List α

/-- An event of a walk. The element that is visited may be taken out of the list by it. -/
inductive Step : Place α → Event α → Place α → Prop
  | visit {behind ahead : List α} {a : α} :
      Step ⟨behind, a :: ahead⟩ (.visit a) ⟨behind ++ [a], ahead⟩
  | visitOut {behind ahead : List α} {a : α} :
      Step ⟨behind, a :: ahead⟩ (.visit a) ⟨behind, ahead⟩
  | removeBehind {as bs ahead : List α} {a : α} :
      Step ⟨as ++ a :: bs, ahead⟩ (.remove a) ⟨as ++ bs, ahead⟩
  | removeAhead {behind as bs : List α} {a : α} :
      Step ⟨behind, as ++ a :: bs⟩ (.remove a) ⟨behind, as ++ bs⟩
  | insertBehind {behind : List α} {a : α} :
      Step ⟨behind, []⟩ (.insert a) ⟨behind ++ [a], []⟩
  | insertAhead {behind ahead : List α} {a : α} (hahead : ahead ≠ []) :
      Step ⟨behind, ahead⟩ (.insert a) ⟨behind, ahead ++ [a]⟩

/-- What is inserted when nothing is ahead counts as passed. -/
def Place.insert (place : Place α) (a : α) : Place α :=
  if place.ahead.isEmpty then ⟨place.behind ++ [a], place.ahead⟩
  else ⟨place.behind, place.ahead ++ [a]⟩

/-- A walk along a list, with its events. -/
inductive Run (start : List α) : List (Event α) → Place α → Prop
  | start : Run start [] ⟨[], start⟩
  | step {log : List (Event α)} {event : Event α} {place place' : Place α}
      (hrun : Run start log place) (hstep : Step place event place')
      (hnew : ∀ a, event = .insert a → a ∉ start ++ inserted log) :
      Run start (log ++ [event]) place'

theorem Step.insert (place : Place α) (a : α) : Step place (.insert a) (place.insert a) := by
  obtain ⟨behind, ahead⟩ := place
  cases ahead with
  | nil => exact Step.insertBehind
  | cons first rest => exact Step.insertAhead (List.cons_ne_nil first rest)

section Events

variable {log : List (Event α)} {a b : α}

@[simp] theorem visited_append_visit :
    visited (log ++ [.visit a]) = visited log ++ [a] := by simp [visited]

@[simp] theorem visited_append_remove :
    visited (log ++ [.remove a]) = visited log := by simp [visited]

@[simp] theorem visited_append_insert :
    visited (log ++ [.insert a]) = visited log := by simp [visited]

@[simp] theorem inserted_append_visit :
    inserted (log ++ [.visit a]) = inserted log := by simp [inserted]

@[simp] theorem inserted_append_remove :
    inserted (log ++ [.remove a]) = inserted log := by simp [inserted]

@[simp] theorem inserted_append_insert :
    inserted (log ++ [.insert a]) = inserted log ++ [a] := by simp [inserted]

/-- The last event matters if it removes the element. -/
theorem skipped_append {event : Event α} :
    Skipped (log ++ [event]) a ↔ Skipped log a ∨ event = .remove a ∧ a ∉ visited log := by
  constructor
  · rintro ⟨log₁, log₂, hlog, ha⟩
    rcases List.eq_nil_or_concat log₂ with rfl | ⟨log₂, last, rfl⟩
    · obtain ⟨rfl, hlast⟩ := List.append_inj' hlog rfl
      exact Or.inr ⟨List.singleton_inj.mp hlast, ha⟩
    · rw [List.concat_eq_append, ← List.cons_append, ← List.append_assoc] at hlog
      obtain ⟨rfl, -⟩ := List.append_inj' hlog rfl
      exact Or.inl ⟨log₁, log₂, rfl, ha⟩
  · rintro (⟨log₁, log₂, rfl, ha⟩ | ⟨rfl, ha⟩)
    · exact ⟨log₁, log₂ ++ [event], by simp, ha⟩
    · exact ⟨log, [], rfl, ha⟩

@[simp] theorem skipped_append_visit : Skipped (log ++ [.visit b]) a ↔ Skipped log a := by
  simp [skipped_append]

@[simp] theorem skipped_append_insert : Skipped (log ++ [.insert b]) a ↔ Skipped log a := by
  simp [skipped_append]

theorem skipped_append_remove :
    Skipped (log ++ [.remove b]) a ↔ Skipped log a ∨ b = a ∧ a ∉ visited log := by
  simp [skipped_append]

end Events

/-! ### One life for each element -/

/-- The elements that have been visited or are in the list. -/
structure Once (start : List α) (log : List (Event α)) (place : Place α) : Prop where
  nodup : (place.behind ++ place.ahead).Nodup
  visited : (visited log ++ place.ahead).Nodup
  known : ∀ a, a ∈ Walk.visited log ∨ a ∈ place.behind ++ place.ahead ∨ Skipped log a →
    a ∈ start ++ inserted log
  skipped : ∀ a, Skipped log a → a ∉ Walk.visited log ++ place.ahead

variable {start : List α} {log : List (Event α)} {place place' : Place α}

theorem Once.step {event : Event α} (h : Once start log place) (hstep : Step place event place')
    (hnew : ∀ a, event = .insert a → a ∉ start ++ inserted log) :
    Once start (log ++ [event]) place' := by
  obtain ⟨hnodup, hvisited, hknown, hskipped⟩ := h
  cases hstep with
  | visit =>
    constructor
    · simpa using hnodup
    · simpa using hvisited
    · simp only [visited_append_visit, skipped_append_visit, inserted_append_visit]
      grind
    · simp only [visited_append_visit, skipped_append_visit]
      grind
  | visitOut =>
    constructor
    · exact hnodup.sublist (by simp)
    · simpa using hvisited
    · simp only [visited_append_visit, skipped_append_visit, inserted_append_visit]
      grind
    · simp only [visited_append_visit, skipped_append_visit]
      grind
  | removeBehind =>
    constructor
    · exact hnodup.sublist (by simp)
    · simpa using hvisited
    · simp only [visited_append_remove, skipped_append_remove, inserted_append_remove]
      grind
    · simp only [visited_append_remove, skipped_append_remove]
      rw [List.nodup_append] at hnodup
      grind
  | removeAhead =>
    constructor
    · exact hnodup.sublist (by simp)
    · rw [visited_append_remove]
      exact hvisited.sublist (by simp)
    · simp only [visited_append_remove, skipped_append_remove, inserted_append_remove]
      grind
    · simp only [visited_append_remove, skipped_append_remove]
      rw [List.nodup_append] at hvisited
      grind
  | insertBehind =>
    have hfresh := hnew _ rfl
    constructor
    · grind
    · simpa using hvisited
    · simp only [visited_append_insert, skipped_append_insert, inserted_append_insert]
      grind
    · simpa using hskipped
  | insertAhead =>
    have hfresh := hnew _ rfl
    constructor
    · rw [← List.append_assoc]
      grind
    · rw [visited_append_insert, ← List.append_assoc]
      grind
    · simp only [visited_append_insert, skipped_append_insert, inserted_append_insert]
      grind
    · simp only [visited_append_insert, skipped_append_insert]
      grind

/-- Every element has one life. -/
theorem Run.once (hstart : start.Nodup) (h : Run start log place) : Once start log place := by
  induction h with
  | start =>
    exact ⟨hstart, by simpa [visited] using hstart, by simp +contextual [visited, Skipped],
      by simp [Skipped]⟩
  | step hrun hstep hnew ih => exact ih.step hstep hnew

/-- Nothing is visited twice. -/
theorem Run.nodup_visited (hstart : start.Nodup) (h : Run start log place) :
    (visited log).Nodup := (List.nodup_append.mp (h.once hstart).visited).1

/-- What is removed before it has been visited is never visited. -/
theorem Run.notMem_visited (hstart : start.Nodup) (h : Run start log place) {a : α}
    (ha : Skipped log a) : a ∉ visited log :=
  fun hmem => (h.once hstart).skipped a ha (List.mem_append_left _ hmem)

/-- Only what has been in the list is visited. -/
theorem Run.length_visited_le (hstart : start.Nodup) (h : Run start log place) :
    (visited log).length ≤ start.length + (inserted log).length := by
  rw [← List.length_append]
  have hsub : visited log ⊆ start ++ inserted log :=
    fun a ha => (h.once hstart).known a (Or.inl ha)
  exact ((h.nodup_visited hstart).subperm hsub).length_le

/-! ### The order of the visits -/

/-- The elements of the start come first, in their order: those visited, then those ahead. -/
structure Order (start : List α) (log : List (Event α)) (place : Place α)
    (early late rest new : List α) : Prop where
  visited : visited log = early ++ late
  ahead : place.ahead = rest ++ new
  sublist : (early ++ rest).Sublist start
  notMem : ∀ a ∈ late ++ new, a ∉ start
  late_eq_nil : rest ≠ [] → late = []
  cases : ∀ a ∈ start, a ∈ early ++ rest ∨ Skipped log a

theorem Order.visit {early late rest new behind ahead : List α} {a : α}
    (h : Order start log ⟨behind, a :: ahead⟩ early late rest new) (behind' : List α) :
    ∃ early late rest new,
      Order start (log ++ [.visit a]) ⟨behind', ahead⟩ early late rest new := by
  obtain ⟨hvisited, hahead, hsub, hnot, hnil, hcases⟩ := h
  cases rest with
  | nil =>
    refine ⟨early, late ++ [a], [], ahead, ?_, rfl, hsub, ?_, by simp, ?_⟩
    · rw [visited_append_visit, hvisited, List.append_assoc]
    · rw [List.append_assoc, List.singleton_append, show a :: ahead = new from hahead]
      exact hnot
    · simpa using hcases
  | cons first rest =>
    obtain ⟨rfl, rfl⟩ := List.cons.inj (hahead : a :: ahead = first :: (rest ++ new))
    obtain rfl := hnil (by simp)
    refine ⟨early ++ [a], [], rest, new, ?_, rfl, ?_, hnot, fun _ => rfl, ?_⟩
    · rw [visited_append_visit, hvisited, List.append_nil, List.append_nil]
    · simpa using hsub
    · simpa using hcases

theorem Order.removeAhead {early late rest new behind as bs : List α} {a : α}
    (h : Order start log ⟨behind, as ++ a :: bs⟩ early late rest new) (ha : a ∉ Walk.visited log) :
    ∃ early late rest new,
      Order start (log ++ [.remove a]) ⟨behind, as ++ bs⟩ early late rest new := by
  obtain ⟨hvisited, hahead, hsub, hnot, hnil, hcases⟩ := h
  have hsplit : as ++ a :: bs = rest ++ new := hahead
  rcases List.append_eq_append_iff.mp hsplit with ⟨mid, rfl, hmid⟩ | ⟨mid, rfl, hmid⟩
  · cases mid with
    | nil =>
      -- the element is the first one that is not of the start
      refine ⟨early, late, as, bs, by simpa using hvisited, rfl, by simpa using hsub, ?_,
        fun hne => hnil (by simpa using hne), ?_⟩
      · intro b hb
        apply hnot b
        rw [← show a :: bs = new from hmid]
        simp only [List.mem_append, List.mem_cons] at hb ⊢
        tauto
      · intro b hb
        rw [skipped_append_remove]
        have := hcases b hb
        rw [List.append_nil] at this
        tauto
    | cons first mid =>
      -- the element is one of the start
      obtain ⟨rfl, rfl⟩ := List.cons.inj hmid
      refine ⟨early, late, as ++ mid, new, by simpa using hvisited, by simp, ?_, hnot,
        fun _ => hnil (by simp), ?_⟩
      · apply List.Sublist.trans _ hsub
        simp
      · intro b hb
        rw [skipped_append_remove]
        have := hcases b hb
        simp only [List.mem_append, List.mem_cons] at this ⊢
        grind
  · refine ⟨early, late, rest, mid ++ bs, by simpa using hvisited, by simp, hsub, ?_, hnil, ?_⟩
    · intro b hb
      apply hnot b
      rw [hmid]
      simp only [List.mem_append, List.mem_cons] at hb ⊢
      tauto
    · intro b hb
      rw [skipped_append_remove]
      have := hcases b hb
      tauto

theorem Run.order (hstart : start.Nodup) (h : Run start log place) :
    ∃ early late rest new, Order start log place early late rest new := by
  induction h with
  | start =>
    exact ⟨[], [], start, [], rfl, by simp, by simp, by simp, fun _ => rfl,
      fun _ ha => Or.inl ha⟩
  | step hrun hstep hnew ih =>
    obtain ⟨early, late, rest, new, hfair⟩ := ih
    cases hstep with
    | visit => exact hfair.visit _
    | visitOut => exact hfair.visit _
    | removeBehind =>
      obtain ⟨hvisited, hahead, hsub, hnot, hnil, hcases⟩ := hfair
      refine ⟨early, late, rest, new, by simpa using hvisited, hahead, hsub, hnot, hnil, ?_⟩
      intro b hb
      rw [skipped_append_remove]
      have := hcases b hb
      tauto
    | removeAhead =>
      apply hfair.removeAhead
      have hvisited := (hrun.once hstart).visited
      rw [List.nodup_append] at hvisited
      grind
    | insertBehind =>
      obtain ⟨hvisited, hahead, hsub, hnot, hnil, hcases⟩ := hfair
      exact ⟨early, late, rest, new, by simpa using hvisited, hahead, hsub, hnot, hnil,
        by simpa using hcases⟩
    | @insertAhead behind ahead a hne =>
      obtain ⟨hvisited, hahead, hsub, hnot, hnil, hcases⟩ := hfair
      have hfresh := hnew a rfl
      refine ⟨early, late, rest, new ++ [a], by simpa using hvisited, ?_, hsub, ?_, hnil,
        by simpa using hcases⟩
      · rw [← List.append_assoc, ← show ahead = rest ++ new from hahead]
      · intro b hb
        simp only [List.mem_append, List.mem_singleton] at hb hnot hfresh
        grind

/-- When nothing is ahead, or as many elements have been visited as there were at the start,
each of those has been visited in its turn unless it was removed before. -/
theorem Run.turns (hstart : start.Nodup) (h : Run start log place)
    (hend : place.ahead = [] ∨ start.length ≤ (visited log).length) :
    ∃ early late, visited log = early ++ late ∧ early.Sublist start ∧
      (∀ a ∈ late, a ∉ start) ∧ ∀ a ∈ start, a ∈ early ↔ ¬ Skipped log a := by
  obtain ⟨early, late, rest, new, hfair⟩ := h.order hstart
  have hrest : rest = [] := by
    by_contra hne
    rcases hend with hend | hend
    · rw [hfair.ahead] at hend
      exact hne (List.append_eq_nil_iff.mp hend).1
    · have hlen := hfair.sublist.length_le
      have hpos := List.length_pos_iff.mpr hne
      rw [hfair.visited, hfair.late_eq_nil hne, List.append_nil] at hend
      rw [List.length_append] at hlen
      omega
  subst hrest
  refine ⟨early, late, hfair.visited, by simpa using hfair.sublist, ?_, fun a ha => ?_⟩
  · exact fun a ha => hfair.notMem a (List.mem_append_left _ ha)
  · constructor
    · intro hmem hskip
      apply h.notMem_visited hstart hskip
      rw [hfair.visited]
      exact List.mem_append_left _ hmem
    · intro hskip
      simpa using (hfair.cases a ha).resolve_right hskip

end Walk
