import Mathlib.Data.List.Basic

/-!
# Interleavings

Two lists are interleavings of the same parts if, for every key, the elements with
that key stand in both in the same order. A fold whose steps commute for different
keys does not see the difference.
-/

namespace Interleave

variable {α β κ : Type*} {key : α → κ}

/-- A step moves to the front of steps with other keys. -/
theorem foldl_move {f : β → α → β}
    (hcomm : ∀ b a a', key a ≠ key a' → f (f b a) a' = f (f b a') a) {a : α} {before : List α}
    (hbefore : ∀ b ∈ before, key b ≠ key a) (after : List α) (b : β) :
    (before ++ a :: after).foldl f b = (before ++ after).foldl f (f b a) := by
  induction before generalizing b with
  | nil => rfl
  | cons c before ih =>
    have hc := hcomm b c a (hbefore c List.mem_cons_self)
    have htail := ih (fun d hd => hbefore d (List.mem_cons_of_mem _ hd)) (f b c)
    rw [List.cons_append, List.foldl_cons, htail, hc, List.cons_append, List.foldl_cons]

variable [DecidableEq κ]

/-- The elements of each key stand in the same order. -/
def SameParts (key : α → κ) (l₁ l₂ : List α) : Prop :=
  ∀ k, l₁.filter (key · = k) = l₂.filter (key · = k)

/-- The elements of one key can go in front of the others, or behind them. -/
theorem sameParts_filter (key : α → κ) (k : κ) (l : List α) :
    SameParts key l (l.filter (key · = k) ++ l.filter (key · ≠ k)) ∧
      SameParts key l (l.filter (key · ≠ k) ++ l.filter (key · = k)) := by
  have hparts : ∀ k', (l.filter (key · = k')) =
        (l.filter (key · = k)).filter (key · = k') ++ (l.filter (key · ≠ k)).filter (key · = k') ∧
      (l.filter (key · = k')) =
        (l.filter (key · ≠ k)).filter (key · = k') ++
          (l.filter (key · = k)).filter (key · = k') := by
    intro k'
    simp only [List.filter_filter]
    by_cases hk : k' = k
    · subst hk
      simp
    · have hnone : l.filter (fun a => decide (key a = k') && decide (key a = k)) = [] := by
        rw [List.filter_eq_nil_iff]
        intro a _
        simp only [Bool.and_eq_true, decide_eq_true_eq, not_and]
        rintro rfl
        exact hk
      have hall : ∀ a ∈ l, (decide (key a = k') && decide (key a ≠ k)) = decide (key a = k') := by
        intro a _
        by_cases ha : key a = k'
        · simp [ha, hk]
        · simp [ha]
      rw [hnone, List.filter_congr hall]
      simp
  constructor
  · intro k'
    rw [List.filter_append]
    exact (hparts k').1
  · intro k'
    rw [List.filter_append]
    exact (hparts k').2

/-- With an element of another key beside it, an element does not stand behind the same
part in every order. -/
theorem exists_sameParts_behind {k : κ} {before after : List α} {a u : α}
    (hu : u ∈ before ++ a :: after) (hne : key u ≠ k) :
    ∃ l, (before ++ a :: after).Perm l ∧ SameParts key (before ++ a :: after) l ∧
      ∀ front x rest, l = front ++ x :: rest → key x = k → front ≠ before := by
  have hparts := sameParts_filter key k (before ++ a :: after)
  have hperm := List.filter_append_perm (key · = k) (before ++ a :: after)
  have hnot : (fun x => !decide (key x = k)) = fun x => decide (key x ≠ k) := by simp
  have hin : ∀ x ∈ (before ++ a :: after).filter (key · = k), key x = k := fun x hx => by
    simpa using (List.mem_filter.mp hx).2
  have hout : ∀ x ∈ (before ++ a :: after).filter (key · ≠ k), key x ≠ k := fun x hx => by
    simpa using (List.mem_filter.mp hx).2
  rw [hnot] at hperm
  by_cases hbefore : ∃ b ∈ before, key b ≠ k
  · obtain ⟨b, hb, hbk⟩ := hbefore
    refine ⟨_, hperm.symm, hparts.1, ?_⟩
    rintro front x rest heq hx rfl
    rcases List.append_eq_append_iff.mp heq with ⟨mid, -, hmid⟩ | ⟨mid, hmid, -⟩
    · exact hout x (by rw [hmid]; simp) hx
    · exact hbk (hin b (by rw [hmid]; simp [hb]))
  · simp only [not_exists, not_and, not_not] at hbefore
    refine ⟨_, (List.perm_append_comm.trans hperm).symm, hparts.2, ?_⟩
    rintro front x rest heq hx rfl
    have hmem : u ∈ (front ++ a :: after).filter (key · ≠ k) :=
      List.mem_filter.mpr ⟨hu, by simpa using hne⟩
    rcases List.append_eq_append_iff.mp heq with ⟨mid, hmid, -⟩ | ⟨mid, hmid, htail⟩
    · exact hne (hbefore u (by rw [hmid]; exact List.mem_append_left _ hmem))
    · -- the first of the others stands where the element stood
      cases front with
      | nil =>
        cases mid with
        | nil =>
          rw [hmid] at hmem
          simp at hmem
        | cons y mid =>
          have hxy : x = y := by simpa using congrArg List.head? htail
          exact hout x (by rw [hmid, hxy]; simp) hx
      | cons y front =>
        have hy := hbefore y List.mem_cons_self
        exact hout y (by rw [hmid]; simp) hy

/-- If there is one key only, there is one order only. -/
theorem SameParts.eq_of_key {k : κ} {l₁ l₂ : List α} (h : SameParts key l₁ l₂)
    (hkey : ∀ a ∈ l₁, key a = k) (hkey' : ∀ a ∈ l₂, key a = k) : l₁ = l₂ := by
  have hk := h k
  rwa [List.filter_eq_self.mpr fun a ha => by simpa using hkey a ha,
    List.filter_eq_self.mpr fun a ha => by simpa using hkey' a ha] at hk

theorem eq_nil_of_sameParts {l : List α} (h : SameParts key [] l) : l = [] := by
  cases l with
  | nil => rfl
  | cons a rest => simpa using h (key a)

/-- The first element of one list stands in the other behind other keys only. -/
theorem SameParts.exists_split {a : α} {l rest : List α} (h : SameParts key (a :: rest) l) :
    ∃ before after, l = before ++ a :: after ∧ (∀ b ∈ before, key b ≠ key a) ∧
      SameParts key rest (before ++ after) := by
  have hkey := h (key a)
  rw [List.filter_cons_of_pos (by simp), eq_comm, List.filter_eq_cons_iff] at hkey
  obtain ⟨before, after, rfl, hbefore, -, hafter⟩ := hkey
  have hothers : ∀ b ∈ before, key b ≠ key a := fun b hb => by simpa using hbefore b hb
  refine ⟨before, after, rfl, hothers, fun k => ?_⟩
  have hk := h k
  by_cases hka : key a = k
  · have hnone : before.filter (key · = k) = [] :=
      List.filter_eq_nil_iff.mpr fun b hb => by simpa [hka] using hothers b hb
    simpa [hka, hnone] using hk
  · simpa [hka] using hk

/-- The fold is the same over all interleavings. -/
theorem foldl_eq_of_sameParts {f : β → α → β}
    (hcomm : ∀ b a a', key a ≠ key a' → f (f b a) a' = f (f b a') a) {l₁ l₂ : List α}
    (h : SameParts key l₁ l₂) (b : β) : l₁.foldl f b = l₂.foldl f b := by
  induction l₁ generalizing l₂ b with
  | nil => rw [eq_nil_of_sameParts h]
  | cons a rest ih =>
    obtain ⟨before, after, rfl, hbefore, hrest⟩ := h.exists_split
    rw [foldl_move hcomm hbefore, List.foldl_cons]
    exact ih hrest (f b a)

end Interleave
