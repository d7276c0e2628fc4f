import Mathlib.Data.List.Induction
import Mathlib.Data.List.Perm.Basic
import Mathlib.Data.List.Nodup

/-!
# A listener that is told what comes and goes

One side keeps a list of things and tells a listener when one comes and when one goes.
The listener keeps a list of its own, and it is in order only if it is never told that
something comes which it has, or that something goes which it has not. This file says
when all that was told leaves the listener with a given list.
-/

namespace Announcements

variable {α : Type*} [DecidableEq α]

/-- What a listener is told. -/
inductive Told (α : Type*) where
  | added (a : α)
  | removed (a : α)
  deriving DecidableEq, Repr

/-- The listener hears one thing more; `none` if it makes no sense to it. -/
def hear (known : List α) : Told α → Option (List α)
  | .added a => if a ∈ known then none else some (known ++ [a])
  | .removed a => if a ∈ known then some (known.erase a) else none

/-- What the listener knows after all that it was told. -/
def heard (told : List (Told α)) : Option (List α) := told.foldlM hear []

theorem heard_concat (told : List (Told α)) (t : Told α) :
    heard (told ++ [t]) = (heard told).bind (hear · t) := by
  rw [heard, List.foldlM_append]
  simp only [List.foldlM_cons, List.foldlM_nil, bind_pure]
  rfl

/-- All that was told made sense, and the listener knows what is in `l`. -/
def Tells (told : List (Told α)) (l : List α) : Prop :=
  ∃ known, heard told = some known ∧ known.Perm l

variable {told : List (Told α)} {l l' : List α} {a : α}

theorem tells_nil : Tells ([] : List (Told α)) [] := ⟨[], rfl, List.Perm.refl []⟩

theorem Tells.perm (h : Tells told l) (hperm : l.Perm l') : Tells told l' := by
  obtain ⟨known, hheard, hknown⟩ := h
  exact ⟨known, hheard, hknown.trans hperm⟩

/-- Something new comes. -/
theorem Tells.added (h : Tells told l) (ha : a ∉ l) : Tells (told ++ [.added a]) (a :: l) := by
  obtain ⟨known, hheard, hknown⟩ := h
  have hnew : a ∉ known := fun hmem => ha (hknown.mem_iff.mp hmem)
  refine ⟨known ++ [a], ?_, ?_⟩
  · rw [heard_concat, hheard]
    exact if_neg hnew
  · exact List.perm_append_singleton a known |>.trans (hknown.cons a)

/-- Something that the listener knows goes. -/
theorem Tells.removed (h : Tells told l) (ha : a ∈ l) :
    Tells (told ++ [.removed a]) (l.erase a) := by
  obtain ⟨known, hheard, hknown⟩ := h
  refine ⟨known.erase a, ?_, hknown.erase a⟩
  rw [heard_concat, hheard]
  exact if_pos (hknown.mem_iff.mpr ha)

/-- The same for a list with the thing in the middle. -/
theorem Tells.removed_middle {before after : List α} (h : Tells told (before ++ a :: after)) :
    Tells (told ++ [.removed a]) (before ++ after) := by
  have hmiddle : (before ++ a :: after).Perm (a :: (before ++ after)) := List.perm_middle
  have hperm := hmiddle.erase a
  rw [List.erase_cons_head] at hperm
  exact (h.removed (by simp)).perm hperm

/-- The listener never knows anything twice. -/
theorem nodup_of_heard {known : List α} (h : heard told = some known) : known.Nodup := by
  induction told using List.reverseRecOn generalizing known with
  | nil =>
    obtain rfl := Option.some.inj h
    exact List.nodup_nil
  | append_singleton told t ih =>
    rw [heard_concat, Option.bind_eq_some_iff] at h
    obtain ⟨before, hbefore, hhear⟩ := h
    have hnodup := ih hbefore
    cases t with
    | added a =>
      rw [hear] at hhear
      split_ifs at hhear with hmem
      obtain rfl := Option.some.inj hhear
      exact List.nodup_append.mpr ⟨hnodup, List.nodup_singleton a, fun b hb c hc heq =>
        hmem (List.mem_singleton.mp hc ▸ heq ▸ hb)⟩
    | removed a =>
      rw [hear] at hhear
      split_ifs at hhear with hmem
      obtain rfl := Option.some.inj hhear
      exact hnodup.erase a

theorem Tells.nodup (h : Tells told l) : l.Nodup := by
  obtain ⟨known, hheard, hknown⟩ := h
  exact hknown.nodup_iff.mp (nodup_of_heard hheard)

end Announcements
