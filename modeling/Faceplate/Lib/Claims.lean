import Mathlib.Logic.Function.Basic

/-!
# A table of claims

Objects claim keys, at most one each, with a value. A table has under a key the object that
claims it and its value; in particular no two objects claim the same key. The lemmas say
how the table follows the objects when a claim is made, dropped or given another value.
-/

namespace Claims

open Function

variable {α κ β : Type*}

/-- The table has exactly the claims of the objects. -/
def Tracks (table : κ → Option (α × β)) (claims : α → Option (κ × β)) : Prop :=
  ∀ k a v, table k = some (a, v) ↔ claims a = some (k, v)

variable {table : κ → Option (α × β)} {claims : α → Option (κ × β)} {a : α} {k : κ} {v : β}

theorem tracks_empty : Tracks (fun _ : κ => none) (fun _ : α => (none : Option (κ × β))) :=
  fun _ _ _ => by simp

/-- Two objects do not claim the same key. -/
theorem Tracks.eq_of_claims {b : α} {w : β} (h : Tracks table claims)
    (ha : claims a = some (k, v)) (hb : claims b = some (k, w)) : a = b := by
  have htable := ((h k a v).mpr ha).symm.trans ((h k b w).mpr hb)
  exact (Prod.mk.inj (Option.some.inj htable)).1

/-- An object makes the claim it makes already. -/
theorem Tracks.keep [DecidableEq α] (h : Tracks table claims) {c : Option (κ × β)}
    (ha : claims a = c) : Tracks table (update claims a c) := by
  subst ha
  rwa [update_eq_self]

section Updates

variable [DecidableEq α] [DecidableEq κ]

/-- A claim is made for a key that is free. -/
theorem Tracks.claim (h : Tracks table claims) (ha : claims a = none) (hk : table k = none) :
    Tracks (update table k (some (a, v))) (update claims a (some (k, v))) := by
  intro l b w
  by_cases hb : b = a
  · subst hb
    rw [update_self]
    by_cases hl : l = k
    · subst hl
      rw [update_self]
      simp
    · rw [update_of_ne hl, h, ha]
      simp [Ne.symm hl]
  · rw [update_of_ne hb]
    by_cases hl : l = k
    · subst hl
      rw [update_self, ← h, hk]
      simp [Ne.symm hb]
    · rw [update_of_ne hl, h]

/-- A claim is dropped. -/
theorem Tracks.drop (h : Tracks table claims) (ha : claims a = some (k, v)) :
    Tracks (update table k none) (update claims a none) := by
  intro l b w
  by_cases hb : b = a
  · subst hb
    rw [update_self]
    by_cases hl : l = k
    · subst hl
      rw [update_self]
      simp
    · rw [update_of_ne hl, h, ha]
      simp [Ne.symm hl]
  · rw [update_of_ne hb]
    by_cases hl : l = k
    · subst hl
      rw [update_self]
      refine iff_of_false (by simp) fun hclaim => hb (h.eq_of_claims hclaim ha)
    · rw [update_of_ne hl, h]

/-- A claim gets another value. -/
theorem Tracks.revalue (h : Tracks table claims) (ha : claims a = some (k, v)) (v' : β) :
    Tracks (update table k (some (a, v'))) (update claims a (some (k, v'))) := by
  have hdrop := (h.drop ha).claim (v := v') (update_self a none claims) (update_self k none table)
  rwa [update_idem, update_idem] at hdrop

end Updates

end Claims
