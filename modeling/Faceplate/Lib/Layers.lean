import Mathlib.Data.List.Basic

/-!
# Layers over a picture

A picture is painted layer by layer. At one point each layer either has a value of its own or
lets what is below show through; the last layer with a value is seen.
-/

namespace Layers

variable {α β : Type*}

/-- What is seen of a stack of layers at one point, the last one on top. -/
def seen : List (Option β) → Option β
  | [] => none
  | layer :: layers => (seen layers).or layer

@[simp] theorem seen_nil : seen ([] : List (Option β)) = none := rfl

theorem seen_append (layers above : List (Option β)) :
    seen (layers ++ above) = (seen above).or (seen layers) := by
  induction layers with
  | nil => simp
  | cons layer layers ih => rw [List.cons_append, seen, seen, ih, Option.or_assoc]

/-- Painting layer by layer, from the value below all of them. -/
theorem foldl_getD (layers : List (Option β)) (below : β) :
    layers.foldl (fun value layer => layer.getD value) below = (seen layers).getD below := by
  induction layers generalizing below with
  | nil => rfl
  | cons layer layers ih =>
    rw [List.foldl_cons, ih, seen]
    cases seen layers <;> rfl

/-- Layers that have no value do not matter. -/
theorem seen_map_filter (value : α → Option β) (keep : α → Bool) (items : List α)
    (hdrop : ∀ item ∈ items, keep item = false → value item = none) :
    seen ((items.filter keep).map value) = seen (items.map value) := by
  induction items with
  | nil => rfl
  | cons item items ih =>
    have ih' := ih fun other hother => hdrop other (List.mem_cons_of_mem _ hother)
    cases hkeep : keep item with
    | true => rw [List.filter_cons_of_pos hkeep, List.map_cons, List.map_cons, seen, seen, ih']
    | false =>
      rw [List.filter_cons_of_neg (by simp [hkeep]), List.map_cons, seen, ih',
        hdrop item List.mem_cons_self hkeep, Option.or_none]

end Layers
