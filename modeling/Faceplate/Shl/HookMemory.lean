import Mathlib.Data.List.Find
import Mathlib.Data.List.Perm.Subperm
import Faceplate.Shl.Hook

/-!
# The memory of a hook

The memory consists of the hook, the entries in its list and those that a call has taken out
and still uses. Each function on the list is defined on such a memory and leaves one.
-/

namespace Faceplate.Shl

open Dlist

/-- The memory is that of a hook, of the entries in its list, and of `extra`. -/
structure HookMemory (heap : Heap (Node HookData)) (hook : ℕ) (h : ShlHook)
    (cells : List HookCell) (extra : List ℕ) : Prop where
  ring : Ring heap (hook :: Heap.addrs cells)
  head : dataOf heap hook = some (.head h)
  entries : ∀ cell ∈ cells, dataOf heap cell.1 = some (.entry cell.2)
  nodup : (hook :: Heap.addrs cells ++ extra).Nodup
  mem : ∀ a, a ∈ heap ↔ a ∈ hook :: Heap.addrs cells ++ extra

/-- Where the position is before these entries. -/
def hookPlace (hook : ℕ) : List HookCell → ℕ
  | [] => hook
  | cell :: _ => cell.1

namespace HookMemory

variable {heap : Heap (Node HookData)} {hook : ℕ} {h : ShlHook} {cells as bs : List HookCell}
  {cell : HookCell} {extra : List ℕ}

theorem mem_hook (hm : HookMemory heap hook h cells extra) : hook ∈ heap :=
  (hm.mem hook).mpr (by simp)

theorem hook_ne (hm : HookMemory heap hook h cells extra) (hcell : cell ∈ cells) :
    cell.1 ≠ hook := by
  have hmem : cell.1 ∈ Heap.addrs cells := List.mem_map_of_mem hcell
  obtain ⟨hnodup, -⟩ := hm.ring
  exact ne_of_mem_of_not_mem hmem (List.nodup_cons.mp hnodup).1

/-- Entries have different addresses. -/
theorem nodup_addrs (hm : HookMemory heap hook h cells extra) : (Heap.addrs cells).Nodup := by
  obtain ⟨hnodup, -⟩ := hm.ring
  exact (List.nodup_cons.mp hnodup).2

theorem nodup_cells (hm : HookMemory heap hook h cells extra) : cells.Nodup :=
  hm.nodup_addrs.of_map

/-- There are more cells than entries in the list. -/
theorem length_lt (hm : HookMemory heap hook h cells extra) : cells.length < heap.keys.length := by
  have hsub : hook :: Heap.addrs cells ⊆ heap.keys := by
    intro a ha
    exact AList.mem_keys.mpr ((hm.mem a).mpr (List.mem_append_left _ ha))
  obtain ⟨hnodup, -⟩ := hm.ring
  have hle := (hnodup.subperm hsub).length_le
  rw [List.length_cons, Heap.addrs, List.length_map] at hle
  exact hle

theorem hookAt (hm : HookMemory heap hook h cells extra) {s : HookState} (hs : s.heap = heap) :
    s.hookAt hook = some h := by
  rw [HookState.hookAt, hs, hm.head]
  rfl

theorem entryAt (hm : HookMemory heap hook h cells extra) {s : HookState} (hs : s.heap = heap)
    (hcell : cell ∈ cells) : s.entryAt cell.1 = some cell.2 := by
  rw [HookState.entryAt, hs, hm.entries cell hcell]
  rfl

/-- The fields of the hook may be written. -/
theorem setHook (hm : HookMemory heap hook h cells extra) (h' : ShlHook) :
    ∃ heap', (∀ s : HookState, s.heap = heap →
        s.setHook hook h' = some { s with heap := heap' }) ∧
      HookMemory heap' hook h' cells extra := by
  obtain ⟨heap', hset, hnext, hprev, hdata⟩ := setData_spec hm.mem_hook (HookData.head h')
  refine ⟨heap', ?_, ?_, ?_, ?_, hm.nodup, fun a => ?_⟩
  · rintro s rfl
    rw [HookState.setHook, hset, Option.map_some]
  · exact hm.ring.congr fun a _ => ⟨hnext a, hprev a⟩
  · rw [hdata, if_pos rfl]
  · intro cell hcell
    rw [hdata, if_neg (hm.hook_ne hcell)]
    exact hm.entries cell hcell
  · rw [mem_iff_dataOf, hdata, ← hm.mem a]
    split_ifs with ha
    · rw [ha]
      exact iff_of_true rfl hm.mem_hook
    · rw [mem_iff_dataOf]

/-! ### Single entries -/

/-- A position is at none of the entries behind it. -/
theorem place_ne (hm : HookMemory heap hook h (as ++ bs) extra) (hcell : cell ∈ as) :
    hookPlace hook bs ≠ cell.1 := by
  cases bs with
  | nil => exact (hm.hook_ne (by simp [hcell])).symm
  | cons first bs =>
    have hnodup := hm.nodup_addrs
    rw [Heap.addrs, List.map_append, List.nodup_append] at hnodup
    have hfirst : first.1 ∈ List.map Prod.fst (first :: bs) := by simp
    exact (hnodup.2.2 _ (List.mem_map_of_mem hcell) _ hfirst).symm

/-- The entry that follows. -/
theorem nextOf_cell (hm : HookMemory heap hook h (as ++ cell :: bs) extra) :
    nextOf heap cell.1 = some (hookPlace hook bs) := by
  have hring := hm.ring
  rw [Heap.addrs, List.map_append, List.map_cons, ← List.cons_append] at hring
  rw [hring.rotate.neighbours.1]
  cases bs <;> rfl

theorem nextOf_hook (hm : HookMemory heap hook h cells extra) :
    nextOf heap hook = some (hookPlace hook cells) := by
  rw [hm.ring.neighbours.1]
  cases cells <;> rfl

/-- The entry in front of it. -/
theorem prevOf_cell (hm : HookMemory heap hook h (as ++ cell :: bs) extra) :
    prevOf heap cell.1 = some ((hook :: Heap.addrs as).getLast (by simp)) := by
  have hring := hm.ring
  rw [Heap.addrs, List.map_append, List.map_cons, ← List.cons_append] at hring
  rw [hring.rotate.neighbours.2]
  simp [Heap.addrs]

/-- A new entry becomes the last one. -/
theorem add (hm : HookMemory heap hook h cells extra) {a : ℕ} (ha : a ∉ heap)
    (entry : ShlHookEntry) :
    ∃ heap', linkTail (heap.insert a ⟨none, none, .entry entry⟩) hook a = some heap' ∧
      HookMemory heap' hook h (cells ++ [(a, entry)]) extra := by
  have hnew := mt (hm.mem a).mpr ha
  have hother : ∀ b, b ≠ a →
      (heap.insert a ⟨none, none, .entry entry⟩).lookup b = heap.lookup b :=
    fun b hb => AList.lookup_insert_ne hb
  have hring : Ring (heap.insert a ⟨none, none, .entry entry⟩) (hook :: Heap.addrs cells) := by
    apply hm.ring.of_lookup_eq
    intro b hb
    apply hother
    rintro rfl
    exact hnew (List.mem_append_left _ hb)
  obtain ⟨heap', hlink, hring', hdata⟩ := hring.linkTail ((AList.mem_insert _).mpr (Or.inl rfl))
    fun hmem => hnew (List.mem_append_left _ hmem)
  have hsame : ∀ b, b ≠ a → dataOf heap' b = dataOf heap b := by
    intro b hb
    rw [hdata b, dataOf, dataOf, hother b hb]
  have haddrs : Heap.addrs (cells ++ [(a, entry)]) = Heap.addrs cells ++ [a] := by
    simp [Heap.addrs]
  refine ⟨heap', hlink, ?_, ?_, ?_, ?_, fun b => ?_⟩
  · rwa [haddrs]
  · rw [hsame hook (ne_of_mem_of_not_mem hm.mem_hook ha), hm.head]
  · intro cell hcell
    rcases List.mem_append.mp hcell with hcell | hcell
    · have hmem : cell.1 ∈ Heap.addrs cells := List.mem_map_of_mem hcell
      have hne : cell.1 ≠ a := by
        rintro rfl
        exact hnew (by simp [hmem])
      rw [hsame cell.1 hne]
      exact hm.entries cell hcell
    · obtain rfl := List.mem_singleton.mp hcell
      rw [hdata a, dataOf, AList.lookup_insert]
      rfl
  · have hnodup := hm.nodup
    rw [haddrs]
    grind
  · rw [hdata.mem, AList.mem_insert, hm.mem b, haddrs]
    simp only [List.mem_cons, List.mem_append, List.cons_append]
    tauto

/-- An entry is taken out of the list. -/
theorem unlinkCell (hm : HookMemory heap hook h (as ++ cell :: bs) extra) :
    ∃ heap', unlink heap cell.1 = some heap' ∧
      HookMemory heap' hook h (as ++ bs) (cell.1 :: extra) := by
  have hring := hm.ring
  rw [Heap.addrs, List.map_append, List.map_cons] at hring
  obtain ⟨heap', hunlink, hring', hdata⟩ := hring.unlink
  refine ⟨heap', hunlink, ?_, ?_, fun c hc => ?_, ?_, fun a => ?_⟩
  · rwa [Heap.addrs, List.map_append]
  · rw [hdata hook, hm.head]
  · rw [hdata c.1]
    apply hm.entries c
    simp only [List.mem_append, List.mem_cons] at hc ⊢
    tauto
  · have hnodup := hm.nodup
    simp only [Heap.addrs, List.map_append, List.map_cons] at hnodup ⊢
    grind
  · rw [hdata.mem, hm.mem a]
    simp only [Heap.addrs, List.map_append, List.map_cons, List.mem_append, List.mem_cons]
    tauto

/-- What has been taken out is freed. -/
theorem freeExtra {a : ℕ} (hm : HookMemory heap hook h cells (a :: extra)) :
    ∃ heap', heap.free a = some heap' ∧ HookMemory heap' hook h cells extra := by
  have hnodup := hm.nodup
  have hout : a ∉ hook :: Heap.addrs cells ++ extra := by grind
  have hother : ∀ b ∈ hook :: Heap.addrs cells, (heap.erase a).lookup b = heap.lookup b := by
    intro b hb
    apply AList.lookup_erase_ne
    rintro rfl
    exact hout (List.mem_append_left _ hb)
  have hsame : ∀ b ∈ hook :: Heap.addrs cells, dataOf (heap.erase a) b = dataOf heap b := by
    intro b hb
    rw [dataOf, dataOf, hother b hb]
  refine ⟨heap.erase a, if_pos ((hm.mem a).mpr (by simp)), hm.ring.of_lookup_eq hother, ?_,
    ?_, by grind, fun b => ?_⟩
  · rw [hsame hook List.mem_cons_self, hm.head]
  · intro cell hcell
    rw [hsame cell.1 (List.mem_cons_of_mem _ (List.mem_map_of_mem hcell))]
    exact hm.entries cell hcell
  · rw [AList.mem_erase, hm.mem b]
    grind

/-! ### Freeing a hook -/

/-- The loop frees the entries from the last one on. -/
theorem freeLoop (hm : HookMemory heap hook h cells extra) {fuel : ℕ}
    (hfuel : cells.length < fuel) :
    ∃ heap', shlHookFreeLoop hook fuel heap = some heap' ∧ HookMemory heap' hook h [] extra := by
  induction fuel generalizing heap cells with
  | zero => omega
  | succ fuel ih =>
    obtain rfl | ⟨cells, last, rfl⟩ := List.eq_nil_or_concat cells
    · refine ⟨heap, ?_, hm⟩
      rw [shlHookFreeLoop, hm.nextOf_hook]
      exact if_pos rfl
    · rw [List.concat_eq_append] at hm hfuel
      have hfirst : hookPlace hook (cells ++ [last]) ≠ hook := by
        cases cells with
        | nil => exact hm.hook_ne (by simp)
        | cons first cells => exact hm.hook_ne (by simp)
      have hlast : prevOf heap hook = some last.1 := by
        rw [hm.ring.neighbours.2]
        simp [Heap.addrs]
      obtain ⟨heap₁, hunlink, hm₁⟩ := hm.unlinkCell
      obtain ⟨heap₂, hfree, hm₂⟩ := hm₁.freeExtra
      rw [List.append_nil] at hm₂
      obtain ⟨heap', hloop, hm'⟩ := ih hm₂ (by simpa using hfuel)
      refine ⟨heap', ?_, hm'⟩
      rw [shlHookFreeLoop, hm.nextOf_hook]
      simp only [Option.bind_eq_bind, Option.bind_some, if_neg hfirst, hlast, hunlink, hfree]
      exact hloop

/-- Outside of a call the memory of the hook and of its entries is freed. -/
theorem free {s : HookState} (hm : HookMemory s.heap hook h cells [])
    (hcur : h.curEntry = none) :
    ∃ heap, shlHookFree hook s = some { s with heap := heap, frees := s.frees + 1 } ∧
      ∀ a, a ∉ heap := by
  obtain ⟨heap, hloop, hm'⟩ := hm.freeLoop hm.length_lt
  refine ⟨heap.erase hook, ?_, fun a ha => ?_⟩
  · have hfree : heap.free hook = some (heap.erase hook) := if_pos hm'.mem_hook
    rw [shlHookFree, hm.hookAt rfl]
    simp only [Option.bind_eq_bind, Option.bind_some, hcur, Option.isSome_none, hloop, hfree]
    rfl
  · obtain ⟨hne, hmem⟩ := AList.mem_erase.mp ha
    simpa [Heap.addrs, hne] using (hm'.mem a).mp hmem

/-- During a call the hook is only marked. -/
theorem free_of_call {s : HookState} (hm : HookMemory s.heap hook h cells extra)
    (hcur : h.curEntry.isSome = true) :
    ∃ heap, shlHookFree hook s = some { s with heap := heap } ∧
      HookMemory heap hook { h with dead := true } cells extra := by
  obtain ⟨heap, hset, hm'⟩ := hm.setHook { h with dead := true }
  refine ⟨heap, ?_, hm'⟩
  rw [shlHookFree, hm.hookAt rfl]
  simp only [Option.bind_eq_bind, Option.bind_some, hcur, if_true]
  exact hset s rfl

end HookMemory

/-! ## Counting -/

/-- The fields of a hook whose counter is right. An entry that has been taken out of the list
counts until it is freed. -/
def countedHook (cells : List HookCell) (extra : List ℕ) (cur : Option ℕ) (dead : Bool) :
    ShlHook :=
  ⟨UInt32.ofNat (cells.length + extra.length), cur, dead⟩

theorem countedHook_add (cells : List HookCell) (extra : List ℕ) (cur : Option ℕ) (dead : Bool)
    (cell : HookCell) : { countedHook cells extra cur dead with
      num := (countedHook cells extra cur dead).num + 1 } =
        countedHook (cells ++ [cell]) extra cur dead := by
  simp only [countedHook, List.length_append, List.length_singleton, UInt32.ofNat_add]
  congr 1
  ac_rfl

theorem countedHook_free (cells : List HookCell) (a : ℕ) (extra : List ℕ) (cur : Option ℕ)
    (dead : Bool) : { countedHook cells (a :: extra) cur dead with
      num := (countedHook cells (a :: extra) cur dead).num - 1 } =
        countedHook cells extra cur dead := by
  rw [countedHook, countedHook, List.length_cons, ← Nat.add_assoc, UInt32.ofNat_add]
  simp

theorem countedHook_unlink (as bs : List HookCell) (cell : HookCell) (extra : List ℕ)
    (cur : Option ℕ) (dead : Bool) : countedHook (as ++ cell :: bs) extra cur dead =
      countedHook (as ++ bs) (cell.1 :: extra) cur dead := by
  rw [countedHook, countedHook]
  congr 2
  simp only [List.length_append, List.length_cons]
  omega

section Actions

variable {hook : ℕ} {s : HookState} {cells as bs : List HookCell} {extra : List ℕ}
  {cur : Option ℕ} {dead : Bool}

/-- Without memory nothing is added, else the new entry becomes the last one. -/
theorem shlHookAdd_spec (malloc : Malloc)
    (hm : HookMemory s.heap hook (countedHook cells extra cur dead) cells extra) (cb data : ℕ)
    (oneshot : Bool) :
    ((cb = 0 ∨ malloc.addr s.heap.keys = none) ∧
        ∃ code, shlHookAdd malloc hook cb data oneshot s = some (code, s)) ∨
      ∃ heap a, let cell : HookCell := (a, ⟨cb, data, oneshot, s.allocated⟩)
        shlHookAdd malloc hook cb data oneshot s = some (0, { s with
          heap := heap, allocated := s.allocated + 1, log := s.log ++ [.insert cell] }) ∧
        HookMemory heap hook (countedHook (cells ++ [cell]) extra cur dead) (cells ++ [cell])
          extra := by
  unfold shlHookAdd
  by_cases hcb : cb = 0
  · exact Or.inl ⟨Or.inl hcb, -22, if_pos hcb⟩
  · rw [if_neg hcb]
    cases hroom : malloc.addr s.heap.keys with
    | none => exact Or.inl ⟨Or.inr rfl, -12, rfl⟩
    | some a =>
      right
      have ha : a ∉ s.heap := fun hmem => malloc.addr_notMem hroom (AList.mem_keys.mp hmem)
      obtain ⟨heap₁, hlink, hm₁⟩ := hm.add ha ⟨cb, data, oneshot, s.allocated⟩
      obtain ⟨heap₂, hset, hm₂⟩ := hm₁.setHook
        { countedHook cells extra cur dead with num := (countedHook cells extra cur dead).num + 1 }
      refine ⟨heap₂, a, ?_, ?_⟩
      · simp only [hlink, Option.bind_eq_bind, Option.bind_some, hm₁.hookAt, hset]
        rfl
      · rwa [countedHook_add] at hm₂

/-- An entry is removed, and the position moves on if it was there. -/
theorem hookRemove_spec {cell : HookCell}
    (hm : HookMemory s.heap hook (countedHook (as ++ cell :: bs) extra cur dead)
      (as ++ cell :: bs) extra) :
    ∃ heap, hookRemove hook cell.1 cell.2 s =
        some { s with heap := heap, log := s.log ++ [.remove cell] } ∧
      HookMemory heap hook (countedHook (as ++ bs) extra
        (if cur = some cell.1 then some (hookPlace hook bs) else cur) dead) (as ++ bs) extra := by
  let cur' := if cur = some cell.1 then some (hookPlace hook bs) else cur
  obtain ⟨heap₁, hset, hm₁⟩ := hm.setHook (countedHook (as ++ cell :: bs) extra cur' dead)
  obtain ⟨heap₂, hunlink, hm₂⟩ := hm₁.unlinkCell
  obtain ⟨heap₃, hfree, hm₃⟩ := hm₂.freeExtra
  rw [countedHook_unlink] at hm₃
  obtain ⟨heap₄, hset', hm₄⟩ := hm₃.setHook
    { countedHook (as ++ bs) (cell.1 :: extra) cur' dead with
      num := (countedHook (as ++ bs) (cell.1 :: extra) cur' dead).num - 1 }
  have hcur : (countedHook (as ++ cell :: bs) extra cur dead).leave s.heap cell.1 =
      some (countedHook (as ++ cell :: bs) extra cur' dead) := by
    unfold ShlHook.leave
    rw [hm.nextOf_cell]
    by_cases hat : cur = some cell.1
    · simp [countedHook, cur', hat]
    · simp [countedHook, cur', hat]
  refine ⟨heap₄, ?_, ?_⟩
  · rw [hookRemove, hm.hookAt rfl]
    simp only [Option.bind_eq_bind, Option.bind_some, hcur, hset, hunlink, hfree, hm₃.hookAt,
      hset']
  · rwa [countedHook_free] at hm₄

/-- Whatever the direction, the first entry that matches is found. -/
theorem find_spec {h : ShlHook} (hm : HookMemory s.heap hook h cells extra)
    {along : ℕ → Option ℕ} {l : List HookCell} (hl : l.Perm cells)
    (halong : Follows along hook (Heap.addrs l) hook) (cb data : ℕ) :
    ∃ start, along hook = some start ∧ s.find hook along cb data start =
      some ((l.find? fun cell => decide (cell.2.Is cb data)).map Prod.fst) := by
  let p : ℕ → Bool := fun a =>
    ((s.entryAt a).map fun entry => decide (entry.Is cb data)).getD false
  have hentry : ∀ cell ∈ l, (s.entryAt cell.1).map (fun entry => decide (entry.Is cb data)) =
      some (decide (cell.2.Is cb data)) := by
    intro cell hcell
    rw [hm.entryAt rfl (hl.mem_iff.mp hcell), Option.map_some]
  have hp : ∀ cell ∈ l, p cell.1 = decide (cell.2.Is cb data) := by
    intro cell hcell
    simp only [p, hentry cell hcell, Option.getD_some]
  have hfound : ∀ a ∈ Heap.addrs l,
      (s.entryAt a).map (fun entry => decide (entry.Is cb data)) = some (p a) := by
    intro a ha
    obtain ⟨cell, hcell, rfl⟩ := List.mem_map.mp ha
    rw [hp cell hcell]
    exact hentry cell hcell
  have hhead : hook ∉ Heap.addrs l := by
    intro hmem
    obtain ⟨cell, hcell, heq⟩ := List.mem_map.mp hmem
    exact hm.hook_ne (hl.mem_iff.mp hcell) heq
  have hlen : (Heap.addrs l).length < s.heap.keys.length := by
    rw [Heap.addrs, List.length_map, hl.length_eq]
    exact hm.length_lt
  obtain ⟨start, hstart, hseek⟩ := seek_spec halong hhead hfound hlen
  refine ⟨start, hstart, ?_⟩
  have hfind : l.find? (p ∘ Prod.fst) = l.find? fun cell => decide (cell.2.Is cb data) :=
    List.find?_congr hp
  rw [HookState.find, hseek, Heap.addrs, List.find?_map, hfind]

/-- What is there with the same data is not added again. -/
theorem shlHookAddSingle_spec (malloc : Malloc) {h : ShlHook}
    (hm : HookMemory s.heap hook h cells extra) (cb data : ℕ) (oneshot : Bool) :
    ((∃ cell ∈ cells, cell.2.Is cb data) ∧
        shlHookAddSingle malloc hook cb data oneshot s = some (0, s)) ∨
      shlHookAddSingle malloc hook cb data oneshot s =
        shlHookAdd malloc hook cb data oneshot s := by
  unfold shlHookAddSingle
  by_cases hcb : cb = 0
  · right
    rw [if_pos hcb, shlHookAdd, if_pos hcb]
  · obtain ⟨-, hpath⟩ := hm.ring
    obtain ⟨first, hfirst, hfind⟩ := find_spec hm (List.Perm.refl cells) hpath.follows_next cb data
    rw [if_neg hcb]
    simp only [Option.bind_eq_bind, hfirst, Option.bind_some, hfind]
    cases hfound : cells.find? fun cell => decide (cell.2.Is cb data) with
    | none => exact Or.inr rfl
    | some cell =>
      have his := List.find?_some hfound
      exact Or.inl ⟨⟨cell, List.mem_of_find?_eq_some hfound, by simpa using his⟩, rfl⟩

end Actions

/-! ## Removing entries -/

/-- What holds of a state and the entries in its list, and still does when one is removed. -/
structure HookRemovable (hook : ℕ) (P : HookState → List HookCell → Prop) : Prop where
  memory : ∀ s cells, P s cells → ∃ h extra, HookMemory s.heap hook h cells extra
  remove : ∀ s as cell bs, P s (as ++ cell :: bs) →
    ∃ s', hookRemove hook cell.1 cell.2 s = some s' ∧ P s' (as ++ bs)

namespace HookRemovable

variable {hook : ℕ} {P : HookState → List HookCell → Prop} {s : HookState}
  {cells : List HookCell}

/-- The last entry that matches is removed. -/
theorem rm (h : HookRemovable hook P) (hs : P s cells) (cb data : ℕ) :
    ∃ s', shlHookRm hook cb data s = some s' ∧ ((∃ as cell bs, cells = as ++ cell :: bs ∧
      cell.2.Is cb data ∧ (∀ c ∈ bs, ¬ c.2.Is cb data) ∧ P s' (as ++ bs)) ∨
        s' = s ∧ (cb = 0 ∨ ∀ c ∈ cells, ¬ c.2.Is cb data)) := by
  unfold shlHookRm
  by_cases hcb : cb = 0
  · exact ⟨s, if_pos hcb, Or.inr ⟨rfl, Or.inl hcb⟩⟩
  · obtain ⟨hook', extra, hm⟩ := h.memory s cells hs
    obtain ⟨hnodup, hpath⟩ := hm.ring
    have hback : Follows (prevOf s.heap) hook (Heap.addrs cells.reverse) hook := by
      rw [Heap.addrs, List.map_reverse]
      exact hpath.follows_prev
    obtain ⟨last, hlast, hfind⟩ := find_spec hm cells.reverse_perm hback cb data
    rw [if_neg hcb]
    simp only [Option.bind_eq_bind, hlast, Option.bind_some, hfind]
    cases hfound : cells.reverse.find? fun cell => decide (cell.2.Is cb data) with
    | none =>
      refine ⟨s, rfl, Or.inr ⟨rfl, Or.inr fun c hc => ?_⟩⟩
      simpa using List.find?_eq_none.mp hfound c (List.mem_reverse.mpr hc)
    | some cell =>
      obtain ⟨hcell, bs, as, hsplit, hbs⟩ := List.find?_eq_some_iff_append.mp hfound
      have hcells : cells = as.reverse ++ cell :: bs.reverse := by
        rw [← List.reverse_inj, hsplit]
        simp
      subst hcells
      obtain ⟨s', hremove, hs'⟩ := h.remove s _ cell _ hs
      refine ⟨s', ?_, Or.inl ⟨_, cell, _, rfl, by simpa using hcell, fun c hc => ?_, hs'⟩⟩
      · rw [Option.map_some]
        simp only [hm.entryAt rfl (by simp : cell ∈ as.reverse ++ cell :: bs.reverse),
          Option.bind_some, hremove]
      · simpa using hbs c (List.mem_reverse.mp hc)

/-- The loop goes through the entries from the last one on. -/
theorem rmAllLoop (h : HookRemovable hook P) (cb data : ℕ) {fuel iter tmp : ℕ}
    {todo rest : List HookCell} (hs : P s (todo ++ rest)) (hfuel : todo.length < fuel)
    (hiter : iter = (hook :: Heap.addrs todo).getLast (by simp))
    (htmp : prevOf s.heap iter = some tmp) :
    ∃ s', shlHookRmAllLoop hook cb data fuel iter tmp s = some s' ∧
      P s' (todo.filter (fun c => decide (¬ c.2.Is cb data)) ++ rest) := by
  induction fuel generalizing s iter tmp todo rest with
  | zero => omega
  | succ fuel ih =>
    obtain rfl | ⟨as, cell, rfl⟩ := List.eq_nil_or_concat todo
    · exact ⟨s, if_pos hiter, hs⟩
    · rw [List.concat_eq_append] at hs hfuel hiter ⊢
      rw [List.append_assoc, List.singleton_append] at hs
      obtain ⟨hook', extra, hm⟩ := h.memory s _ hs
      obtain rfl : iter = cell.1 := by simpa [Heap.addrs] using hiter
      have htmp' : tmp = (hook :: Heap.addrs as).getLast (by simp) :=
        Option.some.inj (htmp.symm.trans hm.prevOf_cell)
      have hin : ∀ cs, tmp ∈ hook :: Heap.addrs (as ++ cs) := by
        intro cs
        have := List.getLast_mem (l := hook :: Heap.addrs as) (by simp)
        rw [← htmp'] at this
        rw [Heap.addrs, List.map_append, ← List.cons_append]
        exact List.mem_append_left _ this
      have hlen : as.length < fuel := by simpa using hfuel
      rw [shlHookRmAllLoop, if_neg (hm.hook_ne (by simp))]
      simp only [Option.bind_eq_bind, hm.entryAt rfl (by simp : cell ∈ as ++ cell :: rest),
        Option.bind_some, List.filter_append]
      by_cases his : cell.2.Is cb data
      · obtain ⟨s', hremove, hs'⟩ := h.remove s as cell rest hs
        obtain ⟨hook'', extra', hm'⟩ := h.memory s' _ hs'
        obtain ⟨prev, hprev⟩ := hm'.ring.exists_prev (hin rest)
        obtain ⟨s'', hloop, hs''⟩ := ih hs' hlen htmp' hprev
        refine ⟨s'', ?_, by simpa [his] using hs''⟩
        simp only [if_pos his, hremove, Option.bind_some, hprev, hloop]
      · obtain ⟨prev, hprev⟩ := hm.ring.exists_prev (hin (cell :: rest))
        obtain ⟨s'', hloop, hs''⟩ := ih hs hlen htmp' hprev
        refine ⟨s'', ?_, by simpa [his] using hs''⟩
        simp only [if_neg his, Option.bind_some, hprev, hloop]

/-- Every entry that matches is removed. -/
theorem rmAll (h : HookRemovable hook P) (hs : P s cells) (cb data : ℕ) :
    ∃ s', shlHookRmAll hook cb data s = some s' ∧ (cb = 0 ∧ s' = s ∨
      P s' (cells.filter fun c => decide (¬ c.2.Is cb data))) := by
  unfold shlHookRmAll
  by_cases hcb : cb = 0
  · exact ⟨s, if_pos hcb, Or.inl ⟨hcb, rfl⟩⟩
  · obtain ⟨hook', extra, hm⟩ := h.memory s cells hs
    have hiter := hm.ring.neighbours.2
    obtain ⟨tmp, htmp⟩ := hm.ring.exists_prev
      (List.getLast_mem (l := hook :: Heap.addrs cells) (by simp))
    rw [← List.append_nil cells] at hs
    obtain ⟨s', hloop, hs'⟩ := h.rmAllLoop cb data hs hm.length_lt rfl htmp
    rw [List.append_nil] at hs'
    refine ⟨s', ?_, Or.inr hs'⟩
    rw [if_neg hcb]
    simp only [Option.bind_eq_bind, hiter, Option.bind_some, htmp, hloop]

end HookRemovable

end Faceplate.Shl
