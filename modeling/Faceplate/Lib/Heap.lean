import Mathlib.Data.List.AList
import Mathlib.Data.List.Nodup

/-!
# Memory that is allocated and freed

A heap holds one cell under each address that is in use. Reading or writing a cell that
is not there and freeing it once more are undefined. `Malloc` is an allocator: it may
fail, and an address it returns is not in use. A list segment is a chain of cells that
point to each other, with the address that follows the last one.
-/

/-- The cells in use, by their addresses. -/
abbrev Heap (γ : Type*) := AList fun _ : ℕ => γ

/-- An allocator, given the addresses in use. -/
structure Malloc where
  /-- The address returned, `none` when there is no memory. -/
  addr : List ℕ → Option ℕ
  /-- What is in use is not handed out again. -/
  addr_notMem : ∀ {used a}, addr used = some a → a ∉ used

/-- The allocator never runs out of memory. -/
def Malloc.Succeeds (malloc : Malloc) : Prop := ∀ used, ∃ a, malloc.addr used = some a

/-- The allocator that hands out the address above those in use. -/
def Malloc.bump : Malloc where
  addr used := some (used.foldr (fun a top => max (a + 1) top) 0)
  addr_notMem := by
    intro used a h
    obtain rfl := Option.some.inj h
    have hbelow : ∀ b ∈ used, b < used.foldr (fun a top => max (a + 1) top) 0 := by
      clear h
      induction used with
      | nil => simp
      | cons c used ih =>
        intro b hb
        rw [List.foldr_cons]
        rcases List.mem_cons.mp hb with rfl | hb
        · omega
        · have := ih b hb
          omega
    intro hmem
    exact Nat.lt_irrefl _ (hbelow _ hmem)

theorem Malloc.bump_succeeds : Malloc.bump.Succeeds := fun _ => ⟨_, rfl⟩

namespace Heap

variable {γ : Type*}

/-- Write a cell that is there. -/
def write (heap : Heap γ) (a : ℕ) (c : γ) : Option (Heap γ) :=
  if a ∈ heap then some (heap.insert a c) else none

/-- Free a cell that is there. -/
def free (heap : Heap γ) (a : ℕ) : Option (Heap γ) :=
  if a ∈ heap then some (heap.erase a) else none

theorem mem_of_lookup {heap : Heap γ} {a : ℕ} {c : γ} (h : heap.lookup a = some c) :
    a ∈ heap := by
  apply AList.lookup_isSome.mp
  rw [h]
  rfl

theorem write_of_lookup {heap : Heap γ} {a : ℕ} {old : γ} (h : heap.lookup a = some old)
    (c : γ) : heap.write a c = some (heap.insert a c) :=
  if_pos (mem_of_lookup h)

theorem free_of_lookup {heap : Heap γ} {a : ℕ} {old : γ} (h : heap.lookup a = some old) :
    heap.free a = some (heap.erase a) :=
  if_pos (mem_of_lookup h)

/-! ### Chains of cells -/

variable (next : γ → Option ℕ)

/-- The cells one meets from `start` on, up to the address `stop`. -/
def Segment (heap : Heap γ) : Option ℕ → List (ℕ × γ) → Option ℕ → Prop
  | start, [], stop => start = stop
  | start, (a, c) :: cells, stop =>
    start = some a ∧ heap.lookup a = some c ∧ Segment heap (next c) cells stop

/-- The addresses of some cells. -/
def addrs (cells : List (ℕ × γ)) : List ℕ := cells.map Prod.fst

variable {next}

theorem segment_append {heap : Heap γ} {start stop : Option ℕ} {cells cells' : List (ℕ × γ)} :
    Segment next heap start (cells ++ cells') stop ↔
      ∃ mid, Segment next heap start cells mid ∧ Segment next heap mid cells' stop := by
  induction cells generalizing start with
  | nil =>
    constructor
    · intro h
      exact ⟨start, rfl, h⟩
    · rintro ⟨mid, rfl, h⟩
      exact h
  | cons cell cells ih =>
    constructor
    · rintro ⟨hstart, hcell, hrest⟩
      obtain ⟨mid, hcells, hcells'⟩ := ih.mp hrest
      exact ⟨mid, ⟨hstart, hcell, hcells⟩, hcells'⟩
    · rintro ⟨mid, ⟨hstart, hcell, hcells⟩, hcells'⟩
      exact ⟨hstart, hcell, ih.mpr ⟨mid, hcells, hcells'⟩⟩

/-- A segment depends on its own cells only. -/
theorem Segment.congr {heap heap' : Heap γ} {start stop : Option ℕ} {cells : List (ℕ × γ)}
    (h : Segment next heap start cells stop)
    (hsame : ∀ a ∈ addrs cells, heap'.lookup a = heap.lookup a) :
    Segment next heap' start cells stop := by
  induction cells generalizing start with
  | nil => exact h
  | cons cell cells ih =>
    obtain ⟨hstart, hcell, hrest⟩ := h
    refine ⟨hstart, (hsame cell.1 (by simp [addrs])).trans hcell, ih hrest ?_⟩
    intro a ha
    exact hsame a (List.mem_cons_of_mem _ ha)

/-- The cells of a segment are in the heap. -/
theorem Segment.lookup_of_mem {heap : Heap γ} {start stop : Option ℕ} {cells : List (ℕ × γ)}
    (h : Segment next heap start cells stop) {cell : ℕ × γ} (hcell : cell ∈ cells) :
    heap.lookup cell.1 = some cell.2 := by
  induction cells generalizing start with
  | nil => simp at hcell
  | cons first cells ih =>
    rcases List.mem_cons.mp hcell with rfl | hcell
    · exact h.2.1
    · exact ih h.2.2 hcell

/-- Writing a cell elsewhere leaves a segment as it is. -/
theorem Segment.insert {heap : Heap γ} {start stop : Option ℕ} {cells : List (ℕ × γ)}
    (h : Segment next heap start cells stop) {a : ℕ} (ha : a ∉ addrs cells) (c : γ) :
    Segment next (heap.insert a c) start cells stop :=
  h.congr fun _ hb => AList.lookup_insert_ne (ne_of_mem_of_not_mem hb ha)

/-- Freeing a cell elsewhere leaves a segment as it is. -/
theorem Segment.erase {heap : Heap γ} {start stop : Option ℕ} {cells : List (ℕ × γ)}
    (h : Segment next heap start cells stop) {a : ℕ} (ha : a ∉ addrs cells) :
    Segment next (heap.erase a) start cells stop :=
  h.congr fun _ hb => AList.lookup_erase_ne (ne_of_mem_of_not_mem hb ha)

/-- Addresses in a chain without repetition: the last one is none of the others. -/
theorem notMem_of_nodup_concat {cells : List (ℕ × γ)} {a : ℕ} {c : γ}
    (h : (addrs (cells ++ [(a, c)])).Nodup) : a ∉ addrs cells := by
  rw [addrs, List.map_append, List.nodup_append] at h
  intro ha
  exact h.2.2 a ha a (by simp) rfl

end Heap
