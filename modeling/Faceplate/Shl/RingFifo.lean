import Faceplate.Shl.RingMemory

/-!
# The byte ring is a queue of bytes

The heap of a ring stores the entries of a `Ring`, in order, and nothing else. Each
operation keeps this, and what it does to the entries is what the operation of `Ring`
does. Over it stands the queue of bytes: a write appends, a peek shows a non-empty run of
the queue at its offset, a drop removes from the front. Every sequence of operations on
the memory refines the queue.
-/

namespace Faceplate

open Heap (addrs Segment)

variable {α : Type*}

/-- A cell holds these bytes at the front of its buffer. -/
structure RingCell.Stores (cell : RingCell α) (ent : List α) : Prop where
  len : cell.len = ent.length
  size : cell.buf.length = shlRingSize
  bytes : cell.buf.take ent.length = ent.map some

namespace RingMem

/-- The chain from `first` to `last` stores the entries, and the heap holds nothing else. -/
structure Represents (ring : RingMem α) (cells : List (ℕ × RingCell α))
    (entries : List (List α)) : Prop where
  chain : Segment RingCell.next ring.heap ring.first cells none
  last : ring.last = (addrs cells).getLast?
  nodup : (addrs cells).Nodup
  mem_iff : ∀ a, a ∈ ring.heap ↔ a ∈ addrs cells
  stores : List.Forall₂ (fun cell ent => cell.2.Stores ent) cells entries

theorem represents_new : (new : RingMem α).Represents [] [] where
  chain := rfl
  last := rfl
  nodup := List.nodup_nil
  mem_iff a := by simp [new, addrs]
  stores := .nil

/-- No entry is lost: the heap has as many cells as the chain. -/
theorem keys_length {heap : Heap (RingCell α)} {cells : List (ℕ × RingCell α)}
    (hnodup : (addrs cells).Nodup) (hmem : ∀ a, a ∈ heap ↔ a ∈ addrs cells) :
    heap.keys.length = cells.length := by
  have hperm : heap.keys.Perm (addrs cells) :=
    (List.perm_ext_iff_of_nodup heap.keys_nodup hnodup).mpr hmem
  rw [hperm.length_eq, addrs, List.length_map]

/-! ### Copies -/

/-- Bytes copied behind those an entry holds are part of it, while they fit. -/
theorem stores_fill {cell : RingCell α} {ent : List α} (h : cell.Stores ent) (val : List α)
    (hroom : ent.length + val.length ≤ shlRingSize) (next : Option ℕ) :
    ∃ buf, Writes.copy cell.buf cell.len (val.map some) = some buf ∧
      RingCell.Stores ⟨next, cell.len + val.length, buf⟩ (ent ++ val) := by
  have hlen : (val.map some).length = val.length := List.length_map _
  have htake : (cell.buf.take ent.length).length = ent.length := by
    rw [h.bytes, List.length_map]
  refine ⟨_, Writes.copy_of_le (by rw [h.len, h.size, hlen]; exact hroom), ?_, ?_, ?_⟩
  · rw [h.len, List.length_append]
  · simp only [List.length_append, List.length_drop, hlen, h.len, htake, h.size]
    omega
  · rw [h.len, h.bytes, ← List.map_append]
    exact List.take_left' (by simp)

/-- The bytes of an entry from an offset on are in its buffer. -/
theorem bytesAt_of_stores {cell : RingCell α} {ent : List α} (h : cell.Stores ent)
    (hfits : ent.length ≤ shlRingSize) {offset : ℕ} (hoffset : offset ≤ ent.length) :
    bytesAt cell.buf offset (cell.len - offset) = some ((ent.drop offset).map some) := by
  have hbound : offset + (cell.len - offset) ≤ cell.buf.length := by
    rw [h.len, h.size]
    omega
  rw [bytesAt, if_pos hbound, h.len, ← List.drop_take, h.bytes, List.map_drop]

/-- `memmove` to the front of the buffer leaves an entry without its first bytes. -/
theorem stores_move {cell : RingCell α} {ent : List α} (h : cell.Stores ent)
    (hfits : ent.length ≤ shlRingSize) (len : ℕ) (next : Option ℕ) :
    ∃ buf, Writes.copy cell.buf 0 ((ent.drop len).map some) = some buf ∧
      RingCell.Stores ⟨next, cell.len - len, buf⟩ (ent.drop len) := by
  have hlen : ((ent.drop len).map some).length = ent.length - len := by simp
  refine ⟨_, Writes.copy_of_le (by rw [hlen, h.size]; omega), ?_, ?_, ?_⟩
  · rw [h.len, List.length_drop]
  · simp only [List.length_append, List.length_drop, List.length_take, hlen, h.size]
    omega
  · rw [List.take_zero, List.nil_append]
    exact List.take_left' (by simp)

/-! ### Writing -/

theorem forall₂_concat {β γ : Type*} {R : β → γ → Prop} {xs : List β} {ys : List γ} {x : β}
    {y : γ} : List.Forall₂ R (xs ++ [x]) (ys ++ [y]) ↔ List.Forall₂ R xs ys ∧ R x y := by
  rw [← List.forall₂_reverse_iff]
  simp [and_comm]

theorem forall₂_mem_left {β γ : Type*} {R : β → γ → Prop} {xs : List β} {ys : List γ}
    (h : List.Forall₂ R xs ys) {x : β} (hx : x ∈ xs) : ∃ y ∈ ys, R x y := by
  induction h with
  | nil => simp at hx
  | cons hxy _ ih =>
    rcases List.mem_cons.mp hx with rfl | hx
    · exact ⟨_, List.mem_cons_self, hxy⟩
    · obtain ⟨y, hy, hr⟩ := ih hx
      exact ⟨y, List.mem_cons_of_mem _ hy, hr⟩

/-- Where the chain has a last cell there is a last entry. -/
theorem Represents.entries_concat {ring : RingMem α} {cells : List (ℕ × RingCell α)}
    {entries : List (List α)} {pair : ℕ × RingCell α}
    (h : ring.Represents (cells ++ [pair]) entries) :
    ∃ init ent, entries = init ++ [ent] := by
  rcases List.eq_nil_or_concat' entries with rfl | hconcat
  · have := h.stores.length_eq
    simp at this
  · exact hconcat

/-- A cell that is written in place, the last one of the chain. -/
theorem Represents.set_last {ring : RingMem α} {cells : List (ℕ × RingCell α)}
    {entries : List (List α)} {a : ℕ} {cell cell' : RingCell α} {ent ent' : List α}
    (h : ring.Represents (cells ++ [(a, cell)]) (entries ++ [ent]))
    (hnext : cell'.next = cell.next) (hstores : cell'.Stores ent') :
    ∃ heap, Heap.write ring.heap a cell' = some heap ∧
      ({ ring with heap := heap } : RingMem α).Represents (cells ++ [(a, cell')])
        (entries ++ [ent']) := by
  obtain ⟨mid, hcells, hlast, hlookup, hstop⟩ := Heap.segment_append.mp h.chain
  have haddrs : addrs (cells ++ [(a, cell')]) = addrs (cells ++ [(a, cell)]) := by
    simp [addrs]
  have hnotMem : a ∉ addrs cells := Heap.notMem_of_nodup_concat h.nodup
  refine ⟨_, Heap.write_of_lookup hlookup cell', ?_, ?_, ?_, ?_, ?_⟩
  · refine Heap.segment_append.mpr ⟨mid, hcells.insert hnotMem cell', hlast, ?_, ?_⟩
    · exact AList.lookup_insert _
    · exact hnext.trans hstop
  · rw [haddrs]
    exact h.last
  · rw [haddrs]
    exact h.nodup
  · intro b
    rw [haddrs, ← h.mem_iff b, AList.mem_insert, or_iff_right_of_imp]
    rintro rfl
    exact Heap.mem_of_lookup hlookup
  · exact forall₂_concat.mpr ⟨(forall₂_concat.mp h.stores).1, hstores⟩

theorem stores_fresh : (freshCell : RingCell α).Stores [] where
  len := rfl
  size := List.length_replicate
  bytes := rfl

/-- With memory, a new entry is the last of the chain afterwards and holds nothing. -/
theorem appendEntry_represents {malloc : Malloc} (hmalloc : malloc.Succeeds)
    {ring : RingMem α} {cells : List (ℕ × RingCell α)} {entries : List (List α)}
    (h : ring.Represents cells entries) :
    ∃ ent ring' cells', ring.appendEntry malloc = some (some ent, ring') ∧
      ring'.Represents (cells' ++ [(ent, freshCell)]) (entries ++ [[]]) := by
  obtain ⟨ent, hent⟩ := hmalloc ring.heap.keys
  have hfree : ent ∉ ring.heap := fun hmem => malloc.addr_notMem hent (AList.mem_keys.mp hmem)
  have hfresh : ent ∉ addrs cells := fun hmem => hfree ((h.mem_iff ent).mpr hmem)
  rcases List.eq_nil_or_concat' cells with rfl | ⟨cells, ⟨last, cell⟩, rfl⟩
  · obtain rfl := List.forall₂_nil_left_iff.mp h.stores
    have hlast : ring.last = none := h.last
    refine ⟨ent, ⟨ring.heap.insert ent freshCell, some ent, some ent⟩, [], ?_, ?_⟩
    · simp only [appendEntry, hent, hlast]
    · exact
        { chain := ⟨rfl, AList.lookup_insert _, rfl⟩
          last := rfl
          nodup := List.nodup_singleton _
          mem_iff := fun a => by
            have hempty : a ∉ ring.heap := by simp [h.mem_iff, addrs]
            simp [addrs, hempty]
          stores := .cons stores_fresh .nil }
  · have hlast : ring.last = some last := by simp [h.last, addrs]
    obtain ⟨mid, hcells, hmid, hlookup, -⟩ := Heap.segment_append.mp h.chain
    have hne : last ≠ ent := by
      rintro rfl
      exact hfresh (by simp [addrs])
    have hlookup' : (ring.heap.insert ent freshCell).lookup last = some cell :=
      (AList.lookup_insert_ne hne).trans hlookup
    -- the old last entry points to the new one
    let cell' : RingCell α := { cell with next := some ent }
    have haddrs : addrs ((cells ++ [(last, cell')]) ++ [(ent, freshCell)]) =
        addrs (cells ++ [(last, cell)]) ++ [ent] := by simp [addrs]
    refine ⟨ent, ⟨(ring.heap.insert ent freshCell).insert last cell', ring.first, some ent⟩,
      cells ++ [(last, cell')], ?_, ?_⟩
    · simp only [appendEntry, hent, hlast, hlookup', Option.bind_eq_bind, Option.bind_some,
        Heap.write_of_lookup hlookup']
      rfl
    · have hnotMem : last ∉ addrs cells := Heap.notMem_of_nodup_concat h.nodup
      have hfresh' : ent ∉ addrs cells := fun ha => hfresh (by simp [addrs] at ha ⊢; exact .inl ha)
      refine ⟨?_, ?_, ?_, ?_, ?_⟩
      · refine Heap.segment_append.mpr ⟨some ent, Heap.segment_append.mpr ⟨mid, ?_, hmid, ?_, rfl⟩,
          rfl, ?_, rfl⟩
        · exact (hcells.insert hfresh' freshCell).insert hnotMem cell'
        · exact AList.lookup_insert _
        · exact (AList.lookup_insert_ne hne.symm).trans (AList.lookup_insert _)
      · rw [haddrs, List.getLast?_concat]
      · rw [haddrs]
        rw [← List.concat_eq_append, List.nodup_concat]
        exact ⟨hfresh, h.nodup⟩
      · intro a
        rw [haddrs, List.mem_append, ← h.mem_iff a, AList.mem_insert, AList.mem_insert,
          List.mem_singleton]
        have := Heap.mem_of_lookup hlookup
        grind
      · obtain ⟨init, ent', rfl⟩ := h.entries_concat
        obtain ⟨hinit, hent'⟩ := forall₂_concat.mp h.stores
        exact forall₂_concat.mpr
          ⟨forall₂_concat.mpr ⟨hinit, hent'.len, hent'.size, hent'.bytes⟩, stores_fresh⟩

/-- The entry that is filled next is the one that `Ring` fills. -/
theorem openEntry_represents {malloc : Malloc} (hmalloc : malloc.Succeeds) {ring : RingMem α}
    {cells : List (ℕ × RingCell α)} {entries before : List (List α)} {open' : List α}
    {fresh : Bool} (h : ring.Represents cells entries)
    (hopen : Ring.openEntry entries = (before, open', fresh)) :
    ∃ ent ring' cells' cell, ring.openEntry malloc = some (some ent, ring') ∧
      ring'.Represents (cells' ++ [(ent, cell)]) (before ++ [open']) := by
  rcases List.eq_nil_or_concat' cells with rfl | ⟨cells, ⟨last, cell⟩, rfl⟩
  · obtain rfl := List.forall₂_nil_left_iff.mp h.stores
    have hlast : ring.last = none := h.last
    simp only [Ring.openEntry, List.getLast?_nil, Prod.mk.injEq] at hopen
    obtain ⟨rfl, rfl, -⟩ := hopen
    obtain ⟨ent, ring', cells', happend, hrep⟩ := appendEntry_represents hmalloc h
    exact ⟨ent, ring', cells', freshCell, by rw [openEntry, hlast]; exact happend, hrep⟩
  · have hlast : ring.last = some last := by simp [h.last, addrs]
    obtain ⟨mid, -, -, hlookup, -⟩ := Heap.segment_append.mp h.chain
    obtain ⟨init, ent', rfl⟩ := h.entries_concat
    have hlen : cell.len = ent'.length := (forall₂_concat.mp h.stores).2.len
    simp only [openEntry, hlast, hlookup, Option.bind_eq_bind, Option.bind_some, hlen]
    simp only [Ring.openEntry, List.getLast?_concat, List.dropLast_concat] at hopen
    split_ifs at hopen ⊢ with hfull
    · obtain ⟨rfl, rfl, -⟩ : before = init ++ [ent'] ∧ open' = [] ∧ fresh = true := by
        simpa [eq_comm] using hopen
      obtain ⟨ent, ring', cells', happend, hrep⟩ := appendEntry_represents hmalloc h
      exact ⟨ent, ring', cells', freshCell, happend, hrep⟩
    · obtain ⟨rfl, rfl, -⟩ : before = init ∧ open' = ent' ∧ fresh = false := by
        simpa [eq_comm] using hopen
      exact ⟨last, ring, cells, cell, rfl, h⟩

/-- The write loop does to the memory what the loop of `Ring` does to the entries. -/
theorem writeLoop_represents {malloc : Malloc} (hmalloc : malloc.Succeeds) {rounds mem : ℕ}
    (hmem : rounds ≤ mem) {ring : RingMem α} {cells : List (ℕ × RingCell α)}
    {entries : List (List α)} {val : List α} (h : ring.Represents cells entries)
    (hrounds : val.length ≤ rounds) (hval : val ≠ []) :
    ∃ ring' cells', ring.writeLoop malloc rounds val = some (true, ring') ∧
      (Ring.writeLoop rounds mem entries val).1 = true ∧
      ring'.Represents cells' (Ring.writeLoop rounds mem entries val).2 := by
  induction rounds generalizing mem ring cells entries val with
  | zero => exact absurd (List.length_eq_zero_iff.mp (by omega)) hval
  | succ rounds ih =>
    obtain ⟨before, open', fresh, hopen⟩ :
        ∃ b e f, Ring.openEntry entries = (b, e, f) := ⟨_, _, _, rfl⟩
    obtain ⟨ent, ring1, cells1, cell, hopen', hrep⟩ := openEntry_represents hmalloc h hopen
    have hroom : open'.length < shlRingSize := (Ring.openEntry_spec hopen).2.2
    have hstores : cell.Stores open' := (forall₂_concat.mp hrep.stores).2
    obtain ⟨mid, -, -, hlookup, -⟩ := Heap.segment_append.mp hrep.chain
    have hcp : (if val.length ≥ shlRingSize - cell.len then shlRingSize - cell.len
        else val.length) = min val.length (shlRingSize - open'.length) := by
      rw [hstores.len]
      split_ifs <;> omega
    set cp := min val.length (shlRingSize - open'.length) with hcpdef
    have htake : (val.take cp).length = cp := by
      rw [List.length_take]
      omega
    obtain ⟨buf, hcpy, hfilled⟩ := stores_fill hstores (val.take cp) (by omega) cell.next
    rw [htake] at hfilled
    obtain ⟨heap, hwrite, hrep'⟩ := hrep.set_last (by rfl) hfilled
    have hfresh : ¬ (fresh && mem == 0) = true := by
      have : mem ≠ 0 := by omega
      simp [this]
    simp only [writeLoop, hopen', Option.bind_eq_bind, Option.bind_some, hlookup, hcp, hcpy, hwrite,
      Ring.writeLoop, hopen, if_neg hfresh, ← hcpdef]
    by_cases hrest : val.drop cp = []
    · have hisEmpty : (val.drop cp).isEmpty = true := List.isEmpty_iff.mpr hrest
      have hlength : ¬ (val.drop cp).length > 0 := by simp [hrest]
      rw [if_neg hlength, if_pos hisEmpty]
      exact ⟨_, _, rfl, rfl, hrep'⟩
    · have hisEmpty : ¬ (val.drop cp).isEmpty = true := mt List.isEmpty_iff.mp hrest
      have hlength : (val.drop cp).length > 0 := List.length_pos_of_ne_nil hrest
      rw [if_pos hlength, if_neg hisEmpty]
      have hfewer : (val.drop cp).length ≤ rounds := by
        rw [List.length_drop]
        omega
      have hmem' : rounds ≤ mem - fresh.toNat := by
        have := Bool.toNat_le fresh
        omega
      exact ih hmem' hrep' hfewer hrest

/-- `shl_ring_write` is `Ring.write`, with memory for every entry it needs. -/
theorem write_represents {malloc : Malloc} (hmalloc : malloc.Succeeds) {ring : RingMem α}
    {cells : List (ℕ × RingCell α)} {r : Ring α} (h : ring.Represents cells r.entries)
    {val : List α} (hval : val ≠ []) :
    ∃ ring' cells', ring.write malloc val = some (.ok, ring') ∧
      (r.write val.length val).1 = true ∧
      ring'.Represents cells' (r.write val.length val).2.entries := by
  obtain ⟨ring', cells', hloop, hok, hrep⟩ :=
    writeLoop_represents hmalloc (Nat.le_refl val.length) h (Nat.le_refl _) hval
  have hlength : ¬ val.length = 0 := mt List.length_eq_zero_iff.mp hval
  simp only [write, if_neg hlength, hloop, Ring.write, dif_neg hval]
  exact ⟨ring', cells', rfl, hok, hrep⟩

/-! ### Peeking -/

theorem peekLoop_spec {heap : Heap (RingCell α)} {a : ℕ} {cell : RingCell α}
    {cells : List (ℕ × RingCell α)} {entries : List (List α)} (hok : ∀ e ∈ entries, RingEntryOk e)
    (hchain : Segment RingCell.next heap (some a) ((a, cell) :: cells) none)
    (hstores : List.Forall₂ (fun cell ent => cell.2.Stores ent) ((a, cell) :: cells) entries)
    {rounds : ℕ} (hrounds : cells.length < rounds) (offset : ℕ) :
    peekLoop heap rounds a offset = some ((Ring.peekFrom entries offset).map (·.map some)) := by
  induction cells generalizing a cell entries rounds offset with
  | nil =>
    obtain ⟨rounds, rfl⟩ : ∃ k, rounds = k + 1 := ⟨rounds - 1, by omega⟩
    obtain ⟨-, hlookup, hnext⟩ := hchain
    obtain ⟨ent, _, hent, hnil, rfl⟩ := List.forall₂_cons_left_iff.mp hstores
    obtain rfl := List.forall₂_nil_left_iff.mp hnil
    have hlen : cell.len = ent.length := hent.len
    simp only [peekLoop, hlookup, Option.bind_eq_bind, Option.bind_some, hlen, Ring.peekFrom]
    split_ifs with hle
    · have hnext' : cell.next = none := hnext
      rw [hnext']
      rfl
    · have hbytes := bytesAt_of_stores hent (hok ent (by simp)).2 (by omega : offset ≤ ent.length)
      rw [hlen] at hbytes
      rw [hbytes]
      rfl
  | cons pair cells ih =>
    obtain ⟨rounds, rfl⟩ : ∃ k, rounds = k + 1 := ⟨rounds - 1, by omega⟩
    obtain ⟨b, cell2⟩ := pair
    obtain ⟨-, hlookup, hnext, hrest⟩ := hchain
    obtain ⟨ent, rest, hent, hstores', rfl⟩ := List.forall₂_cons_left_iff.mp hstores
    have hlen : cell.len = ent.length := hent.len
    simp only [peekLoop, hlookup, Option.bind_eq_bind, Option.bind_some, hlen, Ring.peekFrom]
    split_ifs with hle
    · rw [hnext]
      exact ih (fun e he => hok e (by simp [he])) ⟨rfl, hrest⟩ hstores'
        (by simpa using hrounds) _
    · have hbytes := bytesAt_of_stores hent (hok ent (by simp)).2 (by omega : offset ≤ ent.length)
      rw [hlen] at hbytes
      rw [hbytes]
      rfl

/-- `shl_ring_peek` is `Ring.peek`, and the bytes it shows have been written. -/
theorem peek_represents {ring : RingMem α} {cells : List (ℕ × RingCell α)} {r : Ring α}
    (h : ring.Represents cells r.entries) (offset : ℕ) :
    ring.peek offset = some ((r.peek offset).map (·.map some)) := by
  cases cells with
  | nil =>
    have hentries : r.entries = [] := List.forall₂_nil_left_iff.mp h.stores
    have hfirst : ring.first = none := h.chain
    simp [peek, hfirst, Ring.peek, hentries, Ring.peekFrom]
  | cons pair cells =>
    have hfirst : ring.first = some pair.1 := h.chain.1
    have hrounds : ring.heap.keys.length = cells.length + 1 := keys_length h.nodup h.mem_iff
    simp only [peek, hfirst]
    exact peekLoop_spec r.entriesOk (hfirst ▸ h.chain) h.stores (by omega) offset

/-! ### Dropping -/

/-- The first entry of the chain is freed. -/
theorem Represents.free_first {ring : RingMem α} {a : ℕ} {cell : RingCell α}
    {cells : List (ℕ × RingCell α)} {ent : List α} {entries : List (List α)}
    (h : ring.Represents ((a, cell) :: cells) (ent :: entries)) :
    ∃ heap, Heap.free ring.heap a = some heap ∧
      RingMem.Represents ⟨heap, cell.next, if cell.next.isNone then none else ring.last⟩ cells
        entries := by
  obtain ⟨-, hlookup, hrest⟩ := h.chain
  obtain ⟨hnotMem, hnodup⟩ := List.nodup_cons.mp h.nodup
  refine ⟨_, Heap.free_of_lookup hlookup, hrest.erase hnotMem, ?_, hnodup, ?_, ?_⟩
  · cases cells with
    | nil =>
      have hnext : cell.next = none := hrest
      simp [hnext, addrs]
    | cons pair cells =>
      have hnext : cell.next = some pair.1 := hrest.1
      simp [hnext, h.last, addrs]
  · intro b
    have hmem := h.mem_iff b
    rw [addrs, List.map_cons, List.mem_cons] at hmem
    rw [AList.mem_erase, hmem]
    constructor
    · rintro ⟨hne, rfl | hb⟩
      · exact absurd rfl hne
      · exact hb
    · intro hb
      exact ⟨ne_of_mem_of_not_mem hb hnotMem, .inr hb⟩
  · exact (List.forall₂_cons.mp h.stores).2

/-- A cell that is written in place, the first one of the chain. -/
theorem Represents.set_first {ring : RingMem α} {cells : List (ℕ × RingCell α)}
    {entries : List (List α)} {a : ℕ} {cell cell' : RingCell α} {ent ent' : List α}
    (h : ring.Represents ((a, cell) :: cells) (ent :: entries))
    (hnext : cell'.next = cell.next) (hstores : cell'.Stores ent') :
    ∃ heap, Heap.write ring.heap a cell' = some heap ∧
      ({ ring with heap := heap } : RingMem α).Represents ((a, cell') :: cells)
        (ent' :: entries) := by
  obtain ⟨hfirst, hlookup, hrest⟩ := h.chain
  have hnotMem : a ∉ addrs cells := (List.nodup_cons.mp h.nodup).1
  refine ⟨_, Heap.write_of_lookup hlookup cell', ⟨hfirst, AList.lookup_insert _, ?_⟩, h.last,
    h.nodup, ?_, .cons hstores (List.forall₂_cons.mp h.stores).2⟩
  · rw [hnext]
    exact hrest.insert hnotMem cell'
  · intro b
    change b ∈ ring.heap.insert a cell' ↔ b ∈ addrs ((a, cell) :: cells)
    rw [← h.mem_iff b, AList.mem_insert, or_iff_right_of_imp]
    rintro rfl
    exact Heap.mem_of_lookup hlookup

theorem dropLoop_represents {rounds : ℕ} {ring : RingMem α} {cells : List (ℕ × RingCell α)}
    {entries : List (List α)} (hok : ∀ e ∈ entries, RingEntryOk e)
    (h : ring.Represents cells entries) (hrounds : cells.length < rounds) (len : ℕ) :
    ∃ ring' cells', ring.dropLoop rounds len = some ring' ∧
      ring'.Represents cells' (Ring.dropFrom entries len) := by
  induction cells generalizing rounds ring entries len with
  | nil =>
    obtain ⟨rounds, rfl⟩ : ∃ k, rounds = k + 1 := ⟨rounds - 1, by omega⟩
    obtain rfl := List.forall₂_nil_left_iff.mp h.stores
    have hfirst : ring.first = none := h.chain
    exact ⟨ring, [], by rw [dropLoop, hfirst], h⟩
  | cons pair cells ih =>
    obtain ⟨rounds, rfl⟩ : ∃ k, rounds = k + 1 := ⟨rounds - 1, by omega⟩
    obtain ⟨a, cell⟩ := pair
    obtain ⟨ent, rest, hent, -, rfl⟩ := List.forall₂_cons_left_iff.mp h.stores
    obtain ⟨hfirst, hlookup, -⟩ := h.chain
    have hlen : cell.len = ent.length := hent.len
    simp only [dropLoop, hfirst, hlookup, Option.bind_eq_bind, Option.bind_some, hlen,
      ge_iff_le, Ring.dropFrom]
    by_cases hle : ent.length ≤ len
    · rw [if_pos hle, if_pos hle]
      obtain ⟨heap, hfree, hrep⟩ := h.free_first
      rw [hfree, Option.bind_some]
      by_cases hzero : len - ent.length = 0
      · rw [if_pos hzero, if_pos hzero]
        exact ⟨_, _, rfl, hrep⟩
      · rw [if_neg hzero, if_neg hzero]
        exact ih (fun e he => hok e (by simp [he])) hrep (by simpa using hrounds) _
    · rw [if_neg hle, if_neg hle]
      have hfits := (hok ent (by simp)).2
      have hbytes := bytesAt_of_stores hent hfits (by omega : len ≤ ent.length)
      obtain ⟨buf, hmove, hmoved⟩ := stores_move hent hfits len cell.next
      rw [hlen] at hbytes hmoved
      obtain ⟨heap, hwrite, hrep⟩ := h.set_first (by rfl) hmoved
      rw [hbytes, Option.bind_some, hmove, Option.bind_some, hwrite, Option.bind_some]
      exact ⟨_, _, rfl, hfirst ▸ hrep⟩

/-- `shl_ring_drop` is `Ring.drop`. -/
theorem drop_represents {ring : RingMem α} {cells : List (ℕ × RingCell α)} {r : Ring α}
    (h : ring.Represents cells r.entries) (len : ℕ) :
    ∃ ring' cells', ring.drop len = some ring' ∧ ring'.Represents cells' (r.drop len).entries := by
  unfold drop Ring.drop
  split_ifs with hlen
  · exact ⟨ring, cells, rfl, h⟩
  · have hrounds := keys_length h.nodup h.mem_iff
    exact dropLoop_represents r.entriesOk h (by omega) len

/-- `shl_ring_flush` frees every entry and leaves a new ring. -/
theorem flushLoop_spec {rounds : ℕ} {ring : RingMem α} {cells : List (ℕ × RingCell α)}
    {entries : List (List α)} (last : Option ℕ)
    (h : ({ ring with last := last } : RingMem α).Represents cells entries)
    (hrounds : cells.length < rounds) :
    ∃ ring', ring.flushLoop rounds = some ring' ∧
      ({ ring' with last := none } : RingMem α).Represents [] [] := by
  induction cells generalizing rounds ring entries last with
  | nil =>
    obtain ⟨rounds, rfl⟩ : ∃ k, rounds = k + 1 := ⟨rounds - 1, by omega⟩
    obtain rfl := List.forall₂_nil_left_iff.mp h.stores
    have hfirst : ring.first = none := h.chain
    exact ⟨ring, by rw [flushLoop, hfirst], h.chain, rfl, h.nodup, h.mem_iff, .nil⟩
  | cons pair cells ih =>
    obtain ⟨rounds, rfl⟩ : ∃ k, rounds = k + 1 := ⟨rounds - 1, by omega⟩
    obtain ⟨a, cell⟩ := pair
    obtain ⟨ent, rest, -, -, rfl⟩ := List.forall₂_cons_left_iff.mp h.stores
    obtain ⟨hfirst, hlookup, -⟩ := h.chain
    have hfirst' : ring.first = some a := hfirst
    have hlookup' : ring.heap.lookup a = some cell := hlookup
    obtain ⟨heap, hfree, hrep⟩ := h.free_first
    have hfree' : Heap.free ring.heap a = some heap := hfree
    simp only [flushLoop, hfirst', hlookup', hfree', Option.bind_eq_bind, Option.bind_some]
    exact ih _ hrep (by simpa using hrounds)

theorem flush_represents {ring : RingMem α} {cells : List (ℕ × RingCell α)}
    {entries : List (List α)} (h : ring.Represents cells entries) :
    ∃ ring', ring.flush = some ring' ∧ ring'.Represents [] [] := by
  have hrounds := keys_length h.nodup h.mem_iff
  obtain ⟨ring', hloop, hrep⟩ := flushLoop_spec ring.last h
    (by omega : cells.length < ring.heap.keys.length + 1)
  refine ⟨_, ?_, hrep⟩
  simp only [flush, hloop, Option.bind_eq_bind, Option.bind_some]
  rfl

/-! ### Runs -/

/-- The operations on a ring. -/
inductive Op (α : Type*) where
  | write (val : List α)
  | peek (offset : ℕ)
  | drop (len : ℕ)
  | flush

/-- What an operation answers. -/
inductive Answer (α : Type*) where
  | written (code : WriteCode)
  | peeked (run : Option (List (Option α)))
  | done

/-- One operation on the memory. -/
def step (malloc : Malloc) (ring : RingMem α) : Op α → Option (Answer α × RingMem α)
  | .write val => (ring.write malloc val).map fun out => (.written out.1, out.2)
  | .peek offset => (ring.peek offset).map fun run => (.peeked run, ring)
  | .drop len => (ring.drop len).map fun ring => (.done, ring)
  | .flush => ring.flush.map fun ring => (.done, ring)

/-- A queue of bytes and what its operations may answer. A peek shows some bytes of the
queue from the offset on, as many as the queue likes, and nothing at its end. -/
inductive QueueStep : List α → Op α → Answer α → List α → Prop
  | write {queue val : List α} (h : val ≠ []) :
      QueueStep queue (.write val) (.written .ok) (queue ++ val)
  | writeNothing {queue : List α} : QueueStep queue (.write []) (.written .einval) queue
  | peek {queue run : List α} {offset : ℕ} (hne : run ≠ []) (hrun : run <+: queue.drop offset) :
      QueueStep queue (.peek offset) (.peeked (some (run.map some))) queue
  | peekNothing {queue : List α} {offset : ℕ} (h : queue.length ≤ offset) :
      QueueStep queue (.peek offset) (.peeked none) queue
  | drop {queue : List α} {len : ℕ} :
      QueueStep queue (.drop len) .done (queue.drop (min len queue.length))
  | flush {queue : List α} : QueueStep queue .flush .done []

/-- The memory holds the bytes of a queue, in entries that are in use. -/
def Holds (ring : RingMem α) (queue : List α) : Prop :=
  ∃ cells, ∃ r : Ring α, ring.Represents cells r.entries ∧ r.contents = queue

theorem holds_new : (new : RingMem α).Holds [] := ⟨[], Ring.new, represents_new, rfl⟩

/-- Every entry in the memory is in use and fits its buffer. -/
theorem Holds.entry_len {ring : RingMem α} {queue : List α} (h : ring.Holds queue) {a : ℕ}
    {cell : RingCell α} (hcell : ring.heap.lookup a = some cell) :
    0 < cell.len ∧ cell.len ≤ shlRingSize := by
  obtain ⟨cells, r, hrep, -⟩ := h
  have hmem : a ∈ addrs cells := (hrep.mem_iff a).mp (Heap.mem_of_lookup hcell)
  obtain ⟨⟨b, cell'⟩, hpair, rfl⟩ := List.mem_map.mp hmem
  obtain rfl : cell' = cell := by
    have hlookup := hrep.chain.lookup_of_mem hpair
    exact Option.some.inj (hlookup.symm.trans hcell)
  obtain ⟨ent, hent, hstores⟩ := forall₂_mem_left hrep.stores hpair
  have hok := r.entriesOk ent hent
  rw [hstores.len]
  exact hok

/-- Each operation on the memory does what the queue does. -/
theorem simulates_queue {malloc : Malloc} (hmalloc : malloc.Succeeds) :
    Refinement.Simulates (step malloc) QueueStep (Holds (α := α)) := by
  rintro ring queue op ⟨cells, r, hrep, rfl⟩
  cases op with
  | write val =>
    by_cases hval : val = []
    · subst hval
      exact ⟨_, _, _, rfl, .writeNothing, cells, r, hrep, rfl⟩
    · obtain ⟨ring', cells', hwrite, hok, hrep'⟩ := write_represents hmalloc hrep hval
      obtain ⟨k, hcontents, hall⟩ := Ring.contents_write r val.length val
      rw [List.take_of_length_le (hall hok)] at hcontents
      refine ⟨.written .ok, ring', _, ?_, .write hval, cells', _, hrep', hcontents⟩
      simp [step, hwrite]
  | peek offset =>
    have hpeek := peek_represents hrep offset
    refine ⟨_, ring, _, by rw [step, hpeek, Option.map_some], ?_, cells, r, hrep, rfl⟩
    cases hr : r.peek offset with
    | none => exact .peekNothing (Ring.peek_none hr)
    | some run =>
      obtain ⟨hne, hrun⟩ := Ring.peek_some hr
      exact .peek hne hrun
  | drop len =>
    obtain ⟨ring', cells', hdrop, hrep'⟩ := drop_represents hrep len
    refine ⟨.done, ring', _, by rw [step, hdrop, Option.map_some], .drop, cells', _, hrep', ?_⟩
    rw [Ring.contents_drop]
    rcases Nat.le_total len r.contents.length with hle | hle
    · rw [Nat.min_eq_left hle]
    · rw [Nat.min_eq_right hle, List.drop_of_length_le hle, List.drop_length]
  | flush =>
    obtain ⟨ring', hflush, hrep'⟩ := flush_represents hrep
    exact ⟨.done, ring', _, by rw [step, hflush, Option.map_some], .flush, [], Ring.new, hrep', rfl⟩

/-- Every sequence of operations on the ring is defined and answers as a queue of bytes
does, and afterwards the ring holds that queue in entries with 1 to `SHL_RING_SIZE`
bytes. -/
theorem run_refines_queue (malloc : Malloc) (hmalloc : malloc.Succeeds) (ops : List (Op α)) :
    ∃ answers ring queue, Refinement.run (step malloc) new ops = some (answers, ring) ∧
      Refinement.Runs QueueStep [] ops answers queue ∧ ring.Holds queue ∧
      ∀ a cell, ring.heap.lookup a = some cell → 0 < cell.len ∧ cell.len ≤ shlRingSize := by
  obtain ⟨answers, ring, queue, hrun, hqueue, hholds⟩ :=
    (simulates_queue hmalloc).run holds_new ops
  exact ⟨answers, ring, queue, hrun, hqueue, hholds, fun _ _ hcell => hholds.entry_len hcell⟩

/-- Two writes, a drop over the first and a flush, with an allocator that succeeds. -/
theorem run_refines_queue_bump :
    ∃ answers ring queue,
      Refinement.run (step Malloc.bump) new
        [.write [1, 2], .write [3], .drop 2, .peek 0, .flush] = some (answers, ring) ∧
      Refinement.Runs QueueStep [] [.write [1, 2], .write [3], .drop 2, .peek 0, .flush] answers
        queue ∧ ring.Holds queue ∧
      ∀ a cell, ring.heap.lookup a = some cell → 0 < cell.len ∧ cell.len ≤ shlRingSize :=
  run_refines_queue (α := ℕ) Malloc.bump Malloc.bump_succeeds _

end RingMem

end Faceplate
