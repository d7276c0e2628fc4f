import Faceplate.Shl.Lru

/-!
# The LRU cache refines the reference

The list, the table and the counter stand for the same cells. An operation of the client
keeps this, and with it what the reference cache has: its entries are those cells in the
order of the list.
-/

namespace Faceplate.Shl

open Dlist

variable {tbl : Htable} {V : Type}

/-- An entry of the cache: its address, its key and its value. -/
structure LruCell (V : Type) where
  addr : ℕ
  key : UInt64
  value : V

/-- The addresses of some entries. -/
def addrs (cells : List (LruCell V)) : List ℕ := cells.map LruCell.addr

/-- The list, the table and the counter stand for these entries. -/
structure Lru.Holds (lru : Lru tbl V) (cells : List (LruCell V)) : Prop where
  ring : Ring lru.heap (lru.list :: addrs cells)
  data : ∀ cell ∈ cells, dataOf lru.heap cell.addr = some (.entry cell.key cell.value)
  table : (tbl.contents lru.tbl).Perm (cells.map fun cell => (cell.key, cell.addr))
  keys : (cells.map LruCell.key).Nodup
  size : lru.size.toNat = cells.length
  le : cells.length ≤ lru.maxSize.toNat

namespace Lru.Holds

variable {lru : Lru tbl V} {cells : List (LruCell V)} {cell : LruCell V}

/-- Entries have different addresses. -/
theorem nodup_addrs (h : lru.Holds cells) : (addrs cells).Nodup := by
  obtain ⟨hnodup, -⟩ := h.ring
  exact (List.nodup_cons.mp hnodup).2

/-- An entry is a candidate for its key. -/
theorem mem_vals (h : lru.Holds cells) (hcell : cell ∈ cells) :
    cell.addr ∈ tbl.vals lru.tbl cell.key := by
  apply tbl.mem_vals
  exact h.table.mem_iff.mpr (List.mem_map_of_mem hcell)

/-- The candidates are entries. -/
theorem of_mem_vals (h : lru.Holds cells) {key : UInt64} {a : ℕ}
    (ha : a ∈ tbl.vals lru.tbl key) : ∃ cell ∈ cells, cell.addr = a := by
  have hmem := tbl.of_mem_vals lru.tbl key a ha
  rw [(h.table.map Prod.snd).mem_iff, List.map_map] at hmem
  exact List.mem_map.mp hmem

/-- The entry with a key is found among candidates that it is one of. -/
theorem getLoop_hit (h : lru.Holds cells) (hcell : cell ∈ cells) {l : List ℕ}
    (hl : ∀ a ∈ l, ∃ cell ∈ cells, cell.addr = a) (hmem : cell.addr ∈ l) :
    shlLruGetLoop lru cell.key l = (do
      let heap ← unlink lru.heap cell.addr
      let heap ← link heap lru.list cell.addr
      return (some cell.value, { lru with heap := heap })) := by
  induction l with
  | nil => simp at hmem
  | cons a l ih =>
    obtain ⟨first, hfirst, rfl⟩ := hl _ List.mem_cons_self
    rw [shlLruGetLoop, h.data first hfirst]
    by_cases hkey : cell.key = first.key
    · obtain rfl : cell = first := List.inj_on_of_nodup_map h.keys hcell hfirst hkey
      exact if_pos rfl
    · have hrest : cell.addr ∈ l := by
        rcases List.mem_cons.mp hmem with hsame | hmem
        · have := List.inj_on_of_nodup_map h.nodup_addrs hcell hfirst hsame
          exact absurd (congrArg LruCell.key this) hkey
        · exact hmem
      exact (if_neg hkey).trans (ih (fun a ha => hl a (List.mem_cons_of_mem _ ha)) hrest)

/-- Without an entry with the key nothing is found. -/
theorem getLoop_miss (h : lru.Holds cells) {key : UInt64} (hkey : key ∉ cells.map LruCell.key)
    {l : List ℕ} (hl : ∀ a ∈ l, ∃ cell ∈ cells, cell.addr = a) :
    shlLruGetLoop lru key l = some (none, lru) := by
  induction l with
  | nil => rfl
  | cons a l ih =>
    obtain ⟨first, hfirst, rfl⟩ := hl _ List.mem_cons_self
    have hne : key ≠ first.key := by
      rintro rfl
      exact hkey (List.mem_map_of_mem hfirst)
    rw [shlLruGetLoop, h.data first hfirst]
    exact (if_neg hne).trans (ih fun a ha => hl a (List.mem_cons_of_mem _ ha))

theorem get_miss (h : lru.Holds cells) {key : UInt64} (hkey : key ∉ cells.map LruCell.key) :
    shlLruGet lru key = some (none, lru) :=
  h.getLoop_miss hkey fun _ ha => h.of_mem_vals ha

/-- A hit makes the entry the first one. -/
theorem get_hit {before after : List (LruCell V)} (h : lru.Holds (before ++ cell :: after)) :
    ∃ heap, shlLruGet lru cell.key = some (some cell.value, { lru with heap := heap }) ∧
      Lru.Holds { lru with heap := heap } (cell :: (before ++ after)) := by
  have hmem : cell ∈ before ++ cell :: after := by simp
  have hperm : (cell :: (before ++ after)).Perm (before ++ cell :: after) :=
    List.perm_middle.symm
  have hring := h.ring
  rw [addrs, List.map_append, List.map_cons] at hring
  obtain ⟨mid, hunlink, hring', hdata⟩ := hring.unlink
  have hin : cell.addr ∈ mid := hdata.mem.mpr (hring.mem_heap (by simp))
  have hout : cell.addr ∉ lru.list :: (before.map LruCell.addr ++ after.map LruCell.addr) := by
    obtain ⟨hnodup, -⟩ := hring
    simp only [List.nodup_cons, List.nodup_append, List.mem_append, List.mem_cons] at hnodup ⊢
    grind
  obtain ⟨heap, hlink, hring'', hdata'⟩ := hring'.link hin hout
  refine ⟨heap, ?_, ?_, ?_, ?_, ?_, ?_, ?_⟩
  · rw [shlLruGet, h.getLoop_hit hmem (fun _ ha => h.of_mem_vals ha) (h.mem_vals hmem), hunlink]
    simp only [Option.bind_eq_bind, Option.bind_some, hlink]
    rfl
  · rw [addrs, List.map_cons, List.map_append]
    exact hring''
  · intro c hc
    rw [(hdata.trans hdata') c.addr]
    exact h.data c (hperm.mem_iff.mp hc)
  · exact h.table.trans (hperm.symm.map _)
  · exact ((hperm.map _).nodup_iff).mpr h.keys
  · exact h.size.trans hperm.length_eq.symm
  · exact Nat.le_trans (Nat.le_of_eq hperm.length_eq) h.le

/-! ## Evicting -/

/-- The entry to evict is found among candidates that it is one of. -/
theorem evictLoop_found {last : ℕ} {l : List ℕ} (hmem : last ∈ l) (lru : Lru tbl V) :
    shlLruEvictLoop lru last l = shlLruEvictLoop lru last [last] := by
  induction l with
  | nil => simp at hmem
  | cons a l ih =>
    by_cases hlast : last = a
    · subst hlast
      rw [shlLruEvictLoop, if_pos rfl, shlLruEvictLoop, if_pos rfl]
    · rw [shlLruEvictLoop, if_neg hlast]
      exact ih ((List.mem_cons.mp hmem).resolve_left hlast)

/-- The last entry of the list is evicted, and nothing else. -/
theorem evict {kept : List (LruCell V)} {least : LruCell V} (h : lru.Holds (kept ++ [least])) :
    ∃ lru', shlLruEvict lru = some (0, lru') ∧ lru'.Holds kept ∧ lru'.maxSize = lru.maxSize ∧
      lru'.freed = lru.freed ++ [least.value] := by
  have hmem : least ∈ kept ++ [least] := by simp
  have hring := h.ring
  rw [addrs, List.map_append, List.map_singleton] at hring
  have hlast : prevOf lru.heap lru.list = some least.addr := by
    rw [hring.neighbours.2]
    simp
  obtain ⟨mid, hunlink, hring', hdata⟩ := hring.unlink
  rw [List.append_nil] at hring'
  have hout : least.addr ∉ lru.list :: kept.map LruCell.addr := by
    obtain ⟨hnodup, -⟩ := hring
    simp only [List.nodup_cons, List.nodup_append, List.mem_append, List.mem_cons] at hnodup ⊢
    grind
  have hin : least.addr ∈ mid := hdata.mem.mpr (hring.mem_heap (by simp))
  have hsame : ∀ a ∈ lru.list :: kept.map LruCell.addr,
      (mid.erase least.addr).lookup a = mid.lookup a := fun a ha =>
    AList.lookup_erase_ne (ne_of_mem_of_not_mem ha hout)
  have hsize := h.size
  have hle := h.le
  rw [List.length_append, List.length_singleton] at hsize hle
  have hdata' : ∀ a ∈ lru.list :: kept.map LruCell.addr,
      dataOf (mid.erase least.addr) a = dataOf lru.heap a := by
    intro a ha
    rw [← hdata a, dataOf, dataOf, hsame a ha]
  have hcontents : (tbl.contents lru.tbl).Perm
      ((least.key, least.addr) :: kept.map fun cell => (cell.key, cell.addr)) := by
    refine h.table.trans ?_
    rw [List.map_append, List.map_singleton]
    exact List.perm_append_singleton _ _
  have hnodup : ((tbl.contents lru.tbl).map Prod.snd).Nodup := by
    rw [(h.table.map Prod.snd).nodup_iff, List.map_map]
    exact h.nodup_addrs
  have hdelval := tbl.contents_delval lru.tbl least.key least.addr
    (hcontents.mem_iff.mpr List.mem_cons_self) hnodup
  let lru' : Lru tbl V := { lru with
    tbl := tbl.delval lru.tbl least.addr, heap := mid.erase least.addr, size := lru.size - 1,
    freed := lru.freed ++ [least.value] }
  have hevict : shlLruEvict lru = some (0, lru') := by
    rw [shlLruEvict, hlast]
    simp only [Option.bind_eq_bind, Option.bind_some, h.data least hmem]
    rw [evictLoop_found (h.mem_vals hmem), shlLruEvictLoop, if_pos rfl]
    simp only [hunlink, Option.bind_eq_bind, Option.bind_some, hdata least.addr,
      h.data least hmem, Heap.free, if_pos hin]
    rfl
  refine ⟨lru', hevict, ⟨hring'.of_lookup_eq hsame, ?_, ?_, ?_, ?_, ?_⟩, rfl, rfl⟩
  · intro cell hcell
    rw [hdata' _ (List.mem_cons_of_mem _ (List.mem_map_of_mem hcell))]
    exact h.data cell (List.mem_append_left _ hcell)
  · exact (List.perm_cons _).mp (hdelval.trans hcontents)
  · have hkeys := h.keys
    rw [List.map_append] at hkeys
    exact hkeys.of_append_left
  · have hone : (1 : UInt32).toNat = 1 := rfl
    have hlt := lru.size.toNat_lt
    have hsub : (lru.size - 1).toNat = lru.size.toNat - 1 :=
      UInt32.toNat_sub_of_le _ _ (UInt32.le_iff_toNat_le.mpr (by omega))
    change (lru.size - 1).toNat = kept.length
    omega
  · exact Nat.le_of_succ_le hle

/-! ## Adding -/

/-- Where there is room an entry becomes the first one. -/
theorem add {malloc : Malloc} (hmalloc : malloc.Succeeds) (h : lru.Holds cells) {key : UInt64}
    (hkey : key ∉ cells.map LruCell.key) (hroom : cells.length < lru.maxSize.toNat) (value : V) :
    ∃ lru' a, shlLruAdd malloc lru key value = some (0, lru') ∧
      lru'.Holds (⟨a, key, value⟩ :: cells) ∧ lru'.maxSize = lru.maxSize ∧
      lru'.freed = lru.freed := by
  obtain ⟨a, ha⟩ := hmalloc lru.heap.keys
  have hfresh : a ∉ lru.heap := malloc.addr_notMem ha
  have hout : a ∉ lru.list :: addrs cells := fun hmem => hfresh (h.ring.mem_heap hmem)
  have hsame : ∀ b ∈ lru.list :: addrs cells,
      (lru.heap.insert a ⟨none, none, .entry key value⟩).lookup b = lru.heap.lookup b :=
    fun b hb => AList.lookup_insert_ne (ne_of_mem_of_not_mem hb hout)
  obtain ⟨heap, hlink, hring, hdata⟩ :=
    (h.ring.of_lookup_eq hsame).link ((AList.mem_insert _).mpr (Or.inl rfl)) hout
  let lru' : Lru tbl V :=
    { lru with tbl := tbl.add lru.tbl key a, heap := heap, size := lru.size + 1 }
  have hadd : shlLruAdd malloc lru key value = some (0, lru') := by
    rw [shlLruAdd, ha]
    simp only [hlink, Option.bind_eq_bind, Option.bind_some]
    rfl
  refine ⟨lru', a, hadd, ⟨hring, ?_, ?_, ?_, ?_, hroom⟩, rfl, rfl⟩
  · intro cell hcell
    rw [hdata cell.addr]
    rcases List.mem_cons.mp hcell with rfl | hcell
    · rw [dataOf, AList.lookup_insert]
      rfl
    · rw [dataOf, hsame _ (List.mem_cons_of_mem _ (List.mem_map_of_mem hcell))]
      exact h.data cell hcell
  · exact (tbl.contents_add lru.tbl key a).trans (h.table.cons _)
  · exact List.nodup_cons.mpr ⟨hkey, h.keys⟩
  · have hone : (1 : UInt32).toNat = 1 := rfl
    have hsize := h.size
    have hlt := lru.maxSize.toNat_lt
    change (lru.size + 1).toNat = cells.length + 1
    rw [UInt32.toNat_add, hone, hsize, Nat.mod_eq_of_lt (by omega)]

end Lru.Holds

/-! ## Refinement -/

/-- The client and the reference are in the same state: the entries of the reference are
those of the list in order, each with the value inserted last for its key, and a key that
was looked up in vain has none. -/
structure LruClient.Matches (maxSize : UInt32) (client : LruClient tbl V) (ref : RefLru V)
    (cells : List (LruCell V)) : Prop where
  holds : client.lru.Holds cells
  maxSize : client.lru.maxSize = maxSize
  entries : ref.entries = cells.map fun cell => (cell.key, cell.value)
  last : ∀ cell ∈ cells, ref.inserted.lookup cell.key = some cell.value
  missed : client.missed = ref.missed
  absent : ∀ key ∈ ref.missed, key ∉ cells.map LruCell.key
  freed : client.lru.freed = ref.evicted

namespace LruClient.Matches

variable {maxSize : UInt32} {client : LruClient tbl V} {ref : RefLru V} {cells : List (LruCell V)}

theorem keys_entries (h : client.Matches maxSize ref cells) :
    ref.entries.map Prod.fst = cells.map LruCell.key := by
  rw [h.entries, List.map_map]
  rfl

theorem length_entries (h : client.Matches maxSize ref cells) :
    ref.entries.length = cells.length := by
  rw [h.entries, List.length_map]

/-- A lookup does what the reference does. -/
theorem lookup (h : client.Matches maxSize ref cells) (malloc : Malloc) (key : UInt64) :
    ∃ answer client' ref' cells', client.step malloc (.lookup key) = some (answer, client') ∧
      RefLru.Step maxSize.toNat ref (.lookup key) answer ref' ∧
      client'.Matches maxSize ref' cells' := by
  by_cases hkey : key ∈ cells.map LruCell.key
  · obtain ⟨cell, hcell, rfl⟩ := List.mem_map.mp hkey
    obtain ⟨before, after, rfl⟩ := List.append_of_mem hcell
    obtain ⟨heap, hget, hholds⟩ := h.holds.get_hit
    have hperm : (cell :: (before ++ after)).Perm (before ++ cell :: after) :=
      List.perm_middle.symm
    let entry : LruCell V → UInt64 × V := fun cell => (cell.key, cell.value)
    have hentries : ref.entries = before.map entry ++ entry cell :: after.map entry := by
      rw [h.entries, List.map_append, List.map_cons]
    refine ⟨.found cell.value, ⟨{ client.lru with heap := heap }, client.missed⟩,
      { ref with entries := entry cell :: (before.map entry ++ after.map entry) },
      cell :: (before ++ after), ?_, .hit hentries (h.last cell hcell),
      ⟨hholds, h.maxSize, ?_, ?_, h.missed, ?_, h.freed⟩⟩
    · rw [LruClient.step, hget]
      rfl
    · rw [List.map_cons, List.map_append]
    · exact fun c hc => h.last c (hperm.mem_iff.mp hc)
    · intro k hk hmem
      exact h.absent k hk ((hperm.map _).mem_iff.mp hmem)
  · have hget := h.holds.get_miss hkey
    refine ⟨.missed, ⟨client.lru, key :: client.missed⟩, { ref with missed := key :: ref.missed },
      cells, ?_, .miss (by rwa [h.keys_entries]),
      ⟨h.holds, h.maxSize, h.entries, h.last, ?_, ?_, h.freed⟩⟩
    · rw [LruClient.step, hget]
      rfl
    · rw [h.missed]
    · intro k hk
      rcases List.mem_cons.mp hk with rfl | hk
      · exact hkey
      · exact h.absent k hk

/-- What is left of the entries, with the one that is inserted. -/
theorem inserted {kept : List (LruCell V)} {lru : Lru tbl V} {key : UInt64} {value : V} {a : ℕ}
    (h : client.Matches maxSize ref cells) (hkept : kept.Sublist cells)
    (hkey : key ∉ kept.map LruCell.key) (hholds : lru.Holds (⟨a, key, value⟩ :: kept))
    (hmax : lru.maxSize = maxSize) {evicted : List V} (hfreed : lru.freed = evicted) :
    Matches maxSize ⟨lru, client.missed.filter (· ≠ key)⟩
      ⟨(key, value) :: kept.map fun cell => (cell.key, cell.value), (key, value) :: ref.inserted,
        evicted, ref.missed.filter (· ≠ key)⟩ (⟨a, key, value⟩ :: kept) := by
  refine ⟨hholds, hmax, rfl, fun cell hcell => ?_, by rw [h.missed], fun k hk => ?_, hfreed⟩
  · rcases List.mem_cons.mp hcell with rfl | hcell
    · exact List.lookup_cons_self
    · have hne : cell.key ≠ key := ne_of_mem_of_not_mem (List.mem_map_of_mem hcell) hkey
      rw [List.lookup_cons, beq_eq_false_iff_ne.mpr hne]
      exact h.last cell (hkept.subset hcell)
  · obtain ⟨hmissed, hne⟩ := List.mem_filter.mp hk
    intro hmem
    rcases List.mem_cons.mp hmem with rfl | hmem
    · simp at hne
    · exact h.absent k hmissed ((hkept.map _).subset hmem)

/-- An insert does what the reference does. -/
theorem insert {malloc : Malloc} (hmalloc : malloc.Succeeds) (hmax : 0 < maxSize.toNat)
    (h : client.Matches maxSize ref cells) (key : UInt64) (value : V) :
    ∃ answer client' ref' cells',
      client.step malloc (.insert key value) = some (answer, client') ∧
      RefLru.Step maxSize.toNat ref (.insert key value) answer ref' ∧
      client'.Matches maxSize ref' cells' := by
  by_cases hmissed : key ∈ client.missed
  · have hmissed' : key ∈ ref.missed := h.missed ▸ hmissed
    have hkey := h.absent key hmissed'
    have hsize := h.holds.size
    have hle := h.holds.le
    have hmaxSize := h.maxSize
    have hlength := h.length_entries
    by_cases hfull : client.lru.size ≥ client.lru.maxSize
    · have hfull' := UInt32.le_iff_toNat_le.mp hfull
      rw [hmaxSize] at hfull' hle
      obtain ⟨kept, least, rfl⟩ : ∃ kept least, cells = kept ++ [least] := by
        rcases List.eq_nil_or_concat cells with rfl | ⟨kept, least, hcells⟩
        · rw [List.length_nil] at hsize
          omega
        · exact ⟨kept, least, by rw [hcells, List.concat_eq_append]⟩
      obtain ⟨lru, hevict, hkept, hlruMax, hfreed⟩ := h.holds.evict
      have hsub : kept.Sublist (kept ++ [least]) := List.sublist_append_left _ _
      have hkey' : key ∉ kept.map LruCell.key := fun hmem => hkey ((hsub.map _).subset hmem)
      rw [List.length_append, List.length_singleton] at hle hsize hlength
      obtain ⟨lru', a, hadd, hholds, hlruMax', hfreed'⟩ :=
        hkept.add hmalloc hkey' (by rw [hlruMax, hmaxSize]; omega) value
      refine ⟨.ret 0, ⟨lru', client.missed.filter (· ≠ key)⟩, _, _, ?_,
        .full hmissed' (by omega) (by rw [h.entries, List.map_append, List.map_singleton]),
        h.inserted hsub hkey' hholds (hlruMax'.trans (hlruMax.trans hmaxSize)) ?_⟩
      · rw [LruClient.step, if_pos hmissed, shlLruInsert, if_pos hfull, hevict]
        simp only [Option.bind_eq_bind, Option.bind_some]
        rw [if_neg (by decide), hadd]
        rfl
      · rw [hfreed', hfreed, h.freed]
    · have hroom : client.lru.size.toNat < client.lru.maxSize.toNat := by
        rw [ge_iff_le, UInt32.le_iff_toNat_le] at hfull
        omega
      obtain ⟨lru', a, hadd, hholds, hlruMax, hfreed⟩ :=
        h.holds.add hmalloc hkey (by omega) value
      have hmatches := h.inserted (List.Sublist.refl cells) hkey hholds (hlruMax.trans hmaxSize)
        (hfreed.trans h.freed)
      rw [← h.entries] at hmatches
      refine ⟨.ret 0, ⟨lru', client.missed.filter (· ≠ key)⟩, _, _, ?_,
        .room hmissed' (by rw [hlength, ← hmaxSize]; omega), hmatches⟩
      rw [LruClient.step, if_pos hmissed, shlLruInsert, if_neg hfull, hadd]
      rfl
  · refine ⟨.refused, client, ref, cells, ?_, .refused (h.missed ▸ hmissed), h⟩
    rw [LruClient.step, if_neg hmissed]
    rfl

/-- The renderer is such a client: it looks a glyph up and inserts what it has rendered, and
it always gets a glyph. -/
theorem findGlyph {malloc : Malloc} (hmalloc : malloc.Succeeds) (hmax : 0 < maxSize.toNat)
    (h : client.Matches maxSize ref cells) (id : UInt64) (rendered : V) :
    ∃ answers client' glyph,
      Refinement.run (LruClient.step malloc) client [.lookup id, .insert id rendered] =
        some (answers, client') ∧
      bbulkFindGlyph malloc client.lru id (some rendered) = some (some glyph, client'.lru) := by
  by_cases hkey : id ∈ cells.map LruCell.key
  · have hmissed : id ∉ client.missed := by
      rw [h.missed]
      exact fun hmem => h.absent id hmem hkey
    obtain ⟨cell, hcell, rfl⟩ := List.mem_map.mp hkey
    obtain ⟨before, after, rfl⟩ := List.append_of_mem hcell
    obtain ⟨heap, hget, -⟩ := h.holds.get_hit
    let client' : LruClient tbl V := ⟨{ client.lru with heap := heap }, client.missed⟩
    have hlook : LruClient.step malloc client (.lookup cell.key) =
        some (.found cell.value, client') := by
      rw [LruClient.step, hget]
      rfl
    have hrefused : LruClient.step malloc client' (.insert cell.key rendered) =
        some (.refused, client') := by
      rw [LruClient.step, if_neg hmissed]
      rfl
    refine ⟨[.found cell.value, .refused], client', cell.value, ?_, ?_⟩
    · simp only [Refinement.run, hlook, hrefused, Option.bind_some, Option.map_some]
    · rw [bbulkFindGlyph, hget]
      rfl
  · have hget := h.holds.get_miss hkey
    obtain ⟨answer, looked, ref1, cells1, hlook, href, hmatches⟩ := h.lookup malloc id
    have hlooked : LruClient.step malloc client (.lookup id) =
        some (.missed, ⟨client.lru, id :: client.missed⟩) := by
      rw [LruClient.step, hget]
      rfl
    obtain ⟨rfl, rfl⟩ := Prod.mk.inj (Option.some.inj (hlook.symm.trans hlooked))
    obtain ⟨answer, client', ref2, cells2, hinsert, href2, -⟩ :=
      hmatches.insert hmalloc hmax id rendered
    have hrun : Refinement.run (LruClient.step malloc) client [.lookup id, .insert id rendered] =
        some ([.missed, answer], client') := by
      simp only [Refinement.run, hlook, hinsert, Option.bind_some, Option.map_some]
    refine ⟨_, client', rendered, hrun, ?_⟩
    rw [LruClient.step, if_pos List.mem_cons_self] at hinsert
    obtain ⟨⟨ret, lru'⟩, hret, hclient⟩ := Option.bind_eq_some_iff.mp hinsert
    obtain ⟨rfl, rfl⟩ := Prod.mk.inj (Option.some.inj hclient)
    have hzero : ret = 0 := by
      cases href2 with
      | room => rfl
      | full => rfl
    rw [bbulkFindGlyph, hget]
    simp only [Option.bind_eq_bind, Option.bind_some, hret, hzero]
    rfl

end LruClient.Matches

/-- The cache, its list and its table have as many entries, at most the maximum. -/
structure Lru.Sizes (lru : Lru tbl V) (maxSize : UInt32) (nodes : List ℕ) : Prop where
  ring : Ring lru.heap (lru.list :: nodes)
  size : lru.size.toNat = nodes.length
  table : (tbl.contents lru.tbl).length = nodes.length
  le : nodes.length ≤ maxSize.toNat

/-- In every run of lookups and of inserts after a miss the cache answers as the reference
does, frees the values that the reference evicts, and the counter, the list and the table
agree. -/
theorem lru_refines_reference (tbl : Htable) (V : Type) {malloc : Malloc}
    (hmalloc : malloc.Succeeds) {maxSize : UInt32} (hmax : 0 < maxSize) :
    ∃ lru, shlLruNew malloc tbl V maxSize = some lru ∧ ∀ ops, ∃ answers client ref nodes,
      Refinement.run (LruClient.step malloc) ⟨lru, []⟩ ops = some (answers, client) ∧
      Refinement.Runs (RefLru.Step maxSize.toNat) ⟨[], [], [], []⟩ ops answers ref ∧
      client.lru.freed = ref.evicted ∧ ref.entries.length = nodes.length ∧
      client.lru.Sizes maxSize nodes := by
  obtain ⟨a, ha⟩ := hmalloc []
  have hpos : 0 < maxSize.toNat := by simpa using UInt32.lt_iff_toNat_lt.mp hmax
  have hne : maxSize ≠ 0 := by
    rintro rfl
    exact absurd hpos (by decide)
  let lru : Lru tbl V :=
    ⟨maxSize, 0, tbl.init, a, AList.singleton a ⟨some a, some a, .head⟩, []⟩
  have hnew : shlLruNew malloc tbl V maxSize = some lru := by
    rw [shlLruNew, if_neg hne, ha]
    rfl
  have hhead : lru.heap.lookup a = some ⟨some a, some a, .head⟩ := List.dlookup_cons_eq [] a _
  have hring : Ring lru.heap [a] := by
    refine ⟨List.nodup_singleton a, ?_, ?_⟩
    · rw [nextOf, hhead, Option.bind_some]
    · rw [prevOf, hhead, Option.bind_some]
  have hstart : LruClient.Matches maxSize ⟨lru, []⟩ ⟨[], [], [], []⟩ [] := by
    refine ⟨⟨hring, by simp, ?_, List.nodup_nil, rfl, Nat.zero_le _⟩, rfl, rfl, by simp, rfl,
      by simp, rfl⟩
    rw [List.map_nil, tbl.contents_init]
  have hsim : Refinement.Simulates (@LruClient.step tbl V malloc)
      (@RefLru.Step V maxSize.toNat)
      fun client ref => ∃ cells, client.Matches maxSize ref cells := by
    rintro client ref op ⟨cells, h⟩
    cases op with
    | lookup key =>
      obtain ⟨answer, client', ref', cells', hstep, href, hmatches⟩ := h.lookup malloc key
      exact ⟨answer, client', ref', hstep, href, cells', hmatches⟩
    | insert key value =>
      obtain ⟨answer, client', ref', cells', hstep, href, hmatches⟩ :=
        h.insert hmalloc hpos key value
      exact ⟨answer, client', ref', hstep, href, cells', hmatches⟩
  refine ⟨lru, hnew, fun ops => ?_⟩
  obtain ⟨answers, client, ref, hrun, hruns, cells, h⟩ := hsim.run ⟨[], hstart⟩ ops
  have hlen : cells.length = (addrs cells).length := (List.length_map _).symm
  refine ⟨answers, client, ref, addrs cells, hrun, hruns, h.freed, ?_, h.holds.ring, ?_, ?_, ?_⟩
  · rw [h.length_entries, hlen]
  · rw [h.holds.size, hlen]
  · rw [h.holds.table.length_eq, List.length_map, hlen]
  · rw [← hlen, ← h.maxSize]
    exact h.holds.le

/-- A hash table that is a list. -/
def Htable.list : Htable where
  Table := List (UInt64 × ℕ)
  init := []
  add t hash p := (hash, p) :: t
  delval t p := t.eraseP (·.2 = p)
  vals t hash := (t.filter (·.1 = hash)).map Prod.snd
  contents t := t
  contents_init := rfl
  contents_add _ _ _ := List.Perm.refl _
  contents_delval t hash p hmem hnodup := by
    induction t with
    | nil => simp at hmem
    | cons first t ih =>
      obtain ⟨hfirst, hnodup⟩ := List.nodup_cons.mp hnodup
      by_cases hp : first.2 = p
      · subst hp
        rw [List.eraseP_cons_of_pos (by simp)]
        rcases List.mem_cons.mp hmem with hsame | hmem
        · rw [hsame]
        · exact absurd (List.mem_map_of_mem hmem) hfirst
      · have hrest : (hash, p) ∈ t :=
          (List.mem_cons.mp hmem).resolve_left fun hsame => hp (hsame ▸ rfl)
        rw [List.eraseP_cons_of_neg (by simpa using hp)]
        exact (List.Perm.swap _ _ _).trans ((ih hrest hnodup).cons first)
  mem_vals t hash p hmem :=
    List.mem_map.mpr ⟨(hash, p), List.mem_filter.mpr ⟨hmem, by simp⟩, rfl⟩
  of_mem_vals t hash p hmem := by
    obtain ⟨element, helement, rfl⟩ := List.mem_map.mp hmem
    exact List.mem_map_of_mem (List.mem_of_mem_filter helement)

/-- A second key evicts the first one from a cache of one entry. -/
theorem lru_refines_reference_list :
    ∃ lru, shlLruNew Malloc.bump Htable.list ℕ 1 = some lru ∧ ∃ answers client nodes,
      Refinement.run (LruClient.step Malloc.bump) ⟨lru, []⟩
        [.lookup 7, .insert 7 5, .lookup 7, .lookup 8, .insert 8 6] = some (answers, client) ∧
      client.lru.Sizes 1 nodes := by
  obtain ⟨lru, hnew, hrun⟩ := lru_refines_reference Htable.list ℕ Malloc.bump_succeeds
    (by decide : (0 : UInt32) < 1)
  obtain ⟨answers, client, ref, nodes, hrun, -, -, -, hsizes⟩ := hrun
    [.lookup 7, .insert 7 5, .lookup 7, .lookup 8, .insert 8 6]
  exact ⟨lru, hnew, answers, client, nodes, hrun, hsizes⟩

end Faceplate.Shl
