import Mathlib.Data.List.AList
import Faceplate.Shl.HtableRuns

/-!
# The hash table of keys and values

`shl/hashtable.h` keeps entries of a key and a value in the vendored hash table. It does not
look for a key before it inserts one, so a key may be there more than once. An entry that is
removed is taken out of the table and stays allocated.
-/

namespace Faceplate.Shl

/-- `struct shl_hashentry`. -/
structure ShlHashentry (V : Type) where
  key : UInt64
  value : V

/-- `shl_hash_cb` and `shl_equal_cb`: equal keys have the same hash. -/
structure ShlCallbacks where
  hashCb : UInt64 → UInt32
  equalCb : UInt64 → UInt64 → Bool
  hashCb_eq : ∀ {a b}, equalCb a b = true → hashCb a = hashCb b

theorem direct_hash_eq {a b : UInt64} (h : (a == b) = true) : a.toUInt32 = b.toUInt32 := by
  rw [eq_of_beq h]

/-- `shl_direct_hash` and `shl_direct_equal`. -/
def shlDirect : ShlCallbacks where
  hashCb data := data.toUInt32
  equalCb data1 data2 := data1 == data2
  hashCb_eq := direct_hash_eq

/-- The entries that are allocated. -/
abbrev Entries (V : Type) := AList fun _ : Ccan.Word => ShlHashentry V

/-- `struct shl_hashtable`, with the memory of its entries. -/
structure ShlHashtable (V : Type) where
  tbl : Ccan.Htable
  entries : Entries V

variable {V : Type}

/-- What `malloc` may answer for an entry: an address that is not in use, and all of them have
the same highest bit. -/
def ShlHashtable.Allows (k : ℕ) (tbl : ShlHashtable V) : Option Ccan.Word → Prop
  | none => True
  | some p => p ∉ tbl.entries ∧ Ccan.IsPtr k p

instance (k : ℕ) (tbl : ShlHashtable V) : ∀ entry, Decidable (tbl.Allows k entry)
  | none => inferInstanceAs (Decidable True)
  | some p => inferInstanceAs (Decidable (p ∉ tbl.entries ∧ Ccan.IsPtr k p))

variable (cb : ShlCallbacks)

/-- The hash of a key, as a `size_t`. -/
def ShlCallbacks.hash (key : UInt64) : Ccan.Word := (cb.hashCb key).toBitVec.setWidth 64

/-- `shl_rehash`, for an entry that is allocated. -/
def shlRehash (entries : Entries V) (ele : Ccan.Word) : Ccan.Word :=
  match entries.lookup ele with
  | some ent => cb.hash ent.key
  | none => 0

/-- The test of the loops over the candidates, each of them an entry that is allocated. -/
def hasKey (entries : Entries V) (key : UInt64) (entry : Ccan.Word) : Bool :=
  (entries.lookup entry).any fun ent => cb.equalCb key ent.key

/-- `shl_hashtable_new`. -/
def shlHashtableNew : ShlHashtable V := ⟨Ccan.htableInit, ∅⟩

/-- `shl_hashtable_insert`, with the answers of the `malloc` of the entry and of the `calloc` of
the table. -/
def shlHashtableInsert (tbl : ShlHashtable V) (key : UInt64) (value : V)
    (entry : Option Ccan.Word) (calloc : Bool) : Option (ℤ × ShlHashtable V) :=
  match entry with
  | none => some (-12, tbl)
  | some entry => do
    let entries := tbl.entries.insert entry ⟨key, value⟩
    let (added, t) ← Ccan.htableAdd (shlRehash cb entries) tbl.tbl (cb.hash key) entry calloc
    if added then return (0, ⟨t, entries⟩) else return (-12, ⟨t, entries.erase entry⟩)

/-- `shl_hashtable_remove`. -/
def shlHashtableRemove (tbl : ShlHashtable V) (key : UInt64) : Option (ShlHashtable V) := do
  let (entry, off) ← Ccan.htableGet tbl.tbl (cb.hash key) (hasKey cb tbl.entries key)
  if entry = 0 then return tbl
  else return { tbl with tbl := ← Ccan.htableDelval tbl.tbl off }

/-- `shl_hashtable_find`. -/
def shlHashtableFind (tbl : ShlHashtable V) (key : UInt64) : Option (Option V) := do
  let (entry, _) ← Ccan.htableGet tbl.tbl (cb.hash key) (hasKey cb tbl.entries key)
  if entry = 0 then return none
  else return some (← tbl.entries.lookup entry).value

/-- The loop of `shl_hashtable_free`: the values passed to `free_value`, and the entries that
are left. -/
def shlHashtableFreeLoop : ℕ → Ccan.Htable → Entries V → List V → Ccan.Word × ℕ →
    Option (List V × Entries V)
  | 0, _, _, _, _ => none
  | n + 1, tbl, entries, freed, (entry, off) =>
    if entry = 0 then some (freed, entries)
    else do
      let tbl ← Ccan.htableDelval tbl off
      let ent ← entries.lookup entry
      shlHashtableFreeLoop n tbl (entries.erase entry) (freed ++ [ent.value])
        (← Ccan.htableNext tbl off)

/-- `shl_hashtable_free`. -/
def shlHashtableFree (tbl : ShlHashtable V) : Option (List V × Entries V) := do
  shlHashtableFreeLoop (1 <<< tbl.tbl.bits + 1) tbl.tbl tbl.entries [] (← Ccan.htableFirst tbl.tbl)

/-! ## What the table stands for -/

/-- The table holds these entries, at their addresses. -/
structure ShlHashtable.Holds (k : ℕ) (tbl : ShlHashtable V)
    (cells : List (Ccan.Word × ShlHashentry V)) : Prop where
  table : Ccan.Holds (shlRehash cb tbl.entries) k tbl.tbl (cells.map Prod.fst)
  nodup : (cells.map Prod.fst).Nodup
  lookup : ∀ cell ∈ cells, tbl.entries.lookup cell.1 = some cell.2

namespace ShlHashtable.Holds

variable {cb} {k : ℕ} {tbl : ShlHashtable V} {cells : List (Ccan.Word × ShlHashentry V)}

theorem new : Holds cb k (shlHashtableNew : ShlHashtable V) [] where
  table := .inl ⟨rfl, rfl⟩
  nodup := List.nodup_nil
  lookup := by simp

theorem elems (h : tbl.Holds cb k cells) : tbl.tbl.elems = cells.length := by
  rw [h.table.elems, List.length_map]

theorem rehash (h : tbl.Holds cb k cells) {cell : Ccan.Word × ShlHashentry V}
    (hcell : cell ∈ cells) : shlRehash cb tbl.entries cell.1 = cb.hash cell.2.key := by
  rw [shlRehash, h.lookup cell hcell]

theorem hasKey_eq (h : tbl.Holds cb k cells) {cell : Ccan.Word × ShlHashentry V}
    (hcell : cell ∈ cells) (key : UInt64) :
    hasKey cb tbl.entries key cell.1 = cb.equalCb key cell.2.key := by
  rw [hasKey, h.lookup cell hcell, Option.any_some]

/-- What the loop over the candidates for a key ends with: an entry with the key, or nothing,
and then there is none. -/
theorem get (h : tbl.Holds cb k cells) (key : UInt64) :
    ∃ entry off, Ccan.htableGet tbl.tbl (cb.hash key) (hasKey cb tbl.entries key) =
        some (entry, off) ∧
      (entry ≠ 0 → ∃ cell ∈ cells, cell.1 = entry ∧ cb.equalCb key cell.2.key = true ∧
        ∃ t, Ccan.htableDelval tbl.tbl off = some t ∧
          Ccan.Holds (shlRehash cb tbl.entries) k t ((cells.map Prod.fst).erase entry)) ∧
      (entry = 0 → ∀ cell ∈ cells, cb.equalCb key cell.2.key = false) := by
  obtain ⟨entry, off, hget, hfound, hmiss⟩ :=
    h.table.get (cb.hash key) (hasKey cb tbl.entries key)
  refine ⟨entry, off, hget, fun hne => ?_, fun heq cell hcell => ?_⟩
  · obtain ⟨hmem, hkey, hdel⟩ := hfound hne
    obtain ⟨cell, hcell, rfl⟩ := List.mem_map.mp hmem
    rw [h.hasKey_eq hcell] at hkey
    exact ⟨cell, hcell, rfl, hkey, hdel⟩
  · by_contra hkey
    rw [Bool.not_eq_false] at hkey
    have hhash : cb.hash cell.2.key = cb.hash key := by
      rw [ShlCallbacks.hash, ShlCallbacks.hash, cb.hashCb_eq hkey]
    have := hmiss heq cell.1 (List.mem_map_of_mem hcell) ((h.rehash hcell).trans hhash)
    rw [h.hasKey_eq hcell, hkey] at this
    exact absurd this (by decide)

end ShlHashtable.Holds

end Faceplate.Shl
