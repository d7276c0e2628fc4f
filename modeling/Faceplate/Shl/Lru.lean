import Mathlib.Data.List.Perm.Basic
import Faceplate.Lib.Dlist
import Faceplate.Lib.Refinement

/-!
# The LRU cache

`shl/lru.h` keeps entries in a list, the most recently used one first, and in a hash table.
An insert into a full cache evicts the last one of the list. The client is the one of
`find_glyph`: it inserts under a key after it has looked the key up in vain. Values are
pointers that are not NULL, since NULL says that nothing was found.
-/

namespace Faceplate.Shl

open Dlist

/-- A hash table as the vendored one is used: what is in it, the candidates that are gone
through for a hash, and how adding and deleting an element change what is in it. Adding
does not fail. -/
structure Htable where
  Table : Type
  init : Table
  add : Table → UInt64 → ℕ → Table
  delval : Table → ℕ → Table
  vals : Table → UInt64 → List ℕ
  contents : Table → List (UInt64 × ℕ)
  contents_init : contents init = []
  contents_add : ∀ t hash p, (contents (add t hash p)).Perm ((hash, p) :: contents t)
  contents_delval : ∀ t hash p, (hash, p) ∈ contents t → ((contents t).map Prod.snd).Nodup →
    ((hash, p) :: contents (delval t p)).Perm (contents t)
  mem_vals : ∀ t hash p, (hash, p) ∈ contents t → p ∈ vals t hash
  of_mem_vals : ∀ t hash p, p ∈ vals t hash → p ∈ (contents t).map Prod.snd

/-- What a list node is part of: the cache, or `struct shl_lru_entry`. -/
inductive LruData (V : Type) where
  | head
  | entry (key : UInt64) (value : V)

/-- `struct shl_lru`, with the memory of the nodes and the values that have been freed. -/
structure Lru (tbl : Htable) (V : Type) where
  maxSize : UInt32
  size : UInt32
  tbl : tbl.Table
  list : ℕ
  heap : Heap (Node (LruData V))
  freed : List V

section Model

variable {tbl : Htable} {V : Type} (malloc : Malloc)

/-- `shl_lru_new`. -/
def shlLruNew (tbl : Htable) (V : Type) (maxSize : UInt32) : Option (Lru tbl V) :=
  if maxSize = 0 then none
  else (malloc.addr []).map fun a =>
    ⟨maxSize, 0, tbl.init, a, AList.singleton a ⟨some a, some a, .head⟩, []⟩

/-- The loop of `shl_lru_get` over the candidates. -/
def shlLruGetLoop (lru : Lru tbl V) (key : UInt64) : List ℕ → Option (Option V × Lru tbl V)
  | [] => some (none, lru)
  | a :: rest => do
    match ← dataOf lru.heap a with
    | .head => none
    | .entry k value =>
      if key = k then
        let heap ← unlink lru.heap a
        let heap ← link heap lru.list a
        return (some value, { lru with heap := heap })
      else shlLruGetLoop lru key rest

/-- `shl_lru_get`. -/
def shlLruGet (lru : Lru tbl V) (key : UInt64) : Option (Option V × Lru tbl V) :=
  shlLruGetLoop lru key (tbl.vals lru.tbl key)

/-- The loop of `shl_lru_evict` over the candidates; in the end it is `-ENOENT`. -/
def shlLruEvictLoop (lru : Lru tbl V) (last : ℕ) : List ℕ → Option (ℤ × Lru tbl V)
  | [] => some (-2, lru)
  | a :: rest =>
    if last = a then do
      let heap ← unlink lru.heap last
      match ← dataOf heap a with
      | .head => none
      | .entry _ value =>
        let heap ← heap.free a
        return (0, { lru with
          tbl := tbl.delval lru.tbl a, heap := heap, size := lru.size - 1,
          freed := lru.freed ++ [value] })
    else shlLruEvictLoop lru last rest

/-- `shl_lru_evict`. The head is not part of an entry. -/
def shlLruEvict (lru : Lru tbl V) : Option (ℤ × Lru tbl V) := do
  let last ← prevOf lru.heap lru.list
  match ← dataOf lru.heap last with
  | .head => none
  | .entry key _ => shlLruEvictLoop lru last (tbl.vals lru.tbl key)

/-- What `shl_lru_insert` does when there is room; without memory it is `-ENOMEM`. -/
def shlLruAdd (lru : Lru tbl V) (key : UInt64) (value : V) : Option (ℤ × Lru tbl V) :=
  match malloc.addr lru.heap.keys with
  | none => some (-12, lru)
  | some a => do
    let heap ← link (lru.heap.insert a ⟨none, none, .entry key value⟩) lru.list a
    return (0, { lru with tbl := tbl.add lru.tbl key a, heap := heap, size := lru.size + 1 })

/-- `shl_lru_insert`. -/
def shlLruInsert (lru : Lru tbl V) (key : UInt64) (value : V) : Option (ℤ × Lru tbl V) :=
  if lru.size ≥ lru.maxSize then do
    let (ret, lru) ← shlLruEvict lru
    if ret < 0 then return (-12, lru) else shlLruAdd malloc lru key value
  else shlLruAdd malloc lru key value

/-- `find_glyph` of `render/bbulk.c`, given the id and what is rendered when the cache has
nothing under it. -/
def bbulkFindGlyph (lru : Lru tbl V) (id : UInt64) (rendered : Option V) :
    Option (Option V × Lru tbl V) := do
  match ← shlLruGet lru id with
  | (some glyph, lru) => return (some glyph, lru)
  | (none, lru) =>
    match rendered with
    | none => return (none, lru)
    | some glyph =>
      let (ret, lru) ← shlLruInsert malloc lru id glyph
      return (if ret ≠ 0 then none else some glyph, lru)

end Model

/-! ## The client -/

/-- What the client asks for. -/
inductive LruOp (V : Type) where
  | lookup (key : UInt64)
  | insert (key : UInt64) (value : V)

/-- What it learns. An insert that does not follow a miss is not made. -/
inductive LruAnswer (V : Type) where
  | found (value : V)
  | missed
  | ret (code : ℤ)
  | refused

/-- The cache, and the keys that have been looked up in vain and not been inserted since. -/
structure LruClient (tbl : Htable) (V : Type) where
  lru : Lru tbl V
  missed : List UInt64

/-- One operation of the client. -/
def LruClient.step {tbl : Htable} {V : Type} (malloc : Malloc) (client : LruClient tbl V) :
    LruOp V → Option (LruAnswer V × LruClient tbl V)
  | .lookup key => do
    let (value, lru) ← shlLruGet client.lru key
    match value with
    | some value => return (.found value, { client with lru := lru })
    | none => return (.missed, ⟨lru, key :: client.missed⟩)
  | .insert key value =>
    if key ∈ client.missed then do
      let (ret, lru) ← shlLruInsert malloc client.lru key value
      return (.ret ret, ⟨lru, client.missed.filter (· ≠ key)⟩)
    else return (.refused, client)

/-! ## The reference -/

/-- A cache as a list of entries, the most recently used one first, with all values inserted
so far, the last one first, and those evicted. -/
structure RefLru (V : Type) where
  entries : List (UInt64 × V)
  inserted : List (UInt64 × V)
  evicted : List V
  missed : List UInt64

/-- What the reference cache does. -/
inductive RefLru.Step {V : Type} (max : ℕ) :
    RefLru V → LruOp V → LruAnswer V → RefLru V → Prop
  | hit {ref : RefLru V} {key : UInt64} {value : V} {before after : List (UInt64 × V)}
      (hentries : ref.entries = before ++ (key, value) :: after)
      (hlast : ref.inserted.lookup key = some value) :
      Step max ref (.lookup key) (.found value)
        { ref with entries := (key, value) :: (before ++ after) }
  | miss {ref : RefLru V} {key : UInt64} (hkey : key ∉ ref.entries.map Prod.fst) :
      Step max ref (.lookup key) .missed { ref with missed := key :: ref.missed }
  | room {ref : RefLru V} {key : UInt64} {value : V} (hmissed : key ∈ ref.missed)
      (hroom : ref.entries.length < max) :
      Step max ref (.insert key value) (.ret 0)
        ⟨(key, value) :: ref.entries, (key, value) :: ref.inserted, ref.evicted,
          ref.missed.filter (· ≠ key)⟩
  | full {ref : RefLru V} {key : UInt64} {value : V} {kept : List (UInt64 × V)}
      {least : UInt64 × V} (hmissed : key ∈ ref.missed) (hfull : ref.entries.length = max)
      (hentries : ref.entries = kept ++ [least]) :
      Step max ref (.insert key value) (.ret 0)
        ⟨(key, value) :: kept, (key, value) :: ref.inserted, ref.evicted ++ [least.2],
          ref.missed.filter (· ≠ key)⟩
  | refused {ref : RefLru V} {key : UInt64} {value : V} (hmissed : key ∉ ref.missed) :
      Step max ref (.insert key value) .refused ref

end Faceplate.Shl
