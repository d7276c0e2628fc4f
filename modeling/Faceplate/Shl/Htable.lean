import Mathlib.Data.List.Basic

/-!
# The vendored hash table

`shl/htable/htable.c` keeps pointers in a table with linear probing. The bits that all
pointers in the table share are not kept in the slots; bits of the hash stand in their place,
and one of them, the perfect bit, says that the pointer is in the slot its hash asks for. The
slot of an empty table is the member for the perfect bit. A loop that has gone through all
slots and not ended goes round for ever; it is undefined here, as reads outside of the table,
asserts that fail and a shift that overflows an `int` are.
-/

namespace Faceplate.Ccan

/-- `uintptr_t`, `size_t` and the pointers. -/
abbrev Word := BitVec 64

/-- `struct htable`; `table` is `none` where it is `&ht->perfect_bit`. -/
structure Htable where
  bits : ℕ
  elems : ℕ
  deleted : ℕ
  max : ℕ
  maxWithDeleted : ℕ
  commonMask : Word
  commonBits : Word
  perfectBit : Word
  table : Option (List Word)
  deriving DecidableEq

/-- `HTABLE_INITIALIZER`. -/
def htableInit : Htable := ⟨0, 0, 0, 0, 0, -1, 0, 0, none⟩

/-- `HTABLE_DELETED`. -/
def htableDeleted : Word := 1

/-- What `ht->table` points to. -/
def Htable.slots (ht : Htable) : List Word := ht.table.getD [ht.perfectBit]

/-- A write to a slot that has been read. -/
def Htable.set (ht : Htable) (i : ℕ) (e : Word) : Htable :=
  match ht.table with
  | none => { ht with perfectBit := e }
  | some t => { ht with table := some (t.set i e) }

/-- `(i + 1) & ((1 << ht->bits)-1)`. -/
def Htable.next (ht : Htable) (i : ℕ) : ℕ := (i + 1) &&& (1 <<< ht.bits - 1)

/-- `get_extra_ptr_bits`. -/
def getExtraPtrBits (ht : Htable) (e : Word) : Word := e &&& ht.commonMask

/-- `get_raw_ptr`. -/
def getRawPtr (ht : Htable) (e : Word) : Word := (e &&& ~~~ht.commonMask) ||| ht.commonBits

/-- `make_hval`. -/
def makeHval (ht : Htable) (p bits : Word) : Word := (p &&& ~~~ht.commonMask) ||| bits

/-- `entry_is_valid`. -/
def entryIsValid (e : Word) : Bool := htableDeleted < e

/-- `get_hash_ptr_bits`. -/
def getHashPtrBits (ht : Htable) (hash : Word) : Word :=
  (hash ^^^ (hash >>> ht.bits)) &&& ht.commonMask &&& ~~~ht.perfectBit

/-- `hash_bucket`. -/
def hashBucket (ht : Htable) (h : Word) : ℕ := h.toNat &&& (1 <<< ht.bits - 1)

/-! ## Looking up -/

/-- The loop of `htable_val`; the pointer, or `NULL`, and the offset of the iterator. -/
def htableValLoop (ht : Htable) (perfect : Word) : ℕ → ℕ → Word → Option (Word × ℕ)
  | 0, _, _ => none
  | n + 1, off, h2 => do
    let e ← ht.slots[off]?
    if e = 0 then return (0, off)
    else if e ≠ htableDeleted ∧ getExtraPtrBits ht e = h2 then return (getRawPtr ht e, off)
    else htableValLoop ht perfect n (ht.next off) (h2 &&& ~~~perfect)

/-- `htable_val`. -/
def htableVal (ht : Htable) (off : ℕ) (hash perfect : Word) : Option (Word × ℕ) :=
  htableValLoop ht perfect (1 <<< ht.bits) off (getHashPtrBits ht hash ||| perfect)

/-- `htable_firstval`. -/
def htableFirstval (ht : Htable) (hash : Word) : Option (Word × ℕ) :=
  htableVal ht (hashBucket ht hash) hash ht.perfectBit

/-- `htable_nextval`. -/
def htableNextval (ht : Htable) (off : ℕ) (hash : Word) : Option (Word × ℕ) :=
  htableVal ht (ht.next off) hash 0

/-- The loop over the candidates for a hash that ends at the first one that passes a test. -/
def htableGetLoop (ht : Htable) (hash : Word) (cmp : Word → Bool) :
    ℕ → Word × ℕ → Option (Word × ℕ)
  | 0, _ => none
  | n + 1, (c, off) =>
    if c = 0 then some (0, off)
    else if cmp c then some (c, off)
    else do htableGetLoop ht hash cmp n (← htableNextval ht off hash)

/-- `htable_get`, with the offset of its iterator. The loops of `htable_del`, of
`shl/hashtable.h` and of `shl/lru.h` are the same one. -/
def htableGet (ht : Htable) (hash : Word) (cmp : Word → Bool) : Option (Word × ℕ) := do
  htableGetLoop ht hash cmp (1 <<< ht.bits + 1) (← htableFirstval ht hash)

/-- The candidates for a hash, as a loop that stops at none of them goes through them. -/
def htableValsLoop (ht : Htable) (hash : Word) : ℕ → Word × ℕ → Option (List Word)
  | 0, _ => none
  | n + 1, (c, off) =>
    if c = 0 then some []
    else do
      let rest ← htableValsLoop ht hash n (← htableNextval ht off hash)
      return c :: rest

/-- `for (c = htable_firstval(..); c; c = htable_nextval(..))`. -/
def htableVals (ht : Htable) (hash : Word) : Option (List Word) := do
  htableValsLoop ht hash (1 <<< ht.bits + 1) (← htableFirstval ht hash)

/-- The loop of `htable_first` and `htable_next`. -/
def htableFrom (ht : Htable) : ℕ → ℕ → Option (Word × ℕ)
  | 0, off => some (0, off)
  | n + 1, off => do
    let e ← ht.slots[off]?
    if entryIsValid e then return (getRawPtr ht e, off) else htableFrom ht n (off + 1)

/-- `htable_first`. -/
def htableFirst (ht : Htable) : Option (Word × ℕ) := htableFrom ht (1 <<< ht.bits) 0

/-- `htable_next`. -/
def htableNext (ht : Htable) (off : ℕ) : Option (Word × ℕ) :=
  htableFrom ht (1 <<< ht.bits - (off + 1)) (off + 1)

/-! ## Changes -/

/-- The loop of `ht_add`: the slot, and the perfect bit if it is the first one. -/
def htAddLoop (ht : Htable) : ℕ → ℕ → Word → Option (ℕ × Word)
  | 0, _, _ => none
  | n + 1, i, perfect => do
    let e ← ht.slots[i]?
    if entryIsValid e then htAddLoop ht n (ht.next i) 0 else return (i, perfect)

/-- `ht_add`. -/
def htAdd (ht : Htable) (new h : Word) : Option Htable := do
  let (i, perfect) ← htAddLoop ht (1 <<< ht.bits) (hashBucket ht h) ht.perfectBit
  return ht.set i (makeHval ht new (getHashPtrBits ht h ||| perfect))

section Rehash

variable (rehash : Word → Word)

/-- The lowest bit of a mask. -/
def lowestBit (mask : Word) : Option ℕ :=
  (List.range 64).find? fun i => mask &&& ((1 : Word) <<< i) ≠ 0

/-- `ht_add` of what an old slot holds. -/
def reAdd (ht : Htable) (e : Word) : Option Htable :=
  if entryIsValid e then htAdd ht (getRawPtr ht e) (rehash (getRawPtr ht e)) else some ht

/-- `double_table`, with the answer of `calloc`. -/
def doubleTable (ht : Htable) (calloc : Bool) : Option (Bool × Htable) :=
  if 31 ≤ ht.bits + 1 then none
  else if calloc then do
    let bits := ht.bits + 1
    let grown := { ht with
      table := some (List.replicate (1 <<< bits) 0)
      bits := bits
      max := 3 <<< bits / 4
      maxWithDeleted := 9 <<< bits / 10
      perfectBit :=
        if ht.perfectBit = 0 ∧ ht.commonMask ≠ 0 then
          match lowestBit ht.commonMask with
          | some i => (1 : Word) <<< i
          | none => ht.perfectBit
        else ht.perfectBit }
    let filled ← (ht.table.getD []).foldlM (reAdd rehash) grown
    return (true, { filled with deleted := 0 })
  else some (false, ht)

/-- What `rehash_table` does with a slot. -/
def rehashSlot (ht : Htable) (h : ℕ) : Option Htable := do
  let e ← ht.slots[h]?
  if e = 0 then return ht
  else if e = htableDeleted then return ht.set h 0
  else if e &&& ht.perfectBit = 0 then
    htAdd (ht.set h 0) (getRawPtr ht e) (rehash (getRawPtr ht e))
  else return ht

/-- `rehash_table`. -/
def rehashTable (ht : Htable) : Option Htable := do
  let start ← ht.slots.findIdx? (· = 0)
  let ht ← (List.range (1 <<< ht.bits)).foldlM
    (fun ht i => rehashSlot rehash ht ((i + start) &&& (1 <<< ht.bits - 1))) ht
  return { ht with deleted := 0 }

/-- The loop of `update_common` for the highest bit of a pointer. -/
def topBit (p : Word) : ℕ → ℕ
  | 0 => 0
  | i + 1 => if p &&& ((1 : Word) <<< (i + 1)) ≠ 0 then i + 1 else topBit p i

/-- `update_common`. -/
def updateCommon (ht : Htable) (p : Word) : Htable :=
  if ht.elems = 0 then
    let mask : Word := ~~~((1 : Word) <<< topBit p 63)
    { ht with commonMask := mask, commonBits := p &&& mask, perfectBit := 1 }
  else
    let maskdiff := ht.commonBits ^^^ (p &&& ht.commonMask)
    let bitsdiff := ht.commonBits &&& maskdiff
    let update (e : Word) := if entryIsValid e then (e &&& ~~~maskdiff) ||| bitsdiff else e
    { ht with
      table := ht.table.map fun t => t.map update
      commonMask := ht.commonMask &&& ~~~maskdiff
      commonBits := ht.commonBits &&& ~~~maskdiff
      perfectBit := ht.perfectBit &&& ~~~maskdiff }

/-- The end of `htable_add`, when there is room. -/
def htableAddRoom (ht : Htable) (hash p : Word) : Option (Bool × Htable) := do
  if p = 0 then none
  else
    let ht := if p &&& ht.commonMask ≠ ht.commonBits then updateCommon ht p else ht
    let ht ← htAdd ht p hash
    return (true, { ht with elems := ht.elems + 1 })

/-- `htable_add` behind `double_table`. -/
def htableAddDoubled (ht : Htable) (hash p : Word) : Option (Bool × Htable) :=
  if ht.elems + 1 + ht.deleted > ht.maxWithDeleted then do
    htableAddRoom (← rehashTable rehash ht) hash p
  else htableAddRoom ht hash p

/-- `htable_add`, with the answer of `calloc`. -/
def htableAdd (ht : Htable) (hash p : Word) (calloc : Bool) : Option (Bool × Htable) :=
  if ht.elems + 1 > ht.max then do
    let (doubled, ht) ← doubleTable rehash ht calloc
    if doubled then htableAddDoubled rehash ht hash p else return (false, ht)
  else htableAddDoubled rehash ht hash p

end Rehash

/-- `htable_delval`. -/
def htableDelval (ht : Htable) (off : ℕ) : Option Htable := do
  let e ← ht.slots[off]?
  if entryIsValid e then
    return { ht.set off htableDeleted with elems := ht.elems - 1, deleted := ht.deleted + 1 }
  else none

/-- `htable_del`. -/
def htableDel (ht : Htable) (h p : Word) : Option (Bool × Htable) := do
  let (c, off) ← htableGet ht h (· = p)
  if c = 0 then return (false, ht)
  else return (true, ← htableDelval ht off)

end Faceplate.Ccan
