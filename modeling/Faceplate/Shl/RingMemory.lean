import Faceplate.Lib.Heap
import Faceplate.Lib.Refinement
import Faceplate.Lib.Writes
import Faceplate.Shl.Ring

/-!
# The byte ring in memory

`shl/ring.h` on a heap of entries: each entry has a `next` pointer, a length and a buffer
of `SHL_RING_SIZE` bytes that starts out uninitialised, and the ring points to the first
and to the last of them. An access to an entry that has been freed, and a copy that
leaves a buffer, are undefined. The entries met from `first` on are a `Ring`, and every
sequence of operations behaves as a queue of bytes.
-/

namespace Faceplate

variable {α : Type*}

/-- `struct shl_ring_entry`; a byte of the buffer is nothing before it is written. -/
structure RingCell (α : Type*) where
  next : Option ℕ
  len : ℕ
  buf : List (Option α)

/-- `struct shl_ring` and the heap its entries are in. -/
structure RingMem (α : Type*) where
  heap : Heap (RingCell α)
  first : Option ℕ
  last : Option ℕ

/-- This many bytes of a buffer from an index on. -/
def bytesAt (buf : List (Option α)) (at' len : ℕ) : Option (List (Option α)) :=
  if at' + len ≤ buf.length then some ((buf.drop at').take len) else none

namespace RingMem

/-- An entry of `shl_ring_write` that has just been allocated. -/
def freshCell : RingCell α := ⟨none, 0, List.replicate shlRingSize none⟩

/-- `shl_ring_new`. -/
def new : RingMem α := ⟨∅, none, none⟩

/-- The new entry of `shl_ring_write`, linked behind the last one. `none` in the result
stands for `-ENOMEM`. -/
def appendEntry (malloc : Malloc) (ring : RingMem α) : Option (Option ℕ × RingMem α) :=
  match malloc.addr ring.heap.keys with
  | none => some (none, ring)
  | some ent =>
    let heap := ring.heap.insert ent freshCell
    match ring.last with
    | none => some (some ent, ⟨heap, some ent, some ent⟩)
    | some last => do
      let cell ← heap.lookup last
      let heap ← Heap.write heap last { cell with next := some ent }
      return (some ent, ⟨heap, ring.first, some ent⟩)

/-- The entry that takes the next bytes: the last one, or a new one when there is none or
it is full. -/
def openEntry (malloc : Malloc) (ring : RingMem α) : Option (Option ℕ × RingMem α) :=
  match ring.last with
  | none => ring.appendEntry malloc
  | some last => do
    let cell ← ring.heap.lookup last
    if shlRingSize ≤ cell.len then ring.appendEntry malloc else return (some last, ring)

/-- The `next:` loop of `shl_ring_write`, whose bytes bound the number of rounds;
`false` stands for `-ENOMEM`. -/
def writeLoop (malloc : Malloc) : ℕ → RingMem α → List α → Option (Bool × RingMem α)
  | 0, _, _ => none
  | rounds + 1, ring, val => do
    let (ent, ring) ← ring.openEntry malloc
    match ent with
    | none => return (false, ring)
    | some ent =>
      let cell ← ring.heap.lookup ent
      let space := shlRingSize - cell.len
      let cp := if val.length ≥ space then space else val.length
      let buf ← Writes.copy cell.buf cell.len ((val.take cp).map some)
      let heap ← Heap.write ring.heap ent { cell with buf := buf, len := cell.len + cp }
      let ring := { ring with heap := heap }
      let val := val.drop cp
      if val.length > 0 then writeLoop malloc rounds ring val else return (true, ring)

/-- What `shl_ring_write` returns. -/
inductive WriteCode where
  | ok
  | einval
  | enomem
  deriving DecidableEq

/-- `shl_ring_write`. -/
def write (malloc : Malloc) (ring : RingMem α) (val : List α) :
    Option (WriteCode × RingMem α) :=
  if val.length = 0 then some (.einval, ring)
  else do
    let (ok, ring) ← ring.writeLoop malloc val.length val
    return (if ok then .ok else .enomem, ring)

/-- The walk of `shl_ring_peek` from an entry on. A chain that is longer than the heap
has cells would be a cycle, on which the walk does not end. -/
def peekLoop (heap : Heap (RingCell α)) : ℕ → ℕ → ℕ → Option (Option (List (Option α)))
  | 0, _, _ => none
  | rounds + 1, iter, offset => do
    let cell ← heap.lookup iter
    if cell.len ≤ offset then
      match cell.next with
      | none => return none
      | some next => peekLoop heap rounds next (offset - cell.len)
    else
      let run ← bytesAt cell.buf offset (cell.len - offset)
      return some run

/-- `shl_ring_peek`: the bytes behind the pointer it returns, `none` for `NULL`. -/
def peek (ring : RingMem α) (offset : ℕ) : Option (Option (List (Option α))) :=
  match ring.first with
  | none => some none
  | some first => peekLoop ring.heap ring.heap.keys.length first offset

/-- The `next:` loop of `shl_ring_drop`, for a positive length. -/
def dropLoop : ℕ → RingMem α → ℕ → Option (RingMem α)
  | 0, _, _ => none
  | rounds + 1, ring, len =>
    match ring.first with
    | none => some ring
    | some ent => do
      let cell ← ring.heap.lookup ent
      if len ≥ cell.len then
        let len := len - cell.len
        let heap ← Heap.free ring.heap ent
        let last := if cell.next.isNone then none else ring.last
        let ring := ⟨heap, cell.next, last⟩
        if len = 0 then return ring else dropLoop rounds ring len
      else
        let rest ← bytesAt cell.buf len (cell.len - len)
        let buf ← Writes.copy cell.buf 0 rest
        let heap ← Heap.write ring.heap ent { cell with buf := buf, len := cell.len - len }
        return { ring with heap := heap }

/-- `shl_ring_drop`. -/
def drop (ring : RingMem α) (len : ℕ) : Option (RingMem α) :=
  if len = 0 then some ring else ring.dropLoop (ring.heap.keys.length + 1) len

/-- The loop of `shl_ring_flush` (and of `shl_ring_free`) that frees every entry. -/
def flushLoop : ℕ → RingMem α → Option (RingMem α)
  | 0, _ => none
  | rounds + 1, ring =>
    match ring.first with
    | none => some ring
    | some ent => do
      let cell ← ring.heap.lookup ent
      let heap ← Heap.free ring.heap ent
      flushLoop rounds { ring with heap := heap, first := cell.next }

/-- `shl_ring_flush`. -/
def flush (ring : RingMem α) : Option (RingMem α) := do
  let ring ← ring.flushLoop (ring.heap.keys.length + 1)
  return { ring with last := none }

end RingMem

end Faceplate
