import Mathlib.Data.List.Basic
import Mathlib.Data.List.TakeDrop
import Mathlib.Tactic.SplitIfs

/-!
# The byte ring `shl_ring`

`shl/ring.h` keeps queued bytes in a linked list of fixed-size entries. A `Ring`
carries the fact that every stored entry is non-empty and at most `SHL_RING_SIZE`
long, so an entry that could be neither peeked nor dropped cannot be built. The
bytes themselves are never inspected, hence the arbitrary byte type.
-/

namespace Faceplate

variable {α : Type*}

/-- Capacity of one ring entry. -/
def shlRingSize : ℕ := 512

/-- An entry of the list is in use and fits its buffer. -/
def RingEntryOk (ent : List α) : Prop := 0 < ent.length ∧ ent.length ≤ shlRingSize

/-- `struct shl_ring`, its linked list as a list of entry contents. -/
structure Ring (α : Type*) where
  /-- The entries from `first` to `last`. -/
  entries : List (List α)
  /-- Every entry on the list is non-empty and within its buffer. -/
  entriesOk : ∀ ent ∈ entries, RingEntryOk ent

namespace Ring

/-- `shl_ring_new`: no entry is allocated yet. -/
def new : Ring α := ⟨[], by simp⟩

/-- The queued bytes in order, which is what the ring stands for. -/
def contents (ring : Ring α) : List α := ring.entries.flatten

/-- `shl_ring_is_empty` tests for a first entry. -/
def isEmpty (ring : Ring α) : Bool := ring.entries.isEmpty

@[simp] theorem contents_new : (new : Ring α).contents = [] := rfl

/-- Because no entry is empty, the test for a first entry is a test for bytes. -/
theorem isEmpty_iff {ring : Ring α} : ring.isEmpty = true ↔ ring.contents = [] := by
  obtain ⟨entries, hok⟩ := ring
  cases entries with
  | nil => simp [isEmpty, contents]
  | cons ent rest =>
    have hpos := (hok ent (by simp)).1
    have hne : ent ≠ [] := List.ne_nil_of_length_pos hpos
    simp [isEmpty, contents, hne]

theorem isEmpty_eq_false_iff {ring : Ring α} : ring.isEmpty = false ↔ ring.contents ≠ [] := by
  rw [← Bool.not_eq_true, isEmpty_iff]

/-- The list without its last entry and that entry, when it still has room;
otherwise the whole list and a new empty entry (`malloc` in `shl_ring_write`). -/
def openEntry (entries : List (List α)) : List (List α) × List α × Bool :=
  match entries.getLast? with
  | none => (entries, [], true)
  | some ent =>
    if shlRingSize ≤ ent.length then (entries, [], true) else (entries.dropLast, ent, false)

/-- The `next:` loop of `shl_ring_write`. `mem` is the number of allocations
that will still succeed; the loop stops with `-ENOMEM` when it needs one more.
The bytes that are left bound the number of rounds. -/
def writeLoop : ℕ → ℕ → List (List α) → List α → Bool × List (List α)
  | 0, _, entries, _ => (true, entries)
  | rounds + 1, mem, entries, val =>
    let (before, ent, fresh) := openEntry entries
    if fresh && mem == 0 then (false, entries)
    else
      let cp := min val.length (shlRingSize - ent.length)
      let entries := before ++ [ent ++ val.take cp]
      let val := val.drop cp
      if val.isEmpty then (true, entries)
      else writeLoop rounds (mem - fresh.toNat) entries val

theorem openEntry_spec {entries before : List (List α)} {ent : List α} {fresh : Bool}
    (h : openEntry entries = (before, ent, fresh)) :
    (fresh = true → before = entries ∧ ent = []) ∧
      (fresh = false → entries = before ++ [ent]) ∧ ent.length < shlRingSize := by
  unfold openEntry at h
  cases hlast : entries.getLast? with
  | none =>
    simp only [hlast, Prod.mk.injEq] at h
    obtain ⟨rfl, rfl, rfl⟩ := h
    simp [shlRingSize]
  | some last =>
    simp only [hlast] at h
    split_ifs at h with hfull
    · obtain ⟨rfl, rfl, rfl⟩ := h
      simp [shlRingSize]
    · obtain ⟨rfl, rfl, rfl⟩ := h
      have hsplit := List.dropLast_append_getLast? _ hlast
      refine ⟨by simp, fun _ => hsplit.symm, by omega⟩

theorem openEntry_flatten {entries before : List (List α)} {ent : List α} {fresh : Bool}
    (h : openEntry entries = (before, ent, fresh)) :
    before.flatten ++ ent = entries.flatten := by
  obtain ⟨hfresh, hused, -⟩ := openEntry_spec h
  cases fresh with
  | true => obtain ⟨rfl, rfl⟩ := hfresh rfl; simp
  | false => rw [hused rfl]; simp

theorem openEntry_before {entries before : List (List α)} {ent : List α} {fresh : Bool}
    (h : openEntry entries = (before, ent, fresh)) : ∀ e ∈ before, e ∈ entries := by
  obtain ⟨hfresh, hused, -⟩ := openEntry_spec h
  intro e he
  cases fresh with
  | true => rwa [← (hfresh rfl).1]
  | false => rw [hused rfl]; exact List.mem_append_left _ he

/-- One round of the write loop keeps the entries well formed: at least one byte
goes into the open entry and it never grows past its buffer. -/
theorem writeRound_ok {entries before : List (List α)} {ent val : List α} {fresh : Bool}
    (hok : ∀ e ∈ entries, RingEntryOk e) (h : openEntry entries = (before, ent, fresh))
    (hval : val ≠ []) :
    ∀ e ∈ before ++ [ent ++ val.take (min val.length (shlRingSize - ent.length))],
      RingEntryOk e := by
  have hroom := (openEntry_spec h).2.2
  have hpos : 0 < val.length := List.length_pos_of_ne_nil hval
  intro e he
  rcases List.mem_append.mp he with he | he
  · exact hok e (openEntry_before h e he)
  · rw [List.mem_singleton.mp he]
    simp only [RingEntryOk, List.length_append, List.length_take]
    omega

theorem writeLoop_ok (rounds mem : ℕ) (entries : List (List α)) (val : List α)
    (hok : ∀ e ∈ entries, RingEntryOk e) (hval : val ≠ []) :
    ∀ e ∈ (writeLoop rounds mem entries val).2, RingEntryOk e := by
  induction rounds generalizing mem entries val with
  | zero => exact hok
  | succ rounds ih =>
    obtain ⟨before, ent, fresh, h⟩ : ∃ b e f, openEntry entries = (b, e, f) := ⟨_, _, _, rfl⟩
    simp only [writeLoop, h]
    split_ifs with hmem hrest
    · exact hok
    · exact writeRound_ok hok h hval
    · exact ih _ _ _ (writeRound_ok hok h hval) (by simpa using hrest)

/-- `shl_ring_write`; `false` stands for `-ENOMEM`. Writing nothing is refused
by the caller's own checks and changes nothing here. -/
def write (ring : Ring α) (mem : ℕ) (val : List α) : Bool × Ring α :=
  if hval : val = [] then (false, ring)
  else
    let out := writeLoop val.length mem ring.entries val
    (out.1, ⟨out.2, writeLoop_ok _ _ _ _ ring.entriesOk hval⟩)

/-- The write loop appends a prefix of the bytes, all of them unless it runs out
of memory. -/
theorem writeLoop_flatten (rounds mem : ℕ) (entries : List (List α)) (val : List α)
    (hrounds : val.length ≤ rounds) :
    ∃ k, (writeLoop rounds mem entries val).2.flatten = entries.flatten ++ val.take k ∧
      ((writeLoop rounds mem entries val).1 = true → val.length ≤ k) := by
  induction rounds generalizing mem entries val with
  | zero => exact ⟨0, by simp [writeLoop], fun _ => hrounds⟩
  | succ rounds ih =>
    obtain ⟨before, ent, fresh, h⟩ : ∃ b e f, openEntry entries = (b, e, f) := ⟨_, _, _, rfl⟩
    have hroom := (openEntry_spec h).2.2
    have hflat := openEntry_flatten h
    simp only [writeLoop, h]
    set cp := min val.length (shlRingSize - ent.length) with hcp
    split_ifs with hmem hrest
    · exact ⟨0, by simp, by simp⟩
    · refine ⟨cp, by simp [← hflat], fun _ => ?_⟩
      simpa using hrest
    · have hlt : cp < val.length := by simpa using hrest
      obtain ⟨k, hk, hall⟩ := ih (mem - fresh.toNat)
        (before ++ [ent ++ val.take cp]) (val.drop cp) (by simp only [List.length_drop]; omega)
      refine ⟨cp + k, ?_, ?_⟩
      · rw [hk, List.take_add]
        simp [← hflat]
      · intro hdone
        have := hall hdone
        simp only [List.length_drop] at this
        omega

/-- Writing appends a prefix of the bytes to the queue, and all of them when the
write reports success. -/
theorem contents_write (ring : Ring α) (mem : ℕ) (val : List α) :
    ∃ k, (ring.write mem val).2.contents = ring.contents ++ val.take k ∧
      ((ring.write mem val).1 = true → val.length ≤ k) := by
  unfold write
  split_ifs with hval
  · exact ⟨0, by simp, by simp⟩
  · exact writeLoop_flatten _ _ _ _ (Nat.le_refl _)

/-- The queue never loses a byte to a write. -/
theorem contents_prefix_write (ring : Ring α) (mem : ℕ) (val : List α) :
    ring.contents <+: (ring.write mem val).2.contents := by
  obtain ⟨k, hk, -⟩ := contents_write ring mem val
  exact ⟨_, hk.symm⟩

/-- The walk of `shl_ring_peek` to the entry that holds the offset. -/
def peekFrom : List (List α) → ℕ → Option (List α)
  | [], _ => none
  | ent :: rest, offset =>
    if ent.length ≤ offset then peekFrom rest (offset - ent.length) else some (ent.drop offset)

/-- `shl_ring_peek`: the bytes of one entry from the offset on, or `NULL`. -/
def peek (ring : Ring α) (offset : ℕ) : Option (List α) := peekFrom ring.entries offset

theorem peekFrom_some {entries : List (List α)} {offset : ℕ} {buf : List α}
    (h : peekFrom entries offset = some buf) :
    buf ≠ [] ∧ buf <+: entries.flatten.drop offset := by
  induction entries generalizing offset with
  | nil => simp [peekFrom] at h
  | cons ent rest ih =>
    simp only [peekFrom] at h
    split_ifs at h with hle
    · obtain ⟨hne, hpre⟩ := ih h
      refine ⟨hne, ?_⟩
      rw [List.flatten_cons, List.drop_append, List.drop_eq_nil_of_le hle, List.nil_append]
      exact hpre
    · obtain rfl := Option.some.inj h
      refine ⟨by simpa using hle, ?_⟩
      rw [List.flatten_cons, List.drop_append_of_le_length (by omega)]
      exact List.prefix_append _ _

theorem peekFrom_none {entries : List (List α)} {offset : ℕ}
    (h : peekFrom entries offset = none) : entries.flatten.length ≤ offset := by
  induction entries generalizing offset with
  | nil => simp
  | cons ent rest ih =>
    simp only [peekFrom] at h
    split_ifs at h with hle
    have := ih h
    simp only [List.flatten_cons, List.length_append]
    omega

/-- A peek shows a non-empty run of the queue that starts at the offset. -/
theorem peek_some {ring : Ring α} {offset : ℕ} {buf : List α}
    (h : ring.peek offset = some buf) : buf ≠ [] ∧ buf <+: ring.contents.drop offset :=
  peekFrom_some h

/-- A peek shows nothing only at or past the end of the queue. -/
theorem peek_none {ring : Ring α} {offset : ℕ} (h : ring.peek offset = none) :
    ring.contents.length ≤ offset :=
  peekFrom_none h

/-- The `next:` loop of `shl_ring_drop`, for a positive length. -/
def dropFrom : List (List α) → ℕ → List (List α)
  | [], _ => []
  | ent :: rest, len =>
    if ent.length ≤ len then
      if len - ent.length = 0 then rest else dropFrom rest (len - ent.length)
    else ent.drop len :: rest

theorem dropFrom_ok {entries : List (List α)} (len : ℕ) (hok : ∀ e ∈ entries, RingEntryOk e) :
    ∀ e ∈ dropFrom entries len, RingEntryOk e := by
  induction entries generalizing len with
  | nil => simp [dropFrom]
  | cons ent rest ih =>
    have hrest : ∀ e ∈ rest, RingEntryOk e := fun e he => hok e (List.mem_cons_of_mem _ he)
    simp only [dropFrom]
    split_ifs with hle hzero
    · exact hrest
    · exact ih _ hrest
    · intro e he
      rcases List.mem_cons.mp he with rfl | he
      · have := hok ent List.mem_cons_self
        simp only [RingEntryOk, List.length_drop] at this ⊢
        omega
      · exact hrest e he

/-- `shl_ring_drop`. -/
def drop (ring : Ring α) (len : ℕ) : Ring α :=
  if len = 0 then ring else ⟨dropFrom ring.entries len, dropFrom_ok len ring.entriesOk⟩

theorem dropFrom_flatten (entries : List (List α)) (len : ℕ) :
    (dropFrom entries len).flatten = entries.flatten.drop len := by
  induction entries generalizing len with
  | nil => simp [dropFrom]
  | cons ent rest ih =>
    simp only [dropFrom]
    split_ifs with hle hzero
    · rw [List.flatten_cons, List.drop_append, List.drop_eq_nil_of_le hle, hzero]
      simp
    · rw [ih, List.flatten_cons, List.drop_append, List.drop_eq_nil_of_le hle]
      simp
    · rw [List.flatten_cons, List.flatten_cons, List.drop_append_of_le_length (by omega)]

/-- Dropping removes exactly the first bytes of the queue. -/
@[simp] theorem contents_drop (ring : Ring α) (len : ℕ) :
    (ring.drop len).contents = ring.contents.drop len := by
  unfold drop
  split_ifs with h
  · simp [h]
  · exact dropFrom_flatten _ _

end Ring

end Faceplate
