import Faceplate.Shl.HtableBits

/-!
# The table behind the words

Under the settings of a hash table its words stand for a table with linear probing. What the
code does with the words is what the operations of that table do.
-/

namespace Faceplate.Ccan

open Probing

/-- The hash table with another table. -/
def Htable.withTable (ht : Htable) (t : List Word) : Htable := { ht with table := some t }

section WithTable

variable (ht : Htable) (t : List Word)

@[simp] theorem slots_withTable : (ht.withTable t).slots = t := rfl
@[simp] theorem bits_withTable : (ht.withTable t).bits = ht.bits := rfl
@[simp] theorem perfectBit_withTable : (ht.withTable t).perfectBit = ht.perfectBit := rfl
@[simp] theorem set_withTable (i : ℕ) (e : Word) :
    (ht.withTable t).set i e = ht.withTable (t.set i e) := rfl
@[simp] theorem getRawPtr_withTable (e : Word) :
    getRawPtr (ht.withTable t) e = getRawPtr ht e := rfl
@[simp] theorem makeHval_withTable (p bits : Word) :
    makeHval (ht.withTable t) p bits = makeHval ht p bits := rfl
@[simp] theorem getHashPtrBits_withTable (hash : Word) :
    getHashPtrBits (ht.withTable t) hash = getHashPtrBits ht hash := rfl
@[simp] theorem getExtraPtrBits_withTable (e : Word) :
    getExtraPtrBits (ht.withTable t) e = getExtraPtrBits ht e := rfl
@[simp] theorem hashBucket_withTable (hash : Word) :
    hashBucket (ht.withTable t) hash = hashBucket ht hash := rfl
@[simp] theorem next_withTable (i : ℕ) : (ht.withTable t).next i = ht.next i := rfl

end WithTable

/-- What the words stand for. -/
def view (ht : Htable) (t : List Word) : List (Slot Word) := t.map (slotOf ht)

section View

variable {ht : Htable} {t : List Word}

@[simp] theorem length_view : (view ht t).length = t.length := List.length_map _

theorem view_getElem? (j : ℕ) : (view ht t)[j]? = t[j]?.map (slotOf ht) := List.getElem?_map

theorem view_set (j : ℕ) (e : Word) : view ht (t.set j e) = (view ht t).set j (slotOf ht e) :=
  List.map_set

theorem entries_view : entries (view ht t) = (t.filter entryIsValid).map (getRawPtr ht) := by
  induction t with
  | nil => rfl
  | cons e t ih =>
    rw [view, List.map_cons, ← view]
    by_cases h : entryIsValid e = true
    · rw [slotOf_valid h, entries_entry, ih, List.filter_cons_of_pos h, List.map_cons]
    · have hopen : (slotOf ht e).isOpen = true := by
        rw [isOpen_slotOf, Bool.eq_false_iff.mpr h]
        rfl
      rw [entries_open hopen, ih, List.filter_cons_of_neg h]

end View

theorem next_eq (ht : Htable) (i : ℕ) : ht.next i = (i + 1) % 2 ^ ht.bits := by
  rw [Htable.next, Nat.one_shiftLeft, Nat.and_two_pow_sub_one_eq_mod]

theorem hashBucket_eq (ht : Htable) (h : Word) : hashBucket ht h = h.toNat % 2 ^ ht.bits := by
  rw [hashBucket, Nat.one_shiftLeft, Nat.and_two_pow_sub_one_eq_mod]

theorem hashBucket_lt (ht : Htable) (h : Word) : hashBucket ht h < 2 ^ ht.bits := by
  rw [hashBucket_eq]
  exact Nat.mod_lt _ (Nat.two_pow_pos _)

variable (rehash : Word → Word)

/-- The slot the hash of a pointer asks for. -/
def home (ht : Htable) (p : Word) : ℕ := hashBucket ht (rehash p)

/-- The bits of the hash, and the perfect bit where the pointer is at home. -/
def tag (ht : Htable) (p : Word) (j : ℕ) : Word :=
  getHashPtrBits ht (rehash p) ||| if j = home rehash ht p then ht.perfectBit else 0

/-- Every valid slot stands for a pointer and has its tag. -/
def Tagged (k : ℕ) (ht : Htable) (t : List Word) : Prop :=
  ∀ j e, t[j]? = some e → entryIsValid e = true →
    IsPtr k (getRawPtr ht e) ∧ getExtraPtrBits ht e = tag rehash ht (getRawPtr ht e) j

/-- The settings of a table for such pointers. -/
structure Ready (k : ℕ) (ht : Htable) : Prop extends Masked ht where
  top : ht.commonMask.getLsbD k = false

variable {rehash} {k : ℕ} {ht : Htable} {t : List Word}

theorem tag_mask (h : Masked ht) (p : Word) (j : ℕ) :
    tag rehash ht p j &&& ht.commonMask = tag rehash ht p j := by
  apply hashBits_mask h
  split
  · exact .inl rfl
  · exact .inr rfl

theorem getRawPtr_common (h : Masked ht) (e : Word) :
    getRawPtr ht e &&& ht.commonMask = ht.commonBits := by
  have hcommon := h.common
  rw [getRawPtr]
  ext i hi
  have hbit := congrArg (fun w : Word => w[i]) hcommon
  simp only [BitVec.getElem_and, BitVec.getElem_or, BitVec.getElem_not] at hbit ⊢
  grind

theorem Tagged.set_open (h : Tagged rehash k ht t) {e : Word} (he : entryIsValid e = false)
    (j : ℕ) : Tagged rehash k ht (t.set j e) := by
  intro i e' he' hv
  rw [List.getElem?_set] at he'
  split at he'
  · split at he'
    · obtain rfl := Option.some.inj he'
      simp [he] at hv
    · simp at he'
  · exact h i e' he' hv

/-! ### Adding -/

/-- Behind the first slot the loop looks for an open one and drops the perfect bit. -/
theorem htAddLoop_zero (hlen : t.length = 2 ^ ht.bits) (n i : ℕ) :
    htAddLoop (ht.withTable t) n i 0 =
      (seek Slot.isOpen (view ht t) n i).map fun j => (j, 0) := by
  induction n generalizing i with
  | zero => rfl
  | succ n ih =>
    rw [htAddLoop, seek, view_getElem?, slots_withTable]
    cases t[i]? with
    | none => rfl
    | some e =>
      simp only [Option.bind_eq_bind, Option.bind_some, Option.map_some, isOpen_slotOf]
      cases entryIsValid e with
      | true =>
        simp only [if_true, Bool.not_true, Bool.false_eq_true, if_false]
        rw [ih, next_withTable, next_eq, length_view, hlen]
      | false => rfl

/-- The loop keeps the perfect bit in the first slot only. -/
theorem htAddLoop_eq (hlen : t.length = 2 ^ ht.bits) {n i j : ℕ}
    (h : seek Slot.isOpen (view ht t) n i = some j) :
    htAddLoop (ht.withTable t) n i ht.perfectBit =
      some (j, if j = i then ht.perfectBit else 0) := by
  obtain ⟨s, hs, hopen⟩ := stopsAt_of_seek h
  cases n with
  | zero => simp [seek] at h
  | succ n =>
    rw [seek, view_getElem?] at h
    rw [htAddLoop, slots_withTable]
    cases he : t[i]? with
    | none => simp [he] at h
    | some e =>
      simp only [he, Option.map_some, Option.bind_eq_bind, Option.bind_some, isOpen_slotOf] at h ⊢
      cases hv : entryIsValid e with
      | false =>
        simp only [hv, Bool.not_false, if_true] at h
        obtain rfl := Option.some.inj h
        simp
      | true =>
        have hne : j ≠ i := by
          rintro rfl
          rw [view_getElem?, he] at hs
          obtain rfl := Option.some.inj hs
          rw [isOpen_slotOf, hv] at hopen
          simp at hopen
        simp only [hv, Bool.not_true, Bool.false_eq_true, if_false, if_true] at h ⊢
        rw [length_view, hlen] at h
        rw [next_withTable, next_eq, htAddLoop_zero hlen, h, if_neg hne]
        rfl

/-- `ht_add` puts the pointer where the table puts it, with its tag. -/
theorem htAdd_spec (hready : Ready k ht) (hlen : t.length = 2 ^ ht.bits)
    (htag : Tagged rehash k ht t) {p : Word} (hp : IsPtr k p)
    (hcommon : p &&& ht.commonMask = ht.commonBits) {s : List (Slot Word)}
    (h : add (home rehash ht) (view ht t) p = some s) :
    ∃ t', htAdd (ht.withTable t) p (rehash p) = some (ht.withTable t') ∧ view ht t' = s ∧
      Tagged rehash k ht t' := by
  rw [add, Option.map_eq_some_iff] at h
  obtain ⟨j, hseek, rfl⟩ := h
  rw [length_view] at hseek
  have hmask : tag rehash ht p j &&& _ = _ := tag_mask hready.toMasked p j
  have hvalid := valid_makeHval hp hready.top (tag rehash ht p j)
  have hraw := getRawPtr_makeHval hmask hcommon
  refine ⟨t.set j (makeHval ht p (tag rehash ht p j)), ?_, ?_, ?_⟩
  · have hloop := htAddLoop_eq hlen hseek
    rw [hlen, ← Nat.one_shiftLeft] at hloop
    rw [htAdd, bits_withTable, hashBucket_withTable, perfectBit_withTable]
    rw [home] at hloop
    simp only [hloop, Option.bind_eq_bind, Option.bind_some]
    rfl
  · rw [view_set, slotOf_valid hvalid, hraw]
  · intro i e he hv
    rw [List.getElem?_set] at he
    split at he
    · rename_i hij
      split at he
      · obtain rfl := Option.some.inj he
        rw [hraw]
        exact ⟨hp, hij ▸ getExtraPtrBits_makeHval hmask⟩
      · simp at he
    · exact htag i e he hv

/-! ### Rehashing -/

/-- A pointer with the perfect bit is at home. -/
theorem eq_home_of_perfect {e : Word} {j : ℕ} (htag : Tagged rehash k ht t) (he : t[j]? = some e)
    (hv : entryIsValid e = true) (hm : Masked ht) (hperfect : e &&& ht.perfectBit ≠ 0) :
    j = home rehash ht (getRawPtr ht e) := by
  obtain ⟨-, hextra⟩ := htag j e he hv
  by_contra hne
  rw [getExtraPtrBits, tag, if_neg hne, getHashPtrBits] at hextra
  apply hperfect
  rw [← hm.perfect]
  ext i hi
  have hbit := congrArg (fun w : Word => w[i]) hextra
  simp only [BitVec.getElem_and, BitVec.getElem_or, BitVec.getElem_not] at hbit ⊢
  grind

/-- What `rehash_table` does with a slot is what the table does: a pointer with the perfect bit
would go where it is. -/
theorem rehashSlot_spec (hready : Ready k ht) (hlen : t.length = 2 ^ ht.bits)
    (htag : Tagged rehash k ht t) {j : ℕ} {s : List (Slot Word)}
    (h : Probing.rehashSlot (home rehash ht) (view ht t) j = some s) :
    ∃ t', rehashSlot rehash (ht.withTable t) j = some (ht.withTable t') ∧ view ht t' = s ∧
      Tagged rehash k ht t' := by
  have hview := h
  rw [Probing.rehashSlot, view_getElem?] at h
  rw [rehashSlot, slots_withTable]
  cases he : t[j]? with
  | none => simp [he] at h
  | some e =>
    simp only [he, Option.map_some, Option.bind_eq_bind, Option.bind_some] at h ⊢
    have h0 : entryIsValid 0 = false := by decide
    by_cases hfree : e = 0
    · rw [slotOf_eq_free.mpr hfree] at h
      rw [if_pos hfree]
      exact ⟨t, rfl, Option.some.inj h, htag⟩
    · by_cases hdel : e = htableDeleted
      · rw [slotOf_eq_deleted.mpr hdel] at h
        rw [if_neg hfree, if_pos hdel]
        refine ⟨t.set j 0, rfl, ?_, htag.set_open h0 j⟩
        rw [view_set]
        exact Option.some.inj h
      · have hv : entryIsValid e = true := entryIsValid_iff.mpr ⟨hfree, hdel⟩
        rw [slotOf_valid hv] at h
        rw [if_neg hfree, if_neg hdel, perfectBit_withTable]
        obtain ⟨hp, hextra⟩ := htag j e he hv
        by_cases hperfect : e &&& ht.perfectBit = 0
        · rw [if_pos hperfect]
          simp only [set_withTable, getRawPtr_withTable]
          have hset : (view ht t).set j Slot.free = view ht (t.set j 0) := (view_set j 0).symm
          rw [hset] at h
          exact htAdd_spec hready (by rw [List.length_set, hlen]) (htag.set_open h0 j) hp
            (getRawPtr_common hready.toMasked e) h
        · rw [if_neg hperfect]
          have hhome := eq_home_of_perfect htag he hv hready.toMasked hperfect
          refine ⟨t, rfl, ?_, htag⟩
          have hslot : (view ht t)[home rehash ht (getRawPtr ht e)]? =
              some (.entry (getRawPtr ht e)) := by
            rw [← hhome, view_getElem?, he, Option.map_some, slotOf_valid hv]
          have hkept := rehashSlot_home hslot
          rw [← hhome, hview] at hkept
          exact (Option.some.inj hkept).symm

/-- `rehash_table` keeps the pointers; all are found afterwards and no mark is left. -/
theorem rehashTable_spec (hready : Ready k ht) (hlen : t.length = 2 ^ ht.bits)
    (htag : Tagged rehash k ht t) (hfound : Found (home rehash ht) (view ht t))
    (hroom : (entries (view ht t)).length + marks (view ht t) < t.length) :
    ∃ t', rehashTable rehash (ht.withTable t) = some { ht.withTable t' with deleted := 0 } ∧
      t'.length = t.length ∧ Tagged rehash k ht t' ∧ Found (home rehash ht) (view ht t') ∧
      (entries (view ht t')).Perm (entries (view ht t)) ∧ marks (view ht t') = 0 := by
  obtain ⟨i, hi, hfree⟩ := exists_free (by rwa [length_view])
  have hzero : t[i]? = some 0 := by
    rw [view_getElem?, Option.map_eq_some_iff] at hfree
    obtain ⟨e, he, hslot⟩ := hfree
    rw [he, slotOf_eq_free.mp hslot]
  have hex : ∃ e ∈ t, (fun e : Word => decide (e = 0)) e = true :=
    ⟨0, List.mem_of_getElem? hzero, rfl⟩
  obtain ⟨start, hstart⟩ : ∃ start, t.findIdx? (fun e => decide (e = 0)) = some start := by
    rw [← Option.isSome_iff_exists, List.findIdx?_isSome, List.any_eq_true]
    exact hex
  have hs := hstart
  rw [List.findIdx?_eq_some_iff_getElem] at hs
  obtain ⟨hlt, hsome, -⟩ := hs
  have hview : (view ht t)[start]? = some .free := by
    rw [view_getElem?, List.getElem?_eq_getElem hlt, Option.map_some,
      slotOf_eq_free.mpr (by simpa using hsome)]
  have hhome : ∀ p ∈ entries (view ht t), home rehash ht p < (view ht t).length := by
    intro p _
    rw [length_view, hlen]
    exact hashBucket_lt ht _
  obtain ⟨s, hrun, hslen, hperm, hfound', hmarks⟩ := rehash_spec hfound hhome hview
  rw [Probing.rehash, length_view] at hrun
  -- every round does what the table does
  have hround : ∀ i ∈ List.range t.length, ∀ ht' v v',
      (∃ t', ht' = ht.withTable t' ∧ t'.length = t.length ∧ view ht t' = v ∧
        Tagged rehash k ht t') →
      Probing.rehashSlot (home rehash ht) v ((i + start) % v.length) = some v' →
      ∃ ht'', rehashSlot rehash ht' ((i + start) &&& (1 <<< ht'.bits - 1)) = some ht'' ∧
        ∃ t', ht'' = ht.withTable t' ∧ t'.length = t.length ∧ view ht t' = v' ∧
          Tagged rehash k ht t' := by
    rintro i - _ _ v' ⟨t', rfl, hlen', rfl, htag'⟩ hv'
    rw [length_view, hlen', hlen, ← Nat.and_two_pow_sub_one_eq_mod, ← Nat.one_shiftLeft] at hv'
    obtain ⟨t'', hslot, rfl, htag''⟩ := rehashSlot_spec hready (hlen'.trans hlen) htag' hv'
    refine ⟨_, hslot, t'', rfl, ?_, rfl, htag''⟩
    have hkeep := rehashSlot_length hv'
    rwa [length_view, length_view, hlen'] at hkeep
  obtain ⟨_, hfold, t', rfl, hlen', rfl, htag'⟩ := Loops.foldlM_simulates _ hround
    ⟨t, rfl, rfl, rfl, htag⟩ hrun
  refine ⟨t', ?_, hlen', htag', hfound', hperm, hmarks⟩
  rw [hlen, ← Nat.one_shiftLeft] at hfold
  rw [rehashTable, slots_withTable, hstart]
  simp only [Option.bind_eq_bind, Option.bind_some, bits_withTable, hfold]
  rfl

/-! ### Growing -/

/-- The loop of `double_table` puts in the pointers of the old slots one after the other. -/
theorem reAdd_spec {old : Htable} {l : List Word}
    (hraw : ∀ e, getRawPtr ht e = getRawPtr old e) (hready : Ready k ht)
    (hptr : ∀ p ∈ entries (view old l), IsPtr k p) {t : List Word}
    (hlen : t.length = 2 ^ ht.bits) (htag : Tagged rehash k ht t) {s : List (Slot Word)}
    (h : (entries (view old l)).foldlM (add (home rehash ht)) (view ht t) = some s) :
    ∃ t', l.foldlM (reAdd rehash) (ht.withTable t) = some (ht.withTable t') ∧
      view ht t' = s ∧ Tagged rehash k ht t' := by
  induction l generalizing t with
  | nil => exact ⟨t, rfl, Option.some.inj h, htag⟩
  | cons e l ih =>
    rw [entries_view] at h hptr
    by_cases hv : entryIsValid e = true
    · rw [List.filter_cons_of_pos hv, List.map_cons] at h hptr
      rw [List.foldlM_cons, Option.bind_eq_bind, Option.bind_eq_some_iff] at h
      obtain ⟨v, hv', hrest⟩ := h
      have hp := hptr _ List.mem_cons_self
      have hcommon : getRawPtr old e &&& ht.commonMask = ht.commonBits := by
        rw [← hraw]
        exact getRawPtr_common hready.toMasked e
      obtain ⟨mid, hadd, rfl, htag'⟩ := htAdd_spec hready hlen htag hp hcommon hv'
      have hlen' : mid.length = 2 ^ ht.bits := by
        have := add_length hv'
        rwa [length_view, length_view, hlen] at this
      rw [← entries_view] at hrest
      obtain ⟨t', hrun, hs, htag''⟩ := ih
        (fun p hp' => hptr p (List.mem_cons_of_mem _ (entries_view ▸ hp'))) hlen' htag' hrest
      refine ⟨t', ?_, hs, htag''⟩
      rw [List.foldlM_cons, reAdd, if_pos hv, getRawPtr_withTable, hraw, hadd]
      exact hrun
    · rw [List.filter_cons_of_neg hv, ← entries_view] at h hptr
      obtain ⟨t', hrun, hs, htag'⟩ := ih hptr hlen htag h
      refine ⟨t', ?_, hs, htag'⟩
      rw [List.foldlM_cons, reAdd, if_neg hv]
      exact hrun

end Faceplate.Ccan
