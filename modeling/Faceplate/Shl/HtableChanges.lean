import Faceplate.Shl.HtableLookup

/-!
# Changes of the hash table

Deleting a pointer, taking bits out of the shared ones, rehashing, growing and adding: each of
them keeps the table in order, and what the table stands for changes by one pointer at most.
-/

namespace Faceplate.Ccan

open Probing

variable {rehash : Word → Word} {k : ℕ} {ht : Htable} {t : List Word}

/-! ### Deleting -/

/-- `htable_delval` takes one pointer out. -/
theorem Inv.htableDelval (h : Inv rehash k ht t) {off : ℕ} {e : Word} (he : t[off]? = some e)
    (hv : entryIsValid e = true) :
    ∃ ht' t', htableDelval ht off = some ht' ∧ Inv rehash k ht' t' ∧
      (getRawPtr ht e :: entries (view ht' t')).Perm (entries (view ht t)) := by
  have hslot : (view ht t)[off]? = some (.entry (getRawPtr ht e)) := by
    rw [view_getElem?, he, Option.map_some, slotOf_valid hv]
  have hset : view ht (t.set off htableDeleted) = (view ht t).set off .deleted := view_set off _
  have hperm := entries_set_open hslot (s := .deleted) rfl
  have hcount := hperm.length_eq
  rw [List.length_cons] at hcount
  have hmarks := marks_set hslot Slot.deleted
  simp only [isFree_entry, isOpen_entry, Bool.and_false, Bool.false_eq_true, if_false,
    isFree_deleted, isOpen_deleted, Bool.not_false, Bool.and_self, if_true] at hmarks
  have hdel : entryIsValid htableDeleted = false := by decide
  have helems := h.elems
  have hle := h.marks
  have hmax := h.le_max
  have hroom := h.room
  have hshape : Shape rehash k ht (t.set off htableDeleted) :=
    { h.toShape with
      length := by rw [List.length_set, h.length]
      tagged := h.tagged.set_open hdel off
      found := by
        rw [hset]
        exact h.found.set_deleted off }
  refine ⟨{ ht.withTable (t.set off htableDeleted) with
    elems := ht.elems - 1, deleted := ht.deleted + 1 }, t.set off htableDeleted, ?_, ?_, ?_⟩
  · rw [Ccan.htableDelval, h.slots, he]
    simp only [Option.bind_eq_bind, Option.bind_some, hv, if_true, h.set]
    rfl
  · refine ⟨hshape.count _ _ _, rfl, ?_, ?_, ?_, ?_⟩
    · change ht.elems - 1 = (entries (view ht (t.set off htableDeleted))).length
      rw [hset]
      omega
    · change Probing.marks (view ht (t.set off htableDeleted)) ≤ ht.deleted + 1
      rw [hset]
      omega
    · change ht.elems - 1 ≤ ht.max
      omega
    · change ht.elems - 1 + (ht.deleted + 1) ≤ ht.maxWithDeleted
      have : (entries (view ht t)).length ≥ 1 := by omega
      omega
  · change (_ :: entries (view ht (t.set off htableDeleted))).Perm _
    rw [hset]
    exact hperm

/-! ### Fewer shared bits -/

/-- With other settings the words stand for the same table. -/
theorem Inv.of_view (h : Inv rehash k ht t) {ht' : Htable} {t' : List Word}
    (hready : Ready k ht') (htag : Tagged rehash k ht' t') (hview : view ht' t' = view ht t)
    (hbits : ht'.bits = ht.bits) (hmax : ht'.max = ht.max)
    (hmwd : ht'.maxWithDeleted = ht.maxWithDeleted) (helems : ht'.elems = ht.elems)
    (hdeleted : ht'.deleted = ht.deleted) (htable : ht'.table = some t') :
    Inv rehash k ht' t' where
  toReady := hready
  bits_pos := by rw [hbits]; exact h.bits_pos
  bits_lt := by rw [hbits]; exact h.bits_lt
  length := by
    have hlen := congrArg List.length hview
    rw [length_view, length_view] at hlen
    rw [hlen, hbits, h.length]
  max := by rw [hmax, hbits, h.max]
  maxWithDeleted := by rw [hmwd, hbits, h.maxWithDeleted]
  tagged := htag
  found := by
    have hhome : home rehash ht' = home rehash ht := by
      funext p
      rw [home, home, hashBucket, hashBucket, hbits]
    rw [hhome, hview]
    exact h.found
  table := htable
  elems := by rw [helems, hview, h.elems]
  marks := by rw [hview, hdeleted]; exact h.marks
  le_max := by rw [helems, hmax]; exact h.le_max
  room := by rw [helems, hdeleted, hmwd]; exact h.room

theorem view_unshared (h : Inv rehash k ht t) {diff : Word} (hdiff : diff &&& ht.commonMask = diff) :
    view (ht.unshared diff) (t.map (unshare ht diff)) = view ht t := by
  rw [view, view, List.map_map, List.map_inj_left]
  intro e he
  obtain ⟨j, hj⟩ := List.mem_iff_getElem?.mp he
  have hv := entryIsValid_unshare h.toMasked h.top hdiff fun hv => (h.tagged j e hj hv).1
  rw [Function.comp_apply]
  by_cases hvalid : entryIsValid e = true
  · rw [slotOf_valid (hv.trans hvalid), slotOf_valid hvalid, getRawPtr_unshare hdiff hvalid]
  · rw [unshare, if_neg hvalid, slotOf, slotOf]
    have hopen := mt entryIsValid_iff.mpr hvalid
    grind

theorem tagged_unshared (h : Inv rehash k ht t) {diff : Word}
    (hdiff : diff &&& ht.commonMask = diff) :
    Tagged rehash k (ht.unshared diff) (t.map (unshare ht diff)) := by
  intro j e' he' hv'
  rw [List.getElem?_map, Option.map_eq_some_iff] at he'
  obtain ⟨e, he, rfl⟩ := he'
  have hv := entryIsValid_unshare h.toMasked h.top hdiff fun hv => (h.tagged j e he hv).1
  rw [hv] at hv'
  obtain ⟨hp, hextra⟩ := h.tagged j e he hv'
  rw [getRawPtr_unshare hdiff hv', getExtraPtrBits_unshare hv', hextra]
  refine ⟨hp, ?_⟩
  rw [tag, tag, getHashPtrBits_unshared]
  have hhome : home rehash (ht.unshared diff) (getRawPtr ht e) = home rehash ht (getRawPtr ht e) :=
    rfl
  have hperfect : (ht.unshared diff).perfectBit = ht.perfectBit &&& ~~~diff := rfl
  rw [hhome, hperfect]
  ext i hi
  simp only [BitVec.getElem_and, BitVec.getElem_or, BitVec.getElem_not]
  split
  · simp only [BitVec.getElem_and, BitVec.getElem_not]
    grind
  · simp

/-- `update_common` makes room for the bits of a pointer and keeps the others. -/
theorem Inv.updateCommon (h : Inv rehash k ht t) {p : Word} (hp : IsPtr k p) :
    ∃ t', Inv rehash k (updateCommon ht p) t' ∧ view (updateCommon ht p) t' = view ht t ∧
      p &&& (updateCommon ht p).commonMask = (updateCommon ht p).commonBits ∧
      (updateCommon ht p).elems = ht.elems ∧ (updateCommon ht p).deleted = ht.deleted ∧
      (updateCommon ht p).max = ht.max ∧
      (updateCommon ht p).maxWithDeleted = ht.maxWithDeleted := by
  by_cases h0 : ht.elems = 0
  · have hk := hp.lt
    have hupdate : Ccan.updateCommon ht p = ht.sharing k p := by
      rw [Ccan.updateCommon, if_pos h0, hp.topBit (by omega) (by omega)]
      rfl
    have hopen : ∀ e ∈ t, entryIsValid e = false := by
      have hnil : t.filter entryIsValid = [] := by
        have helems := h.elems
        rw [h0, entries_view, List.length_map] at helems
        exact List.eq_nil_of_length_eq_zero helems.symm
      intro e he
      simpa using List.filter_eq_nil_iff.mp hnil e he
    have hready : Ready k (ht.sharing k p) := ⟨masked_sharing ht hp.1 p, top_sharing ht hk p⟩
    have hview : view (ht.sharing k p) t = view ht t := by
      rw [view, view, List.map_inj_left]
      intro e he
      have hinvalid := mt entryIsValid_iff.mpr (Bool.eq_false_iff.mp (hopen e he))
      rw [slotOf, slotOf]
      grind
    rw [hupdate]
    refine ⟨t, h.of_view hready ?_ hview rfl rfl rfl rfl rfl h.table, hview, rfl, rfl, rfl, rfl,
      rfl⟩
    intro j e he hv
    rw [hopen e (List.mem_of_getElem? he)] at hv
    simp at hv
  · have hupdate : Ccan.updateCommon ht p =
        ht.unshared (ht.commonBits ^^^ (p &&& ht.commonMask)) := by
      rw [Ccan.updateCommon, if_neg h0]
      rfl
    have hdiff : (ht.commonBits ^^^ (p &&& ht.commonMask)) &&& ht.commonMask =
        ht.commonBits ^^^ (p &&& ht.commonMask) := by
      rw [← h.common]
      ext i hi
      simp only [BitVec.getElem_and, BitVec.getElem_xor]
      grind
    have htop : (ht.unshared (ht.commonBits ^^^ (p &&& ht.commonMask))).commonMask.getLsbD k =
        false := by
      rw [Htable.unshared, BitVec.getLsbD_and, h.top, Bool.false_and]
    have hview := view_unshared h hdiff
    rw [hupdate]
    refine ⟨_, h.of_view ⟨h.toMasked.unshared _, htop⟩ (tagged_unshared h hdiff) hview rfl rfl rfl
      rfl rfl ?_, hview, common_unshared h.toMasked p, rfl, rfl, rfl, rfl⟩
    rw [Htable.unshared, h.table, Option.map_some]

/-! ### Adding -/

/-- `rehash_table` keeps the pointers and clears the counter of marks. -/
theorem Inv.rehashTable (h : Inv rehash k ht t) :
    ∃ ht' t', rehashTable rehash ht = some ht' ∧ Inv rehash k ht' t' ∧
      (entries (view ht' t')).Perm (entries (view ht t)) ∧ ht'.elems = ht.elems ∧
      ht'.deleted = 0 ∧ ht'.max = ht.max ∧ ht'.maxWithDeleted = ht.maxWithDeleted := by
  have hroom : (entries (view ht t)).length + Probing.marks (view ht t) < t.length := by
    have hpow := Nat.two_pow_pos ht.bits
    have hmarks := h.marks
    have hlimit := h.room
    rw [h.maxWithDeleted, h.elems] at hlimit
    rw [h.length]
    omega
  obtain ⟨t', hrun, hlen, htag, hfound, hperm, hmarks⟩ :=
    rehashTable_spec h.toReady h.length h.tagged h.found hroom
  have hshape : Shape rehash k ht t' :=
    { h.toShape with length := hlen.trans h.length, tagged := htag, found := hfound }
  refine ⟨{ ht.withTable t' with deleted := 0 }, t', ?_, ?_, hperm, rfl, rfl, rfl, rfl⟩
  · rw [← hrun, ← h.eq_withTable]
  · refine ⟨hshape.count _ _ _, rfl, ?_, ?_, h.le_max, ?_⟩
    · exact h.elems.trans hperm.length_eq.symm
    · change Probing.marks (view ht t') ≤ 0
      omega
    · change ht.elems + 0 ≤ ht.maxWithDeleted
      have := h.room
      omega

/-- `ht_add` behind `update_common`: the pointer is one more. -/
theorem Inv.htableAddRoom (h : Inv rehash k ht t) {p : Word} (hp : IsPtr k p)
    (hmax : ht.elems + 1 ≤ ht.max) (hroom : ht.elems + 1 + ht.deleted ≤ ht.maxWithDeleted) :
    ∃ ht' t', htableAddRoom ht (rehash p) p = some (true, ht') ∧ Inv rehash k ht' t' ∧
      (entries (view ht' t')).Perm (p :: entries (view ht t)) := by
  obtain ⟨ht₁, t₁, hht₁, hinv, hview, hcommon, helems, hdeleted, hmax₁, hmwd⟩ :
      ∃ ht₁ t₁, (if p &&& ht.commonMask ≠ ht.commonBits then Ccan.updateCommon ht p else ht) = ht₁ ∧
        Inv rehash k ht₁ t₁ ∧ view ht₁ t₁ = view ht t ∧
        p &&& ht₁.commonMask = ht₁.commonBits ∧ ht₁.elems = ht.elems ∧
        ht₁.deleted = ht.deleted ∧ ht₁.max = ht.max ∧
        ht₁.maxWithDeleted = ht.maxWithDeleted := by
    by_cases hcommon : p &&& ht.commonMask ≠ ht.commonBits
    · rw [if_pos hcommon]
      obtain ⟨t₁, hrest⟩ := h.updateCommon hp
      exact ⟨_, t₁, rfl, hrest⟩
    · rw [if_neg hcommon]
      exact ⟨ht, t, rfl, h, rfl, not_not.mp hcommon, rfl, rfl, rfl, rfl⟩
  have hfull : (entries (view ht₁ t₁)).length + Probing.marks (view ht₁ t₁) <
      (view ht₁ t₁).length := by
    have hpow := Nat.two_pow_pos ht₁.bits
    have hmarks := hinv.marks
    have hlimit := hinv.room
    rw [hinv.maxWithDeleted, hinv.elems] at hlimit
    rw [length_view, hinv.length]
    omega
  have hhome : home rehash ht₁ p < (view ht₁ t₁).length := by
    rw [length_view, hinv.length]
    exact hashBucket_lt ht₁ _
  obtain ⟨s, hadd, hslen, hperm, hfound, hmarks⟩ := add_of_free hhome hinv.found hfull
  obtain ⟨t', hrun, rfl, htag⟩ := htAdd_spec hinv.toReady hinv.length hinv.tagged hp hcommon hadd
  rw [length_view, length_view] at hslen
  have hshape : Shape rehash k ht₁ t' :=
    { hinv.toShape with length := hslen.trans hinv.length, tagged := htag, found := hfound }
  have hcount := hperm.length_eq
  rw [List.length_cons, ← hinv.elems] at hcount
  refine ⟨{ ht₁.withTable t' with elems := ht₁.elems + 1 }, t', ?_, ?_, ?_⟩
  · rw [Ccan.htableAddRoom, if_neg hp.ne_zero]
    simp only [hht₁]
    rw [← hinv.eq_withTable] at hrun
    rw [hrun]
    rfl
  · refine ⟨hshape.count _ _ _, rfl, hcount.symm, ?_, ?_, ?_⟩
    · exact hmarks.trans hinv.marks
    · change ht₁.elems + 1 ≤ ht₁.max
      omega
    · change ht₁.elems + 1 + ht₁.deleted ≤ ht₁.maxWithDeleted
      omega
  · rw [← hview]
    exact hperm

/-- `htable_add` behind `double_table`. -/
theorem Inv.htableAddDoubled (h : Inv rehash k ht t) {p : Word} (hp : IsPtr k p)
    (hmax : ht.elems + 1 ≤ ht.max) :
    ∃ ht' t', htableAddDoubled rehash ht (rehash p) p = some (true, ht') ∧
      Inv rehash k ht' t' ∧ (entries (view ht' t')).Perm (p :: entries (view ht t)) := by
  rw [Ccan.htableAddDoubled]
  by_cases hfull : ht.elems + 1 + ht.deleted > ht.maxWithDeleted
  · obtain ⟨ht₁, t₁, hrun, hinv, hperm, helems, hdeleted, hmax₁, hmwd⟩ := h.rehashTable
    have hroom : ht₁.elems + 1 + ht₁.deleted ≤ ht₁.maxWithDeleted := by
      have hm := h.max
      have hd := h.maxWithDeleted
      omega
    obtain ⟨ht', t', hadd, hinv', hperm'⟩ := hinv.htableAddRoom hp (by omega) hroom
    rw [if_pos hfull, hrun]
    exact ⟨ht', t', hadd, hinv', hperm'.trans (hperm.cons p)⟩
  · rw [if_neg hfull]
    exact h.htableAddRoom hp hmax (by omega)

/-- The table `double_table` puts the pointers into. -/
def Htable.grown (ht : Htable) : Htable :=
  { ht with
    table := some (List.replicate (1 <<< (ht.bits + 1)) 0)
    bits := ht.bits + 1
    max := 3 <<< (ht.bits + 1) / 4
    maxWithDeleted := 9 <<< (ht.bits + 1) / 10
    perfectBit :=
      if ht.perfectBit = 0 ∧ ht.commonMask ≠ 0 then
        match lowestBit ht.commonMask with
        | some i => (1 : Word) <<< i
        | none => ht.perfectBit
      else ht.perfectBit }

theorem doubleTable_true (hbits : ht.bits < 30) :
    doubleTable rehash ht true =
      ((ht.table.getD []).foldlM (reAdd rehash) ht.grown).map fun filled =>
        (true, { filled with deleted := 0 }) := by
  rw [doubleTable, if_neg (by omega), if_pos rfl, Option.map_eq_bind]
  rfl

theorem lowestBit_spec {mask : Word} {i : ℕ} (h : lowestBit mask = some i) :
    i < 64 ∧ mask.getLsbD i = true := by
  rw [lowestBit, List.find?_eq_some_iff_append] at h
  obtain ⟨hbit, before, after, hrange, -⟩ := h
  have hi : i < 64 := by
    rw [← List.mem_range, hrange]
    simp
  refine ⟨hi, ?_⟩
  by_contra hne
  rw [Bool.not_eq_true, ← and_shiftLeft_eq_zero hi] at hne
  exact of_decide_eq_true hbit hne

theorem ready_grown (h : Ready k ht) : Ready k ht.grown where
  common := h.common
  top := h.top
  perfect := by
    change ht.grown.perfectBit &&& ht.commonMask = ht.grown.perfectBit
    rw [Htable.grown]
    dsimp only
    split
    · split
      · rename_i i hi
        obtain ⟨hlt, hbit⟩ := lowestBit_spec hi
        ext j hj
        have htwo : ((1 : Word) <<< i)[j] = decide (i = j) := by
          rw [← BitVec.getLsbD_eq_getElem]
          exact (BitVec.getLsbD_twoPow i j).trans (by simp [hlt])
        rw [BitVec.getElem_and, htwo]
        by_cases hij : i = j
        · subst hij
          rw [← BitVec.getLsbD_eq_getElem, hbit]
          simp
        · simp [hij]
      · exact h.perfect
    · exact h.perfect

theorem view_replicate (ht : Htable) (n : ℕ) :
    view ht (List.replicate n 0) = List.replicate n .free := by
  rw [view, List.map_replicate]
  rfl

/-- `double_table` keeps the pointers, and there is room for one more. -/
theorem Inv.doubleTable (h : Inv rehash k ht t) (hbits : ht.bits < 30)
    (hfull : ht.elems + 1 > ht.max) :
    ∃ ht' t', doubleTable rehash ht true = some (true, ht') ∧ Inv rehash k ht' t' ∧
      (entries (view ht' t')).Perm (entries (view ht t)) ∧ ht'.elems + 1 ≤ ht'.max := by
  have hpow : 2 ^ (ht.bits + 1) = 2 * 2 ^ ht.bits := Nat.pow_succ'
  have hone : 1 ≤ 2 ^ ht.bits := Nat.two_pow_pos _
  have htwo : 2 ≤ 2 ^ ht.bits := by
    calc 2 = 2 ^ 1 := rfl
      _ ≤ 2 ^ ht.bits := Nat.pow_le_pow_right (by decide) h.bits_pos
  have hmax := h.max
  have hle := h.le_max
  have helems := h.elems
  have hready := ready_grown h.toReady
  have hlen : (List.replicate (1 <<< (ht.bits + 1)) (0 : Word)).length = 2 ^ ht.grown.bits := by
    rw [List.length_replicate, Nat.one_shiftLeft]
    rfl
  have hview : view ht.grown (List.replicate (1 <<< (ht.bits + 1)) 0) =
      List.replicate (2 ^ (ht.bits + 1)) .free := by
    rw [view_replicate, Nat.one_shiftLeft]
  have hnone : Tagged rehash k ht.grown (List.replicate (1 <<< (ht.bits + 1)) 0) := by
    intro j e he hv
    obtain rfl := List.eq_of_mem_replicate (List.mem_of_getElem? he)
    simp [entryIsValid] at hv
  have hhome : ∀ p ∈ entries (view ht t), home rehash ht.grown p <
      (List.replicate (2 ^ (ht.bits + 1)) (Slot.free : Slot Word)).length := by
    intro p _
    rw [List.length_replicate]
    exact hashBucket_lt ht.grown _
  obtain ⟨s, hall, hslen, hperm, hfound, hmarks⟩ := addAll_spec hhome (found_replicate _) (by
    rw [entries_replicate, marks_replicate, List.length_replicate, List.length_nil]
    omega)
  rw [← hview] at hall
  have hptr : ∀ p ∈ entries (view ht t), IsPtr k p := by
    intro p hp
    obtain ⟨j, hj⟩ := mem_entries.mp hp
    rw [view_getElem?, Option.map_eq_some_iff] at hj
    obtain ⟨e, he, hslot⟩ := hj
    obtain ⟨hv, rfl⟩ := slotOf_eq_entry.mp hslot
    exact (h.tagged j e he hv).1
  obtain ⟨t', hrun, rfl, htag⟩ := reAdd_spec (fun _ => rfl) hready hptr hlen hnone hall
  rw [entries_replicate, List.append_nil] at hperm
  rw [length_view, List.length_replicate] at hslen
  rw [marks_replicate] at hmarks
  have hcount := hperm.length_eq
  have hshape : Shape rehash k ht.grown t' :=
    { hready with
      bits_pos := by
        change 1 ≤ ht.bits + 1
        omega
      bits_lt := by
        change ht.bits + 1 < 31
        omega
      length := hslen
      max := by
        change 3 <<< (ht.bits + 1) / 4 = 3 * 2 ^ (ht.bits + 1) / 4
        rw [Nat.shiftLeft_eq]
      maxWithDeleted := by
        change 9 <<< (ht.bits + 1) / 10 = 9 * 2 ^ (ht.bits + 1) / 10
        rw [Nat.shiftLeft_eq]
      tagged := htag
      found := hfound }
  have hmax' : ht.grown.max = 3 * 2 ^ (ht.bits + 1) / 4 := hshape.max
  have hmwd' : ht.grown.maxWithDeleted = 9 * 2 ^ (ht.bits + 1) / 10 := hshape.maxWithDeleted
  refine ⟨{ ht.grown.withTable t' with deleted := 0 }, t', ?_, ?_, hperm, ?_⟩
  · rw [doubleTable_true hbits, h.table, Option.getD_some]
    have hgrown : ht.grown.withTable (List.replicate (1 <<< (ht.bits + 1)) 0) = ht.grown := rfl
    rw [hgrown] at hrun
    rw [hrun]
    rfl
  · refine ⟨hshape.count _ _ _, rfl, helems.trans hcount.symm, hmarks, ?_, ?_⟩
    · change ht.elems ≤ ht.grown.max
      omega
    · change ht.elems + 0 ≤ ht.grown.maxWithDeleted
      omega
  · change ht.elems + 1 ≤ ht.grown.max
    omega

end Faceplate.Ccan
