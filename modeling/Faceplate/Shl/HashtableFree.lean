import Faceplate.Shl.HashtableRuns

/-!
# Going through the whole table

`htable_first` and `htable_next` go through the pointers in the order of the slots, and
deleting the one at the iterator does not disturb them. With them `shl_hashtable_free` hands
each value to the callback once.
-/

namespace Faceplate.Ccan

open Probing

/-- The loop goes to the next valid slot. -/
theorem htableFrom_valid {ht : Htable} {pre open' post : List Word} {e : Word}
    (hslots : ht.slots = pre ++ open' ++ e :: post)
    (hopen : ∀ x ∈ open', entryIsValid x = false) (hv : entryIsValid e = true) :
    htableFrom ht (open' ++ e :: post).length pre.length =
      some (getRawPtr ht e, (pre ++ open').length) := by
  induction open' generalizing pre with
  | nil =>
    rw [List.append_nil] at hslots ⊢
    rw [List.nil_append, List.length_cons, htableFrom, hslots,
      List.getElem?_append_right (Nat.le_refl _), Nat.sub_self]
    simp only [List.getElem?_cons_zero, Option.bind_eq_bind, Option.bind_some, hv, if_true]
    rfl
  | cons x open' ih =>
    have hx := hopen x List.mem_cons_self
    rw [List.cons_append, List.length_cons, htableFrom, hslots, List.append_assoc,
      List.getElem?_append_right (Nat.le_refl _), Nat.sub_self]
    simp only [List.cons_append, List.getElem?_cons_zero, Option.bind_eq_bind, Option.bind_some,
      hx, Bool.false_eq_true, if_false]
    have hslots' : ht.slots = pre ++ [x] ++ open' ++ e :: post := by simp [hslots]
    have := ih hslots' fun y hy => hopen y (List.mem_cons_of_mem _ hy)
    simpa using this

/-- Behind the last valid slot it gives `NULL`. -/
theorem htableFrom_none {ht : Htable} {pre rest : List Word} (hslots : ht.slots = pre ++ rest)
    (hopen : ∀ x ∈ rest, entryIsValid x = false) :
    htableFrom ht rest.length pre.length = some (0, (pre ++ rest).length) := by
  induction rest generalizing pre with
  | nil => rw [List.append_nil]; rfl
  | cons x rest ih =>
    have hx := hopen x List.mem_cons_self
    rw [List.length_cons, htableFrom, hslots, List.getElem?_append_right (Nat.le_refl _),
      Nat.sub_self]
    simp only [List.getElem?_cons_zero, Option.bind_eq_bind, Option.bind_some, hx,
      Bool.false_eq_true, if_false]
    have hslots' : ht.slots = pre ++ [x] ++ rest := by simp [hslots]
    have := ih hslots' fun y hy => hopen y (List.mem_cons_of_mem _ hy)
    simpa using this

/-- What `htable_delval` leaves. -/
def Htable.deletedAt (ht : Htable) (off : ℕ) : Htable :=
  { ht.set off htableDeleted with elems := ht.elems - 1, deleted := ht.deleted + 1 }

theorem htableDelval_eq {ht : Htable} {off : ℕ} {e : Word} (he : ht.slots[off]? = some e)
    (hv : entryIsValid e = true) : htableDelval ht off = some (ht.deletedAt off) := by
  rw [htableDelval, he]
  simp only [Option.bind_eq_bind, Option.bind_some, hv, if_true]
  rfl

theorem slots_deletedAt (ht : Htable) {off : ℕ} (hoff : off < ht.slots.length) :
    (ht.deletedAt off).slots = ht.slots.set off htableDeleted := by
  obtain ⟨bits, elems, deleted, max, maxWithDeleted, mask, common, perfect, table⟩ := ht
  cases table with
  | some t => rfl
  | none =>
    obtain rfl : off = 0 := by simpa [Htable.slots] using hoff
    rfl

theorem getRawPtr_deletedAt (ht : Htable) (off : ℕ) :
    getRawPtr (ht.deletedAt off) = getRawPtr ht := by
  funext e
  rw [Htable.deletedAt, Htable.set]
  cases ht.table <;> rfl

theorem bits_deletedAt (ht : Htable) (off : ℕ) : (ht.deletedAt off).bits = ht.bits := by
  rw [Htable.deletedAt, Htable.set]
  cases ht.table <;> rfl

/-- The size of a table between two calls. -/
theorem Holds.length_slots {rehash : Word → Word} {k : ℕ} {ht : Htable} {kept : List Word}
    (h : Holds rehash k ht kept) : ht.slots.length = 1 <<< ht.bits := by
  rcases h with ⟨rfl, -⟩ | ⟨t, hinv, -⟩
  · rfl
  · rw [hinv.slots, hinv.length, Nat.one_shiftLeft]

/-- Pointers that are kept are not `NULL`. -/
theorem Holds.ne_zero {rehash : Word → Word} {k : ℕ} {ht : Htable} {kept : List Word}
    (h : Holds rehash k ht kept) {p : Word} (hp : p ∈ kept) : p ≠ 0 := by
  rcases h with ⟨rfl, rfl⟩ | ⟨t, hinv, hperm⟩
  · simp at hp
  · obtain ⟨j, hj⟩ := mem_entries.mp (hperm.mem_iff.mpr hp)
    rw [view_getElem?, Option.map_eq_some_iff] at hj
    obtain ⟨e, he, hslot⟩ := hj
    obtain ⟨hv, rfl⟩ := slotOf_eq_entry.mp hslot
    exact (hinv.tagged j e he hv).1.ne_zero

end Faceplate.Ccan

namespace Faceplate.Shl

variable {V : Type}

/-- The loop hands out the values of the pointers that are left, in the order of the slots, and
frees their entries. -/
theorem freeLoop_spec {cells : List (Ccan.Word × ShlHashentry V)} {ht : Ccan.Htable}
    {pre rest : List Ccan.Word} {entries : Entries V} {n : ℕ}
    (hslots : ht.slots = pre ++ rest) (hlen : ht.slots.length = 1 <<< ht.bits)
    (hcells : cells.map Prod.fst =
      (rest.filter Ccan.entryIsValid).map (Ccan.getRawPtr ht))
    (hne : ∀ cell ∈ cells, cell.1 ≠ 0) (hnodup : (cells.map Prod.fst).Nodup)
    (hlookup : ∀ cell ∈ cells, entries.lookup cell.1 = some cell.2) (hn : cells.length < n)
    (freed : List V) :
    ∃ r entries', Ccan.htableFrom ht rest.length pre.length = some r ∧
      shlHashtableFreeLoop n ht entries freed r =
        some (freed ++ cells.map fun cell => cell.2.value, entries') ∧
      ∀ p, entries'.lookup p = if p ∈ cells.map Prod.fst then none else entries.lookup p := by
  induction cells generalizing ht pre rest entries n freed with
  | nil =>
    have hopen : ∀ x ∈ rest, Ccan.entryIsValid x = false := by
      have hnil : rest.filter Ccan.entryIsValid = [] := List.map_eq_nil_iff.mp hcells.symm
      intro x hx
      simpa using List.filter_eq_nil_iff.mp hnil x hx
    obtain ⟨n, rfl⟩ : ∃ m, n = m + 1 := ⟨n - 1, by simp at hn; omega⟩
    refine ⟨_, entries, Ccan.htableFrom_none hslots hopen, ?_, by simp⟩
    rw [shlHashtableFreeLoop, if_pos rfl]
    simp
  | cons cell cells ih =>
    rw [List.map_cons, eq_comm, List.map_eq_cons_iff] at hcells
    obtain ⟨e, es, hfilter, hraw, hes⟩ := hcells
    obtain ⟨open', post, rfl, hopen, hv, hpost⟩ := List.filter_eq_cons_iff.mp hfilter
    have hopen' : ∀ x ∈ open', Ccan.entryIsValid x = false := by simpa using hopen
    obtain ⟨n, rfl⟩ : ∃ m, n = m + 1 := ⟨n - 1, by simp at hn; omega⟩
    rw [← List.append_assoc] at hslots
    have hfirst := Ccan.htableFrom_valid hslots hopen' hv
    have hoff : (pre ++ open').length < ht.slots.length := by
      rw [hslots]
      simp
    have hget : ht.slots[(pre ++ open').length]? = some e := by
      rw [hslots, List.getElem?_append_right (Nat.le_refl _), Nat.sub_self]
      rfl
    have hdel := Ccan.htableDelval_eq hget hv
    have hslots' : (ht.deletedAt (pre ++ open').length).slots =
        (pre ++ open' ++ [Ccan.htableDeleted]) ++ post := by
      rw [Ccan.slots_deletedAt ht hoff, hslots, List.set_append_right _ _ (Nat.le_refl _),
        Nat.sub_self]
      simp
    have hlen' : (ht.deletedAt (pre ++ open').length).slots.length =
        1 <<< (ht.deletedAt (pre ++ open').length).bits := by
      rw [Ccan.slots_deletedAt ht hoff, List.length_set, hlen, Ccan.bits_deletedAt]
    have hcell := hlookup cell List.mem_cons_self
    have hout : cell.1 ∉ cells.map Prod.fst := (List.nodup_cons.mp hnodup).1
    have hkept : ∀ c ∈ cells, (entries.erase cell.1).lookup c.1 = some c.2 := by
      intro c hc
      have hne' : c.1 ≠ cell.1 := fun heq => hout (heq ▸ List.mem_map_of_mem hc)
      rw [AList.lookup_erase_ne hne']
      exact hlookup c (List.mem_cons_of_mem _ hc)
    obtain ⟨r, entries', hnext, hloop, hrest⟩ := ih hslots' hlen'
      (by rw [Ccan.getRawPtr_deletedAt, hpost, hes])
      (fun c hc => hne c (List.mem_cons_of_mem _ hc)) (List.nodup_cons.mp hnodup).2 hkept
      (by simpa using hn) (freed ++ [cell.2.value])
    have hsize : post.length = 1 <<< ht.bits - ((pre ++ open').length + 1) := by
      rw [← hlen, hslots]
      simp only [List.length_append, List.length_cons]
      omega
    have hnext' : Ccan.htableNext (ht.deletedAt (pre ++ open').length) (pre ++ open').length =
        some r := by
      have hone : (pre ++ open' ++ [Ccan.htableDeleted]).length = (pre ++ open').length + 1 := by
        rw [List.length_append]
        rfl
      rw [Ccan.htableNext, Ccan.bits_deletedAt, ← hsize, ← hone]
      exact hnext
    refine ⟨_, entries', hfirst, ?_, ?_⟩
    · rw [shlHashtableFreeLoop, if_neg (hraw ▸ hne cell List.mem_cons_self), hdel, hraw, hcell]
      simp only [Option.bind_eq_bind, Option.bind_some, hnext', hloop]
      simp
    · intro p
      rw [hrest]
      by_cases hp : p = cell.1
      · subst hp
        rw [if_neg hout, AList.lookup_erase, if_pos (by simp)]
      · rw [AList.lookup_erase_ne hp, List.map_cons]
        simp only [List.mem_cons, hp, false_or]

/-- Freeing the table hands the value of each entry in it to the callback once and frees those
entries and no others. -/
theorem ShlHashtable.Holds.free {cb : ShlCallbacks} {k : ℕ} {tbl : ShlHashtable V}
    {cells : List (Ccan.Word × ShlHashentry V)} (h : tbl.Holds cb k cells) :
    ∃ freed entries', shlHashtableFree tbl = some (freed, entries') ∧
      freed.Perm (cells.map fun cell => cell.2.value) ∧
      ∀ p, entries'.lookup p = if p ∈ cells.map Prod.fst then none else tbl.entries.lookup p := by
  have hlen := h.table.length_slots
  obtain ⟨order, horder, hperm⟩ : ∃ order : List (Ccan.Word × ShlHashentry V),
      Ccan.pointers tbl.tbl = order.map Prod.fst ∧ order.Perm cells := by
    have hcomp := congrFun (congrFun (List.eq_map_comp_perm
      (Prod.fst : Ccan.Word × ShlHashentry V → Ccan.Word)) (Ccan.pointers tbl.tbl)) cells
    exact hcomp.mpr h.table.pointers_perm
  have hnodup : (order.map Prod.fst).Nodup := (hperm.map Prod.fst).nodup_iff.mpr h.nodup
  have hbound : order.length < 1 <<< tbl.tbl.bits + 1 := by
    have hle : (Ccan.pointers tbl.tbl).length ≤ tbl.tbl.slots.length := by
      rw [Ccan.pointers, List.length_map]
      exact List.length_filter_le _ _
    rw [horder, List.length_map] at hle
    omega
  obtain ⟨r, entries', hfirst, hloop, hrest⟩ := freeLoop_spec
    (show tbl.tbl.slots = [] ++ tbl.tbl.slots from rfl) hlen horder.symm
    (fun cell hcell => h.table.ne_zero (List.mem_map_of_mem (hperm.subset hcell))) hnodup
    (fun cell hcell => h.lookup cell (hperm.subset hcell)) hbound []
  refine ⟨order.map fun cell => cell.2.value, entries', ?_, hperm.map _, fun p => ?_⟩
  · rw [hlen, List.length_nil] at hfirst
    rw [shlHashtableFree, Ccan.htableFirst, hfirst]
    exact hloop
  · have hmem : p ∈ order.map Prod.fst ↔ p ∈ cells.map Prod.fst := (hperm.map Prod.fst).mem_iff
    rw [hrest p]
    simp only [hmem]

/-- After every run of such operations, freeing the table hands the value of each entry that is
left in it to the callback once, and what stays allocated are the entries that are not in it. -/
theorem shlHashtable_freed (cb : ShlCallbacks) (k : ℕ) {ops : List (ShlHashOp V)}
    (hmeets : Refinement.Along (ShlHashOp.step cb) (ShlHashOp.Meets k) shlHashtableNew ops) :
    ∃ answers tbl ents freed left, Refinement.run (ShlHashOp.step cb) shlHashtableNew ops =
        some (answers, tbl) ∧ Refinement.Runs (ShlHashOp.Spec cb) [] ops answers ents ∧
      shlHashtableFree tbl = some (freed, left) ∧ freed.Perm (ents.map ShlHashentry.value) ∧
      ∀ p, p ∈ left ↔ p ∈ tbl.entries ∧ p ∉ Ccan.pointers tbl.tbl := by
  obtain ⟨answers, tbl, _, hrun, hruns, cells, hholds, rfl⟩ :=
    ShlHashtable.HoldsEntries.run cb hmeets
  obtain ⟨freed, left, hfree, hperm, hleft⟩ := hholds.free
  refine ⟨answers, tbl, _, freed, left, hrun, hruns, hfree, ?_, fun p => ?_⟩
  · rw [List.map_map]
    exact hperm
  · have hmem : p ∈ Ccan.pointers tbl.tbl ↔ p ∈ cells.map Prod.fst :=
      hholds.table.pointers_perm.mem_iff
    rw [hmem, ← AList.lookup_isSome, ← AList.lookup_isSome, hleft p]
    split
    · simp_all
    · simp_all

/-- Of two entries one has been removed; it stays allocated. -/
theorem shlHashtable_freed_three :
    ∃ answers tbl ents freed left, Refinement.run (ShlHashOp.step shlDirect) shlHashtableNew
        threeInserts = some (answers, tbl) ∧
      Refinement.Runs (ShlHashOp.Spec shlDirect) [] threeInserts answers ents ∧
      shlHashtableFree tbl = some (freed, left) ∧ freed.Perm (ents.map ShlHashentry.value) ∧
      ∀ p, p ∈ left ↔ p ∈ tbl.entries ∧ p ∉ Ccan.pointers tbl.tbl :=
  shlHashtable_freed shlDirect 12 (by decide +kernel)

end Faceplate.Shl
