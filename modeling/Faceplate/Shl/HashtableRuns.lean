import Faceplate.Shl.Hashtable

/-!
# Runs of the hash table of keys and values

The table is a bag of keys and values. What is found under a key is a value that has been
inserted under it and not been removed, and something is found as long as there is one. When
the table is freed, the callback gets each value that is left once; the entries that have been
removed stay allocated.
-/

namespace Faceplate.Shl

variable {V : Type} {cb : ShlCallbacks} {k : ℕ} {tbl : ShlHashtable V}
  {cells : List (Ccan.Word × ShlHashentry V)}

/-- An operation on the table; an insertion with the answers of `malloc` and `calloc`. -/
inductive ShlHashOp (V : Type) where
  | find (key : UInt64)
  | insert (key : UInt64) (value : V) (entry : Option Ccan.Word) (calloc : Bool)
  | remove (key : UInt64)

/-- What the caller learns. -/
inductive ShlHashAnswer (V : Type) where
  | found (value : V)
  | missed
  | ret (code : ℤ)
  | done

/-- One operation. -/
def ShlHashOp.step (cb : ShlCallbacks) (tbl : ShlHashtable V) :
    ShlHashOp V → Option (ShlHashAnswer V × ShlHashtable V)
  | find key => do
    match ← shlHashtableFind cb tbl key with
    | some value => return (.found value, tbl)
    | none => return (.missed, tbl)
  | insert key value entry calloc => do
    let (ret, tbl) ← shlHashtableInsert cb tbl key value entry calloc
    return (.ret ret, tbl)
  | remove key => do
    let tbl ← shlHashtableRemove cb tbl key
    return (.done, tbl)

/-- An insertion gets an entry that `malloc` may answer, and the table finds room for it. -/
def ShlHashOp.Meets (k : ℕ) (tbl : ShlHashtable V) : ShlHashOp V → Prop
  | insert _ _ entry _ => tbl.Allows k entry ∧ tbl.tbl.elems < Ccan.maxPointers
  | find _ | remove _ => True

instance (k : ℕ) (tbl : ShlHashtable V) : ∀ op : ShlHashOp V, Decidable (op.Meets k tbl)
  | .insert _ _ _ _ => inferInstanceAs (Decidable (_ ∧ _))
  | .find _ | .remove _ => inferInstanceAs (Decidable True)

/-- What an operation does with the entries that are there: an insertion fails only if it gets
no memory, for its entry or for the table. -/
inductive ShlHashOp.Spec (cb : ShlCallbacks) :
    List (ShlHashentry V) → ShlHashOp V → ShlHashAnswer V → List (ShlHashentry V) → Prop
  | found {ents : List (ShlHashentry V)} {key : UInt64} {ent : ShlHashentry V} (h : ent ∈ ents)
      (hkey : cb.equalCb key ent.key = true) : Spec cb ents (.find key) (.found ent.value) ents
  | missed {ents : List (ShlHashentry V)} {key : UInt64}
      (h : ∀ ent ∈ ents, cb.equalCb key ent.key = false) : Spec cb ents (.find key) .missed ents
  | inserted {ents : List (ShlHashentry V)} {key : UInt64} {value : V} {entry : Ccan.Word}
      {calloc : Bool} :
      Spec cb ents (.insert key value (some entry) calloc) (.ret 0) (⟨key, value⟩ :: ents)
  | noMemory {ents : List (ShlHashentry V)} {key : UInt64} {value : V}
      {entry : Option Ccan.Word} {calloc : Bool} (h : entry = none ∨ calloc = false) :
      Spec cb ents (.insert key value entry calloc) (.ret (-12)) ents
  | removed {ents ents' : List (ShlHashentry V)} {key : UInt64} {ent : ShlHashentry V}
      (h : (ent :: ents').Perm ents) (hkey : cb.equalCb key ent.key = true) :
      Spec cb ents (.remove key) .done ents'
  | nothing {ents : List (ShlHashentry V)} {key : UInt64}
      (h : ∀ ent ∈ ents, cb.equalCb key ent.key = false) : Spec cb ents (.remove key) .done ents

namespace ShlHashtable.Holds

/-- An address that is not in use is none of an entry in the table. -/
theorem notMem_of_free (h : tbl.Holds cb k cells) {entry : Ccan.Word}
    (hfree : entry ∉ tbl.entries) : entry ∉ cells.map Prod.fst := by
  intro hmem
  obtain ⟨cell, hcell, rfl⟩ := List.mem_map.mp hmem
  apply hfree
  rw [← AList.lookup_isSome, h.lookup cell hcell]
  rfl

theorem ne_of_free (h : tbl.Holds cb k cells) {entry : Ccan.Word} (hfree : entry ∉ tbl.entries)
    {p : Ccan.Word} (hp : p ∈ cells.map Prod.fst) : p ≠ entry := by
  rintro rfl
  exact h.notMem_of_free hfree hp

/-- Finding gives the value of an entry with the key, or there is none. -/
theorem find (h : tbl.Holds cb k cells) (key : UInt64) :
    (∃ cell ∈ cells, shlHashtableFind cb tbl key = some (some cell.2.value) ∧
      cb.equalCb key cell.2.key = true) ∨
    (shlHashtableFind cb tbl key = some none ∧
      ∀ cell ∈ cells, cb.equalCb key cell.2.key = false) := by
  obtain ⟨entry, off, hget, hfound, hmiss⟩ := h.get key
  rw [shlHashtableFind, hget]
  simp only [Option.bind_eq_bind, Option.bind_some]
  by_cases h0 : entry = 0
  · rw [if_pos h0]
    exact .inr ⟨rfl, hmiss h0⟩
  · obtain ⟨cell, hcell, rfl, hkey, -⟩ := hfound h0
    rw [if_neg h0, h.lookup cell hcell]
    exact .inl ⟨cell, hcell, rfl, hkey⟩

/-- Removing takes one entry with the key out, if there is one. -/
theorem remove (h : tbl.Holds cb k cells) (key : UInt64) :
    ∃ tbl' cells', ShlHashOp.step cb tbl (.remove key) = some (.done, tbl') ∧
      tbl'.Holds cb k cells' ∧
      ShlHashOp.Spec cb (cells.map Prod.snd) (.remove key) .done (cells'.map Prod.snd) := by
  obtain ⟨entry, off, hget, hfound, hmiss⟩ := h.get key
  rw [ShlHashOp.step, shlHashtableRemove, hget]
  simp only [Option.bind_eq_bind, Option.bind_some]
  by_cases h0 : entry = 0
  · rw [if_pos h0]
    refine ⟨tbl, cells, rfl, h, .nothing fun ent hent => ?_⟩
    obtain ⟨cell, hcell, rfl⟩ := List.mem_map.mp hent
    exact hmiss h0 cell hcell
  · obtain ⟨cell, hcell, rfl, hkey, t, hdel, hholds⟩ := hfound h0
    obtain ⟨before, after, rfl⟩ := List.append_of_mem hcell
    have hperm : (cell :: (before ++ after)).Perm (before ++ cell :: after) :=
      List.perm_middle.symm
    have hnodup : (cell.1 :: (before ++ after).map Prod.fst).Nodup :=
      (hperm.map Prod.fst).nodup_iff.mpr h.nodup
    have herase : ((before ++ cell :: after).map Prod.fst).erase cell.1 =
        (before ++ after).map Prod.fst := by
      have hout : cell.1 ∉ before.map Prod.fst := by
        rw [List.nodup_cons, List.map_append, List.mem_append] at hnodup
        exact fun hmem => hnodup.1 (.inl hmem)
      rw [List.map_append, List.map_cons, List.erase_append_right _ hout, List.erase_cons_head,
        ← List.map_append]
    rw [if_neg h0, hdel]
    refine ⟨{ tbl with tbl := t }, before ++ after, rfl, ⟨?_, ?_, ?_⟩, .removed ?_ hkey⟩
    · rw [← herase]
      exact hholds
    · exact (List.nodup_cons.mp hnodup).2
    · exact fun c hc => h.lookup c (hperm.subset (List.mem_cons_of_mem _ hc))
    · exact hperm.map Prod.snd

/-- Inserting adds an entry, or nothing changes for want of memory. -/
theorem insert (h : tbl.Holds cb k cells) (key : UInt64) (value : V) {entry : Option Ccan.Word}
    (hentry : tbl.Allows k entry) (calloc : Bool) (hroom : tbl.tbl.elems < Ccan.maxPointers) :
    ∃ code tbl' cells', shlHashtableInsert cb tbl key value entry calloc = some (code, tbl') ∧
      tbl'.Holds cb k cells' ∧
      (code = 0 ∧ entry.isSome = true ∧
          cells'.map Prod.snd = ⟨key, value⟩ :: cells.map Prod.snd ∨
        code = -12 ∧ cells' = cells ∧ (entry = none ∨ calloc = false)) := by
  cases entry with
  | none => exact ⟨-12, tbl, cells, rfl, h, .inr ⟨rfl, rfl, .inl rfl⟩⟩
  | some entry =>
    obtain ⟨hfree, hptr⟩ := hentry
    have hout := h.notMem_of_free hfree
    rw [shlHashtableInsert]
    have hsame : ∀ p ∈ cells.map Prod.fst,
        shlRehash cb (tbl.entries.insert entry ⟨key, value⟩) p = shlRehash cb tbl.entries p := by
      intro p hp
      rw [shlRehash, shlRehash, AList.lookup_insert_ne (h.ne_of_free hfree hp)]
    have hkept : ∀ cell ∈ cells,
        (tbl.entries.insert entry ⟨key, value⟩).lookup cell.1 = some cell.2 := by
      intro cell hcell
      rw [AList.lookup_insert_ne (h.ne_of_free hfree (List.mem_map_of_mem hcell))]
      exact h.lookup cell hcell
    have hhash : shlRehash cb (tbl.entries.insert entry ⟨key, value⟩) entry = cb.hash key := by
      rw [shlRehash, AList.lookup_insert]
    obtain ⟨added, t, kept, hadd, hspec, hholds⟩ :=
      (h.table.congr hsame).add hptr hroom calloc
    rw [hhash] at hadd
    simp only [hadd, Option.bind_eq_bind, Option.bind_some]
    cases hspec with
    | added =>
      refine ⟨0, ⟨t, _⟩, (entry, ⟨key, value⟩) :: cells, rfl, ⟨hholds, ?_, ?_⟩,
        .inl ⟨rfl, rfl, rfl⟩⟩
      · exact List.nodup_cons.mpr ⟨hout, h.nodup⟩
      · intro cell hcell
        rcases List.mem_cons.mp hcell with rfl | hcell
        · exact AList.lookup_insert _
        · exact hkept cell hcell
    | failed =>
      have hback : ∀ p ∈ cells.map Prod.fst,
          ((tbl.entries.insert entry ⟨key, value⟩).erase entry).lookup p =
            (tbl.entries.insert entry ⟨key, value⟩).lookup p :=
        fun p hp => AList.lookup_erase_ne (h.ne_of_free hfree hp)
      refine ⟨-12, ⟨t, _⟩, cells, rfl, ⟨?_, h.nodup, ?_⟩, .inr ⟨rfl, rfl, .inr rfl⟩⟩
      · refine hholds.congr fun p hp => ?_
        rw [shlRehash, shlRehash, hback p hp]
      · intro cell hcell
        exact (hback _ (List.mem_map_of_mem hcell)).trans (hkept cell hcell)

end ShlHashtable.Holds

/-- The table holds entries with these keys and values. -/
def ShlHashtable.HoldsEntries (cb : ShlCallbacks) (k : ℕ) (tbl : ShlHashtable V)
    (ents : List (ShlHashentry V)) : Prop :=
  ∃ cells, tbl.Holds cb k cells ∧ ents = cells.map Prod.snd

namespace ShlHashtable.HoldsEntries

theorem step {ents : List (ShlHashentry V)} (h : tbl.HoldsEntries cb k ents) {op : ShlHashOp V}
    (hmeets : op.Meets k tbl) :
    ∃ answer tbl' ents', ShlHashOp.step cb tbl op = some (answer, tbl') ∧
      ShlHashOp.Spec cb ents op answer ents' ∧ tbl'.HoldsEntries cb k ents' := by
  obtain ⟨cells, hholds, rfl⟩ := h
  cases op with
  | find key =>
    rw [ShlHashOp.step]
    rcases hholds.find key with ⟨cell, hcell, hfind, hkey⟩ | ⟨hfind, hnone⟩
    · rw [hfind]
      exact ⟨.found cell.2.value, tbl, _, rfl, .found (List.mem_map_of_mem hcell) hkey, cells,
        hholds, rfl⟩
    · rw [hfind]
      refine ⟨.missed, tbl, _, rfl, .missed fun ent hent => ?_, cells, hholds, rfl⟩
      obtain ⟨cell, hcell, rfl⟩ := List.mem_map.mp hent
      exact hnone cell hcell
  | insert key value entry calloc =>
    obtain ⟨code, tbl', cells', hins, hholds', ⟨rfl, hentry, hents⟩ | ⟨rfl, rfl, hmem⟩⟩ :=
      hholds.insert key value hmeets.1 calloc hmeets.2
    · obtain ⟨entry, rfl⟩ := Option.isSome_iff_exists.mp hentry
      refine ⟨.ret 0, tbl', _, ?_, .inserted, cells', hholds', hents.symm⟩
      rw [ShlHashOp.step, hins]
      rfl
    · refine ⟨.ret (-12), tbl', _, ?_, .noMemory hmem, cells', hholds', rfl⟩
      rw [ShlHashOp.step, hins]
      rfl
  | remove key =>
    obtain ⟨tbl', cells', hstep, hholds', hspec⟩ := hholds.remove key
    exact ⟨.done, tbl', _, hstep, hspec, cells', hholds', rfl⟩

theorem run (cb : ShlCallbacks) {ops : List (ShlHashOp V)}
    (hmeets : Refinement.Along (ShlHashOp.step cb) (ShlHashOp.Meets k) shlHashtableNew ops) :
    ∃ answers tbl ents, Refinement.run (ShlHashOp.step cb) shlHashtableNew ops =
        some (answers, tbl) ∧ Refinement.Runs (ShlHashOp.Spec cb) [] ops answers ents ∧
      tbl.HoldsEntries cb k ents :=
  hmeets.run (fun _ _ _ hop h => h.step hop) ⟨[], .new, rfl⟩

end ShlHashtable.HoldsEntries

/-- A run of operations in which `malloc` never answers an entry that is in use, all entries have
the same highest bit, and an insertion always finds fewer of them in the table than fit into the
largest one. It is defined, and the answers are those of a bag of keys and values. -/
theorem shlHashtable_refines (cb : ShlCallbacks) (k : ℕ) {ops : List (ShlHashOp V)}
    (hmeets : Refinement.Along (ShlHashOp.step cb) (ShlHashOp.Meets k) shlHashtableNew ops) :
    ∃ answers tbl ents, Refinement.run (ShlHashOp.step cb) shlHashtableNew ops =
        some (answers, tbl) ∧ Refinement.Runs (ShlHashOp.Spec cb) [] ops answers ents := by
  obtain ⟨answers, tbl, ents, hrun, hruns, -⟩ := ShlHashtable.HoldsEntries.run cb hmeets
  exact ⟨answers, tbl, ents, hrun, hruns⟩

/-- Two pairs with one key; the memory runs out at the third insertion. -/
def threeInserts : List (ShlHashOp ℕ) :=
  [.insert 1 10 (some 0x1000) true, .insert 1 11 (some 0x1010) true, .find 1, .remove 1,
    .insert 2 20 none true, .find 2]

theorem shlHashtable_refines_three :
    ∃ answers tbl ents, Refinement.run (ShlHashOp.step shlDirect) shlHashtableNew threeInserts =
        some (answers, tbl) ∧
      Refinement.Runs (ShlHashOp.Spec shlDirect) [] threeInserts answers ents :=
  shlHashtable_refines shlDirect 12 (by decide +kernel)

end Faceplate.Shl
