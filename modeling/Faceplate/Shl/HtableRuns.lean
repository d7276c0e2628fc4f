import Faceplate.Lib.Refinement
import Faceplate.Shl.HtableChanges

/-!
# Runs of the hash table

Between two calls the table stands for the pointers that have been added and not deleted, and
a lookup sees exactly those. The hash a caller gives with a pointer is the one that the
callback gives for it; all pointers have the same highest bit, as those of one allocator do.
-/

namespace Faceplate.Ccan

open Probing

/-- The pointers of a table, in the order of its slots. -/
def pointers (ht : Htable) : List Word := (ht.slots.filter entryIsValid).map (getRawPtr ht)

/-- A call: `htable_add`, with the answer of `calloc`, or `htable_del`. -/
inductive Call where
  | add (p : Word) (calloc : Bool)
  | del (p : Word)

/-- The pointer a call is about. -/
def Call.pointer : Call → Word
  | add p _ => p
  | del p => p

section Step

variable (rehash : Word → Word)

/-- One call; the hash is that of the callback. -/
def Call.step (ht : Htable) : Call → Option (Bool × Htable)
  | add p calloc => htableAdd rehash ht (rehash p) p calloc
  | del p => htableDel ht (rehash p) p

end Step

/-- The pointers that fit into the largest table, the last one whose size `1 << bits` is an
`int`. -/
def maxPointers : ℕ := 3 * 2 ^ 28

/-- An addition finds room in the largest table. -/
def Call.Fits (ht : Htable) : Call → Prop
  | add _ _ => ht.elems < maxPointers
  | del _ => True

instance (ht : Htable) : ∀ call : Call, Decidable (call.Fits ht)
  | .add _ _ => inferInstanceAs (Decidable (_ < _))
  | .del _ => inferInstanceAs (Decidable True)

/-- What a call does with the pointers that are kept: an addition fails without memory only. -/
inductive Call.Spec : List Word → Call → Bool → List Word → Prop
  | added {kept : List Word} {p : Word} {calloc : Bool} :
      Spec kept (.add p calloc) true (p :: kept)
  | failed {kept : List Word} {p : Word} : Spec kept (.add p false) false kept
  | deleted {kept : List Word} {p : Word} (h : p ∈ kept) :
      Spec kept (.del p) true (kept.erase p)
  | missing {kept : List Word} {p : Word} (h : p ∉ kept) : Spec kept (.del p) false kept

/-- The table is the initial one, or it stands for these pointers. -/
def Holds (rehash : Word → Word) (k : ℕ) (ht : Htable) (kept : List Word) : Prop :=
  ht = htableInit ∧ kept = [] ∨
    ∃ t, Inv rehash k ht t ∧ (entries (view ht t)).Perm kept

variable {rehash : Word → Word} {k : ℕ} {ht : Htable} {kept : List Word}

namespace Holds

theorem pointers_perm (h : Holds rehash k ht kept) : (pointers ht).Perm kept := by
  rcases h with ⟨rfl, rfl⟩ | ⟨t, hinv, hperm⟩
  · decide
  · rw [pointers, hinv.slots, ← entries_view]
    exact hperm

theorem elems (h : Holds rehash k ht kept) : ht.elems = kept.length := by
  rcases h with ⟨rfl, rfl⟩ | ⟨t, hinv, hperm⟩
  · rfl
  · exact hinv.elems.trans hperm.length_eq

/-- The callback matters for the pointers that are kept only. -/
theorem congr (h : Holds rehash k ht kept) {rehash' : Word → Word}
    (hsame : ∀ p ∈ kept, rehash' p = rehash p) : Holds rehash' k ht kept := by
  rcases h with h | ⟨t, hinv, hperm⟩
  · exact .inl h
  · have hentry : ∀ {j : ℕ} {e : Word}, t[j]? = some e → entryIsValid e = true →
        rehash' (getRawPtr ht e) = rehash (getRawPtr ht e) := by
      intro j e he hv
      apply hsame
      rw [← hperm.mem_iff, mem_entries]
      exact ⟨j, by rw [view_getElem?, he, Option.map_some, slotOf_valid hv]⟩
    refine .inr ⟨t, { hinv with tagged := fun j e he hv => ?_, found := fun j p hp => ?_ }, hperm⟩
    · obtain ⟨hptr, hextra⟩ := hinv.tagged j e he hv
      refine ⟨hptr, hextra.trans ?_⟩
      rw [tag, tag, home, home, hentry he hv]
    · have hreached := hinv.found j p hp
      rw [view_getElem?, Option.map_eq_some_iff] at hp
      obtain ⟨e, he, hslot⟩ := hp
      obtain ⟨hv, rfl⟩ := slotOf_eq_entry.mp hslot
      rw [Reached, home, hentry he hv]
      exact hreached

/-! ### The first pointer -/

/-- The table after the first call of `double_table`. -/
def first : Htable := ⟨1, 0, 0, 1, 1, -1, 0, 1, some [0, 0]⟩

theorem inv_first {p : Word} (hp : IsPtr k p) : Inv rehash k (first.sharing k p) [0, 0] where
  toMasked := masked_sharing first hp.1 p
  top := top_sharing first hp.lt p
  bits_pos := Nat.le_refl 1
  bits_lt := show 1 < 31 by decide
  length := rfl
  max := show 1 = 3 * 2 ^ 1 / 4 by decide
  maxWithDeleted := show 1 = 9 * 2 ^ 1 / 10 by decide
  tagged := by
    intro j e he hv
    have hmem := List.mem_of_getElem? he
    obtain rfl : e = 0 := by simpa using hmem
    simp [entryIsValid] at hv
  found := found_replicate 2
  table := rfl
  elems := rfl
  marks := Nat.le_refl 0
  le_max := Nat.zero_le 1
  room := Nat.zero_le 1

theorem htableAdd_init {p : Word} (hp : IsPtr k p) :
    ∃ ht t, htableAdd rehash htableInit (rehash p) p true = some (true, ht) ∧
      Inv rehash k ht t ∧ (entries (view ht t)).Perm [p] := by
  have hinv : Inv rehash k _ _ := inv_first hp
  obtain ⟨ht, t, hadd, hinv', hperm⟩ := hinv.htableAddRoom hp (Nat.le_refl 1) (Nat.le_refl 1)
  refine ⟨ht, t, ?_, hinv', hperm⟩
  have hdouble : doubleTable rehash htableInit true = some (true, first) := by
    rw [doubleTable_true (by decide)]
    have hgrown : htableInit.grown = first := by decide
    rw [hgrown]
    rfl
  have hdiff : p &&& first.commonMask ≠ first.commonBits := by
    intro h
    apply hp.ne_zero
    have hall : p &&& first.commonMask = p := by
      have hones : (-1 : Word) = BitVec.allOnes 64 := by decide
      change p &&& -1 = p
      rw [hones, BitVec.and_allOnes]
    rw [← hall, h]
    rfl
  have hupdate : updateCommon first p = first.sharing k p := by
    rw [updateCommon, if_pos (show first.elems = 0 from rfl),
      hp.topBit (by have := hp.lt; omega) (by decide)]
    rfl
  have hsame : p &&& (first.sharing k p).commonMask = (first.sharing k p).commonBits := rfl
  rw [htableAdd, if_pos (by decide), hdouble]
  simp only [Option.bind_eq_bind, Option.bind_some, if_true]
  rw [htableAddDoubled, if_neg (by decide), htableAddRoom, if_neg hp.ne_zero, if_pos hdiff, hupdate]
  rw [htableAddRoom, if_neg hp.ne_zero, if_neg (not_not.mpr hsame)] at hadd
  exact hadd

/-! ### One call -/

/-- Without memory nothing changes. -/
theorem doubleTable_false (hbits : ht.bits < 30) :
    doubleTable rehash ht false = some (false, ht) := by
  rw [doubleTable, if_neg (by omega), if_neg Bool.false_ne_true]

theorem add (h : Holds rehash k ht kept) {p : Word} (hp : IsPtr k p)
    (hroom : ht.elems < maxPointers) (calloc : Bool) :
    ∃ added ht' kept', htableAdd rehash ht (rehash p) p calloc = some (added, ht') ∧
      Call.Spec kept (.add p calloc) added kept' ∧ Holds rehash k ht' kept' := by
  unfold maxPointers at hroom
  by_cases hfull : ht.elems + 1 > ht.max
  · have hbits : ht.bits < 30 := by
      rcases h with ⟨rfl, -⟩ | ⟨t, hinv, -⟩
      · decide
      · by_contra hge
        have hlt := hinv.bits_lt
        have hmax := hinv.max
        rw [show ht.bits = 30 by omega] at hmax
        omega
    rcases calloc with _ | _
    · refine ⟨false, ht, kept, ?_, .failed, h⟩
      rw [htableAdd, if_pos hfull, doubleTable_false hbits]
      rfl
    · rcases h with ⟨rfl, rfl⟩ | ⟨t, hinv, hperm⟩
      · obtain ⟨ht', t', hadd, hinv' : Inv rehash k _ _, hperm'⟩ := htableAdd_init hp
        exact ⟨true, ht', [p], hadd, .added, .inr ⟨t', hinv', hperm'⟩⟩
      · obtain ⟨ht₁, t₁, hdouble, hinv₁, hperm₁, hmax⟩ := hinv.doubleTable hbits hfull
        obtain ⟨ht', t', hadd, hinv', hperm'⟩ := hinv₁.htableAddDoubled hp hmax
        refine ⟨true, ht', p :: kept, ?_, .added, .inr ⟨t', hinv', ?_⟩⟩
        · rw [htableAdd, if_pos hfull, hdouble]
          exact hadd
        · exact hperm'.trans ((hperm₁.trans hperm).cons p)
  · rcases h with ⟨rfl, rfl⟩ | ⟨t, hinv, hperm⟩
    · exact absurd (by decide) hfull
    · obtain ⟨ht', t', hadd, hinv', hperm'⟩ := hinv.htableAddDoubled hp (by omega)
      refine ⟨true, ht', p :: kept, ?_, .added, .inr ⟨t', hinv', hperm'.trans (hperm.cons p)⟩⟩
      rw [htableAdd, if_neg hfull]
      exact hadd

/-- In the initial table nothing is found. -/
theorem htableGet_init (hash : Word) (cmp : Word → Bool) :
    htableGet htableInit hash cmp = some (0, 0) := by
  have hbucket : hashBucket htableInit hash = 0 := by
    have hlt := hashBucket_lt htableInit hash
    rw [show htableInit.bits = 0 from rfl] at hlt
    omega
  have hfirst : htableFirstval htableInit hash = some (0, 0) := by
    rw [htableFirstval, hbucket]
    rfl
  rw [htableGet, hfirst]
  rfl

/-- What a lookup answers, and what deleting at its iterator leaves. -/
theorem get (h : Holds rehash k ht kept) (hash : Word) (cmp : Word → Bool) :
    ∃ c off, htableGet ht hash cmp = some (c, off) ∧
      (c ≠ 0 → c ∈ kept ∧ cmp c = true ∧
        ∃ ht', htableDelval ht off = some ht' ∧ Holds rehash k ht' (kept.erase c)) ∧
      (c = 0 → ∀ p ∈ kept, rehash p = hash → cmp p = false) := by
  rcases h with ⟨rfl, rfl⟩ | ⟨t, hinv, hperm⟩
  · exact ⟨0, 0, htableGet_init hash cmp, by simp, by simp⟩
  · obtain ⟨c, off, hget, hfound, hmiss⟩ := hinv.htableGet hash cmp
    refine ⟨c, off, hget, fun hc => ?_, fun hc p hp => ?_⟩
    · obtain ⟨hcmp, e, he, hv, rfl⟩ := hfound hc
      obtain ⟨ht', t', hdel, hinv', hperm'⟩ := hinv.htableDelval he hv
      have hcons := hperm'.trans hperm
      have hmem : getRawPtr ht e ∈ kept := hcons.mem_iff.mp List.mem_cons_self
      refine ⟨hmem, hcmp, ht', hdel, .inr ⟨t', hinv', ?_⟩⟩
      exact (hcons.trans (List.perm_cons_erase hmem)).cons_inv
    · exact hmiss hc p (hperm.mem_iff.mpr hp)

/-- A loop that stops at the first candidate that passes a test finds it among the candidates. -/
theorem getLoop_of_vals {hash : Word} {n : ℕ} {r : Word × ℕ} {vals : List Word}
    (h : htableValsLoop ht hash n r = some vals) (cmp : Word → Bool) :
    ∃ off, htableGetLoop ht hash cmp n r = some ((vals.find? cmp).getD 0, off) := by
  induction n generalizing r vals with
  | zero => simp [htableValsLoop] at h
  | succ n ih =>
    obtain ⟨c, off⟩ := r
    rw [htableValsLoop] at h
    rw [htableGetLoop]
    by_cases h0 : c = 0
    · rw [if_pos h0] at h ⊢
      obtain rfl := Option.some.inj h
      exact ⟨off, rfl⟩
    · rw [if_neg h0] at h ⊢
      simp only [Option.bind_eq_bind, Option.bind_eq_some_iff] at h
      obtain ⟨r', hr', rest, hrest, hvals⟩ := h
      obtain rfl := Option.some.inj hvals
      by_cases hcmp : cmp c = true
      · rw [if_pos hcmp, List.find?_cons_of_pos hcmp]
        exact ⟨off, rfl⟩
      · rw [if_neg hcmp, hr', List.find?_cons_of_neg hcmp]
        exact ih hrest

/-- The loop over the candidates ends if the one that stops at none of them does. -/
theorem vals_of_getLoop {hash : Word} {n : ℕ} {r r' : Word × ℕ}
    (h : htableGetLoop ht hash (fun _ => false) n r = some r') :
    ∃ vals, htableValsLoop ht hash n r = some vals ∧ ∀ p ∈ vals, p ≠ 0 := by
  induction n generalizing r with
  | zero => simp [htableGetLoop] at h
  | succ n ih =>
    obtain ⟨c, off⟩ := r
    rw [htableGetLoop] at h
    rw [htableValsLoop]
    by_cases h0 : c = 0
    · rw [if_pos h0]
      exact ⟨[], rfl, by simp⟩
    · rw [if_neg h0, if_neg Bool.false_ne_true, Option.bind_eq_bind,
        Option.bind_eq_some_iff] at h
      obtain ⟨r'', hr'', hloop⟩ := h
      obtain ⟨rest, hrest, hne⟩ := ih hloop
      refine ⟨c :: rest, ?_, ?_⟩
      · rw [if_neg h0, hr'']
        simp only [Option.bind_eq_bind, Option.bind_some, hrest]
        rfl
      · intro p hp
        rcases List.mem_cons.mp hp with rfl | hp
        · exact h0
        · exact hne p hp

/-- The candidates for a hash: every pointer with this hash that is kept is one, all of them
are kept, and a lookup finds the first one that passes its test. -/
theorem vals (h : Holds rehash k ht kept) (hash : Word) :
    ∃ vals, htableVals ht hash = some vals ∧ (∀ p ∈ kept, rehash p = hash → p ∈ vals) ∧
      (∀ p ∈ vals, p ∈ kept) ∧
      ∀ cmp, ∃ off, htableGet ht hash cmp = some ((vals.find? cmp).getD 0, off) := by
  obtain ⟨c, off, hget, -, -⟩ := h.get hash fun _ => false
  rw [htableGet, Option.bind_eq_bind, Option.bind_eq_some_iff] at hget
  obtain ⟨r, hfirst, hloop⟩ := hget
  obtain ⟨vals, hvals, hne⟩ := vals_of_getLoop hloop
  have hfind : ∀ cmp, ∃ off, htableGet ht hash cmp = some ((vals.find? cmp).getD 0, off) := by
    intro cmp
    rw [htableGet, hfirst]
    exact getLoop_of_vals hvals cmp
  refine ⟨vals, ?_, fun p hp hhash => ?_, fun p hp => ?_, hfind⟩
  · rw [htableVals, hfirst]
    exact hvals
  · obtain ⟨c, off, hget, hfound, hmiss⟩ := h.get hash fun q => decide (q = p)
    obtain ⟨off', hget'⟩ := hfind fun q => decide (q = p)
    obtain ⟨rfl, -⟩ := Prod.mk.inj (Option.some.inj (hget'.symm.trans hget))
    cases hcase : vals.find? fun q => decide (q = p) with
    | some q =>
      obtain rfl : q = p := by simpa using List.find?_some hcase
      exact List.mem_of_find?_eq_some hcase
    | none =>
      rw [hcase] at hmiss
      simpa using hmiss rfl p hp hhash
  · obtain ⟨c, off, hget, hfound, -⟩ := h.get hash fun q => decide (q = p)
    obtain ⟨off', hget'⟩ := hfind fun q => decide (q = p)
    obtain ⟨rfl, -⟩ := Prod.mk.inj (Option.some.inj (hget'.symm.trans hget))
    cases hcase : vals.find? fun q => decide (q = p) with
    | none =>
      have := List.find?_eq_none.mp hcase p hp
      simp at this
    | some q =>
      obtain rfl : q = p := by simpa using List.find?_some hcase
      rw [hcase] at hfound
      exact (hfound (hne q hp)).1

theorem del (h : Holds rehash k ht kept) {p : Word} (hp : IsPtr k p) :
    ∃ deleted ht' kept', htableDel ht (rehash p) p = some (deleted, ht') ∧
      Call.Spec kept (.del p) deleted kept' ∧ Holds rehash k ht' kept' := by
  obtain ⟨c, off, hget, hfound, hmiss⟩ := h.get (rehash p) fun c => decide (c = p)
  rw [htableDel, hget]
  simp only [Option.bind_eq_bind, Option.bind_some]
  by_cases hc : c = 0
  · have hnone : p ∉ kept := fun hmem => by simpa using hmiss hc p hmem rfl
    rw [if_pos hc]
    exact ⟨false, ht, kept, rfl, .missing hnone, h⟩
  · obtain ⟨hmem, hcp, ht', hdel, hholds⟩ := hfound hc
    obtain rfl : c = p := of_decide_eq_true hcp
    rw [if_neg hc, hdel]
    exact ⟨true, ht', kept.erase c, rfl, .deleted hmem, hholds⟩

/-- One call about such a pointer, an addition where there is room. -/
theorem step (h : Holds rehash k ht kept) {call : Call} (hp : IsPtr k call.pointer)
    (hfits : call.Fits ht) :
    ∃ answer ht' kept', Call.step rehash ht call = some (answer, ht') ∧
      Call.Spec kept call answer kept' ∧ Holds rehash k ht' kept' := by
  cases call with
  | add p calloc => exact h.add hp hfits calloc
  | del p => exact h.del hp

/-- Every run of such calls is defined. -/
theorem run {calls : List Call} (hptr : ∀ call ∈ calls, IsPtr k call.pointer)
    (hfits : Refinement.Along (Call.step rehash) Call.Fits htableInit calls) :
    ∃ answers ht kept, Refinement.run (Call.step rehash) htableInit calls = some (answers, ht) ∧
      Refinement.Runs Call.Spec [] calls answers kept ∧ Holds rehash k ht kept :=
  Refinement.Along.run (fun _ _ _ hcall h => h.step hcall.1 hcall.2)
    ((Refinement.along_of_forall (fun call hcall _ => hptr call hcall) htableInit).and hfits)
    (.inl ⟨rfl, rfl⟩)

end Holds

/-- A run of calls about pointers with the same highest bit, in which an addition always finds
fewer pointers than fit into the largest table. Each call ends and answers as the pointers kept
have it; in the end the table holds exactly those, and it counts them. -/
theorem htable_keeps (rehash : Word → Word) (k : ℕ) {calls : List Call}
    (hptr : ∀ call ∈ calls, IsPtr k call.pointer)
    (hfits : Refinement.Along (Call.step rehash) Call.Fits htableInit calls) :
    ∃ answers ht kept, Refinement.run (Call.step rehash) htableInit calls = some (answers, ht) ∧
      Refinement.Runs Call.Spec [] calls answers kept ∧ (pointers ht).Perm kept ∧
      ht.elems = kept.length := by
  obtain ⟨answers, ht, kept, hrun, hruns, hholds⟩ := Holds.run hptr hfits
  exact ⟨answers, ht, kept, hrun, hruns, hholds.pointers_perm, hholds.elems⟩

/-- Six pointers with the hashes 0 and 1 make the table grow three times. -/
theorem htable_keeps_six :
    ∃ answers ht kept, Refinement.run (Call.step fun p => (p >>> 4) &&& 1) htableInit
        [.add 0x1000 true, .add 0x1010 true, .add 0x1020 true, .add 0x1030 true,
          .add 0x1040 true, .del 0x1010, .add 0x1050 true] = some (answers, ht) ∧
      Refinement.Runs Call.Spec [] [.add 0x1000 true, .add 0x1010 true, .add 0x1020 true,
        .add 0x1030 true, .add 0x1040 true, .del 0x1010, .add 0x1050 true] answers kept ∧
      (pointers ht).Perm kept ∧ ht.elems = kept.length :=
  htable_keeps (fun p => (p >>> 4) &&& 1) 12 (by decide) (by decide +kernel)

/-- After such a run the loop over the candidates for any hash ends. Every pointer with the hash
that is kept is a candidate and all candidates are kept, so that a lookup, which stops at the
first one that passes its test, finds what is there and nothing else. -/
theorem htable_candidates (rehash : Word → Word) (k : ℕ) {calls : List Call}
    (hptr : ∀ call ∈ calls, IsPtr k call.pointer)
    (hfits : Refinement.Along (Call.step rehash) Call.Fits htableInit calls) :
    ∃ answers ht kept, Refinement.run (Call.step rehash) htableInit calls = some (answers, ht) ∧
      Refinement.Runs Call.Spec [] calls answers kept ∧
      ∀ hash, ∃ vals, htableVals ht hash = some vals ∧
        (∀ p ∈ kept, rehash p = hash → p ∈ vals) ∧ (∀ p ∈ vals, p ∈ kept) ∧
        ∀ cmp, ∃ off, htableGet ht hash cmp = some ((vals.find? cmp).getD 0, off) := by
  obtain ⟨answers, ht, kept, hrun, hruns, hholds⟩ := Holds.run hptr hfits
  exact ⟨answers, ht, kept, hrun, hruns, hholds.vals⟩

theorem htable_candidates_three :
    ∃ answers ht kept, Refinement.run (Call.step fun p => (p >>> 4) &&& 1) htableInit
        [.add 0x1000 true, .add 0x1020 true, .add 0x1010 true] = some (answers, ht) ∧
      Refinement.Runs Call.Spec [] [.add 0x1000 true, .add 0x1020 true, .add 0x1010 true]
        answers kept ∧
      ∀ hash, ∃ vals, htableVals ht hash = some vals ∧
        (∀ p ∈ kept, (p >>> 4) &&& 1 = hash → p ∈ vals) ∧ (∀ p ∈ vals, p ∈ kept) ∧
        ∀ cmp, ∃ off, htableGet ht hash cmp = some ((vals.find? cmp).getD 0, off) :=
  htable_candidates (fun p => (p >>> 4) &&& 1) 12 (by decide) (by decide +kernel)

end Faceplate.Ccan
