import Mathlib.Data.Nat.Log
import Faceplate.Lib.Probing
import Faceplate.Shl.Htable

/-!
# The bits of a slot

The bits that all pointers share can be taken out of a pointer and put back, whatever stands
in their place. All pointers here have the same highest bit; it is never one of the shared
ones, so the slot of a pointer is neither free nor the mark of a deleted one.
-/

namespace Faceplate.Ccan

open Probing

/-- A pointer whose highest bit is bit `k`. -/
def IsPtr (k : ℕ) (p : Word) : Prop := 0 < k ∧ 2 ^ k ≤ p.toNat ∧ p.toNat < 2 ^ (k + 1)

instance (k : ℕ) (p : Word) : Decidable (IsPtr k p) :=
  inferInstanceAs (Decidable (_ ∧ _ ∧ _))

section Pointer

variable {k : ℕ} {p : Word}

theorem IsPtr.bit (h : IsPtr k p) : p.getLsbD k = true := by
  obtain ⟨-, hle, hlt⟩ := h
  rw [← BitVec.testBit_toNat, Nat.testBit_eq_decide_div_mod_eq]
  have hdiv : p.toNat / 2 ^ k = 1 := by
    rw [Nat.div_eq_iff (Nat.two_pow_pos k)]
    rw [Nat.pow_succ] at hlt
    omega
  simp [hdiv]

theorem IsPtr.bit_above (h : IsPtr k p) {i : ℕ} (hi : k < i) : p.getLsbD i = false := by
  obtain ⟨-, -, hlt⟩ := h
  rw [← BitVec.testBit_toNat]
  exact Nat.testBit_lt_two_pow (lt_of_lt_of_le hlt (Nat.pow_le_pow_right (by decide) hi))

theorem IsPtr.lt (h : IsPtr k p) : k < 64 := by
  by_contra hk
  have hbit := h.bit
  rw [BitVec.getLsbD_of_ge p k (by omega)] at hbit
  simp at hbit

theorem IsPtr.ne_zero (h : IsPtr k p) : p ≠ 0 := by
  rintro rfl
  have hbit := h.bit
  simp at hbit

theorem and_shiftLeft_eq_zero {i : ℕ} (hi : i < 64) :
    p &&& ((1 : Word) <<< i) = 0 ↔ p.getLsbD i = false := by
  have hand : p &&& ((1 : Word) <<< i) = if p.getLsbD i = true then BitVec.twoPow 64 i else 0#64 :=
    BitVec.and_twoPow p i
  rw [hand]
  cases p.getLsbD i with
  | false => simp
  | true =>
    have hne : BitVec.twoPow 64 i ≠ 0 := by
      intro h
      have hbit := congrArg (fun w : Word => w.getLsbD i) h
      simp [hi] at hbit
    simp only [if_true, Bool.true_eq_false, iff_false]
    exact hne

theorem IsPtr.topBit (h : IsPtr k p) {n : ℕ} (hn : k ≤ n) (hlt : n < 64) : topBit p n = k := by
  induction n with
  | zero =>
    have := h.1
    omega
  | succ n ih =>
    rw [Ccan.topBit]
    rcases Nat.lt_or_eq_of_le hn with hk | rfl
    · rw [if_neg (not_not.mpr ((and_shiftLeft_eq_zero hlt).mpr (h.bit_above hk)))]
      exact ih (by omega) (by omega)
    · rw [if_pos]
      rw [Ne, and_shiftLeft_eq_zero hlt, h.bit]
      simp

end Pointer

theorem entryIsValid_iff {e : Word} : entryIsValid e = true ↔ e ≠ 0 ∧ e ≠ 1 := by
  rw [entryIsValid, htableDeleted, decide_eq_true_eq]
  constructor
  · intro h
    constructor
    · rintro rfl
      simp at h
    · rintro rfl
      simp at h
  · rintro ⟨h0, h1⟩
    bv_omega

theorem entryIsValid_of_bit {e : Word} {k : ℕ} (hk : 0 < k) (h : e.getLsbD k = true) :
    entryIsValid e = true := by
  rw [entryIsValid_iff]
  constructor
  · rintro rfl
    simp at h
  · rintro rfl
    simp at h
    omega

/-- What a slot of the table stands for. -/
def slotOf (ht : Htable) (e : Word) : Slot Word :=
  if e = 0 then .free else if e = 1 then .deleted else .entry (getRawPtr ht e)

section Slots

variable {ht : Htable} {e : Word}

theorem slotOf_valid (h : entryIsValid e = true) : slotOf ht e = .entry (getRawPtr ht e) := by
  obtain ⟨h0, h1⟩ := entryIsValid_iff.mp h
  rw [slotOf, if_neg h0, if_neg h1]

theorem isOpen_slotOf : (slotOf ht e).isOpen = !entryIsValid e := by
  by_cases h : entryIsValid e = true
  · rw [slotOf_valid h, h]
    rfl
  · rw [Bool.eq_false_iff.mpr h]
    have hopen := mt entryIsValid_iff.mpr h
    rw [slotOf]
    split
    · rfl
    · split
      · rfl
      · exact absurd ⟨‹_›, ‹_›⟩ hopen

theorem slotOf_eq_free : slotOf ht e = .free ↔ e = 0 := by
  by_cases h0 : e = 0
  · rw [slotOf, if_pos h0]
    exact iff_of_true rfl h0
  · rw [slotOf, if_neg h0]
    refine iff_of_false ?_ h0
    split <;> simp

theorem slotOf_eq_deleted : slotOf ht e = .deleted ↔ e = 1 := by
  by_cases h1 : e = 1
  · subst h1
    exact iff_of_true rfl rfl
  · refine iff_of_false ?_ h1
    rw [slotOf, if_neg h1]
    split <;> simp

theorem slotOf_eq_entry {p : Word} :
    slotOf ht e = .entry p ↔ entryIsValid e = true ∧ getRawPtr ht e = p := by
  by_cases h : entryIsValid e = true
  · rw [slotOf_valid h]
    simp [h]
  · refine iff_of_false (fun heq => ?_) fun hand => h hand.1
    have hopen : (slotOf ht e).isOpen = true := by
      rw [isOpen_slotOf, Bool.eq_false_iff.mpr h]
      rfl
    rw [heq] at hopen
    simp at hopen

end Slots

/-! ### Taking bits out and putting them back -/

/-- The shared bits and the perfect bit are bits of the mask. -/
structure Masked (ht : Htable) : Prop where
  common : ht.commonBits &&& ht.commonMask = ht.commonBits
  perfect : ht.perfectBit &&& ht.commonMask = ht.perfectBit

section Bits

variable {ht : Htable} {p bits : Word}

theorem getRawPtr_makeHval (hbits : bits &&& ht.commonMask = bits)
    (hp : p &&& ht.commonMask = ht.commonBits) : getRawPtr ht (makeHval ht p bits) = p := by
  rw [getRawPtr, makeHval, ← hp, ← hbits]
  ext i hi
  simp only [BitVec.getElem_or, BitVec.getElem_and, BitVec.getElem_not]
  grind

theorem getExtraPtrBits_makeHval (hbits : bits &&& ht.commonMask = bits) :
    getExtraPtrBits ht (makeHval ht p bits) = bits := by
  rw [getExtraPtrBits, makeHval, ← hbits]
  ext i hi
  simp only [BitVec.getElem_or, BitVec.getElem_and, BitVec.getElem_not]
  grind

theorem hashBits_mask (h : Masked ht) (hash : Word) {perfect : Word}
    (hperfect : perfect = ht.perfectBit ∨ perfect = 0) :
    (getHashPtrBits ht hash ||| perfect) &&& ht.commonMask =
      getHashPtrBits ht hash ||| perfect := by
  have hmask : perfect &&& ht.commonMask = perfect := by
    rcases hperfect with rfl | rfl
    · exact h.perfect
    · simp
  rw [← hmask, getHashPtrBits]
  ext i hi
  simp only [BitVec.getElem_or, BitVec.getElem_and, BitVec.getElem_not]
  grind

end Bits

/-- The slot of a pointer is valid. -/
theorem valid_makeHval {ht : Htable} {k : ℕ} {p : Word} (hp : IsPtr k p)
    (hmask : ht.commonMask.getLsbD k = false) (bits : Word) :
    entryIsValid (makeHval ht p bits) = true := by
  apply entryIsValid_of_bit hp.1
  have hk := hp.lt
  simp only [makeHval, BitVec.getLsbD_or, BitVec.getLsbD_and, BitVec.getLsbD_not, hp.bit, hmask,
    hk, decide_true, Bool.not_false, Bool.and_self, Bool.true_or]

/-- The highest bit of a pointer stands in its slot. -/
theorem bit_of_getRawPtr {ht : Htable} (h : Masked ht) {k : ℕ}
    (hmask : ht.commonMask.getLsbD k = false) {e : Word} (hp : IsPtr k (getRawPtr ht e)) :
    e.getLsbD k = true := by
  have hbit := hp.bit
  have hcommon : ht.commonBits.getLsbD k = false := by
    rw [← h.common, BitVec.getLsbD_and, hmask, Bool.and_false]
  simpa only [getRawPtr, BitVec.getLsbD_or, BitVec.getLsbD_and, BitVec.getLsbD_not, hcommon, hmask,
    hp.lt, decide_true, Bool.not_false, Bool.and_true, Bool.or_false] using hbit

/-! ### Fewer shared bits -/

/-- What `update_common` does with a slot, given the bits that are no longer shared. -/
def unshare (ht : Htable) (diff e : Word) : Word :=
  if entryIsValid e then (e &&& ~~~diff) ||| (ht.commonBits &&& diff) else e

/-- The table whose shared bits are fewer. -/
def Htable.unshared (ht : Htable) (diff : Word) : Htable :=
  { ht with
    table := ht.table.map fun t => t.map (unshare ht diff)
    commonMask := ht.commonMask &&& ~~~diff
    commonBits := ht.commonBits &&& ~~~diff
    perfectBit := ht.perfectBit &&& ~~~diff }

section Unshare

variable {ht : Htable} {diff e : Word}

theorem Masked.unshared (h : Masked ht) (diff : Word) : Masked (ht.unshared diff) := by
  constructor
  · rw [Htable.unshared, ← h.common]
    ext i hi
    simp only [BitVec.getElem_and, BitVec.getElem_not]
    grind
  · rw [Htable.unshared, ← h.perfect]
    ext i hi
    simp only [BitVec.getElem_and, BitVec.getElem_not]
    grind

theorem entryIsValid_unshare (h : Masked ht) {k : ℕ} (hmask : ht.commonMask.getLsbD k = false)
    (hdiff : diff &&& ht.commonMask = diff)
    (hptr : entryIsValid e = true → IsPtr k (getRawPtr ht e)) :
    entryIsValid (unshare ht diff e) = entryIsValid e := by
  by_cases hv : entryIsValid e = true
  · rw [unshare, if_pos hv, hv]
    have hp := hptr hv
    apply entryIsValid_of_bit hp.1
    have hdiffk : diff.getLsbD k = false := by
      rw [← hdiff, BitVec.getLsbD_and, hmask, Bool.and_false]
    simp only [BitVec.getLsbD_or, BitVec.getLsbD_and, BitVec.getLsbD_not, hdiffk, hp.lt,
      bit_of_getRawPtr h hmask hp, decide_true, Bool.not_false, Bool.and_self, Bool.true_or]
  · rw [unshare, if_neg hv]

theorem getRawPtr_unshare (hdiff : diff &&& ht.commonMask = diff) (hv : entryIsValid e = true) :
    getRawPtr (ht.unshared diff) (unshare ht diff e) = getRawPtr ht e := by
  rw [unshare, if_pos hv, getRawPtr, getRawPtr, Htable.unshared, ← hdiff]
  ext i hi
  simp only [BitVec.getElem_or, BitVec.getElem_and, BitVec.getElem_not]
  grind

theorem getExtraPtrBits_unshare (hv : entryIsValid e = true) :
    getExtraPtrBits (ht.unshared diff) (unshare ht diff e) = getExtraPtrBits ht e &&& ~~~diff := by
  rw [unshare, if_pos hv, getExtraPtrBits, getExtraPtrBits, Htable.unshared]
  ext i hi
  simp only [BitVec.getElem_or, BitVec.getElem_and, BitVec.getElem_not]
  grind

theorem getHashPtrBits_unshared (diff hash : Word) :
    getHashPtrBits (ht.unshared diff) hash = getHashPtrBits ht hash &&& ~~~diff := by
  rw [getHashPtrBits, getHashPtrBits, Htable.unshared]
  ext i hi
  simp only [BitVec.getElem_and, BitVec.getElem_not]
  grind

/-- The bits in which a pointer differs from the shared ones are no longer shared. -/
theorem common_unshared (h : Masked ht) (p : Word) :
    p &&& (ht.unshared (ht.commonBits ^^^ (p &&& ht.commonMask))).commonMask =
      (ht.unshared (ht.commonBits ^^^ (p &&& ht.commonMask))).commonBits := by
  rw [Htable.unshared]
  ext i hi
  have hbit := congrArg (fun w : Word => w[i]) h.common
  simp only [BitVec.getElem_and, BitVec.getElem_not, BitVec.getElem_xor] at hbit ⊢
  grind

end Unshare

/-! ### The first pointer -/

/-- The table that shares all bits of its first pointer but bit `k`. -/
def Htable.sharing (ht : Htable) (k : ℕ) (p : Word) : Htable :=
  let mask : Word := ~~~((1 : Word) <<< k)
  { ht with commonMask := mask, commonBits := p &&& mask, perfectBit := 1 }

theorem masked_sharing (ht : Htable) {k : ℕ} (hk : 0 < k) (p : Word) :
    Masked (ht.sharing k p) := by
  constructor
  · rw [Htable.sharing]
    ext i hi
    simp only [BitVec.getElem_and]
    grind
  · rw [Htable.sharing]
    ext i hi
    by_cases h0 : i = 0
    · subst h0
      simp
      omega
    · simp [h0]

theorem top_sharing (ht : Htable) {k : ℕ} (hk : k < 64) (p : Word) :
    (ht.sharing k p).commonMask.getLsbD k = false := by
  simp [Htable.sharing, hk]

end Faceplate.Ccan
