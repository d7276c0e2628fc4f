import Faceplate.Shl.HtableTable

/-!
# Looking pointers up

In a table with a free slot the loop over the candidates for a hash ends. It goes through
every pointer with this hash, since each of them stands before the next free slot and has the
tag the loop looks for.
-/

namespace Faceplate.Ccan

open Probing

/-- The words stand for a table in which every pointer is found; the limits are those of its
size. -/
structure Shape (rehash : Word → Word) (k : ℕ) (ht : Htable) (t : List Word) : Prop
    extends Ready k ht where
  bits_pos : 1 ≤ ht.bits
  bits_lt : ht.bits < 31
  length : t.length = 2 ^ ht.bits
  max : ht.max = 3 * 2 ^ ht.bits / 4
  maxWithDeleted : ht.maxWithDeleted = 9 * 2 ^ ht.bits / 10
  tagged : Tagged rehash k ht t
  found : Found (home rehash ht) (view ht t)

/-- A table between two calls: the counters say how many pointers there are and at least how
many marks. -/
structure Inv (rehash : Word → Word) (k : ℕ) (ht : Htable) (t : List Word) : Prop
    extends Shape rehash k ht t where
  table : ht.table = some t
  elems : ht.elems = (entries (view ht t)).length
  marks : marks (view ht t) ≤ ht.deleted
  le_max : ht.elems ≤ ht.max
  room : ht.elems + ht.deleted ≤ ht.maxWithDeleted

variable {rehash : Word → Word} {k : ℕ} {ht : Htable} {t : List Word}

/-- The shape does not depend on the counters. -/
theorem Shape.count (h : Shape rehash k ht t) (table : Option (List Word)) (elems deleted : ℕ) :
    Shape rehash k { ht with table := table, elems := elems, deleted := deleted } t where
  common := h.common
  perfect := h.perfect
  top := h.top
  bits_pos := h.bits_pos
  bits_lt := h.bits_lt
  length := h.length
  max := h.max
  maxWithDeleted := h.maxWithDeleted
  tagged := h.tagged
  found := h.found

namespace Inv

theorem eq_withTable (h : Inv rehash k ht t) : ht = ht.withTable t := by
  rw [Htable.withTable, ← h.table]

theorem slots (h : Inv rehash k ht t) : ht.slots = t := by
  rw [Htable.slots, h.table, Option.getD_some]

theorem set (h : Inv rehash k ht t) (i : ℕ) (e : Word) :
    ht.set i e = ht.withTable (t.set i e) := by
  rw [Htable.set, h.table, Htable.withTable]

/-- Not all slots hold a pointer or a mark. -/
theorem exists_free (h : Inv rehash k ht t) : ∃ i < t.length, t[i]? = some 0 := by
  have hpow := Nat.two_pow_pos ht.bits
  have hroom : (entries (view ht t)).length + Probing.marks (view ht t) < (view ht t).length := by
    have := h.room
    have := h.marks
    rw [length_view, h.length]
    rw [h.maxWithDeleted, h.elems] at *
    omega
  obtain ⟨i, hi, hfree⟩ := Probing.exists_free hroom
  rw [length_view] at hi
  refine ⟨i, hi, ?_⟩
  rw [view_getElem?, Option.map_eq_some_iff] at hfree
  obtain ⟨e, he, hslot⟩ := hfree
  rw [he, slotOf_eq_free.mp hslot]

end Inv

/-- Where the loop of `htable_val` ends. -/
def valStop (ht : Htable) (h2 e : Word) : Bool :=
  e = 0 || (e ≠ htableDeleted && getExtraPtrBits ht e = h2)

theorem valStop_eq_true {h2 e : Word} :
    valStop ht h2 e = true ↔ e = 0 ∨ e ≠ htableDeleted ∧ getExtraPtrBits ht e = h2 := by
  simp only [valStop, Bool.or_eq_true, Bool.and_eq_true, decide_eq_true_eq]

theorem htableValLoop_eq {perfect h2 : Word} (hh2 : h2 &&& ~~~perfect = h2)
    (hlen : ht.slots.length = 2 ^ ht.bits) (n off : ℕ) :
    htableValLoop ht perfect n off h2 = (seek (valStop ht h2) ht.slots n off).bind fun j =>
      ht.slots[j]?.map fun e => (if e = 0 then 0 else getRawPtr ht e, j) := by
  induction n generalizing off with
  | zero => rfl
  | succ n ih =>
    rw [htableValLoop, seek]
    cases he : ht.slots[off]? with
    | none => rfl
    | some e =>
      simp only [Option.bind_eq_bind, Option.bind_some]
      by_cases hstop : valStop ht h2 e = true
      · rw [if_pos hstop, Option.bind_some, he, Option.map_some]
        rcases valStop_eq_true.mp hstop with h0 | hmatch
        · rw [if_pos h0, if_pos h0]
          rfl
        · by_cases h0 : e = 0
          · rw [if_pos h0, if_pos h0]
            rfl
          · rw [if_neg h0, if_neg h0, if_pos hmatch]
            rfl
      · obtain ⟨h0, hmatch⟩ := not_or.mp (mt valStop_eq_true.mpr hstop)
        rw [if_neg hstop, if_neg h0, if_neg hmatch, hh2, ih, next_eq, hlen]

/-- The slot so far behind the bucket of a hash holds this pointer, with the tag the loops for
the hash look for. -/
def Candidate (ht : Htable) (t : List Word) (h : Word) (x : ℕ) (p : Word) : Prop :=
  ∃ e, t[(hashBucket ht h + x) % 2 ^ ht.bits]? = some e ∧ entryIsValid e = true ∧
    getRawPtr ht e = p ∧
    getExtraPtrBits ht e = getHashPtrBits ht h ||| if x = 0 then ht.perfectBit else 0

/-- What the iterator is at: the first candidate from this distance on, or the first free slot
if there is none before it. -/
def IsNext (ht : Htable) (t : List Word) (h : Word) (d : ℕ) (r : Word × ℕ) : Prop :=
  ∃ x, d ≤ x ∧ r.2 = (hashBucket ht h + x) % 2 ^ ht.bits ∧
    (r.1 = 0 ∧ t[r.2]? = some 0 ∨ Candidate ht t h x r.1) ∧
    ∀ y, d ≤ y → y < x → t[(hashBucket ht h + y) % 2 ^ ht.bits]? ≠ some 0 ∧
      ∀ p, ¬Candidate ht t h y p

section Loops

variable {h : Word} {free : ℕ}

/-- Behind the bucket the loop looks for the tag without the perfect bit. -/
theorem htableValLoop_spec (hinv : Inv rehash k ht t)
    (hfree : t[(hashBucket ht h + free) % 2 ^ ht.bits]? = some 0) {perfect : Word}
    (hh2 : getHashPtrBits ht h &&& ~~~perfect = getHashPtrBits ht h) {d n : ℕ} (hd : 1 ≤ d)
    (hle : d ≤ free) (hn : free - d < n) :
    ∃ r, htableValLoop ht perfect n ((hashBucket ht h + d) % 2 ^ ht.bits)
        (getHashPtrBits ht h) = some r ∧ IsNext ht t h d r := by
  have hlen := hinv.length
  have hslots := hinv.slots
  have hpos : ∀ q, ((hashBucket ht h + d) % 2 ^ ht.bits + q) % t.length =
      (hashBucket ht h + (d + q)) % 2 ^ ht.bits := by
    intro q
    rw [hlen, Nat.mod_add_mod, Nat.add_assoc]
  have hi : (hashBucket ht h + d) % 2 ^ ht.bits < t.length := by
    rw [hlen]
    exact Nat.mod_lt _ (Nat.two_pow_pos _)
  have hstop : StopsAt (valStop ht (getHashPtrBits ht h)) t
      (((hashBucket ht h + d) % 2 ^ ht.bits + (free - d)) % t.length) := by
    rw [hpos, Nat.add_sub_cancel' hle]
    exact ⟨0, hfree, rfl⟩
  obtain ⟨q, hq, hseek, ⟨e, he, hstops⟩, hby⟩ := seek_spec hi hn hstop
  rw [hpos] at hseek he
  rw [htableValLoop_eq hh2 (by rw [hslots, hlen]), hslots, hseek, Option.bind_some, he,
    Option.map_some]
  refine ⟨_, rfl, d + q, by omega, rfl, ?_, ?_⟩
  · by_cases h0 : e = 0
    · rw [if_pos h0]
      exact .inl ⟨rfl, by rw [he, h0]⟩
    · right
      have hmatch := (valStop_eq_true.mp hstops).resolve_left h0
      refine ⟨e, he, entryIsValid_iff.mpr ⟨h0, hmatch.1⟩, by rw [if_neg h0], ?_⟩
      rw [if_neg (by omega), hmatch.2]
      simp
  · intro y hy hlt
    obtain ⟨e'', he'', hpass⟩ := hby (y - d) (by omega)
    rw [hpos, Nat.add_sub_cancel' hy] at he''
    rw [he'']
    refine ⟨fun hzero => ?_, ?_⟩
    · obtain rfl := Option.some.inj hzero
      have hstop : valStop ht (getHashPtrBits ht h) 0 = true := valStop_eq_true.mpr (.inl rfl)
      rw [hpass] at hstop
      exact absurd hstop Bool.false_ne_true
    rintro p ⟨e', he', hv', -, hextra⟩
    rw [he''] at he'
    obtain rfl := Option.some.inj he'
    rw [if_neg (by omega)] at hextra
    have hextra' : getExtraPtrBits ht e'' = getHashPtrBits ht h := by simpa using hextra
    have hstop : valStop ht (getHashPtrBits ht h) e'' = true :=
      valStop_eq_true.mpr (.inr ⟨(entryIsValid_iff.mp hv').2, hextra'⟩)
    rw [hpass] at hstop
    exact absurd hstop Bool.false_ne_true

/-- `htable_nextval` goes to the next candidate. -/
theorem htableNextval_spec (hinv : Inv rehash k ht t)
    (hfree : t[(hashBucket ht h + free) % 2 ^ ht.bits]? = some 0) (hlt : free < 2 ^ ht.bits)
    {d : ℕ} (hd : d < free) :
    ∃ r, htableNextval ht ((hashBucket ht h + d) % 2 ^ ht.bits) h = some r ∧
      IsNext ht t h (d + 1) r := by
  rw [htableNextval, htableVal, next_eq, Nat.mod_add_mod, Nat.add_assoc, Nat.one_shiftLeft]
  have hor : getHashPtrBits ht h ||| 0 = getHashPtrBits ht h := by simp
  have hand : getHashPtrBits ht h &&& ~~~0 = getHashPtrBits ht h := by
    ext i hi
    simp only [BitVec.getElem_and, BitVec.getElem_not]
    grind
  rw [hor]
  exact htableValLoop_spec hinv hfree hand (by omega) hd (by omega)

/-- `htable_firstval` goes to the first candidate. -/
theorem htableFirstval_spec (hinv : Inv rehash k ht t)
    (hfree : t[(hashBucket ht h + free) % 2 ^ ht.bits]? = some 0) (hlt : free < 2 ^ ht.bits) :
    ∃ r, htableFirstval ht h = some r ∧ IsNext ht t h 0 r := by
  have hb := hashBucket_lt ht h
  have hmod : hashBucket ht h % 2 ^ ht.bits = hashBucket ht h := Nat.mod_eq_of_lt hb
  obtain ⟨e, he⟩ : ∃ e, t[hashBucket ht h]? = some e :=
    ⟨_, List.getElem?_eq_getElem (by rwa [hinv.length])⟩
  obtain ⟨n, hn⟩ : ∃ n, 2 ^ ht.bits = n + 1 := ⟨2 ^ ht.bits - 1, by omega⟩
  rw [htableFirstval, htableVal, Nat.one_shiftLeft, hn, htableValLoop, hinv.slots, he]
  simp only [Option.bind_eq_bind, Option.bind_some]
  by_cases h0 : e = 0
  · rw [if_pos h0]
    refine ⟨_, rfl, 0, Nat.le_refl 0, by simp [hmod], .inl ⟨rfl, ?_⟩, fun y _ hy => by omega⟩
    rw [he, h0]
  · rw [if_neg h0]
    by_cases hmatch : e ≠ htableDeleted ∧
        getExtraPtrBits ht e = getHashPtrBits ht h ||| ht.perfectBit
    · rw [if_pos hmatch]
      refine ⟨_, rfl, 0, Nat.le_refl 0, by simp [hmod], .inr ?_, fun y _ hy => by omega⟩
      refine ⟨e, by rw [Nat.add_zero, hmod, he], ?_, rfl, ?_⟩
      · exact entryIsValid_iff.mpr ⟨h0, hmatch.1⟩
      · rw [if_pos rfl, hmatch.2]
    · rw [if_neg hmatch]
      have hpos : 1 ≤ free := by
        by_contra hzero
        obtain rfl : free = 0 := by omega
        rw [Nat.add_zero, hmod, he] at hfree
        exact h0 (Option.some.inj hfree)
      have hclear : (getHashPtrBits ht h ||| ht.perfectBit) &&& ~~~ht.perfectBit =
          getHashPtrBits ht h := by
        rw [getHashPtrBits]
        ext i hi
        simp only [BitVec.getElem_or, BitVec.getElem_and, BitVec.getElem_not]
        grind
      have hkeep : getHashPtrBits ht h &&& ~~~ht.perfectBit = getHashPtrBits ht h := by
        rw [getHashPtrBits]
        ext i hi
        simp only [BitVec.getElem_and, BitVec.getElem_not]
        grind
      rw [hclear, next_eq]
      obtain ⟨r, hr, x, hx, hoff, hat, hbefore⟩ :=
        htableValLoop_spec hinv hfree hkeep (d := 1) (n := n) (by omega) hpos (by omega)
      refine ⟨r, hr, x, by omega, hoff, hat, fun y _ hy => ?_⟩
      rcases Nat.eq_zero_or_pos y with rfl | hy1
      · rw [Nat.add_zero, hmod, he]
        refine ⟨fun hzero => h0 (Option.some.inj hzero), ?_⟩
        rintro p ⟨e', he', hv', -, hextra⟩
        rw [Nat.add_zero, hmod, he] at he'
        obtain rfl := Option.some.inj he'
        rw [if_pos rfl] at hextra
        exact hmatch ⟨(entryIsValid_iff.mp hv').2, hextra⟩
      · exact hbefore y hy1 hy

/-- Where the loop over the candidates ends: at the first one that passes the test, or where
there is none before the next free slot. -/
def EndsAt (ht : Htable) (t : List Word) (h : Word) (cmp : Word → Bool) (d : ℕ)
    (r : Word × ℕ) : Prop :=
  ∃ x, d ≤ x ∧ r.2 = (hashBucket ht h + x) % 2 ^ ht.bits ∧
    (r.1 = 0 ∧ t[r.2]? = some 0 ∨ Candidate ht t h x r.1 ∧ cmp r.1 = true) ∧
    ∀ y, d ≤ y → y < x → ∀ p, Candidate ht t h y p → cmp p = false

theorem htableGetLoop_spec (hinv : Inv rehash k ht t)
    (hfree : t[(hashBucket ht h + free) % 2 ^ ht.bits]? = some 0) (hlt : free < 2 ^ ht.bits)
    (cmp : Word → Bool) {n d : ℕ} (hn : free < n + d) (hd : d ≤ free) {r : Word × ℕ}
    (hr : IsNext ht t h d r) :
    ∃ r', htableGetLoop ht h cmp n r = some r' ∧ EndsAt ht t h cmp d r' := by
  induction n generalizing d r with
  | zero => omega
  | succ n ih =>
    obtain ⟨c, off⟩ := r
    obtain ⟨x, hx, hoff, hat, hbefore⟩ := hr
    have hxfree : x ≤ free := by
      by_contra hgt
      exact (hbefore free hd (by omega)).1 hfree
    have hnone : ∀ y, d ≤ y → y < x → ∀ p, Candidate ht t h y p → cmp p = false :=
      fun y hy hyx p hp => absurd hp ((hbefore y hy hyx).2 p)
    rw [htableGetLoop]
    by_cases h0 : c = 0
    · rw [if_pos h0]
      refine ⟨_, rfl, x, hx, hoff, .inl ⟨rfl, ?_⟩, hnone⟩
      rcases hat with ⟨-, hzero⟩ | ⟨e, he, hv, hraw, -⟩
      · exact hzero
      · have hslot := (hinv.tagged _ e he hv).1
        rw [hraw, show c = 0 from h0] at hslot
        exact absurd rfl hslot.ne_zero
    · have hcand := hat.resolve_left fun hzero => h0 hzero.1
      rw [if_neg h0]
      by_cases hcmp : cmp c = true
      · rw [if_pos hcmp]
        exact ⟨_, rfl, x, hx, hoff, .inr ⟨hcand, hcmp⟩, hnone⟩
      · have hxlt : x < free := by
          rcases Nat.lt_or_eq_of_le hxfree with hlt | rfl
          · exact hlt
          · obtain ⟨e, he, hv, -, -⟩ := hcand
            rw [hfree] at he
            obtain rfl := Option.some.inj he
            exact absurd rfl (entryIsValid_iff.mp hv).1
        obtain ⟨r', hr', hnext⟩ := htableNextval_spec hinv hfree hlt hxlt
        obtain ⟨r'', hrun, x', hx', hoff', hat', hrest⟩ := ih (by omega) hxlt hnext
        rw [if_neg hcmp]
        simp only at hoff
        rw [hoff, hr']
        refine ⟨r'', hrun, x', by omega, hoff', hat', fun y hy hyx p hp => ?_⟩
        rcases Nat.lt_trichotomy y x with hyx' | rfl | hyx'
        · exact hnone y hy hyx' p hp
        · obtain ⟨e, he, -, hraw, -⟩ := hp
          obtain ⟨e', he', -, hraw', -⟩ := hcand
          rw [he] at he'
          obtain rfl := Option.some.inj he'
          rw [← hraw, hraw']
          exact Bool.eq_false_iff.mpr hcmp
        · exact hrest y hyx' hyx p hp

end Loops

/-- The loop over the candidates for a hash ends. It gives a pointer of the table that passes
the test; when it gives none, no pointer with this hash passes. -/
theorem Inv.htableGet (hinv : Inv rehash k ht t) (h : Word) (cmp : Word → Bool) :
    ∃ c off, htableGet ht h cmp = some (c, off) ∧
      (c ≠ 0 → cmp c = true ∧
        ∃ e, t[off]? = some e ∧ entryIsValid e = true ∧ getRawPtr ht e = c) ∧
      (c = 0 → ∀ p ∈ entries (view ht t), rehash p = h → cmp p = false) := by
  obtain ⟨i, hi, hzero⟩ := hinv.exists_free
  have hlen := hinv.length
  obtain ⟨free, hlt, hpos⟩ := exists_steps (hashBucket_lt ht h) (by rwa [← hlen])
  have hfree : t[(hashBucket ht h + free) % 2 ^ ht.bits]? = some 0 := by rw [hpos, hzero]
  obtain ⟨r, hfirst, hnext⟩ := htableFirstval_spec hinv hfree hlt
  obtain ⟨⟨c, off⟩, hget, x, -, hoff, hat, hbefore⟩ := htableGetLoop_spec hinv hfree hlt cmp
    (n := 2 ^ ht.bits + 1) (by omega) (Nat.zero_le free) hnext
  simp only at hoff hat
  subst hoff
  refine ⟨c, (hashBucket ht h + x) % 2 ^ ht.bits, ?_, ?_, ?_⟩
  · rw [Ccan.htableGet, hfirst, Nat.one_shiftLeft]
    exact hget
  · intro hc
    obtain ⟨⟨e, he, hv, hraw, -⟩, hcmp⟩ := hat.resolve_left fun h0 => hc h0.1
    exact ⟨hcmp, e, he, hv, hraw⟩
  · rintro rfl p hp rfl
    have hend : t[(hashBucket ht (rehash p) + x) % 2 ^ ht.bits]? = some 0 := by
      rcases hat with ⟨-, hend⟩ | ⟨⟨e, he, hv, hraw, -⟩, -⟩
      · exact hend
      · exact absurd hraw (hinv.tagged _ e he hv).1.ne_zero
    obtain ⟨j, hj⟩ := mem_entries.mp hp
    have hend' : (view ht t)[(home rehash ht p + x) % (view ht t).length]? = some .free := by
      rw [length_view, hlen, view_getElem?, home, hend]
      rfl
    obtain ⟨d, hd, hdlt, rfl⟩ := hinv.found.before_free hj hend'
    rw [length_view, hlen] at hdlt
    rw [length_view, hlen, view_getElem?, Option.map_eq_some_iff] at hj
    obtain ⟨e, he, hslot⟩ := hj
    obtain ⟨hv, hraw⟩ := slotOf_eq_entry.mp hslot
    refine hbefore d (Nat.zero_le d) hd p ⟨e, he, hv, hraw, ?_⟩
    have hhome : (home rehash ht p + d) % 2 ^ ht.bits = home rehash ht p ↔ d = 0 := by
      have hself : (home rehash ht p + 0) % 2 ^ ht.bits = home rehash ht p :=
        Nat.mod_eq_of_lt (hashBucket_lt ht _)
      constructor
      · intro heq
        exact steps_inj hdlt (Nat.two_pow_pos _) (heq.trans hself.symm)
      · rintro rfl
        exact hself
    rw [(hinv.tagged _ e he hv).2, hraw, tag]
    simp only [hhome]

end Faceplate.Ccan
