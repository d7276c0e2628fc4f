import Faceplate.Font.Unifont

/-!
# The block search

`lookup_block` starts from a guess and then halves the rest of the table. On a table
whose blocks follow one another it comes to an end, and it finds the block of a
codepoint if and only if there is one: what is not in front of the guess any more is
never needed again.
-/

namespace Faceplate.Font

/-- The first `n` blocks follow one another. -/
def Ordered (blocks : ℕ → UnifontGlyphBlock) (n : ℕ) : Prop :=
  ∀ i j, i < j → j < n → (blocks i).codepoint + (blocks i).len ≤ (blocks j).codepoint

theorem isInBlock_bounds {b : UnifontGlyphBlock} {ch : ℕ} (h : isInBlock b ch = true) :
    b.codepoint ≤ ch ∧ ch < b.codepoint + b.len := by
  simp only [isInBlock, Bool.and_eq_true, decide_eq_true_eq] at h
  exact ⟨h.1, h.2.trans_le (Nat.mod_le _ _)⟩

/-- The last codepoint of all is in no block: the end of its block is computed as 0. -/
theorem isInBlock_last (b : UnifontGlyphBlock) : isInBlock b (2 ^ 32 - 1) = false := by
  have hmod : (b.codepoint + b.len) % 2 ^ 32 < 2 ^ 32 := Nat.mod_lt _ (by decide)
  have hnot : ¬2 ^ 32 - 1 < (b.codepoint + b.len) % 2 ^ 32 := by omega
  simp only [isInBlock, hnot, decide_false, Bool.and_false]

section Search

variable {blocks : ℕ → UnifontGlyphBlock} {n ch t k : ℕ}

/-- Another block than the one of the codepoint lies before or behind it. -/
theorem Ordered.lt_iff (h : Ordered blocks n) (ht : t < n)
    (hin : isInBlock (blocks t) ch = true) (hk : k < n) (hne : isInBlock (blocks k) ch = false) :
    ch < (blocks k).codepoint ↔ t < k := by
  obtain ⟨hge, hlt⟩ := isInBlock_bounds hin
  constructor
  · intro hbefore
    by_contra hle
    rcases Nat.lt_or_eq_of_le (Nat.not_lt.mp hle) with hkt | rfl
    · have := h k t hkt ht
      omega
    · rw [hin] at hne
      exact Bool.noConfusion hne
  · intro htk
    have := h t k htk hk
    omega

theorem Ordered.unique (h : Ordered blocks n) (ht : t < n) (hk : k < n)
    (hin : isInBlock (blocks t) ch = true) (hin' : isInBlock (blocks k) ch = true) : t = k := by
  obtain ⟨hge, hlt⟩ := isInBlock_bounds hin
  obtain ⟨hge', hlt'⟩ := isInBlock_bounds hin'
  rcases Nat.lt_trichotomy t k with hlt | heq | hgt
  · have := h t k hlt hk
    omega
  · exact heq
  · have := h k t hgt ht
    omega

end Search

/-- What C makes of half a distance that is at least -1. -/
theorem tdiv_two {x : ℤ} (h : -1 ≤ x) :
    0 ≤ x.tdiv 2 ∧ (0 ≤ x → x.tdiv 2 ≤ x) ∧ (x < 0 → x.tdiv 2 = 0) := by
  by_cases hneg : x < 0
  · have hx : x = -1 := by omega
    subst hx
    decide
  · rw [Int.tdiv_eq_ediv_of_nonneg (by omega)]
    omega

/-- The result of a search: no block, or a block of the codepoint. -/
def Found (blocks : ℕ → UnifontGlyphBlock) (n ch : ℕ) (r : ℤ) : Prop :=
  r = -1 ∨ ∃ k : ℕ, r = k ∧ k < n ∧ isInBlock (blocks k) ch = true

/-- The search comes to an end with a block of the codepoint or none, and it does not
miss one between its bounds. -/
theorem lookupLoop_spec {blocks : ℕ → UnifontGlyphBlock} {n ch : ℕ} (h : Ordered blocks n)
    {rounds : ℕ} {min max look : ℤ} (hmin : 0 ≤ min) (hmax : max < n) (hle : min ≤ max + 1)
    (hlook : 0 ≤ look ∧ look < n) (hin : min ≤ max → min ≤ look ∧ look ≤ max)
    (hrounds : max - min + 1 < rounds) :
    ∃ r, lookupLoop blocks ch rounds min max look = some r ∧ Found blocks n ch r ∧
      ∀ t : ℕ, min ≤ t → t ≤ max → isInBlock (blocks t) ch = true → r = t := by
  induction rounds generalizing min max look with
  | zero => omega
  | succ rounds ih =>
    obtain ⟨k, rfl⟩ := Int.eq_ofNat_of_zero_le hlook.1
    have hk : k < n := by omega
    rw [lookupLoop, Int.toNat_natCast]
    by_cases hhit : isInBlock (blocks k) ch = true
    · refine ⟨k, by simp [hhit], Or.inr ⟨k, rfl, hk, hhit⟩, ?_⟩
      intro t hmint htmax ht
      rw [h.unique hk (by omega) hhit ht]
    rw [Bool.not_eq_true] at hhit
    by_cases hlt : min < max
    · obtain ⟨hlow, hhigh⟩ := hin (by omega)
      simp only [hlt, hhit, if_true, if_false, Bool.false_eq_true]
      by_cases hbefore : ch < (blocks k).codepoint
      · obtain ⟨hnonneg, hle', hzero⟩ := tdiv_two (x := (k : ℤ) - 1 - min) (by omega)
        obtain ⟨r, hr, hfound, hall⟩ := @ih min ((k : ℤ) - 1)
          (min + ((k : ℤ) - 1 - min).tdiv 2) hmin (by omega) (by omega) (by omega)
          (by omega) (by omega)
        refine ⟨r, by rw [if_pos hbefore, hr], hfound, ?_⟩
        intro t hmint htmax ht
        have htk : t < k := (h.lt_iff (by omega) ht hk hhit).mp hbefore
        exact hall t hmint (by omega) ht
      · obtain ⟨hnonneg, hle', hzero⟩ := tdiv_two (x := max - ((k : ℤ) + 1)) (by omega)
        obtain ⟨r, hr, hfound, hall⟩ := @ih ((k : ℤ) + 1) max
          (max - (max - ((k : ℤ) + 1)).tdiv 2) (by omega) hmax (by omega) (by omega)
          (by omega) (by omega)
        refine ⟨r, by rw [if_neg hbefore, hr], hfound, ?_⟩
        intro t hmint htmax ht
        have hnlt : ¬t < k := fun htk => hbefore ((h.lt_iff (by omega) ht hk hhit).mpr htk)
        have hne : t ≠ k := by
          rintro rfl
          rw [ht] at hhit
          exact Bool.noConfusion hhit
        exact hall t (by omega) htmax ht
    · refine ⟨-1, by simp [hlt, hhit], Or.inl rfl, ?_⟩
      intro t hmint htmax ht
      obtain ⟨hlow, hhigh⟩ := hin (by omega)
      have htk : t = k := by omega
      rw [htk, hhit] at ht
      exact Bool.noConfusion ht

/-- On any table, what is found has the codepoint in its block. -/
theorem isInBlock_of_lookupLoop {blocks : ℕ → UnifontGlyphBlock} {ch rounds : ℕ}
    {min max look r : ℤ} (h : lookupLoop blocks ch rounds min max look = some r) (hr : 0 ≤ r) :
    isInBlock (blocks r.toNat) ch = true := by
  induction rounds generalizing min max look with
  | zero => simp [lookupLoop] at h
  | succ rounds ih =>
    rw [lookupLoop] at h
    split_ifs at h with hlt hhit hbefore hhit
    · rwa [Option.some.inj h] at hhit
    · exact ih h
    · exact ih h
    · rwa [Option.some.inj h] at hhit
    · have := Option.some.inj h
      omega

theorem toInt_of_lt {m : ℕ} (h : m < 2 ^ 31) : toInt m = m := if_pos h

/-- `lookup_block` on a table whose blocks follow one another. -/
theorem lookupBlock_spec {blocks : ℕ → UnifontGlyphBlock} {n : ℕ} (h : Ordered blocks n)
    (hpos : 0 < n) (hn : n < 2 ^ 31) (ch : ℕ) :
    ∃ r, lookupBlock blocks n ch = some r ∧ Found blocks n ch r ∧
      ∀ t < n, isInBlock (blocks t) ch = true → r = t := by
  have hmod : ch * n % 2 ^ 32 < 2 ^ 32 := Nat.mod_lt _ (by decide)
  have hguess : toInt (1 + ch * n % 2 ^ 32 / 0xffff) = ((1 + ch * n % 2 ^ 32 / 0xffff : ℕ) : ℤ) :=
    toInt_of_lt (by omega)
  have hlast : toInt ((n + (2 ^ 32 - 1)) % 2 ^ 32) = n - 1 := by
    have hwrap : (n + (2 ^ 32 - 1)) % 2 ^ 32 = n - 1 := by omega
    rw [hwrap, toInt_of_lt (by omega)]
    omega
  rw [lookupBlock, hguess, hlast]
  generalize 1 + ch * n % 2 ^ 32 / 0xffff = guess
  obtain ⟨r, hr, hfound, hall⟩ := @lookupLoop_spec blocks n ch h (n + 1) 0 ((n : ℤ) - 1)
    (if (n : ℤ) - 1 < guess then (n : ℤ) - 1 else guess) (by omega) (by omega) (by omega)
    (by split_ifs <;> omega) (by split_ifs <;> omega) (by omega)
  refine ⟨r, hr, hfound, ?_⟩
  intro t ht hin
  exact hall t (by omega) (by omega) hin

end Faceplate.Font
