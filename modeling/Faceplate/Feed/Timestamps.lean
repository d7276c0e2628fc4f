import Faceplate.Feed.Sources

/-!
# The timestamp parsers

Every feed is dated by a decimal number, and three functions read such numbers:
one each in the status and the events reader, and one for manifests and the system
file. The first two count digits and check for overflow themselves; the third
leaves it to `strtoull`, which also takes blanks, a sign and leading zeros.
-/

namespace Faceplate.Feed

open CString

/-- `parse_u64` of `faceplate_status.c`. -/
def statusParseU64 (value : List UInt8) (len : ℕ) : Option ℕ := parseU64 (value.take len)

/-- `parse_u64` of `faceplate_events.c`. -/
def eventsParseU64 (value : List UInt8) (len : ℕ) : Option ℕ := parseU64 (value.take len)

/-- Each of the three parsers reads exactly the numerals, as the numbers they are. -/
def ParsersAgree (s : Str) : Prop :=
  ∀ n, (statusParseU64 s.bytes s.bytes.length = some n ↔ IsNumeral s.bytes n) ∧
    (eventsParseU64 s.bytes s.bytes.length = some n ↔ IsNumeral s.bytes n) ∧
    (sourcesParseU64 s.bytes = some n ↔ IsNumeral s.bytes n)

/-- What `strtoull` reads to the end: blanks, an optional sign, and the digits of a
64 bit number. -/
structure IsScanned (s blanks sign digits : List UInt8) : Prop where
  parts : s = blanks ++ (sign ++ digits)
  blanks_space : ∀ c ∈ blanks, isSpace c = true
  sign_eq : sign = [] ∨ sign = [0x2b] ∨ sign = [0x2d]
  nonempty : digits ≠ []
  digits_digit : ∀ c ∈ digits, isDigit c = true
  fits : digitsValue digits < 2 ^ 64

/-- The number that `strtoull` makes of it: a minus sign negates modulo 2 ^ 64. -/
def signedValue (sign digits : List UInt8) : ℕ :=
  if sign = [0x2d] then (2 ^ 64 - digitsValue digits) % 2 ^ 64 else digitsValue digits

/-- More than one to twenty digits: blanks or a sign stand before the number, or
leading zeros make it longer. -/
def IsLoose (s : List UInt8) : Prop :=
  ∃ blanks sign digits, IsScanned s blanks sign digits ∧
    (blanks ≠ [] ∨ sign ≠ [] ∨ 20 < digits.length)

/-- Reading stops neither before nor behind the digits. -/
theorem scanUnsigned_of_isScanned {s blanks sign digits : List UInt8}
    (h : IsScanned s blanks sign digits) :
    scanUnsigned s = some (signedValue sign digits, false, []) := by
  obtain ⟨rfl, hblanks, hsign, hne, hdigits, hfits⟩ := h
  have htake : digits.takeWhile isDigit = digits := List.takeWhile_eq_self_iff.mpr hdigits
  have hdrop : digits.dropWhile isDigit = [] := List.dropWhile_eq_nil_iff.mpr hdigits
  have hfits' : digitsValue digits < 18446744073709551616 := hfits
  have hskip : scanUnsigned (blanks ++ (sign ++ digits)) = scanUnsigned (sign ++ digits) := by
    unfold scanUnsigned
    rw [List.dropWhile_append_of_pos hblanks]
  rw [hskip]
  rcases hsign with rfl | rfl | rfl
  · exact scanUnsigned_digits hne hdigits hfits
  · have hplus : isSpace 0x2b = false := by decide
    simp [scanUnsigned, signedValue, hplus, htake, hdrop, hne, hfits']
  · have hminus : isSpace 0x2d = false := by decide
    simp [scanUnsigned, signedValue, hminus, htake, hdrop, hne, hfits']

/-- Blanks and a sign are stripped, then the digits are read. -/
theorem scanUnsigned_parts (s : List UInt8) :
    ∃ blanks sign rest, s = blanks ++ (sign ++ rest) ∧ (∀ c ∈ blanks, isSpace c = true) ∧
      (sign = [] ∨ sign = [0x2b] ∨ sign = [0x2d]) ∧
      scanUnsigned s =
        if (rest.takeWhile isDigit).isEmpty then none
        else if 2 ^ 64 ≤ digitsValue (rest.takeWhile isDigit) then
          some (2 ^ 64 - 1, true, rest.dropWhile isDigit)
        else some (signedValue sign (rest.takeWhile isDigit), false, rest.dropWhile isDigit) := by
  have hsplit := List.takeWhile_append_dropWhile (p := isSpace) (l := s)
  have hblanks : ∀ c ∈ s.takeWhile isSpace, isSpace c = true := fun c hc =>
    List.mem_takeWhile_imp hc
  unfold scanUnsigned
  simp only
  split
  · next rest heq =>
    rw [heq] at hsplit
    exact ⟨_, [0x2d], rest, hsplit.symm, hblanks, Or.inr (Or.inr rfl), by simp [signedValue]⟩
  · next rest heq =>
    rw [heq] at hsplit
    exact ⟨_, [0x2b], rest, hsplit.symm, hblanks, Or.inr (Or.inl rfl), by simp [signedValue]⟩
  · exact ⟨_, [], _, hsplit.symm, hblanks, Or.inl rfl, by simp [signedValue]⟩

/-- `strtoull` reads nothing else to the end. -/
theorem exists_isScanned {s : List UInt8} {n : ℕ} (h : scanUnsigned s = some (n, false, [])) :
    ∃ blanks sign digits, IsScanned s blanks sign digits ∧ n = signedValue sign digits := by
  obtain ⟨blanks, sign, rest, hparts, hblanks, hsign, hscan⟩ := scanUnsigned_parts s
  rw [hscan] at h
  split_ifs at h with hempty hlarge
  · simp at h
  simp only [Option.some.injEq, Prod.mk.injEq, true_and] at h
  obtain ⟨hvalue, hend⟩ := h
  have hdigits : rest.takeWhile isDigit = rest := by
    have hsplit := List.takeWhile_append_dropWhile (p := isDigit) (l := rest)
    rwa [hend, List.append_nil] at hsplit
  rw [hdigits] at hvalue hempty hlarge
  refine ⟨blanks, sign, rest, ⟨hparts, hblanks, hsign, ?_, ?_, Nat.lt_of_not_le hlarge⟩, hvalue.symm⟩
  · simpa using hempty
  · exact List.takeWhile_eq_self_iff.mp hdigits

/-- What the third parser accepts. -/
theorem sourcesParseU64_iff {s : List UInt8} {n : ℕ} :
    sourcesParseU64 s = some n ↔
      ∃ blanks sign digits, IsScanned s blanks sign digits ∧ n = signedValue sign digits := by
  constructor
  · intro h
    unfold sourcesParseU64 at h
    split at h
    · next value hscan =>
      rw [Option.some.injEq] at h
      subst h
      exact exists_isScanned hscan
    · simp at h
  · rintro ⟨blanks, sign, digits, hscan, rfl⟩
    simp [sourcesParseU64, scanUnsigned_of_isScanned hscan]

/-- A numeral is read as the number it is. -/
theorem sourcesParseU64_of_isNumeral {s : List UInt8} {n : ℕ} (h : IsNumeral s n) :
    sourcesParseU64 s = some n := by
  obtain ⟨hpos, -, hdigits, rfl, hfits⟩ := h
  refine sourcesParseU64_iff.mpr ⟨[], [], s, ⟨by simp, by simp, Or.inl rfl, ?_, hdigits, hfits⟩, ?_⟩
  · exact List.ne_nil_of_length_pos hpos
  · simp [signedValue]

/-- A loose number is no numeral. -/
theorem IsLoose.not_isNumeral {s : List UInt8} (h : IsLoose s) (n : ℕ) : ¬ IsNumeral s n := by
  obtain ⟨blanks, sign, digits, ⟨rfl, hblanks, hsign, -, -, -⟩, hextra⟩ := h
  rintro ⟨-, hlen, hdigits, -⟩
  rcases hextra with hne | hne | hlong
  · obtain ⟨c, hc⟩ := List.exists_mem_of_ne_nil blanks hne
    have hdigit := isDigit_not_isSpace (hdigits c (List.mem_append_left _ hc))
    rw [hblanks c hc] at hdigit
    exact absurd hdigit (by decide)
  · have hmem : ∀ c ∈ sign, isDigit c = true := fun c hc =>
      hdigits c (List.mem_append_right _ (List.mem_append_left _ hc))
    rcases hsign with rfl | rfl | rfl
    · exact hne rfl
    · exact absurd (hmem 0x2b (by simp)) (by decide)
    · exact absurd (hmem 0x2d (by simp)) (by decide)
  · simp only [List.length_append] at hlen
    omega

/-- The three parsers agree on a string, and on the numerals, exactly if it is not
a loose number. -/
theorem parsersAgree_iff (s : Str) : ParsersAgree s ↔ ¬ IsLoose s.bytes := by
  constructor
  · intro hagree hloose
    obtain ⟨blanks, sign, digits, hscan, -⟩ := id hloose
    have hread := sourcesParseU64_iff.mpr ⟨blanks, sign, digits, hscan, rfl⟩
    exact hloose.not_isNumeral _ ((hagree _).2.2.mp hread)
  · intro hstrict n
    refine ⟨?_, ?_, ?_, sourcesParseU64_of_isNumeral⟩
    · rw [statusParseU64, List.take_length, parseU64_iff]
    · rw [eventsParseU64, List.take_length, parseU64_iff]
    · intro hread
      obtain ⟨blanks, sign, digits, hscan, hvalue⟩ := sourcesParseU64_iff.mp hread
      have hplain : ¬ (blanks ≠ [] ∨ sign ≠ [] ∨ 20 < digits.length) := fun hextra =>
        hstrict ⟨blanks, sign, digits, hscan, hextra⟩
      obtain ⟨rfl, rfl, hlen⟩ : blanks = [] ∧ sign = [] ∧ digits.length ≤ 20 := by
        simpa only [not_or, Decidable.not_not, Nat.not_lt] using hplain
      obtain ⟨hparts, -, -, hne, hdigits, hfits⟩ := hscan
      rw [List.nil_append, List.nil_append] at hparts
      rw [hparts]
      have hvalue' : digitsValue digits = n := by simpa [signedValue] using hvalue.symm
      exact ⟨List.length_pos_of_ne_nil hne, hlen, hdigits, hvalue', hvalue' ▸ hfits⟩

/-- A negative number is read as one that wraps around. -/
theorem not_parsersAgree_negative : ¬ ParsersAgree ⟨lit "-1", by decide⟩ := by
  intro h
  have hread := (h (2 ^ 64 - 1)).2.2.mp (by decide)
  exact absurd hread (by decide)

end Faceplate.Feed
