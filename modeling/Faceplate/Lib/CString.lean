import Mathlib.Algebra.Group.Nat.Defs
import Mathlib.Data.List.Basic
import Mathlib.Data.List.TakeWhile
import Mathlib.Data.List.Count
import Mathlib.Tactic.SplitIfs

/-!
# NUL-terminated strings

Memory as a list of bytes, read from the front. A string is what stands before
the first NUL; a string without one runs through all of the memory. The lemmas
say where `strlen` stops, and how that depends on what follows a buffer. The
second part has the library's scanners, on strings without their NUL.
-/

namespace CString

/-- The bytes of an ASCII literal, without its terminator. -/
def lit (s : String) : List UInt8 := s.toList.map fun c => c.toNat.toUInt8

/-- The string at the front of the memory. -/
def cstr (s : List UInt8) : List UInt8 := s.takeWhile (· ≠ 0)

/-- `strlen`. -/
def strlen (s : List UInt8) : ℕ := (cstr s).length

@[simp] theorem strlen_nil : strlen [] = 0 := rfl

theorem cstr_cons (c : UInt8) (s : List UInt8) :
    cstr (c :: s) = if c = 0 then [] else c :: cstr s := by
  by_cases h : c = 0 <;> simp [cstr, h]

theorem strlen_cons (c : UInt8) (s : List UInt8) :
    strlen (c :: s) = if c = 0 then 0 else strlen s + 1 := by
  by_cases h : c = 0 <;> simp [strlen, cstr_cons, h]

theorem zero_not_mem_cstr (s : List UInt8) : 0 ∉ cstr s := by
  intro h
  simpa using List.mem_takeWhile_imp h

theorem cstr_of_zero_not_mem {s : List UInt8} (h : 0 ∉ s) : cstr s = s := by
  refine List.takeWhile_eq_self_iff.mpr fun c hc => ?_
  simp only [decide_not, Bool.not_eq_true', decide_eq_false_iff_not]
  rintro rfl
  exact h hc

theorem zero_mem_tail {c : UInt8} {s : List UInt8} (h : 0 ∈ c :: s) (hc : c ≠ 0) : 0 ∈ s := by
  rcases List.mem_cons.mp h with h | h
  · exact absurd h.symm hc
  · exact h

/-- A terminated string ignores what stands behind its buffer. -/
theorem strlen_append_of_mem {s : List UInt8} (t : List UInt8) (h : 0 ∈ s) :
    strlen (s ++ t) = strlen s := by
  induction s with
  | nil => simp at h
  | cons c s ih =>
    by_cases hc : c = 0
    · simp [strlen_cons, hc]
    · have hs := zero_mem_tail h hc
      simp [strlen_cons, hc, ih hs]

/-- An unterminated one runs on into it. -/
theorem strlen_append_of_not_mem {s : List UInt8} (t : List UInt8) (h : 0 ∉ s) :
    strlen (s ++ t) = s.length + strlen t := by
  induction s with
  | nil => simp
  | cons c s ih =>
    simp only [List.mem_cons, not_or] at h
    simp only [List.cons_append, strlen_cons, Ne.symm h.1, if_false, ih h.2, List.length_cons]
    omega

theorem strlen_lt_of_mem {s : List UInt8} (h : 0 ∈ s) : strlen s < s.length := by
  induction s with
  | nil => simp at h
  | cons c s ih =>
    by_cases hc : c = 0
    · simp [strlen_cons, hc]
    · have hs := zero_mem_tail h hc
      have := ih hs
      simp only [strlen_cons, hc, if_false, List.length_cons]
      omega

/-- Inside the memory the string ends at a NUL. -/
theorem getD_strlen (s : List UInt8) : s.getD (strlen s) 0 = 0 := by
  induction s with
  | nil => rfl
  | cons c s ih =>
    by_cases hc : c = 0
    · simp [strlen_cons, hc]
    · simpa [strlen_cons, hc] using ih

/-- A string on its own: bytes without a NUL. -/
structure Str where
  bytes : List UInt8
  noNul : 0 ∉ bytes
  deriving DecidableEq

/-- The string as it stands in memory. -/
def Str.terminated (s : Str) : List UInt8 := s.bytes ++ [0]

@[simp] theorem Str.length_terminated (s : Str) : s.terminated.length = s.bytes.length + 1 := by
  simp [Str.terminated]

/-- A string in an array of some bytes, which is what stands in front of its NUL. -/
structure CharArray (size : ℕ) where
  text : List UInt8
  noNul : 0 ∉ text
  fits : text.length < size
  deriving DecidableEq

theorem zero_notMem_nil : (0 : UInt8) ∉ [] := List.not_mem_nil

/-- An array that starts with its NUL. -/
def CharArray.empty {size : ℕ} (h : 0 < size) : CharArray size := ⟨[], zero_notMem_nil, h⟩

/-- The string that starts at an offset. -/
def stringAt (mem : List UInt8) (p : ℕ) : Str := ⟨cstr (mem.drop p), zero_not_mem_cstr _⟩

theorem cstr_terminated (s : Str) (rest : List UInt8) : cstr (s.terminated ++ rest) = s.bytes := by
  have hall : ∀ c ∈ s.bytes, (decide (c ≠ 0)) = true := fun c hc => by
    simp only [decide_eq_true_eq]
    rintro rfl
    exact s.noNul hc
  unfold cstr Str.terminated
  rw [List.append_assoc, List.takeWhile_append_of_pos hall]
  simp

/-- Stepping over a terminated string steps over exactly one NUL. -/
theorem count_zero_of_mem {s : List UInt8} (h : 0 ∈ s) :
    s.count 0 = (s.drop (strlen s + 1)).count 0 + 1 := by
  induction s with
  | nil => simp at h
  | cons c s ih =>
    by_cases hc : c = 0
    · simp [strlen_cons, hc]
    · have hs := zero_mem_tail h hc
      simp only [strlen_cons, hc, if_false, List.drop_succ_cons, List.count_cons,
        beq_iff_eq, Nat.add_zero]
      exact ih hs

/-- `strtok_r` with a single separator: the non-empty stretches between
separators, up to the first NUL. -/
def tokens (sep : UInt8) (s : List UInt8) : List (List UInt8) :=
  ((cstr s).splitOn sep).filter (!·.isEmpty)

/-- `strchr`: what stands before and behind the first occurrence. -/
def strchr (c : UInt8) (s : List UInt8) : Option (List UInt8 × List UInt8) :=
  match s.dropWhile (· ≠ c) with
  | [] => none
  | _ :: rest => some (s.takeWhile (· ≠ c), rest)

/-- `strrchr`: what stands before and behind the last occurrence. -/
def strrchr (c : UInt8) (s : List UInt8) : Option (List UInt8 × List UInt8) :=
  (strchr c s.reverse).map fun (after, before) => (before.reverse, after.reverse)

/-- `strncmp` with the length of a prefix, and the rest behind it. -/
def stripPrefix (pre s : List UInt8) : Option (List UInt8) :=
  if pre.isPrefixOf s then some (s.drop pre.length) else none

/-- `strncpy(buf, s, sizeof(buf) - 1)` into a cleared buffer, and `%s` into it. -/
def fit (cap : ℕ) (s : List UInt8) : List UInt8 := s.take (cap - 1)

/-- `isspace` in the C locale. -/
def isSpace (c : UInt8) : Bool := c == 0x20 || (9 ≤ c && c ≤ 13)

/-- A decimal digit. -/
def isDigit (c : UInt8) : Bool := 0x30 ≤ c && c ≤ 0x39

/-- The number a string of digits denotes. -/
def digitsValue (ds : List UInt8) : ℕ := ds.foldl (fun n c => 10 * n + (c.toNat - 48)) 0

/-- What `strtoull` in base 10 and `%lu` read from the front: blanks, a sign and
digits. Returns the value, whether it was out of range, and what follows. -/
def scanUnsigned (s : List UInt8) : Option (ℕ × Bool × List UInt8) :=
  let s := s.dropWhile isSpace
  let (negative, s) :=
    match s with
    | 0x2d :: rest => (true, rest)
    | 0x2b :: rest => (false, rest)
    | _ => (false, s)
  let n := digitsValue (s.takeWhile isDigit)
  let rest := s.dropWhile isDigit
  if (s.takeWhile isDigit).isEmpty then none
  else if 2 ^ 64 ≤ n then some (2 ^ 64 - 1, true, rest)
  else some (if negative then (2 ^ 64 - n) % 2 ^ 64 else n, false, rest)

/-- The decimal digits of a number, as `%llu` prints it. -/
def decimal (n : ℕ) : List UInt8 := (Nat.toDigits 10 n).map fun c => c.toNat.toUInt8

theorem cstr_append {s : List UInt8} (hs : 0 ∉ s) (t : List UInt8) :
    cstr (s ++ t) = s ++ cstr t := by
  refine List.takeWhile_append_of_pos fun c hc => ?_
  simp only [decide_not, Bool.not_eq_true', decide_eq_false_iff_not]
  rintro rfl
  exact hs hc

/-- The first token is the first line. -/
theorem tokens_line {sep : UInt8} {line : List UInt8} (hne : line ≠ []) (hsep : sep ∉ line)
    (hzero : 0 ∉ line) (hsep₀ : sep ≠ 0) (body : List UInt8) :
    tokens sep (line ++ sep :: body) = line :: tokens sep body := by
  unfold tokens
  rw [cstr_append hzero, cstr_cons, if_neg hsep₀, List.splitOn_append_cons_self_of_not_mem hsep]
  simp [hne]

/-- Without a NUL the tokens are the lines that are not empty. -/
theorem tokens_of_zero_not_mem {s : List UInt8} (h : 0 ∉ s) (sep : UInt8) :
    tokens sep s = (s.splitOn sep).filter (!·.isEmpty) := by
  rw [tokens, cstr_of_zero_not_mem h]

theorem mem_intercalate {sep c : UInt8} {ls : List (List UInt8)} (h : c ∈ [sep].intercalate ls) :
    c = sep ∨ ∃ l ∈ ls, c ∈ l := by
  induction ls with
  | nil => simp at h
  | cons l rest ih =>
    by_cases hrest : rest = []
    · subst hrest
      rw [List.intercalate_singleton] at h
      exact Or.inr ⟨l, List.mem_cons_self, h⟩
    · rw [List.intercalate_cons_of_ne_nil hrest] at h
      simp only [List.mem_append, List.mem_singleton] at h
      rcases h with (h | h) | h
      · exact Or.inr ⟨l, List.mem_cons_self, h⟩
      · exact Or.inl h
      · rcases ih h with h | ⟨l', hl', hc⟩
        · exact Or.inl h
        · exact Or.inr ⟨l', List.mem_cons_of_mem _ hl', hc⟩

/-- Every byte is a separator or stands in one of the lines that are not empty. -/
theorem mem_line {sep c : UInt8} {s : List UInt8} (h : c ∈ s) :
    c = sep ∨ ∃ l ∈ (s.splitOn sep).filter (!·.isEmpty), c ∈ l := by
  have hmem : c ∈ [sep].intercalate (s.splitOn sep) := by rwa [List.intercalate_splitOn sep]
  rcases mem_intercalate hmem with h | ⟨l, hl, hc⟩
  · exact Or.inl h
  · refine Or.inr ⟨l, List.mem_filter.mpr ⟨hl, ?_⟩, hc⟩
    simpa using List.ne_nil_of_mem hc

/-- Reading lines back: each line is a token if none is empty or has a newline or
a NUL in it. -/
theorem tokens_flatMap {sep : UInt8} {lines : List (List UInt8)} (hsep : sep ≠ 0)
    (hne : ∀ l ∈ lines, l ≠ []) (hlines : ∀ l ∈ lines, ∀ c ∈ l, c ≠ sep ∧ c ≠ 0) :
    tokens sep (lines.flatMap (· ++ [sep])) = lines := by
  have hzero : 0 ∉ lines.flatMap (· ++ [sep]) := by
    simp only [List.mem_flatMap, List.mem_append, List.mem_singleton, not_exists, not_and, not_or]
    exact fun l hl => ⟨fun h => (hlines l hl 0 h).2 rfl, hsep.symm⟩
  rw [tokens, cstr_of_zero_not_mem hzero]
  clear hzero
  induction lines with
  | nil => simp
  | cons l rest ih =>
    have hl : sep ∉ l := fun h => (hlines l List.mem_cons_self sep h).1 rfl
    have hrest := ih (fun m hm => hne m (List.mem_cons_of_mem _ hm))
      (fun m hm => hlines m (List.mem_cons_of_mem _ hm))
    rw [List.flatMap_cons, List.append_assoc, List.singleton_append,
      List.splitOn_append_cons_self, List.splitOn_eq_singleton hl, List.filter_append, hrest]
    simp [hne l List.mem_cons_self]

theorem strchr_append {c : UInt8} {s : List UInt8} (hs : c ∉ s) (rest : List UInt8) :
    strchr c (s ++ c :: rest) = some (s, rest) := by
  have hall : ∀ x ∈ s, (decide (x ≠ c)) = true := fun x hx => by
    simp only [decide_eq_true_eq]
    rintro rfl
    exact hs hx
  unfold strchr
  rw [List.dropWhile_append_of_pos hall, List.takeWhile_append_of_pos hall]
  simp

/-- `strchr` splits at the first occurrence. -/
theorem strchr_eq_some_iff {c : UInt8} {s before after : List UInt8} :
    strchr c s = some (before, after) ↔ s = before ++ c :: after ∧ c ∉ before := by
  constructor
  · intro h
    have hsplit := List.takeWhile_append_dropWhile (p := (· ≠ c)) (l := s)
    unfold strchr at h
    cases hrest : s.dropWhile (· ≠ c) with
    | nil =>
      rw [hrest] at h
      exact absurd h (by simp)
    | cons d rest =>
      obtain rfl : d = c := by
        have := List.head?_dropWhile_not (fun x => decide (x ≠ c)) s
        rw [hrest] at this
        simpa using this
      rw [hrest] at h
      simp only [Option.some.injEq, Prod.mk.injEq] at h
      obtain ⟨rfl, rfl⟩ := h
      refine ⟨?_, fun hmem => ?_⟩
      · rw [← hrest, hsplit]
      · simpa using List.mem_takeWhile_imp hmem
  · rintro ⟨rfl, hc⟩
    exact strchr_append hc after

/-- `strrchr` splits at the last occurrence. -/
theorem strrchr_eq_some_iff {c : UInt8} {s before after : List UInt8} :
    strrchr c s = some (before, after) ↔ s = before ++ c :: after ∧ c ∉ after := by
  constructor
  · intro h
    obtain ⟨⟨after', before'⟩, hfound, heq⟩ := Option.map_eq_some_iff.mp h
    obtain ⟨rfl, rfl⟩ := Prod.mk.inj heq
    obtain ⟨hsplit, hc⟩ := strchr_eq_some_iff.mp hfound
    constructor
    · rw [← List.reverse_reverse s, hsplit]
      simp
    · simpa using hc
  · rintro ⟨rfl, hc⟩
    have hsplit : strchr c (before ++ c :: after).reverse =
        some (after.reverse, before.reverse) := by
      apply strchr_eq_some_iff.mpr
      simpa using hc
    rw [strrchr, hsplit]
    simp

theorem exists_strrchr {c : UInt8} {s : List UInt8} (h : c ∈ s) :
    ∃ before after, strrchr c s = some (before, after) := by
  obtain ⟨after, before, hsplit, hc⟩ := List.eq_append_cons_of_mem (List.mem_reverse.mpr h)
  refine ⟨before.reverse, after.reverse, ?_⟩
  rw [strrchr, strchr_eq_some_iff.mpr ⟨hsplit, hc⟩]
  rfl

theorem stripPrefix_eq_some_iff {pre s rest : List UInt8} :
    stripPrefix pre s = some rest ↔ s = pre ++ rest := by
  unfold stripPrefix
  split_ifs with hpre
  · obtain ⟨tail, rfl⟩ := List.isPrefixOf_iff_prefix.mp hpre
    simp
  · refine iff_of_false (by simp) ?_
    rintro rfl
    exact hpre (List.isPrefixOf_iff_prefix.mpr (List.prefix_append pre rest))

theorem fit_eq_self {cap : ℕ} {s : List UInt8} (h : s.length ≤ cap - 1) : fit cap s = s :=
  List.take_of_length_le h

theorem length_fit_le (cap : ℕ) (s : List UInt8) : (fit cap s).length ≤ cap - 1 :=
  List.length_take_le _ _

theorem toNat_toUInt8_of_isDigit {c : Char} (h : c.isDigit = true) :
    c.toNat.toUInt8.toNat = c.toNat := by
  have hle : c.toNat ≤ 57 := by
    simp only [Char.isDigit, Bool.and_eq_true, decide_eq_true_eq] at h
    exact h.2
  simp only [Nat.toUInt8, UInt8.toNat_ofNat']
  omega

theorem isDigit_of_mem_decimal {n : ℕ} {c : UInt8} (hc : c ∈ decimal n) : isDigit c = true := by
  obtain ⟨d, hd, rfl⟩ := List.mem_map.mp hc
  have hdigit := Nat.isDigit_of_mem_toDigits (by decide) (by decide) hd
  have hval := toNat_toUInt8_of_isDigit hdigit
  simp only [Char.isDigit, Bool.and_eq_true, decide_eq_true_eq] at hdigit
  simp only [isDigit, Bool.and_eq_true, decide_eq_true_eq, UInt8.le_iff_toNat_le, hval]
  exact hdigit

theorem decimal_ne_nil (n : ℕ) : decimal n ≠ [] := by
  simp [decimal, Nat.toDigits_ne_nil]

theorem length_decimal_le {n : ℕ} (h : n < 2 ^ 64) : (decimal n).length ≤ 20 := by
  rw [decimal, List.length_map, Nat.length_toDigits_le_iff (by decide) (by decide)]
  omega

theorem digitsValue_decimal (n : ℕ) : digitsValue (decimal n) = n := by
  have hfold : ∀ (l : List Char) (init : ℕ), (∀ c ∈ l, c.isDigit = true) →
      (l.map fun c => c.toNat.toUInt8).foldl (fun n c => 10 * n + (c.toNat - 48)) init =
        Nat.ofDigitChars 10 l init := by
    intro l
    induction l with
    | nil => simp
    | cons c l ih =>
      intro init hl
      rw [List.map_cons, List.foldl_cons, Nat.ofDigitChars_cons,
        toNat_toUInt8_of_isDigit (hl c List.mem_cons_self)]
      exact ih _ fun d hd => hl d (List.mem_cons_of_mem _ hd)
  rw [digitsValue, decimal, hfold _ _ fun c hc =>
    Nat.isDigit_of_mem_toDigits (by decide) (by decide) hc]
  exact Nat.ofDigitChars_ten_toDigits

theorem isDigit_iff {c : UInt8} : isDigit c = true ↔ 48 ≤ c.toNat ∧ c.toNat ≤ 57 := by
  simp only [isDigit, Bool.and_eq_true, decide_eq_true_eq, UInt8.le_iff_toNat_le]
  rfl

theorem isDigit_not_isSpace {c : UInt8} (h : isDigit c = true) : isSpace c = false := by
  have hrange := isDigit_iff.mp h
  simp only [isSpace, Bool.or_eq_false_iff, beq_eq_false_iff_ne, ne_eq, Bool.and_eq_false_iff,
    decide_eq_false_iff_not, UInt8.le_iff_toNat_le]
  have h13 : (13 : UInt8).toNat = 13 := rfl
  refine ⟨?_, Or.inr (by omega)⟩
  rintro rfl
  exact absurd h (by decide)

/-- Digits are read to their end: they start with neither a blank nor a sign. -/
theorem scanUnsigned_of_digits {s : List UInt8} (hne : s ≠ []) (hs : ∀ c ∈ s, isDigit c = true) :
    scanUnsigned s =
      if 2 ^ 64 ≤ digitsValue s then some (2 ^ 64 - 1, true, [])
      else some (digitsValue s, false, []) := by
  cases s with
  | nil => exact absurd rfl hne
  | cons c rest =>
    have hc := isDigit_iff.mp (hs c List.mem_cons_self)
    have hblank : isSpace c = false := isDigit_not_isSpace (hs c List.mem_cons_self)
    have hminus : c ≠ 0x2d := by
      rintro rfl
      exact absurd hc.1 (by decide)
    have hplus : c ≠ 0x2b := by
      rintro rfl
      exact absurd hc.1 (by decide)
    have htake : (c :: rest).takeWhile isDigit = c :: rest := List.takeWhile_eq_self_iff.mpr hs
    have hdrop : (c :: rest).dropWhile isDigit = [] := List.dropWhile_eq_nil_iff.mpr hs
    have hstart : (c :: rest).dropWhile isSpace = c :: rest := by
      simp [hblank]
    unfold scanUnsigned
    simp only [hstart]
    split
    · exact absurd (List.cons.inj ‹_›).1 hminus
    · exact absurd (List.cons.inj ‹_›).1 hplus
    · simp only [htake, hdrop, List.isEmpty_cons, Bool.false_eq_true, if_false]

theorem scanUnsigned_digits {s : List UInt8} (hne : s ≠ []) (hs : ∀ c ∈ s, isDigit c = true)
    (hlt : digitsValue s < 2 ^ 64) : scanUnsigned s = some (digitsValue s, false, []) := by
  rw [scanUnsigned_of_digits hne hs, if_neg (Nat.not_le.mpr hlt)]

/-- A printed number is read back whole. -/
theorem scanUnsigned_decimal {n : ℕ} (h : n < 2 ^ 64) :
    scanUnsigned (decimal n) = some (n, false, []) := by
  have hread := scanUnsigned_digits (decimal_ne_nil n) (fun c hc => isDigit_of_mem_decimal hc)
    (by rwa [digitsValue_decimal])
  rwa [digitsValue_decimal] at hread

end CString
