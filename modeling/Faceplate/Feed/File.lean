import Faceplate.Lib.CString

/-!
# Reading a feed file

What the readers of the status surface see of the file system: the outcome of an
`open`, what `fstat` reports, and the bytes that `read` delivers. The checks here
are the ones the readers share; they decide before a byte is parsed.
-/

namespace Faceplate.Feed

open CString

/-- The fields of `struct stat` that are checked. -/
structure Stat where
  regular : Bool
  nlink : ℕ
  uid : ℕ
  mode : ℕ
  size : ℤ

/-- An open file. `data` is what reading delivers until it stops, at the end of
the file or, without `eof`, with an error. `stat` is `none` if `fstat` fails. -/
structure File where
  stat : Option Stat
  data : List UInt8
  eof : Bool

/-- The result of opening a name without following links: there is no such file,
it may not be opened, or it is open. -/
inductive Lookup where
  | missing
  | refused
  | opened (file : File)

/-- An open directory. -/
abbrev Directory := List UInt8 → Lookup

/-- `open` of a path with `O_DIRECTORY | O_NOFOLLOW`. -/
abbrev FileSystem := List UInt8 → Option Directory

/-- The checks and reads of `faceplate_events_read_at` and
`faceplate_status_read_at`: a private regular file of at most `maxBytes` bytes
that is as long as `fstat` said. -/
def readSnapshot (maxBytes uid : ℕ) (file : File) : Option (List UInt8) :=
  match file.stat with
  | none => none
  | some st =>
    if st.regular ∧ st.nlink = 1 ∧ st.uid = uid ∧ 0 < st.size ∧ st.size ≤ maxBytes ∧
        (st.mode &&& 0o777) &&& (0o777 ^^^ 0o640) = 0 ∧
        (file.data.length : ℤ) = st.size ∧ file.eof then some file.data
    else none

/-- `read_safe_file_at` of `faceplate_sources.c`: not writable by others, and
read at once into a buffer of `cap` bytes. -/
def readSafeFileAt (dir : Directory) (name : List UInt8) (uid cap : ℕ) : Option (List UInt8) :=
  match dir name with
  | .missing => none
  | .refused => none
  | .opened file =>
    match file.stat with
    | none => none
    | some st =>
      let bytes := file.data.take (cap - 1)
      if st.regular ∧ st.nlink = 1 ∧ st.uid = uid ∧ st.mode &&& 0o022 = 0 ∧ 0 < st.size ∧
          st.size < cap ∧ bytes ≠ [] ∧ (bytes.length : ℤ) = st.size then some bytes
      else none

/-- The digit loop of `parse_u64` in the status and events readers. -/
def parseDigits : ℕ → List UInt8 → Option ℕ
  | result, [] => some result
  | result, c :: rest =>
    if c < 0x30 ∨ 0x39 < c then none
    else
      let digit := c.toNat - 48
      if (2 ^ 64 - 1 - digit) / 10 < result then none
      else parseDigits (result * 10 + digit) rest

/-- `parse_u64` of the status and events readers: one to twenty digits. -/
def parseU64 (value : List UInt8) : Option ℕ :=
  if value.isEmpty ∨ 20 < value.length then none else parseDigits 0 value

/-- A numeral of the feed files: one to twenty digits of a 64 bit number. -/
def IsNumeral (value : List UInt8) (n : ℕ) : Prop :=
  1 ≤ value.length ∧ value.length ≤ 20 ∧ (∀ c ∈ value, isDigit c = true) ∧
    digitsValue value = n ∧ n < 2 ^ 64

instance (value : List UInt8) (n : ℕ) : Decidable (IsNumeral value n) :=
  inferInstanceAs (Decidable (1 ≤ value.length ∧ value.length ≤ 20 ∧
    (∀ c ∈ value, isDigit c = true) ∧ digitsValue value = n ∧ n < 2 ^ 64))

theorem IsNumeral.newline {value : List UInt8} {n : ℕ} (h : IsNumeral value n) :
    0x0a ∉ value := by
  intro hmem
  exact absurd (h.2.2.1 _ hmem) (by decide)

theorem le_foldl_digits (ds : List UInt8) (acc : ℕ) :
    acc ≤ ds.foldl (fun n c => 10 * n + (c.toNat - 48)) acc := by
  induction ds generalizing acc with
  | nil => exact Nat.le_refl acc
  | cons c rest ih =>
    have := ih (10 * acc + (c.toNat - 48))
    rw [List.foldl_cons]
    omega

/-- The digit loop refuses exactly what is no digit and what does not fit. -/
theorem parseDigits_iff {ds : List UInt8} {acc n : ℕ} (hacc : acc < 2 ^ 64) :
    parseDigits acc ds = some n ↔ (∀ c ∈ ds, isDigit c = true) ∧
      ds.foldl (fun n c => 10 * n + (c.toNat - 48)) acc = n ∧ n < 2 ^ 64 := by
  induction ds generalizing acc with
  | nil =>
    simp only [parseDigits, Option.some.injEq, List.foldl_nil]
    constructor
    · rintro rfl
      exact ⟨by simp, rfl, hacc⟩
    · exact fun h => h.2.1
  | cons c rest ih =>
    have hchar : (c < 0x30 ∨ 0x39 < c) ↔ ¬ isDigit c = true := by
      rw [isDigit_iff, UInt8.lt_iff_toNat_lt, UInt8.lt_iff_toNat_lt]
      have h30 : (0x30 : UInt8).toNat = 48 := rfl
      have h39 : (0x39 : UInt8).toNat = 57 := rfl
      omega
    unfold parseDigits
    rw [if_congr hchar rfl rfl]
    by_cases hdigit : isDigit c = true
    · have hrange := isDigit_iff.mp hdigit
      rw [if_neg (by simpa using hdigit)]
      by_cases hover : (2 ^ 64 - 1 - (c.toNat - 48)) / 10 < acc
      · have hle := le_foldl_digits rest (10 * acc + (c.toNat - 48))
        simp only [hover, if_true, List.foldl_cons]
        refine iff_of_false (by simp) ?_
        rintro ⟨-, hvalue, hlt⟩
        omega
      · simp only [hover, if_false, List.foldl_cons, List.forall_mem_cons, hdigit, true_and]
        rw [ih (by omega), Nat.mul_comm acc 10]
    · rw [if_pos hdigit]
      refine iff_of_false (by simp) fun h => ?_
      exact hdigit (h.1 c List.mem_cons_self)

/-- `parse_u64` reads exactly the numerals. -/
theorem parseU64_iff {value : List UInt8} {n : ℕ} :
    parseU64 value = some n ↔ IsNumeral value n := by
  have hempty : value.isEmpty = true ↔ value.length = 0 := by
    rw [List.isEmpty_iff, List.length_eq_zero_iff]
  unfold parseU64 IsNumeral digitsValue
  by_cases hlen : value.isEmpty ∨ 20 < value.length
  · rw [if_pos hlen]
    refine iff_of_false (by simp) ?_
    rintro ⟨hpos, hle, -⟩
    rw [hempty] at hlen
    omega
  · rw [if_neg hlen, parseDigits_iff (by decide)]
    rw [hempty] at hlen
    constructor
    · exact fun h => ⟨by omega, by omega, h⟩
    · exact fun h => h.2.2

/-- Letters and digits. -/
def alnum (c : UInt8) : Bool :=
  (0x41 ≤ c && c ≤ 0x5a) || (0x61 ≤ c && c ≤ 0x7a) || (0x30 ≤ c && c ≤ 0x39)

/-- A value of 1 to `max` characters of a set; every reader checks its values so. -/
def charsOk (allowed : UInt8 → Bool) (max : ℕ) (value : List UInt8) : Bool :=
  !value.isEmpty && value.length ≤ max && value.all allowed

end Faceplate.Feed
