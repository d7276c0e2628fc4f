import Faceplate.Lib.CString
import Faceplate.Lib.Rounding

/-!
# Doubles and their numerals

Doubles with their special values, and `strtod` in the C locale: decimal and
hexadecimal numerals, infinities and NaNs. The rounding is a parameter, so that
exact arithmetic is one instance and that of the machine another.
-/

namespace Faceplate.Misc

open CString

/-- A `double`. -/
inductive Double where
  | finite (q : ℚ)
  | infinite (negative : Bool)
  | nan
  deriving DecidableEq

/-- The negative of a double. -/
def Double.neg : Double → Double
  | .finite q => .finite (-q)
  | .infinite negative => .infinite !negative
  | .nan => .nan

/-- `x + y`. A sum beyond the largest double stays finite here. -/
def Double.add (R : Rounding) : Double → Double → Double
  | .finite x, .finite y => .finite (R.round (x + y))
  | .infinite s, .infinite t => if s = t then .infinite s else .nan
  | .infinite s, .finite _ => .infinite s
  | .finite _, .infinite s => .infinite s
  | _, _ => .nan

/-- `x - y`. -/
def Double.sub (R : Rounding) (x y : Double) : Double := x.add R y.neg

/-- A letter in lower case. -/
def toLower (c : UInt8) : UInt8 := if 0x41 ≤ c && c ≤ 0x5a then c + 0x20 else c

/-- What follows a word in either case. -/
def stripWord (word s : List UInt8) : Option (List UInt8) :=
  if (s.take word.length).map toLower = word then some (s.drop word.length) else none

/-- An optional sign. -/
def scanSign : List UInt8 → Bool × List UInt8
  | 0x2d :: rest => (true, rest)
  | 0x2b :: rest => (false, rest)
  | s => (false, s)

/-- Digits with an optional point: the digits, how many of them follow the point, and
the rest. -/
def scanMantissa (digit : UInt8 → Bool) (s : List UInt8) :
    Option (List UInt8 × ℕ × List UInt8) :=
  let int := s.takeWhile digit
  match s.dropWhile digit with
  | 0x2e :: rest =>
    let frac := rest.takeWhile digit
    if (int ++ frac).isEmpty then none
    else some (int ++ frac, frac.length, rest.dropWhile digit)
  | rest => if int.isEmpty then none else some (int, 0, rest)

/-- An optional exponent behind its letter. -/
def scanExponent (mark : UInt8) (s : List UInt8) : ℤ × List UInt8 :=
  match s with
  | [] => (0, [])
  | c :: rest =>
    let (negative, digits) := scanSign rest
    let n := digitsValue (digits.takeWhile isDigit)
    if toLower c ≠ mark || (digits.takeWhile isDigit).isEmpty then (0, s)
    else (if negative then -n else n, digits.dropWhile isDigit)

/-- A decimal numeral without its sign. -/
def scanDecimal (s : List UInt8) : Option (ℚ × List UInt8) :=
  match scanMantissa isDigit s with
  | none => none
  | some (digits, shift, rest) =>
    let (e, rest) := scanExponent 0x65 rest
    some (digitsValue digits * 10 ^ (e - shift), rest)

/-- The value of a hexadecimal digit, if it is one. -/
def hexDigit? (c : UInt8) : Option ℕ :=
  if isDigit c then some (c.toNat - 0x30)
  else if 0x61 ≤ toLower c && toLower c ≤ 0x66 then some ((toLower c).toNat - 0x61 + 10)
  else none

/-- A hexadecimal numeral without its sign. -/
def scanHex (s : List UInt8) : Option (ℚ × List UInt8) :=
  match stripWord (lit "0x") s with
  | none => none
  | some body =>
    match scanMantissa (fun c => (hexDigit? c).isSome) body with
    | none => none
    | some (digits, shift, rest) =>
      let (e, rest) := scanExponent 0x70 rest
      let n := digits.foldl (fun n c => 16 * n + (hexDigit? c).getD 0) 0
      some (n * 16 ^ (-(shift : ℤ)) * 2 ^ e, rest)

/-- What may follow `nan`: letters, digits and underscores in parentheses. -/
def skipNanChars (s : List UInt8) : List UInt8 :=
  let inner (c : UInt8) := isDigit c || (0x61 ≤ toLower c && toLower c ≤ 0x7a) || c == 0x5f
  match s with
  | 0x28 :: rest =>
    match rest.dropWhile inner with
    | 0x29 :: rest => rest
    | _ => s
  | _ => s

/-- `strtod`: the number, where it ends, and whether it is out of range. -/
def strtod (R : Rounding) (s : List UInt8) : Double × List UInt8 × Bool :=
  let (negative, body) := scanSign (s.dropWhile isSpace)
  match stripWord (lit "infinity") body, stripWord (lit "inf") body,
      stripWord (lit "nan") body with
  | some rest, _, _ => (.infinite negative, rest, false)
  | none, some rest, _ => (.infinite negative, rest, false)
  | none, none, some rest => (.nan, skipNanChars rest, false)
  | none, none, none =>
    match (scanHex body).orElse fun _ => scanDecimal body with
    | none => (.finite 0, s, false)
    | some (q, rest) =>
      let q := if negative then -q else q
      if R.inRange q then (.finite (R.round q), rest, false)
      else if 1 ≤ |q| then (.infinite negative, rest, true)
      else (.finite 0, rest, true)

/-- The exponent of a numeral. -/
structure Exponent where
  upper : Bool
  sign : Option Bool
  digits : List UInt8
  digits_ne : digits ≠ []
  digits_digit : ∀ c ∈ digits, isDigit c = true

/-- The value of an exponent. -/
def Exponent.value (e : Exponent) : ℤ :=
  if e.sign = some true then -digitsValue e.digits else digitsValue e.digits

/-- The exponent as it is written. -/
def Exponent.text (e : Exponent) : List UInt8 :=
  (if e.upper then 0x45 else 0x65) ::
    ((match e.sign with | none => [] | some true => [0x2d] | some false => [0x2b]) ++ e.digits)

/-- A decimal numeral: an optional minus sign, digits, an optional fraction and an
optional exponent. -/
structure Numeral where
  negative : Bool
  int : List UInt8
  frac : List UInt8
  exponent : Option Exponent
  int_ne : int ≠ []
  int_digit : ∀ c ∈ int, isDigit c = true
  frac_digit : ∀ c ∈ frac, isDigit c = true

/-- The number that a numeral denotes. -/
def Numeral.value (n : Numeral) : ℚ :=
  let e := (n.exponent.map Exponent.value).getD 0
  let q : ℚ := digitsValue (n.int ++ n.frac) * 10 ^ (e - (n.frac.length : ℤ))
  if n.negative then -q else q

/-- The numeral as it is written. -/
def Numeral.text (n : Numeral) : List UInt8 :=
  (if n.negative then [0x2d] else []) ++ (n.int ++ ((if n.frac = [] then [] else 0x2e :: n.frac) ++
    (n.exponent.map Exponent.text).getD []))

theorem toLower_of_isDigit {c : UInt8} (h : isDigit c = true) : toLower c = c := by
  have hrange := isDigit_iff.mp h
  rw [toLower, if_neg]
  simp only [Bool.and_eq_true, decide_eq_true_eq, UInt8.le_iff_toNat_le, UInt8.reduceToNat]
  omega

/-- Digits up to something else. -/
theorem takeWhile_isDigit {digits : List UInt8} (h : ∀ c ∈ digits, isDigit c = true) {c : UInt8}
    (hc : isDigit c = false) (rest : List UInt8) :
    (digits ++ c :: rest).takeWhile isDigit = digits ∧
      (digits ++ c :: rest).dropWhile isDigit = c :: rest := by
  rw [List.takeWhile_append_of_pos h, List.dropWhile_append_of_pos h]
  simp [hc]

theorem scanSign_of_isDigit {c : UInt8} (h : isDigit c = true) (s : List UInt8) :
    scanSign (c :: s) = (false, c :: s) := by
  unfold scanSign
  split
  · rename_i heq
    rw [(List.cons.inj heq).1] at h
    exact absurd h (by decide)
  · rename_i heq
    rw [(List.cons.inj heq).1] at h
    exact absurd h (by decide)
  · rfl

theorem stripWord_of_isDigit {w d : UInt8} (hw : isDigit w = false) (hd : isDigit d = true)
    (word s : List UInt8) : stripWord (w :: word) (d :: s) = none := by
  refine if_neg ?_
  simp only [List.length_cons, List.take_succ_cons, List.map_cons, toLower_of_isDigit hd]
  intro heq
  rw [(List.cons.inj heq).1, hw] at hd
  exact Bool.noConfusion hd

/-- What follows the digits of a numeral. -/
def Numeral.ending (n : Numeral) (rest : List UInt8) : List UInt8 :=
  (n.exponent.map Exponent.text).getD [] ++ 0x2c :: rest

/-- The ending starts with the letter of the exponent or the comma. -/
theorem Numeral.exists_ending (n : Numeral) (rest : List UInt8) :
    ∃ c tail, n.ending rest = c :: tail ∧ (c = 0x65 ∨ c = 0x45 ∨ c = 0x2c) := by
  rw [Numeral.ending]
  cases n.exponent with
  | none => exact ⟨0x2c, rest, rfl, by simp⟩
  | some e =>
    refine ⟨_, _, rfl, ?_⟩
    cases e.upper <;> simp

/-- The exponent of a numeral is read. -/
theorem Numeral.scanExponent_ending (n : Numeral) (rest : List UInt8) :
    scanExponent 0x65 (n.ending rest) =
      ((n.exponent.map Exponent.value).getD 0, 0x2c :: rest) := by
  rw [Numeral.ending]
  cases n.exponent with
  | none =>
    have hmark : toLower 0x2c ≠ 0x65 := by decide
    simp [scanExponent, hmark]
  | some e =>
    have hmark : toLower (if e.upper then 0x45 else 0x65) = 0x65 := by cases e.upper <;> rfl
    obtain ⟨d, ds, hds⟩ := List.exists_cons_of_ne_nil e.digits_ne
    obtain ⟨htake, hdrop⟩ := takeWhile_isDigit e.digits_digit (by decide : isDigit 0x2c = false) rest
    have hsign : scanSign (((match e.sign with
        | none => [] | some true => [0x2d] | some false => [0x2b]) ++ e.digits) ++ 0x2c :: rest) =
        (decide (e.sign = some true), e.digits ++ 0x2c :: rest) := by
      rcases hsome : e.sign with _ | _ | _
      · rw [List.nil_append, hds, List.cons_append]
        exact scanSign_of_isDigit (e.digits_digit d (by simp [hds])) _
      · rfl
      · rfl
    simp only [Option.map_some, Option.getD_some, Exponent.text, List.cons_append, scanExponent,
      hsign, htake, hdrop, hmark, Exponent.value]
    simp [e.digits_ne]

/-- The digits of a numeral are read. -/
theorem Numeral.scanMantissa_eq (n : Numeral) (rest : List UInt8) :
    scanMantissa isDigit (n.int ++ ((if n.frac = [] then [] else 0x2e :: n.frac) ++
      n.ending rest)) = some (n.int ++ n.frac, n.frac.length, n.ending rest) := by
  obtain ⟨c, tail, hending, hc⟩ := n.exists_ending rest
  have hdigit : isDigit c = false := by rcases hc with rfl | rfl | rfl <;> rfl
  have hpoint : c ≠ 0x2e := by rcases hc with rfl | rfl | rfl <;> decide
  rw [hending]
  by_cases hfrac : n.frac = []
  · obtain ⟨htake, hdrop⟩ := takeWhile_isDigit n.int_digit hdigit tail
    rw [if_pos hfrac, List.nil_append, hfrac, List.append_nil]
    unfold scanMantissa
    rw [htake, hdrop]
    simp only
    split
    · exact absurd (List.cons.inj ‹_›).1 hpoint
    · simp [n.int_ne]
  · obtain ⟨htake, hdrop⟩ := takeWhile_isDigit n.int_digit (by decide : isDigit 0x2e = false)
      (n.frac ++ c :: tail)
    obtain ⟨htake', hdrop'⟩ := takeWhile_isDigit n.frac_digit hdigit tail
    rw [if_neg hfrac, List.cons_append]
    simp only [scanMantissa, htake, hdrop, htake', hdrop']
    simp [n.int_ne]

/-- A numeral starts with a digit that no `x` follows. -/
theorem Numeral.exists_digits (n : Numeral) (rest : List UInt8) :
    ∃ d c tail, n.int ++ ((if n.frac = [] then [] else 0x2e :: n.frac) ++ n.ending rest) =
      d :: c :: tail ∧ isDigit d = true ∧ toLower c ≠ 0x78 := by
  obtain ⟨d, ds, hint⟩ := List.exists_cons_of_ne_nil n.int_ne
  have hd : isDigit d = true := n.int_digit d (by simp [hint])
  obtain ⟨c, tail, hending, hc⟩ := n.exists_ending rest
  rw [hint, hending]
  cases ds with
  | cons d' ds =>
    have hd' : isDigit d' = true := n.int_digit d' (by simp [hint])
    refine ⟨d, d', _, rfl, hd, ?_⟩
    rw [toLower_of_isDigit hd']
    rintro rfl
    exact absurd hd' (by decide)
  | nil =>
    by_cases hfrac : n.frac = []
    · rw [if_pos hfrac]
      refine ⟨d, c, tail, rfl, hd, ?_⟩
      rcases hc with rfl | rfl | rfl <;> decide
    · rw [if_neg hfrac]
      exact ⟨d, 0x2e, _, rfl, hd, by decide⟩

/-- A numeral before a comma is read as its value, if that is in range. -/
theorem strtod_numeral (R : Rounding) (n : Numeral) (hrange : R.inRange n.value = true)
    (rest : List UInt8) :
    strtod R (n.text ++ 0x2c :: rest) =
      (.finite (R.round n.value), 0x2c :: rest, false) := by
  obtain ⟨d, c, tail, hbody, hd, hc⟩ := n.exists_digits rest
  have htext : n.text ++ 0x2c :: rest = (if n.negative then [0x2d] else []) ++ (n.int ++
      ((if n.frac = [] then [] else 0x2e :: n.frac) ++ n.ending rest)) := by
    simp [Numeral.text, Numeral.ending]
  have hsign : scanSign ((n.text ++ 0x2c :: rest).dropWhile isSpace) =
      (n.negative, d :: c :: tail) := by
    rw [htext, hbody]
    cases n.negative with
    | false =>
      have hspace := isDigit_not_isSpace hd
      simp [hspace, scanSign_of_isDigit hd]
    | true => rfl
  have hhex : scanHex (d :: c :: tail) = none := by
    have hword : stripWord (lit "0x") (d :: c :: tail) = none := by
      refine if_neg ?_
      intro heq
      have hx := (List.cons.inj (List.cons.inj heq).2).1
      exact hc hx
    rw [scanHex, hword]
  have hmantissa := n.scanMantissa_eq rest
  rw [hbody] at hmantissa
  have hdecimal : scanDecimal (d :: c :: tail) = some ((digitsValue (n.int ++ n.frac) : ℚ) *
      10 ^ ((n.exponent.map Exponent.value).getD 0 - (n.frac.length : ℤ)), 0x2c :: rest) := by
    simp only [scanDecimal, hmantissa, n.scanExponent_ending rest]
  have hinf : stripWord (lit "inf") (d :: c :: tail) = none :=
    stripWord_of_isDigit (by decide) hd _ _
  have hinfinity : stripWord (lit "infinity") (d :: c :: tail) = none :=
    stripWord_of_isDigit (by decide) hd _ _
  have hnan : stripWord (lit "nan") (d :: c :: tail) = none :=
    stripWord_of_isDigit (by decide) hd _ _
  have hvalue : (if n.negative then -((digitsValue (n.int ++ n.frac) : ℚ) *
      10 ^ ((n.exponent.map Exponent.value).getD 0 - (n.frac.length : ℤ))) else
      (digitsValue (n.int ++ n.frac) : ℚ) *
        10 ^ ((n.exponent.map Exponent.value).getD 0 - (n.frac.length : ℤ))) = n.value := rfl
  simp only [strtod, hsign, hinf, hinfinity, hnan, hhex, hdecimal, Option.orElse, hvalue,
    hrange, if_true]

end Faceplate.Misc
