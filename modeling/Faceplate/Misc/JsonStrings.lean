import Faceplate.Lib.Json
import Faceplate.Misc.CastStrings

/-!
# What the strings of a cast mean

A string is a list of pieces between two quotes: bytes that stand for themselves,
escapes of one letter, and code units in hexadecimal, of which a high and a low surrogate
in a row make one code point. The decoder accepts exactly the strings of this form whose
code points the terminal library can write, and gives their bytes.
-/

namespace Faceplate.Misc

open CString

/-- The escapes of one letter and what they stand for. -/
def letterEscapes : List (UInt8 × UInt8) :=
  [(0x22, 0x22), (0x5c, 0x5c), (0x2f, 0x2f), (0x62, 0x08), (0x66, 0x0c), (0x6e, 0x0a),
    (0x72, 0x0d), (0x74, 0x09)]

/-- A code unit in four hexadecimal digits. -/
structure CodeUnit where
  a : UInt8
  b : UInt8
  c : UInt8
  d : UInt8
  hex : Json.isHex a ∧ Json.isHex b ∧ Json.isHex c ∧ Json.isHex d

/-- The value of a code unit. -/
def CodeUnit.value (u : CodeUnit) : ℕ :=
  16 * (16 * (16 * Json.hexValue u.a + Json.hexValue u.b) + Json.hexValue u.c) + Json.hexValue u.d

/-- A piece of a string. -/
inductive Piece where
  | byte (c : UInt8) (h : c ≠ 0x22 ∧ c ≠ 0x5c)
  | letter (e : UInt8 × UInt8) (h : e ∈ letterEscapes)
  | unit (u : CodeUnit)

/-- How a piece is written. -/
def Piece.text : Piece → List UInt8
  | .byte c _ => [c]
  | .letter e _ => [0x5c, e.1]
  | .unit u => [0x5c, 0x75, u.a, u.b, u.c, u.d]

/-- How pieces are written one after the other. -/
def text (ps : List Piece) : List UInt8 := ps.flatMap Piece.text

/-- What a string stands for: single bytes, and code points. -/
inductive Token where
  | byte (c : UInt8)
  | code (cp : ℕ)

/-- A high surrogate and a low one behind it. -/
def surrogates (u w : CodeUnit) : Bool :=
  0xd800 ≤ u.value && u.value ≤ 0xdbff && 0xdc00 ≤ w.value && w.value ≤ 0xdfff

/-- What pieces stand for. Surrogates in a pair are one code point. -/
def meaning : List Piece → List Token
  | [] => []
  | .byte c _ :: ps => .byte c :: meaning ps
  | .letter e _ :: ps => .byte e.2 :: meaning ps
  | .unit u :: .unit w :: ps =>
    if surrogates u w then
      .code (0x10000 + (u.value - 0xd800) * 2 ^ 10 + (w.value - 0xdc00)) :: meaning ps
    else .code u.value :: meaning (.unit w :: ps)
  | .unit u :: ps => .code u.value :: meaning ps

/-- The bytes of a token. -/
def Token.bytes (utf8 : ℕ → List UInt8) : Token → List UInt8
  | .byte c => [c]
  | .code cp => utf8 cp

/-- The library refuses a code point of these. -/
def Refused (utf8 : ℕ → List UInt8) (ts : List Token) : Prop :=
  ∃ cp, .code cp ∈ ts ∧ utf8 cp = []

/-! ## Pieces -/

theorem simpleEscape_eq_some_iff {e b : UInt8} :
    simpleEscape e = some b ↔ (e, b) ∈ letterEscapes := by
  unfold simpleEscape letterEscapes
  simp only [List.mem_cons, Prod.mk.injEq, List.not_mem_nil, or_false]
  constructor
  · intro h
    split_ifs at h with h₁ h₂ h₃ h₄ h₅ h₆ <;> simp_all
    grind
  · rintro (⟨rfl, rfl⟩ | ⟨rfl, rfl⟩ | ⟨rfl, rfl⟩ | ⟨rfl, rfl⟩ | ⟨rfl, rfl⟩ | ⟨rfl, rfl⟩ |
      ⟨rfl, rfl⟩ | ⟨rfl, rfl⟩) <;> decide

theorem hexDigit_eq (c : UInt8) :
    hexDigit? c = if Json.isHex c then some (Json.hexValue c) else none := by
  have hall : ∀ n : Fin 256, hexDigit? (UInt8.ofNat n) =
      if Json.isHex (UInt8.ofNat n) then some (Json.hexValue (UInt8.ofNat n)) else none := by
    decide +kernel
  have hc := hall ⟨c.toNat, c.toNat_lt⟩
  rwa [UInt8.ofNat_toNat] at hc

/-- Four digits are a code unit. -/
theorem parseHex4_eq_some_iff {s : List UInt8} {v : ℕ} : parseHex4 s = some v ↔
    ∃ (u : CodeUnit) (rest : List UInt8),
      s = u.a :: u.b :: u.c :: u.d :: rest ∧ u.value = v := by
  constructor
  · intro h
    obtain ⟨a, b, c, d, rest, rfl, hval, hhex⟩ := exists_of_parseHex4 h
    have hdigit {e : UInt8} (he : e ∈ [a, b, c, d]) : Json.isHex e = true := by
      obtain ⟨n, hn⟩ := hhex e he
      by_contra hnot
      rw [hexDigit_eq, if_neg hnot] at hn
      simp at hn
    have ha := hdigit (e := a) (by simp)
    have hb := hdigit (e := b) (by simp)
    have hc := hdigit (e := c) (by simp)
    have hd := hdigit (e := d) (by simp)
    refine ⟨⟨a, b, c, d, ha, hb, hc, hd⟩, rest, rfl, ?_⟩
    simpa [parseHex4, hexDigit_eq, ha, hb, hc, hd, CodeUnit.value] using hval
  · rintro ⟨u, rest, rfl, rfl⟩
    obtain ⟨ha, hb, hc, hd⟩ := u.hex
    simp [parseHex4, hexDigit_eq, ha, hb, hc, hd, CodeUnit.value]

theorem CodeUnit.value_lt (u : CodeUnit) : u.value < 0x10000 :=
  parseHex4_lt (parseHex4_eq_some_iff.mpr ⟨u, [], rfl, rfl⟩)

theorem CodeUnit.plain (u : CodeUnit) {e : UInt8} (h : e ∈ [u.a, u.b, u.c, u.d]) :
    e ≠ 0x22 ∧ e ≠ 0x5c := by
  have hhex : Json.isHex e = true := by
    obtain ⟨ha, hb, hc, hd⟩ := u.hex
    simp only [List.mem_cons, List.not_mem_nil, or_false] at h
    rcases h with rfl | rfl | rfl | rfl <;> assumption
  exact hexDigit_ne (by rw [hexDigit_eq, if_pos hhex])

/-- Pieces are content of a string. -/
theorem content_text (ps : List Piece) : Content (text ps) := by
  induction ps with
  | nil => exact .nil
  | cons p ps ih =>
    rw [text, List.flatMap_cons]
    cases p with
    | byte c h => exact .plain h.1 h.2 ih
    | letter e h => exact .escaped ih
    | unit u =>
      have hplain {e : UInt8} (he : e ∈ [u.a, u.b, u.c, u.d]) := u.plain he
      have ha := hplain (e := u.a) (by simp)
      have hb := hplain (e := u.b) (by simp)
      have hc := hplain (e := u.c) (by simp)
      have hd := hplain (e := u.d) (by simp)
      exact .escaped (.plain ha.1 ha.2 (.plain hb.1 hb.2 (.plain hc.1 hc.2 (.plain hd.1 hd.2 ih))))

/-! ## Decoding pieces -/

section Decode

variable {utf8 : ℕ → List UInt8}

theorem appendUtf8_eq (hutf8 : Sized utf8) {alloc cp : ℕ} {dst : List UInt8} (hcp : cp ≤ 0x10ffff)
    (hroom : dst.length + (utf8 cp).length ≤ alloc) : appendUtf8 utf8 alloc dst cp =
      if utf8 cp = [] then .error .inval else .ok (dst ++ utf8 cp) := by
  have hsize := hutf8 cp
  have hfour : ¬4 < (utf8 cp).length := by split_ifs at hsize <;> omega
  have hmax : ¬0x10ffff < cp := by omega
  have hfits : ¬alloc < dst.length + (utf8 cp).length := by omega
  unfold appendUtf8
  simp [hmax, hfour, hfits]

/-- What the decoder does with a string of pieces. -/
def Outcome (utf8 : ℕ → List UInt8) (ts : List Token) (dst rest : List UInt8)
    (result : Except Failure (List UInt8 × List UInt8)) : Prop :=
  (¬Refused utf8 ts ∧ result = .ok (dst ++ ts.flatMap (Token.bytes utf8), rest)) ∨
    (Refused utf8 ts ∧ ∃ e, result = .error e)

theorem Outcome.byte {c : UInt8} {ts : List Token} {dst rest : List UInt8}
    {result : Except Failure (List UInt8 × List UInt8)}
    (h : Outcome utf8 ts (dst ++ [c]) rest result) :
    Outcome utf8 (.byte c :: ts) dst rest result := by
  have hrefused : Refused utf8 (.byte c :: ts) ↔ Refused utf8 ts := by simp [Refused]
  rcases h with ⟨hok, rfl⟩ | ⟨hno, herr⟩
  · exact .inl ⟨fun h => hok (hrefused.mp h), by simp [Token.bytes]⟩
  · exact .inr ⟨hrefused.mpr hno, herr⟩

theorem Outcome.code {cp : ℕ} {ts : List Token} {dst rest : List UInt8}
    {next : List UInt8 → Except Failure (List UInt8 × List UInt8)}
    (h : Outcome utf8 ts (dst ++ utf8 cp) rest (next (dst ++ utf8 cp))) :
    Outcome utf8 (.code cp :: ts) dst rest
      (if utf8 cp = [] then .error .inval else next (dst ++ utf8 cp)) := by
  by_cases hempty : utf8 cp = []
  · exact .inr ⟨⟨cp, List.mem_cons_self, hempty⟩, .inval, if_pos hempty⟩
  have hrefused : Refused utf8 (.code cp :: ts) ↔ Refused utf8 ts := by
    simp [Refused, or_and_right, exists_or, hempty]
  rw [if_neg hempty]
  rcases h with ⟨hok, hresult⟩ | ⟨hno, herr⟩
  · exact .inl ⟨fun h => hok (hrefused.mp h), by simp [hresult, Token.bytes]⟩
  · exact .inr ⟨hrefused.mpr hno, herr⟩

theorem joinSurrogate_unit (u w : CodeUnit) (s : List UInt8) :
    joinSurrogate u.value (0x5c :: 0x75 :: w.a :: w.b :: w.c :: w.d :: s) =
      some (if surrogates u w then
        (0x10000 + (u.value - 0xd800) * 2 ^ 10 + (w.value - 0xdc00), s)
      else (u.value, 0x5c :: 0x75 :: w.a :: w.b :: w.c :: w.d :: s)) := by
  have hlow : parseHex4 (w.a :: w.b :: w.c :: w.d :: s) = some w.value :=
    parseHex4_eq_some_iff.mpr ⟨w, s, rfl, rfl⟩
  rw [joinSurrogate, hlow]
  unfold surrogates
  by_cases hhigh : 0xd800 ≤ u.value ∧ u.value ≤ 0xdbff <;>
    by_cases hw : 0xdc00 ≤ w.value ∧ w.value ≤ 0xdfff <;> simp [hhigh, hw]

/-- A unit that is not followed by another one. -/
theorem joinSurrogate_last (cp : ℕ) {ps : List Piece} (rest : List UInt8)
    (h : ∀ w ps', ps ≠ .unit w :: ps') :
    joinSurrogate cp (text ps ++ 0x22 :: rest) = some (cp, text ps ++ 0x22 :: rest) := by
  refine joinSurrogate_of_ne cp fun t ht => ?_
  rcases ps with _ | ⟨p, ps⟩
  · simp [text] at ht
  cases p with
  | byte c hc =>
    simp only [text, List.flatMap_cons, Piece.text, List.cons_append, List.nil_append] at ht
    exact hc.2 (List.cons.inj ht).1
  | letter e he =>
    simp only [text, List.flatMap_cons, Piece.text, List.cons_append, List.nil_append] at ht
    have hunit : e.1 = 0x75 := (List.cons.inj (List.cons.inj ht).2).1
    have hnone : simpleEscape 0x75 = none := by decide
    have hsome := simpleEscape_eq_some_iff.mpr (hunit ▸ he : ((0x75 : UInt8), e.2) ∈ letterEscapes)
    simp [hnone] at hsome
  | unit w => exact h w ps rfl

theorem decodeString_text_unit (hutf8 : Sized utf8) {alloc rounds cp : ℕ} {u : CodeUnit}
    {s s' dst : List UInt8} (hjoin : joinSurrogate u.value s = some (cp, s'))
    (hcp : cp ≤ 0x10ffff) (hroom : dst.length + (utf8 cp).length ≤ alloc) :
    decodeString utf8 alloc (rounds + 1)
        (0x5c :: 0x75 :: u.a :: u.b :: u.c :: u.d :: s) dst =
      if utf8 cp = [] then .error .inval
      else decodeString utf8 alloc rounds s' (dst ++ utf8 cp) := by
  have hunit : parseHex4 (u.a :: u.b :: u.c :: u.d :: s) = some u.value :=
    parseHex4_eq_some_iff.mpr ⟨u, s, rfl, rfl⟩
  have hdrop : (u.a :: u.b :: u.c :: u.d :: s).drop 4 = s := rfl
  rw [decodeString_unit, hunit, Option.bind_some, hdrop, hjoin]
  dsimp only
  rw [appendUtf8_eq hutf8 hcp hroom]
  split_ifs <;> rfl

/-- The decoder reads pieces up to the closing quote. -/
theorem decodeString_text (hutf8 : Sized utf8) (ps : List Piece) (rest dst : List UInt8)
    (alloc rounds : ℕ) (hrounds : (text ps).length < rounds)
    (hroom : dst.length + (text ps).length < alloc) :
    Outcome utf8 (meaning ps) dst (0x22 :: rest)
      (decodeString utf8 alloc rounds (text ps ++ 0x22 :: rest) dst) := by
  have hsize (cp : ℕ) := hutf8 cp
  obtain ⟨rounds, rfl⟩ := Nat.exists_eq_succ_of_ne_zero (Nat.ne_of_gt (Nat.zero_lt_of_lt hrounds))
  fun_induction meaning ps generalizing dst rounds with
  | case1 =>
    refine .inl ⟨by simp [Refused], ?_⟩
    simpa [text] using decodeString_quote utf8 alloc rounds rest dst
  | case2 c hc ps ih =>
    have htext : text (.byte c hc :: ps) = c :: text ps := rfl
    rw [htext, List.length_cons] at hrounds hroom
    obtain ⟨rounds, rfl⟩ := Nat.exists_eq_succ_of_ne_zero (by omega : rounds ≠ 0)
    rw [htext, List.cons_append, decodeString_plain utf8 alloc _ _ dst hc.1 hc.2 (by omega)]
    exact (ih _ (by rw [List.length_append, List.length_singleton]; omega) rounds (by omega)).byte
  | case3 e he ps ih =>
    have htext : text (.letter e he :: ps) = 0x5c :: e.1 :: text ps := rfl
    rw [htext, List.length_cons, List.length_cons] at hrounds hroom
    obtain ⟨rounds, rfl⟩ := Nat.exists_eq_succ_of_ne_zero (by omega : rounds ≠ 0)
    rw [htext, List.cons_append, List.cons_append,
      decodeString_letter utf8 alloc _ _ dst (simpleEscape_eq_some_iff.mpr he)]
    exact (ih _ (by rw [List.length_append, List.length_singleton]; omega) rounds (by omega)).byte
  | case4 u w ps hpair ih =>
    have htext : text (.unit u :: .unit w :: ps) = 0x5c :: 0x75 :: u.a :: u.b :: u.c :: u.d ::
      0x5c :: 0x75 :: w.a :: w.b :: w.c :: w.d :: text ps := rfl
    simp only [htext, List.length_cons] at hrounds hroom
    obtain ⟨rounds, rfl⟩ := Nat.exists_eq_succ_of_ne_zero (by omega : rounds ≠ 0)
    have hjoin := joinSurrogate_unit u w (text ps ++ 0x22 :: rest)
    rw [if_pos hpair] at hjoin
    have hbounds := hsize (0x10000 + (u.value - 0xd800) * 2 ^ 10 + (w.value - 0xdc00))
    rw [if_neg (by omega)] at hbounds
    have hcp : 0x10000 + (u.value - 0xd800) * 2 ^ 10 + (w.value - 0xdc00) ≤ 0x10ffff := by
      simp only [surrogates, Bool.and_eq_true, decide_eq_true_eq] at hpair
      omega
    simp only [htext, List.cons_append]
    rw [decodeString_text_unit hutf8 hjoin hcp (by omega)]
    exact (ih _ (by rw [List.length_append]; omega) rounds (by omega)).code
  | case5 u w ps hpair ih =>
    have htext : text (.unit u :: .unit w :: ps) = 0x5c :: 0x75 :: u.a :: u.b :: u.c :: u.d ::
      0x5c :: 0x75 :: w.a :: w.b :: w.c :: w.d :: text ps := rfl
    have hnext : text (.unit w :: ps) = 0x5c :: 0x75 :: w.a :: w.b :: w.c :: w.d :: text ps := rfl
    simp only [htext, hnext, List.length_cons] at hrounds hroom ih
    obtain ⟨rounds, rfl⟩ := Nat.exists_eq_succ_of_ne_zero (by omega : rounds ≠ 0)
    have hjoin := joinSurrogate_unit u w (text ps ++ 0x22 :: rest)
    rw [if_neg hpair] at hjoin
    have hbounds := hsize u.value
    rw [if_pos u.value_lt] at hbounds
    have hcp := u.value_lt
    simp only [htext, List.cons_append] at ih ⊢
    rw [decodeString_text_unit hutf8 hjoin (by omega) (by omega)]
    exact (ih _ (by rw [List.length_append]; omega) rounds (by omega)).code
  | case6 u ps hlast ih =>
    have htext : text (.unit u :: ps) = 0x5c :: 0x75 :: u.a :: u.b :: u.c :: u.d :: text ps := rfl
    simp only [htext, List.length_cons] at hrounds hroom
    obtain ⟨rounds, rfl⟩ := Nat.exists_eq_succ_of_ne_zero (by omega : rounds ≠ 0)
    have hjoin := joinSurrogate_last u.value rest fun w ps' h => hlast w ps' h
    have hbounds := hsize u.value
    rw [if_pos u.value_lt] at hbounds
    have hcp := u.value_lt
    simp only [htext, List.cons_append]
    rw [decodeString_text_unit hutf8 hjoin (by omega) (by omega)]
    exact (ih _ (by rw [List.length_append]; omega) rounds (by omega)).code

/-- A code unit behind another one is left where it is, or it is the low surrogate. -/
theorem exists_of_joinSurrogate {cp cp' : ℕ} {s rest : List UInt8}
    (h : joinSurrogate cp s = some (cp', rest)) :
    rest = s ∨ ∃ w : CodeUnit, s = 0x5c :: 0x75 :: w.a :: w.b :: w.c :: w.d :: rest := by
  unfold joinSurrogate at h
  split at h
  next t =>
    split_ifs at h with hhigh
    · split at h
      next => simp at h
      next low hlow =>
        obtain ⟨w, t', rfl, -⟩ := parseHex4_eq_some_iff.mp hlow
        split_ifs at h with hpair
        · obtain ⟨-, rfl⟩ := Prod.mk.inj (Option.some.inj h)
          exact .inr ⟨w, rfl⟩
        · exact .inl (Prod.mk.inj (Option.some.inj h)).2.symm
    · exact .inl (Prod.mk.inj (Option.some.inj h)).2.symm
  next => exact .inl (Prod.mk.inj (Option.some.inj h)).2.symm

/-- What the decoder accepts is made of pieces. -/
theorem exists_pieces {alloc rounds len : ℕ} {s dst data rest : List UInt8}
    (h : decodeString utf8 alloc rounds s dst = .ok (data, rest))
    (hclose : closingQuote s = some len) (hrounds : len < rounds) :
    ∃ ps t, s = text ps ++ 0x22 :: t ∧ rest = 0x22 :: t := by
  induction rounds generalizing s dst len with
  | zero => omega
  | succ rounds ih =>
    rcases s with _ | ⟨c, s⟩
    · simp [closingQuote] at hclose
    by_cases hquote : c = 0x22
    · subst hquote
      rw [decodeString_quote] at h
      exact ⟨[], s, rfl, (Prod.mk.inj (Except.ok.inj h)).2.symm⟩
    by_cases hslash : c = 0x5c
    · subst hslash
      rcases s with _ | ⟨e, s⟩
      · simp [closingQuote] at hclose
      rw [closingQuote_escaped] at hclose
      obtain ⟨n, hn, rfl⟩ := Option.map_eq_some_iff.mp hclose
      cases hletter : simpleEscape e with
      | some b =>
        rw [decodeString_letter utf8 alloc rounds s dst hletter] at h
        obtain ⟨ps, t, rfl, hrest⟩ := ih h hn (by omega)
        exact ⟨.letter (e, b) (simpleEscape_eq_some_iff.mp hletter) :: ps, t, rfl, hrest⟩
      | none =>
        by_cases hunit : e = 0x75
        · subst hunit
          rw [decodeString_unit] at h
          cases hcp : parseHex4 s with
          | none => simp [hcp] at h
          | some cp =>
            obtain ⟨u, s, rfl, -⟩ := parseHex4_eq_some_iff.mp hcp
            obtain ⟨m, hm, rfl⟩ := closingQuote_hex4 hcp hn
            have hdrop : (u.a :: u.b :: u.c :: u.d :: s).drop 4 = s := rfl
            rw [hdrop] at hm
            rw [hcp, Option.bind_some, hdrop] at h
            cases hjoin : joinSurrogate cp s with
            | none => simp [hjoin] at h
            | some pair =>
              obtain ⟨cp', s'⟩ := pair
              obtain ⟨k, hk, hsize⟩ := joinSurrogate_spec hjoin hm
              have hle : k ≤ m := by
                rcases hsize with ⟨rfl, -⟩ | ⟨-, -, hsum⟩
                · exact (Option.some.inj (hm.symm.trans hk)).ge
                · omega
              cases happend : appendUtf8 utf8 alloc dst cp' with
              | error => simp [hjoin, happend] at h
              | ok dst' =>
                simp only [hjoin, happend] at h
                obtain ⟨ps, t, rfl, hrest⟩ := ih h hk (by omega)
                rcases exists_of_joinSurrogate hjoin with rfl | ⟨w, rfl⟩
                · exact ⟨.unit u :: ps, t, rfl, hrest⟩
                · exact ⟨.unit u :: .unit w :: ps, t, rfl, hrest⟩
        · rw [decodeString_bad utf8 alloc rounds s dst hletter hunit] at h
          simp at h
    · rw [closingQuote_plain hquote hslash] at hclose
      obtain ⟨n, hn, rfl⟩ := Option.map_eq_some_iff.mp hclose
      by_cases hroom : dst.length < alloc
      · rw [decodeString_plain utf8 alloc rounds s dst hquote hslash hroom] at h
        obtain ⟨ps, t, rfl, hrest⟩ := ih h hn (by omega)
        exact ⟨.byte c ⟨hquote, hslash⟩ :: ps, t, rfl, hrest⟩
      · rw [decodeString.eq_def] at h
        simp [hquote, hslash, Nat.lt_succ_of_le (not_lt.mp hroom)] at h

end Decode

/-! ## Broken strings -/

/-- Nothing ends the string. -/
def Unclosed (s : List UInt8) : Prop := ∀ body rest, s = body ++ 0x22 :: rest → ¬Content body

/-- Behind some pieces stands a backslash that no piece starts with. -/
def BadEscape (body : List UInt8) : Prop :=
  ∃ ps tail, body = text ps ++ 0x5c :: tail ∧ ∀ p : Piece, ¬p.text <+: 0x5c :: tail

theorem letter_ne_unit {e : UInt8 × UInt8} (he : e ∈ letterEscapes) : e.1 ≠ 0x75 := by
  intro hunit
  have hnone : simpleEscape 0x75 = none := by decide
  have hsome := simpleEscape_eq_some_iff.mpr (hunit ▸ he : ((0x75 : UInt8), e.2) ∈ letterEscapes)
  simp [hnone] at hsome

theorem letter_unique {e f : UInt8 × UInt8} (he : e ∈ letterEscapes) (hf : f ∈ letterEscapes)
    (h : e.1 = f.1) : e = f := by
  have hsome := simpleEscape_eq_some_iff.mpr he
  rw [h, simpleEscape_eq_some_iff.mpr hf] at hsome
  exact Prod.ext h (Option.some.inj hsome).symm

/-- One piece at most starts at a place. -/
theorem Piece.eq_of_append {p q : Piece} {s t : List UInt8} (h : p.text ++ s = q.text ++ t) :
    p = q := by
  cases p with
  | byte c hc =>
    cases q with
    | byte c' hc' =>
      obtain ⟨rfl, -⟩ := List.cons.inj h
      rfl
    | letter e he => exact absurd (List.cons.inj h).1 hc.2
    | unit u => exact absurd (List.cons.inj h).1 hc.2
  | letter e he =>
    cases q with
    | byte c' hc' => exact absurd (List.cons.inj h).1.symm hc'.2
    | letter f hf =>
      obtain rfl := letter_unique he hf (List.cons.inj (List.cons.inj h).2).1
      rfl
    | unit u => exact absurd (List.cons.inj (List.cons.inj h).2).1 (letter_ne_unit he)
  | unit u =>
    cases q with
    | byte c' hc' => exact absurd (List.cons.inj h).1.symm hc'.2
    | letter f hf => exact absurd (List.cons.inj (List.cons.inj h).2).1.symm (letter_ne_unit hf)
    | unit w =>
      obtain ⟨a, b, c, d, hu⟩ := u
      obtain ⟨a', b', c', d', hw⟩ := w
      simp only [Piece.text, List.cons_append, List.nil_append, List.cons.injEq] at h
      obtain ⟨-, -, rfl, rfl, rfl, rfl, -⟩ := h
      rfl

theorem BadEscape.not_text {body : List UInt8} (h : BadEscape body) (ps : List Piece) :
    text ps ≠ body := by
  obtain ⟨qs, tail, rfl, hbad⟩ := h
  induction qs generalizing ps with
  | nil =>
    intro heq
    rcases ps with _ | ⟨p, ps⟩
    · simp [text] at heq
    · refine hbad p ⟨text ps, ?_⟩
      simpa [text] using heq
  | cons q qs ih =>
    intro heq
    rcases ps with _ | ⟨p, ps⟩
    · cases q <;> simp [text, Piece.text] at heq
    · simp only [text, List.flatMap_cons, List.append_assoc] at heq
      obtain rfl := Piece.eq_of_append heq
      exact ih ps (List.append_cancel_left heq)

theorem Content.of_plain {c : UInt8} {s : List UInt8} (h : Content (c :: s)) (hslash : c ≠ 0x5c) :
    Content s := by
  cases h with
  | plain _ _ hs => exact hs
  | escaped _ => exact absurd rfl hslash

/-- The string ends in one place. -/
theorem Content.unique {body body' rest rest' : List UInt8} (h : Content body)
    (h' : Content body') (heq : body ++ 0x22 :: rest = body' ++ 0x22 :: rest') :
    body = body' ∧ rest = rest' := by
  have hlen := h.closingQuote_eq rest
  rw [heq, h'.closingQuote_eq] at hlen
  obtain ⟨hbody, htail⟩ := List.append_inj heq (Option.some.inj hlen).symm
  exact ⟨hbody, (List.cons.inj htail).2⟩

theorem text_injective {ps qs : List Piece} (h : text ps = text qs) : ps = qs := by
  induction ps generalizing qs with
  | nil =>
    rcases qs with _ | ⟨q, qs⟩
    · rfl
    · cases q <;> simp [text, Piece.text] at h
  | cons p ps ih =>
    rcases qs with _ | ⟨q, qs⟩
    · cases p <;> simp [text, Piece.text] at h
    · simp only [text, List.flatMap_cons] at h
      obtain rfl := Piece.eq_of_append h
      rw [ih (List.append_cancel_left h)]

/-- What a string holds is pieces, or there is a broken escape. -/
theorem Content.text_or_badEscape {body : List UInt8} (h : Content body) :
    (∃ ps, text ps = body) ∨ BadEscape body := by
  induction hlen : body.length using Nat.strong_induction_on generalizing body with
  | _ len ih =>
    subst hlen
    have hcons {p : Piece} {s : List UInt8} (hs : Content s) (heq : body = p.text ++ s) :
        (∃ ps, text ps = body) ∨ BadEscape body := by
      have hlt : s.length < body.length := by
        rw [heq, List.length_append]
        cases p <;> simp [Piece.text]
      rcases ih s.length hlt hs rfl with ⟨ps, rfl⟩ | ⟨ps, tail, rfl, hbad⟩
      · exact .inl ⟨p :: ps, by rw [heq]; rfl⟩
      · exact .inr ⟨p :: ps, tail, by rw [heq]; simp [text], hbad⟩
    cases h with
    | nil => exact .inl ⟨[], rfl⟩
    | @plain c s hquote hslash hs => exact hcons (p := .byte c ⟨hquote, hslash⟩) hs rfl
    | @escaped c s hs =>
      by_cases hpiece : ∃ p : Piece, p.text <+: 0x5c :: c :: s
      · obtain ⟨p, t, ht⟩ := hpiece
        refine hcons (p := p) ?_ ht.symm
        cases p with
        | byte c' hc' => exact absurd (List.cons.inj ht).1 hc'.2
        | letter e he =>
          obtain ⟨-, rfl⟩ := List.cons.inj (List.cons.inj ht).2
          exact hs
        | unit u =>
          have hplain {e : UInt8} (he : e ∈ [u.a, u.b, u.c, u.d]) := (u.plain he).2
          obtain ⟨-, rfl⟩ := List.cons.inj (List.cons.inj ht).2
          exact (((hs.of_plain (hplain (by simp))).of_plain (hplain (by simp))).of_plain
            (hplain (by simp))).of_plain (hplain (by simp))
      · exact .inr ⟨[], c :: s, rfl, fun p hp => hpiece ⟨p, hp⟩⟩

/-! ## The parser -/

section Parser

variable {utf8 : ℕ → List UInt8} {line : List UInt8}

/-- At the place of the closing quote there is a quote. -/
theorem drop_closing {s : List UInt8} {pos len : ℕ} (h : line.drop pos = s)
    (hclose : closingQuote s = some len) : ∃ rest, line.drop (pos + len) = 0x22 :: rest := by
  obtain ⟨body, rest, rfl, -, rfl⟩ := exists_content hclose
  exact ⟨rest, by rw [← List.drop_drop, h, List.drop_left]⟩

/-- In memory the parser computes what it computes on lists, from every position of the
line and without an access outside. -/
theorem parseJsonStringAt_eq (hutf8 : Sized utf8) (hnul : 0 ∉ line) {pos : ℕ}
    (hpos : pos ≤ line.length) : parseJsonStringAt utf8 line pos =
      some ((parseJsonString utf8 (line.drop pos)).map (indexed line)) := by
  obtain ⟨start, hstart, hdrop, hle⟩ := skipWsAt_eq (line.length + 1) hnul rfl hpos
    (by rw [List.length_drop]; omega)
  unfold parseJsonStringAt parseJsonString
  rw [hstart, ← hdrop]
  dsimp only [Option.bind_eq_bind, Option.bind_some]
  cases hs : line.drop start with
  | nil => simp [peek_end hs hle, Except.map]
  | cons c src =>
    obtain ⟨hnext, hend⟩ := drop_next hs
    by_cases hquote : c = 0x22
    · subst hquote
      have hlen : src.length = line.length - (start + 1) := by rw [← hnext, List.length_drop]
      have hsizing := sizeString_eq hnul hnext hend (by omega : src.length < line.length + 1)
      cases hclose : closingQuote src with
      | none =>
        have hend : peek line line.length = some 0 := peek_end (by simp) (le_refl _)
        simp [peek_of_drop hs, hsizing, hclose, hend, Except.map]
      | some len =>
        obtain ⟨after, hquoted⟩ := drop_closing hnext hclose
        obtain ⟨body, rest, hsrc, -, hbody⟩ := exists_content hclose
        have hsrclen := congrArg List.length hsrc
        simp only [List.length_append, List.length_cons] at hsrclen
        have hdecode := decodeStringAt_eq hutf8 (len + 1) (line.length - (start + 1)) [] hnul hnext
          hend hclose (by omega) (by simp)
        have hsize : start + 1 + len - (start + 1) = len := by omega
        simp only [peek_of_drop hs, hsizing, hclose, Option.map_some, Option.getD_some,
          Option.bind_some, peek_of_drop hquoted, hsize, hdecode, hlen]
        cases hresult : decodeString utf8 (len + 1) (line.length - (start + 1)) src [] with
        | error e => simp [Except.map]
        | ok pair =>
          obtain ⟨data, stop⟩ := pair
          obtain ⟨ps, t, ht, rfl⟩ := exists_pieces hresult hclose (by omega)
          have htlen := congrArg List.length ht
          simp only [List.length_append, List.length_cons] at htlen
          simp only [Except.map, indexed, List.length_cons, List.drop_succ_cons, List.drop_zero,
            ne_eq, not_true_eq_false, if_false]
          congr 3
          omega
    · simp [peek_of_drop hs, hquote, Except.map]

theorem parseJsonString_quote (utf8 : ℕ → List UInt8) (s : List UInt8) :
    parseJsonString utf8 (0x22 :: s) =
      match closingQuote s with
      | none => .error .inval
      | some len =>
        match decodeString utf8 (len + 1) s.length s [] with
        | .error e => .error e
        | .ok (data, rest) => .ok (data, rest.drop 1) := by
  have hspace : isSpace 0x22 = false := by decide
  have hskip : skipWs (0x22 :: s) = 0x22 :: s := by simp [skipWs, hspace]
  rw [parseJsonString, hskip]
  rfl

/-- On a list the parser accepts pieces whose code points can be written, and nothing else. -/
theorem parseJsonString_quoted (hutf8 : Sized utf8) (s : List UInt8) :
    (∃ ps rest, s = text ps ++ 0x22 :: rest ∧ ¬Refused utf8 (meaning ps) ∧
      parseJsonString utf8 (0x22 :: s) =
        .ok ((meaning ps).flatMap (Token.bytes utf8), rest)) ∨
    ((Unclosed s ∨ (∃ body rest, s = body ++ 0x22 :: rest ∧ Content body ∧ BadEscape body) ∨
        ∃ ps rest, s = text ps ++ 0x22 :: rest ∧ Refused utf8 (meaning ps)) ∧
      ∃ e, parseJsonString utf8 (0x22 :: s) = .error e) := by
  rw [parseJsonString_quote]
  cases hclose : closingQuote s with
  | none =>
    refine .inr ⟨.inl fun body rest hs hbody => ?_, .inval, rfl⟩
    rw [hs, hbody.closingQuote_eq] at hclose
    simp at hclose
  | some len =>
    obtain ⟨body, rest, rfl, hbody, rfl⟩ := exists_content hclose
    have hlong : body.length < (body ++ 0x22 :: rest).length := by simp
    rcases hbody.text_or_badEscape with ⟨ps, rfl⟩ | hbad
    · have houtcome := decodeString_text hutf8 ps rest [] ((text ps).length + 1) _ hlong (by simp)
      rcases houtcome with ⟨hok, hresult⟩ | ⟨hno, e, hresult⟩
      · exact .inl ⟨ps, rest, rfl, hok, by simp only [hresult, List.nil_append]; rfl⟩
      · exact .inr ⟨.inr (.inr ⟨ps, rest, rfl, hno⟩), e, by simp only [hresult]⟩
    · refine .inr ⟨.inr (.inl ⟨body, rest, rfl, hbody, hbad⟩), ?_⟩
      cases hresult : decodeString utf8 (body.length + 1) (body ++ 0x22 :: rest).length
          (body ++ 0x22 :: rest) [] with
      | error e => exact ⟨e, by simp only [hresult]⟩
      | ok pair =>
        obtain ⟨ps, t, ht, -⟩ := exists_pieces hresult hclose hlong
        exact absurd (hbody.unique (content_text ps) ht).1.symm (hbad.not_text ps)

/-- From an opening quote the parser gives the bytes that the string means and the position
behind the closing quote, where the two walks stopped. It fails on a string without an
end, with a broken escape, or with a code point that the library refuses. -/
def ParsesExactly (utf8 : ℕ → List UInt8) (line : List UInt8) (pos : ℕ) : Prop :=
  ∃ result, parseJsonStringAt utf8 line pos = some result ∧
    ((∃ e, result = .error e) ↔
      Unclosed (line.drop (pos + 1)) ∨
      (∃ body rest, line.drop (pos + 1) = body ++ 0x22 :: rest ∧ Content body ∧
        BadEscape body) ∨
      ∃ ps rest, line.drop (pos + 1) = text ps ++ 0x22 :: rest ∧
        Refused utf8 (meaning ps)) ∧
    ∀ data stop, result = .ok (data, stop) →
      ∃ ps rest close, line.drop (pos + 1) = text ps ++ 0x22 :: rest ∧
        data = (meaning ps).flatMap (Token.bytes utf8) ∧
        close = pos + 1 + (text ps).length ∧ stop = close + 1 ∧
        sizeString line (line.length + 1) (pos + 1) = some close ∧
        decodeStringAt utf8 line (close - (pos + 1) + 1) (line.length - (pos + 1)) (pos + 1)
          [] = some (.ok (data, close))

theorem parseJsonStringAt_exact (hutf8 : Sized utf8) (hnul : 0 ∉ line) {pos : ℕ}
    (hquote : (line)[pos]? = some 0x22) : ParsesExactly utf8 line pos := by
  have hlt : pos < line.length := (List.getElem?_eq_some_iff.mp hquote).1
  have hdrop : line.drop pos = 0x22 :: line.drop (pos + 1) := by
    rw [List.drop_eq_getElem_cons hlt, (List.getElem?_eq_some_iff.mp hquote).2]
  obtain ⟨hnext, hle⟩ := drop_next hdrop
  refine ⟨_, parseJsonStringAt_eq hutf8 hnul hlt.le, ?_⟩
  rw [hdrop]
  generalize hs : line.drop (pos + 1) = s at *
  rcases parseJsonString_quoted hutf8 s with ⟨ps, rest, rfl, hok, hresult⟩ | ⟨hbroken, e, hresult⟩
  · rw [hresult]
    refine ⟨⟨fun ⟨e, he⟩ => by simp [Except.map] at he, ?_⟩, fun data stop hdata => ?_⟩
    · rintro (hunclosed | ⟨body, rest', hbody, hcontent, hbad⟩ | ⟨qs, rest', hqs, hno⟩)
      · exact absurd (content_text ps) (hunclosed _ rest rfl)
      · exact absurd ((content_text ps).unique hcontent hbody).1 (hbad.not_text ps)
      · obtain rfl := text_injective ((content_text ps).unique (content_text qs) hqs).1
        exact absurd hno hok
    · have hclose := (content_text ps).closingQuote_eq rest
      have hlen := congrArg List.length hs
      simp only [List.length_drop, List.length_append, List.length_cons] at hlen
      have hsize : pos + 1 + (text ps).length - (pos + 1) = (text ps).length := by omega
      have hdecode := decodeStringAt_eq hutf8 ((text ps).length + 1) (line.length - (pos + 1)) []
        hnul hs hle hclose (by omega) (by simp)
      have houtcome := decodeString_text hutf8 ps rest [] ((text ps).length + 1)
        (line.length - (pos + 1)) (by omega) (by simp)
      have hgood : decodeString utf8 ((text ps).length + 1) (line.length - (pos + 1))
          (text ps ++ 0x22 :: rest) [] =
            .ok ((meaning ps).flatMap (Token.bytes utf8), 0x22 :: rest) := by
        rcases houtcome with ⟨-, hgood⟩ | ⟨hno, -⟩
        · simpa using hgood
        · exact absurd hno hok
      obtain ⟨rfl, rfl⟩ := Prod.mk.inj (Except.ok.inj hdata)
      refine ⟨ps, rest, pos + 1 + (text ps).length, rfl, rfl, rfl, ?_, ?_, ?_⟩
      · simp only
        omega
      · rw [sizeString_eq hnul hs hle (by simp only [List.length_append, List.length_cons]; omega),
          hclose]
        rfl
      · rw [hsize, hdecode, hgood]
        simp only [Except.map, indexed, List.length_cons]
        congr 3
        omega
  · rw [hresult]
    refine ⟨⟨fun _ => hbroken, fun _ => ⟨e, rfl⟩⟩, fun data stop hdata => ?_⟩
    simp [Except.map] at hdata

end Parser

/-- UTF-8, as the terminal library writes it. -/
def ucs4ToUtf8 (cp : ℕ) : List UInt8 :=
  if cp < 0x80 then [cp.toUInt8]
  else if cp < 0x800 then [(0xc0 + cp / 64).toUInt8, (0x80 + cp % 64).toUInt8]
  else if 0xd800 ≤ cp ∧ cp ≤ 0xdfff then []
  else if cp < 0x10000 then
    [(0xe0 + cp / 4096).toUInt8, (0x80 + cp / 64 % 64).toUInt8, (0x80 + cp % 64).toUInt8]
  else if cp ≤ 0x10ffff then
    [(0xf0 + cp / 262144).toUInt8, (0x80 + cp / 4096 % 64).toUInt8,
      (0x80 + cp / 64 % 64).toUInt8, (0x80 + cp % 64).toUInt8]
  else []

theorem sized_ucs4ToUtf8 : Sized ucs4ToUtf8 := by
  intro cp
  unfold ucs4ToUtf8
  split_ifs <;> simp

/-- The line of an event whose text is a smiley. -/
def smileyLine : List UInt8 := lit "[0.4, \"o\", \"\\ud83d\\ude03\"]"

example : parseJsonStringAt ucs4ToUtf8 smileyLine 11 =
    some (.ok ([0xf0, 0x9f, 0x98, 0x83], 25)) := by decide +kernel

theorem parseJsonStringAt_exact_smiley : ParsesExactly ucs4ToUtf8 smileyLine 11 :=
  parseJsonStringAt_exact sized_ucs4ToUtf8 (by decide +kernel) (by decide +kernel)

end Faceplate.Misc
