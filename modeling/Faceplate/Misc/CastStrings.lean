import Faceplate.Misc.Asciinema

/-!
# The strings of a cast in memory

`parse_json_string` walks along a line with a pointer, first to find the closing quote
and then once more to decode the string into a buffer of that length. Here positions are
explicit, and a read behind the terminator or a write behind the buffer has no result.
Neither happens: the two walks compute what the functions on lists do.
-/

namespace Faceplate.Misc

open CString

/-- A byte of a line, or its terminator. -/
def peek (line : List UInt8) (pos : ℕ) : Option UInt8 := (line ++ [0])[pos]?

/-- `*dst++ = c` in a buffer of `alloc` bytes. -/
def put (alloc : ℕ) (dst : List UInt8) (c : UInt8) : Option (List UInt8) :=
  if dst.length < alloc then some (dst ++ [c]) else none

/-- `skip_ws`, in at most so many rounds. -/
def skipWsAt (line : List UInt8) : ℕ → ℕ → Option ℕ
  | 0, _ => none
  | rounds + 1, pos => do
    let c ← peek line pos
    if c ≠ 0 && isSpace c then skipWsAt line rounds (pos + 1) else some pos

/-- The loop of `parse_hex4`; `some none` for a bad digit. -/
def parseHex4At (line : List UInt8) : ℕ → ℕ → ℕ → Option (Option ℕ)
  | 0, _, v => some (some v)
  | left + 1, pos, v => do
    let c ← peek line pos
    match hexDigit? c with
    | none => some none
    | some h => parseHex4At line left (pos + 1) (16 * v + h)

/-- The sizing loop of `parse_json_string`, in at most so many rounds: where it stops. -/
def sizeString (line : List UInt8) : ℕ → ℕ → Option ℕ
  | 0, _ => none
  | rounds + 1, pos => do
    let c ← peek line pos
    if c = 0 || c = 0x22 then some pos
    else if c = 0x5c then
      let e ← peek line (pos + 1)
      sizeString line rounds (if e ≠ 0 then pos + 2 else pos + 1)
    else sizeString line rounds (pos + 1)

/-- A code unit and the low surrogate that may follow it; `some none` for a bad digit. -/
def joinSurrogateAt (line : List UInt8) (cp pos : ℕ) : Option (Option (ℕ × ℕ)) :=
  if 0xd800 ≤ cp && cp ≤ 0xdbff then do
    let a ← peek line pos
    if a ≠ 0x5c then some (some (cp, pos))
    else
      let b ← peek line (pos + 1)
      if b ≠ 0x75 then some (some (cp, pos))
      else
        match ← parseHex4At line 4 (pos + 2) 0 with
        | none => some none
        | some low =>
          if 0xdc00 ≤ low && low ≤ 0xdfff then
            some (some (0x10000 + (cp - 0xd800) * 2 ^ 10 + (low - 0xdc00), pos + 6))
          else some (some (cp, pos))
  else some (some (cp, pos))

section Strings

variable (utf8 : ℕ → List UInt8) (line : List UInt8)

/-- The decoding loop of `parse_json_string` into a buffer of `alloc` bytes, in at most so
many rounds. -/
def decodeStringAt (alloc : ℕ) :
    ℕ → ℕ → List UInt8 → Option (Except Failure (List UInt8 × ℕ))
  | 0, _, _ => none
  | rounds + 1, pos, dst => do
    let c ← peek line pos
    if c = 0 || c = 0x22 then some (.ok (dst, pos))
    else if c ≠ 0x5c then
      if alloc < dst.length + 1 then some (.error .noSpace)
      else decodeStringAt alloc rounds (pos + 1) (← put alloc dst c)
    else
      let e ← peek line (pos + 1)
      match simpleEscape e with
      | some b => decodeStringAt alloc rounds (pos + 2) (← put alloc dst b)
      | none =>
        if e ≠ 0x75 then some (.error .inval)
        else
          match ← parseHex4At line 4 (pos + 2) 0 with
          | none => some (.error .inval)
          | some cp =>
            match ← joinSurrogateAt line cp (pos + 6) with
            | none => some (.error .inval)
            | some (cp, pos) =>
              match appendUtf8 utf8 alloc dst cp with
              | .error e => some (.error e)
              | .ok dst => decodeStringAt alloc rounds pos dst

/-- `parse_json_string` on a line in memory: the string and where it goes on. -/
def parseJsonStringAt (pos : ℕ) : Option (Except Failure (List UInt8 × ℕ)) := do
  let pos ← skipWsAt line (line.length + 1) pos
  if (← peek line pos) ≠ 0x22 then some (.error .inval)
  else
    let src := pos + 1
    let pos ← sizeString line (line.length + 1) src
    if (← peek line pos) ≠ 0x22 then some (.error .inval)
    else
      match ← decodeStringAt utf8 line (pos - src + 1) (line.length - src) src [] with
      | .error e => some (.error e)
      | .ok (dst, pos) => some (.ok (dst, pos + 1))

end Strings

/-! ## Reads -/

section Reads

variable {line s : List UInt8} {pos : ℕ}

theorem peek_of_drop {c : UInt8} (h : line.drop pos = c :: s) : peek line pos = some c := by
  have hlt : pos < line.length := by
    by_contra hge
    simp [List.drop_eq_nil_of_le (not_lt.mp hge)] at h
  rw [List.drop_eq_getElem_cons hlt] at h
  rw [peek, List.getElem?_append_left hlt, List.getElem?_eq_getElem hlt, (List.cons.inj h).1]

theorem peek_end (h : line.drop pos = []) (hpos : pos ≤ line.length) : peek line pos = some 0 := by
  have hlen : pos = line.length := le_antisymm hpos (List.drop_eq_nil_iff.mp h)
  rw [hlen, peek, List.getElem?_append_right (le_refl _), Nat.sub_self]
  rfl

theorem drop_next {c : UInt8} (h : line.drop pos = c :: s) :
    line.drop (pos + 1) = s ∧ pos + 1 ≤ line.length := by
  refine ⟨?_, ?_⟩
  · rw [← List.drop_drop, h]
    rfl
  · by_contra hge
    rw [List.drop_eq_nil_of_le (by omega)] at h
    exact absurd h (by simp)

theorem ne_zero_of_drop {c : UInt8} (hnul : 0 ∉ line) (h : line.drop pos = c :: s) : c ≠ 0 := by
  rintro rfl
  exact hnul (List.mem_of_mem_drop (h ▸ List.mem_cons_self))

theorem skipWsAt_eq (rounds : ℕ) (hnul : 0 ∉ line) (h : line.drop pos = s)
    (hpos : pos ≤ line.length) (hrounds : s.length < rounds) :
    ∃ stop, skipWsAt line rounds pos = some stop ∧ line.drop stop = skipWs s ∧
      stop ≤ line.length := by
  induction s generalizing pos rounds with
  | nil =>
    obtain ⟨rounds, rfl⟩ := Nat.exists_eq_add_of_lt hrounds
    refine ⟨pos, ?_, h, hpos⟩
    simp [skipWsAt, peek_end h hpos]
  | cons c s ih =>
    obtain ⟨rounds, rfl⟩ := Nat.exists_eq_add_of_lt hrounds
    have hc := ne_zero_of_drop hnul h
    rw [skipWs, List.dropWhile_cons]
    cases hspace : isSpace c with
    | false => exact ⟨pos, by simp [skipWsAt, peek_of_drop h, hspace], by simpa using h, hpos⟩
    | true =>
      obtain ⟨hnext, hle⟩ := drop_next h
      obtain ⟨stop, hstop, hdrop, hend⟩ :=
        ih ((c :: s).length + rounds) hnext hle (by simp only [List.length_cons]; omega)
      refine ⟨stop, ?_, by simpa [skipWs] using hdrop, hend⟩
      simpa [skipWsAt, peek_of_drop h, hspace, hc] using hstop

/-- Read so many hexadecimal digits behind the value `v`. -/
def readHex : ℕ → List UInt8 → ℕ → Option ℕ
  | 0, _, v => some v
  | _ + 1, [], _ => none
  | left + 1, c :: s, v =>
    match hexDigit? c with
    | none => none
    | some h => readHex left s (16 * v + h)

theorem parseHex4At_eq_readHex (left v : ℕ) (h : line.drop pos = s) (hpos : pos ≤ line.length) :
    parseHex4At line left pos v = some (readHex left s v) := by
  induction left generalizing pos s v with
  | zero => rfl
  | succ left ih =>
    cases s with
    | nil =>
      have hzero : hexDigit? 0 = none := by decide
      simp [parseHex4At, peek_end h hpos, hzero, readHex]
    | cons c s =>
      obtain ⟨hnext, hle⟩ := drop_next h
      cases hc : hexDigit? c with
      | none => simp [parseHex4At, peek_of_drop h, hc, readHex]
      | some d => simp [parseHex4At, peek_of_drop h, hc, readHex, ih _ hnext hle]

theorem readHex_eq_parseHex4 (s : List UInt8) : readHex 4 s 0 = parseHex4 s := by
  rcases s with _ | ⟨a, _ | ⟨b, _ | ⟨c, _ | ⟨d, s⟩⟩⟩⟩
  · rfl
  · cases ha : hexDigit? a <;> simp [readHex, parseHex4, ha]
  · cases ha : hexDigit? a <;> cases hb : hexDigit? b <;> simp [readHex, parseHex4, ha, hb]
  · cases ha : hexDigit? a <;> cases hb : hexDigit? b <;> cases hc : hexDigit? c <;>
      simp [readHex, parseHex4, ha, hb, hc]
  · cases ha : hexDigit? a <;> cases hb : hexDigit? b <;> cases hc : hexDigit? c <;>
      cases hd : hexDigit? d <;> simp [readHex, parseHex4, ha, hb, hc, hd]

theorem parseHex4At_eq (h : line.drop pos = s) (hpos : pos ≤ line.length) :
    parseHex4At line 4 pos 0 = some (parseHex4 s) := by
  rw [parseHex4At_eq_readHex 4 0 h hpos, readHex_eq_parseHex4]

end Reads

/-! ## The closing quote -/

/-- Bytes without a quote of their own: each backslash takes the next byte with it. -/
inductive Content : List UInt8 → Prop
  | nil : Content []
  | plain {c : UInt8} {s : List UInt8} (hquote : c ≠ 0x22) (hslash : c ≠ 0x5c)
      (hs : Content s) : Content (c :: s)
  | escaped {c : UInt8} {s : List UInt8} (hs : Content s) : Content (0x5c :: c :: s)

theorem closingQuote_plain {c : UInt8} (hquote : c ≠ 0x22) (hslash : c ≠ 0x5c)
    (s : List UInt8) : closingQuote (c :: s) = (closingQuote s).map (· + 1) := by
  rw [closingQuote.eq_def]
  simp [hquote, hslash]

theorem closingQuote_escaped (c : UInt8) (s : List UInt8) :
    closingQuote (0x5c :: c :: s) = (closingQuote s).map (· + 2) := by
  rw [closingQuote.eq_def]
  simp

theorem closingQuote_quote (s : List UInt8) : closingQuote (0x22 :: s) = some 0 := by
  rw [closingQuote.eq_def]
  simp

theorem Content.closingQuote_eq {body : List UInt8} (h : Content body) (rest : List UInt8) :
    closingQuote (body ++ 0x22 :: rest) = some body.length := by
  induction h with
  | nil => exact closingQuote_quote rest
  | plain hquote hslash _ ih =>
    rw [List.cons_append, closingQuote_plain hquote hslash, ih]
    rfl
  | escaped _ ih =>
    rw [List.cons_append, List.cons_append, closingQuote_escaped, ih]
    rfl

theorem exists_content {s : List UInt8} {len : ℕ} (h : closingQuote s = some len) :
    ∃ body rest, s = body ++ 0x22 :: rest ∧ Content body ∧ body.length = len := by
  fun_induction closingQuote s generalizing len with
  | case1 => simp at h
  | case2 rest =>
    obtain rfl := Option.some.inj h
    exact ⟨[], rest, rfl, .nil, rfl⟩
  | case3 => simp at h
  | case4 e rest hquote ih =>
    obtain ⟨n, hn, rfl⟩ := Option.map_eq_some_iff.mp h
    obtain ⟨body, rest', rfl, hbody, rfl⟩ := ih hn
    exact ⟨0x5c :: e :: body, rest', rfl, .escaped hbody, rfl⟩
  | case5 c rest hquote hslash ih =>
    obtain ⟨n, hn, rfl⟩ := Option.map_eq_some_iff.mp h
    obtain ⟨body, rest', rfl, hbody, rfl⟩ := ih hn
    exact ⟨c :: body, rest', rfl, .plain hquote hslash hbody, rfl⟩

/-- The closing quote is where the first one of its own is. -/
theorem closingQuote_eq_some_iff {s : List UInt8} {len : ℕ} : closingQuote s = some len ↔
    ∃ body rest, s = body ++ 0x22 :: rest ∧ Content body ∧ body.length = len := by
  constructor
  · exact exists_content
  · rintro ⟨body, rest, rfl, hbody, rfl⟩
    exact hbody.closingQuote_eq rest

theorem sizeString_succ {line : List UInt8} {pos : ℕ} {c : UInt8} (h : peek line pos = some c)
    (rounds : ℕ) : sizeString line (rounds + 1) pos =
      if c = 0 || c = 0x22 then some pos
      else if c = 0x5c then (peek line (pos + 1)).bind fun e =>
        sizeString line rounds (if e ≠ 0 then pos + 2 else pos + 1)
      else sizeString line rounds (pos + 1) := by
  rw [sizeString, h]
  rfl

/-- The sizing loop stops at the closing quote, or at the terminator. -/
theorem sizeString_eq {line s : List UInt8} {pos rounds : ℕ} (hnul : 0 ∉ line)
    (h : line.drop pos = s) (hpos : pos ≤ line.length) (hrounds : s.length < rounds) :
    sizeString line rounds pos = some (((closingQuote s).map (pos + ·)).getD line.length) := by
  fun_induction closingQuote s generalizing pos rounds with
  | case1 =>
    obtain ⟨rounds, rfl⟩ := Nat.exists_eq_add_of_lt hrounds
    have hlen : pos = line.length := le_antisymm hpos (List.drop_eq_nil_iff.mp h)
    rw [sizeString_succ (peek_end h hpos)]
    simp [hlen]
  | case2 rest =>
    obtain ⟨rounds, rfl⟩ := Nat.exists_eq_add_of_lt hrounds
    rw [sizeString_succ (peek_of_drop h)]
    simp
  | case3 hquote =>
    obtain ⟨rounds, rfl⟩ := Nat.exists_eq_add_of_lt hrounds
    obtain ⟨hnext, hle⟩ := drop_next h
    have hlen : pos + 1 = line.length := le_antisymm hle (List.drop_eq_nil_iff.mp hnext)
    have hend := sizeString_succ (peek_end hnext hle) rounds
    rw [sizeString_succ (peek_of_drop h), peek_end hnext hle]
    simpa [hlen, Nat.add_comm] using hend
  | case4 e rest hquote ih =>
    obtain ⟨rounds, rfl⟩ := Nat.exists_eq_add_of_lt hrounds
    obtain ⟨hnext, hle⟩ := drop_next h
    obtain ⟨hdrop, hend⟩ := drop_next hnext
    have he := ne_zero_of_drop hnul hnext
    rw [sizeString_succ (peek_of_drop h), peek_of_drop hnext]
    have hrest := ih hdrop hend (by simp only [List.length_cons]; omega :
      rest.length < (0x5c :: e :: rest).length + rounds)
    cases hclose : closingQuote rest <;>
      simpa [he, hclose, Nat.add_right_comm, Nat.add_assoc] using hrest
  | case5 c rest hquote hslash ih =>
    obtain ⟨rounds, rfl⟩ := Nat.exists_eq_add_of_lt hrounds
    obtain ⟨hnext, hle⟩ := drop_next h
    have hc := ne_zero_of_drop hnul h
    rw [sizeString_succ (peek_of_drop h)]
    have hrest := ih hnext hle (by simp only [List.length_cons]; omega :
      rest.length < (c :: rest).length + rounds)
    cases hclose : closingQuote rest <;>
      simpa [hc, hquote, hslash, hclose, Nat.add_assoc, Nat.add_comm 1] using hrest

/-! ## Decoding -/

theorem hexDigit_ne {c : UInt8} {d : ℕ} (h : hexDigit? c = some d) : c ≠ 0x22 ∧ c ≠ 0x5c := by
  have hquote : hexDigit? 0x22 = none := by decide
  have hslash : hexDigit? 0x5c = none := by decide
  constructor
  · rintro rfl
    simp [hquote] at h
  · rintro rfl
    simp [hslash] at h

/-- Four digits are content of the string. -/
theorem exists_of_parseHex4 {s : List UInt8} {v : ℕ} (h : parseHex4 s = some v) :
    ∃ a b c d rest, s = a :: b :: c :: d :: rest ∧ parseHex4 [a, b, c, d] = some v ∧
      ∀ e ∈ [a, b, c, d], ∃ n, hexDigit? e = some n := by
  rcases s with _ | ⟨a, _ | ⟨b, _ | ⟨c, _ | ⟨d, s⟩⟩⟩⟩
  iterate 4 exact absurd h (by simp [parseHex4])
  refine ⟨a, b, c, d, s, rfl, h, ?_⟩
  cases ha : hexDigit? a <;> cases hb : hexDigit? b <;> cases hc : hexDigit? c <;>
    cases hd : hexDigit? d <;> simp_all [parseHex4]

theorem closingQuote_hex4 {s : List UInt8} {v len : ℕ} (h : parseHex4 s = some v)
    (hclose : closingQuote s = some len) :
    ∃ rest, closingQuote (s.drop 4) = some rest ∧ len = rest + 4 := by
  obtain ⟨a, b, c, d, t, rfl, -, hhex⟩ := exists_of_parseHex4 h
  have hplain {e : UInt8} (he : e ∈ [a, b, c, d]) : e ≠ 0x22 ∧ e ≠ 0x5c := by
    obtain ⟨n, hn⟩ := hhex e he
    exact hexDigit_ne hn
  have ha := hplain (e := a) (by simp)
  have hb := hplain (e := b) (by simp)
  have hc := hplain (e := c) (by simp)
  have hd := hplain (e := d) (by simp)
  rw [closingQuote_plain ha.1 ha.2, closingQuote_plain hb.1 hb.2, closingQuote_plain hc.1 hc.2,
    closingQuote_plain hd.1 hd.2] at hclose
  cases ht : closingQuote t with
  | none => simp [ht] at hclose
  | some n =>
    refine ⟨n, ht, ?_⟩
    simpa [ht] using hclose.symm

theorem parseHex4_lt {s : List UInt8} {v : ℕ} (h : parseHex4 s = some v) : v < 0x10000 := by
  obtain ⟨a, b, c, d, t, rfl, hval, hhex⟩ := exists_of_parseHex4 h
  have hlt {e : UInt8} {n : ℕ} (he : hexDigit? e = some n) : n < 16 := by
    unfold hexDigit? at he
    split_ifs at he with hdigit hletter
    · have := isDigit_iff.mp hdigit
      have := Option.some.inj he
      omega
    · simp only [Bool.and_eq_true, decide_eq_true_eq, UInt8.le_iff_toNat_le] at hletter
      have hlast : (0x66 : UInt8).toNat = 0x66 := rfl
      have := Option.some.inj he
      omega
  obtain ⟨a', ha⟩ := hhex a (by simp)
  obtain ⟨b', hb⟩ := hhex b (by simp)
  obtain ⟨c', hc⟩ := hhex c (by simp)
  obtain ⟨d', hd⟩ := hhex d (by simp)
  simp only [parseHex4, ha, hb, hc, hd, Option.some.injEq] at hval
  have := hlt ha
  have := hlt hb
  have := hlt hc
  have := hlt hd
  omega

/-- The conversion of the terminal library writes three bytes below `U+10000` and four
bytes above, at most. -/
def Sized (utf8 : ℕ → List UInt8) : Prop :=
  ∀ cp, (utf8 cp).length ≤ if cp < 0x10000 then 3 else 4

/-- What a position in the rest of a line is as an index. -/
def indexed (line : List UInt8) {α : Type} (r : α × List UInt8) : α × ℕ :=
  (r.1, line.length - r.2.length)

theorem length_drop_sub {line s : List UInt8} {pos : ℕ} (h : line.drop pos = s)
    (hpos : pos ≤ line.length) : line.length - s.length = pos := by
  rw [← h, List.length_drop]
  omega

/-- A surrogate pair takes its second escape along. -/
theorem joinSurrogate_spec {cp cp' len : ℕ} {s rest : List UInt8}
    (h : joinSurrogate cp s = some (cp', rest)) (hclose : closingQuote s = some len) :
    ∃ len', closingQuote rest = some len' ∧
      (rest = s ∧ cp' = cp ∨ rest = s.drop 6 ∧ 6 ≤ s.length ∧ len = len' + 6) := by
  unfold joinSurrogate at h
  split at h
  next t =>
    split_ifs at h with hhigh
    · split at h
      next => simp at h
      next low hlow =>
        split_ifs at h with hpair
        · obtain ⟨rfl, rfl⟩ := Prod.mk.inj (Option.some.inj h)
          obtain ⟨n, hn, rfl⟩ : ∃ n, closingQuote t = some n ∧ len = n + 2 := by
            rw [closingQuote_escaped] at hclose
            obtain ⟨n, hn, rfl⟩ := Option.map_eq_some_iff.mp hclose
            exact ⟨n, hn, rfl⟩
          obtain ⟨a, b, c, d, t', rfl, -⟩ := exists_of_parseHex4 hlow
          obtain ⟨len', hlen', rfl⟩ := closingQuote_hex4 hlow hn
          exact ⟨len', hlen', .inr ⟨rfl, by simp, rfl⟩⟩
        · obtain ⟨rfl, rfl⟩ := Prod.mk.inj (Option.some.inj h)
          exact ⟨len, hclose, .inl ⟨rfl, rfl⟩⟩
    · obtain ⟨rfl, rfl⟩ := Prod.mk.inj (Option.some.inj h)
      exact ⟨len, hclose, .inl ⟨rfl, rfl⟩⟩
  next =>
    obtain ⟨rfl, rfl⟩ := Prod.mk.inj (Option.some.inj h)
    exact ⟨len, hclose, .inl ⟨rfl, rfl⟩⟩

theorem joinSurrogate_of_ne {s : List UInt8} (cp : ℕ) (h : ∀ t, s ≠ 0x5c :: 0x75 :: t) :
    joinSurrogate cp s = some (cp, s) := by
  unfold joinSurrogate
  split
  next t => exact absurd rfl (h t)
  next => rfl

theorem joinSurrogateAt_eq {line s : List UInt8} {pos : ℕ} (cp : ℕ)
    (h : line.drop pos = s) (hpos : pos ≤ line.length) :
    joinSurrogateAt line cp pos = some ((joinSurrogate cp s).map (indexed line)) := by
  have hstay : indexed line (cp, s) = (cp, pos) := by simp [indexed, length_drop_sub h hpos]
  unfold joinSurrogateAt
  by_cases hescape : ∃ t, s = 0x5c :: 0x75 :: t
  · obtain ⟨t, rfl⟩ := hescape
    obtain ⟨hnext, hle⟩ := drop_next h
    obtain ⟨hdrop, hend⟩ := drop_next hnext
    rw [peek_of_drop h, peek_of_drop hnext, parseHex4At_eq hdrop hend, joinSurrogate]
    by_cases hhigh : (0xd800 ≤ cp && cp ≤ 0xdbff) = true
    · cases hlow : parseHex4 t with
      | none => simp [hhigh]
      | some low =>
        obtain ⟨a, b, c, d, t', rfl, -⟩ := exists_of_parseHex4 hlow
        have hlen := congrArg List.length hdrop
        simp only [List.length_drop, List.length_cons] at hlen
        have hpair : line.length - t'.length = pos + 6 := by omega
        by_cases hpaired : 0xdc00 ≤ low ∧ low ≤ 0xdfff
        · simp [hhigh, hpaired, indexed, hpair]
        · simp [hhigh, hpaired, hstay]
    · simp [hhigh, hstay]
  · have hne : ∀ t, s ≠ 0x5c :: 0x75 :: t := fun t ht => hescape ⟨t, ht⟩
    rw [joinSurrogate_of_ne cp hne]
    by_cases hhigh : (0xd800 ≤ cp && cp ≤ 0xdbff) = true
    · rcases s with _ | ⟨a, s⟩
      · simp [peek_end h hpos, hstay]
      · obtain ⟨hnext, hle⟩ := drop_next h
        by_cases ha : a = 0x5c
        · subst ha
          rcases s with _ | ⟨b, s⟩
          · simp [peek_of_drop h, peek_end hnext hle, hstay]
          · have hb : b ≠ 0x75 := by
              rintro rfl
              exact hne s rfl
            simp [peek_of_drop h, peek_of_drop hnext, hb, hstay]
        · simp [peek_of_drop h, ha, hstay]
    · simp [hhigh, hstay]

section Rounds

variable (utf8 : ℕ → List UInt8) (alloc rounds : ℕ) (s dst : List UInt8)

theorem decodeString_quote : decodeString utf8 alloc (rounds + 1) (0x22 :: s) dst =
    .ok (dst, 0x22 :: s) := by
  rw [decodeString.eq_def]
  simp

theorem decodeString_plain {c : UInt8} (hquote : c ≠ 0x22) (hslash : c ≠ 0x5c)
    (hroom : dst.length < alloc) : decodeString utf8 alloc (rounds + 1) (c :: s) dst =
      decodeString utf8 alloc rounds s (dst ++ [c]) := by
  rw [decodeString.eq_def]
  have hfull : ¬alloc < dst.length + 1 := by omega
  simp [hquote, hslash, hfull]

theorem decodeString_letter {e b : UInt8} (h : simpleEscape e = some b) :
    decodeString utf8 alloc (rounds + 1) (0x5c :: e :: s) dst =
      decodeString utf8 alloc rounds s (dst ++ [b]) := by
  rw [decodeString.eq_def]
  simp [h]

theorem decodeString_bad {e : UInt8} (h : simpleEscape e = none) (hunit : e ≠ 0x75) :
    decodeString utf8 alloc (rounds + 1) (0x5c :: e :: s) dst = .error .inval := by
  rw [decodeString.eq_def]
  simp [h, hunit]

theorem decodeString_unit : decodeString utf8 alloc (rounds + 1) (0x5c :: 0x75 :: s) dst =
    match (parseHex4 s).bind fun cp => joinSurrogate cp (s.drop 4) with
    | none => .error .inval
    | some (cp, pos) =>
      match appendUtf8 utf8 alloc dst cp with
      | .error e => .error e
      | .ok dst => decodeString utf8 alloc rounds pos dst := by
  have hletter : simpleEscape 0x75 = none := by decide
  rw [decodeString.eq_def]
  dsimp only
  rw [if_neg (by decide), if_neg (by decide), hletter]
  dsimp only
  exact if_neg (by decide)

end Rounds

theorem appendUtf8_eq_ok {utf8 : ℕ → List UInt8} {alloc cp : ℕ} {dst dst' : List UInt8}
    (h : appendUtf8 utf8 alloc dst cp = .ok dst') : dst' = dst ++ utf8 cp := by
  unfold appendUtf8 at h
  split_ifs at h
  exact (Except.ok.inj h).symm

theorem decodeStringAt_succ {utf8 : ℕ → List UInt8} {line : List UInt8} {pos : ℕ} {c : UInt8}
    (h : peek line pos = some c) (alloc rounds : ℕ) (dst : List UInt8) :
    decodeStringAt utf8 line alloc (rounds + 1) pos dst =
      if c = 0 || c = 0x22 then some (.ok (dst, pos))
      else if c ≠ 0x5c then
        if alloc < dst.length + 1 then some (.error .noSpace)
        else (put alloc dst c).bind fun dst => decodeStringAt utf8 line alloc rounds (pos + 1) dst
      else
        (peek line (pos + 1)).bind fun e =>
          match simpleEscape e with
          | some b =>
            (put alloc dst b).bind fun dst => decodeStringAt utf8 line alloc rounds (pos + 2) dst
          | none =>
            if e ≠ 0x75 then some (.error .inval)
            else
              (parseHex4At line 4 (pos + 2) 0).bind fun
              | none => some (.error .inval)
              | some cp =>
                (joinSurrogateAt line cp (pos + 6)).bind fun
                | none => some (.error .inval)
                | some (cp, pos) =>
                  match appendUtf8 utf8 alloc dst cp with
                  | .error e => some (.error e)
                  | .ok dst => decodeStringAt utf8 line alloc rounds pos dst := by
  rw [decodeStringAt, h]
  rfl

theorem put_eq {alloc : ℕ} {dst : List UInt8} (h : dst.length < alloc) (c : UInt8) :
    put alloc dst c = some (dst ++ [c]) := if_pos h

/-- In a buffer of the size of the string, the decoding loop makes no access outside. -/
theorem decodeStringAt_eq {utf8 : ℕ → List UInt8} (hutf8 : Sized utf8) {line s : List UInt8}
    {pos len : ℕ} (alloc rounds : ℕ) (dst : List UInt8) (hnul : 0 ∉ line) (h : line.drop pos = s)
    (hpos : pos ≤ line.length) (hclose : closingQuote s = some len) (hrounds : len < rounds)
    (hroom : dst.length + len < alloc) :
    decodeStringAt utf8 line alloc rounds pos dst =
      some ((decodeString utf8 alloc rounds s dst).map (indexed line)) := by
  induction rounds generalizing pos len s dst with
  | zero => omega
  | succ rounds ih =>
    rcases s with _ | ⟨c, s⟩
    · simp [closingQuote] at hclose
    obtain ⟨hnext, hle⟩ := drop_next h
    have hc := ne_zero_of_drop hnul h
    by_cases hquote : c = 0x22
    · have hback := length_drop_sub h hpos
      subst hquote
      rw [decodeString_quote, decodeStringAt_succ (peek_of_drop h)]
      simp only [Except.map, indexed, hback]
      rfl
    by_cases hslash : c = 0x5c
    · subst hslash
      rcases s with _ | ⟨e, s⟩
      · simp [closingQuote] at hclose
      obtain ⟨hafter, hend⟩ := drop_next hnext
      rw [closingQuote_escaped] at hclose
      obtain ⟨n, hn, rfl⟩ := Option.map_eq_some_iff.mp hclose
      rw [decodeStringAt_succ (peek_of_drop h), peek_of_drop hnext]
      cases hletter : simpleEscape e with
      | some b =>
        rw [decodeString_letter utf8 alloc rounds s dst hletter]
        have hrest := ih _ hafter hend hn (by omega)
          (by rw [List.length_append, List.length_singleton]; omega :
            (dst ++ [b]).length + n < alloc)
        simpa [hc, hletter, put_eq (by omega : dst.length < alloc)] using hrest
      | none =>
        by_cases hunit : e = 0x75
        · subst hunit
          rw [decodeString_unit]
          have hdigits := parseHex4At_eq hafter hend
          cases hcp : parseHex4 s with
          | none => simp [hletter, hdigits, hcp, Except.map]
          | some cp =>
            obtain ⟨a, b, c, d, t, rfl, -⟩ := exists_of_parseHex4 hcp
            obtain ⟨m, hm, rfl⟩ := closingQuote_hex4 hcp hn
            have hlen := congrArg List.length hafter
            simp only [List.length_drop, List.length_cons] at hlen
            have hdrop : line.drop (pos + 6) = t := by
              rw [← List.drop_drop (i := 4) (j := pos + 2), hafter]
              rfl
            have hjoin := joinSurrogateAt_eq cp hdrop (by omega)
            cases hpair : joinSurrogate cp t with
            | none => simp [hletter, hdigits, hcp, hjoin, hpair, Except.map]
            | some pair =>
              obtain ⟨cp', rest⟩ := pair
              obtain ⟨n, hn', hsame⟩ := joinSurrogate_spec hpair hm
              cases happend : appendUtf8 utf8 alloc dst cp' with
              | error e => simp [hletter, hdigits, hcp, hjoin, hpair, happend, indexed, Except.map]
              | ok dst' =>
                have hsize := hutf8 cp'
                obtain rfl := appendUtf8_eq_ok happend
                have hafter : line.drop (line.length - rest.length) = rest ∧ n < rounds ∧
                    (utf8 cp').length + n ≤ m + 4 := by
                  have hback := length_drop_sub hdrop (by omega)
                  rcases hsame with ⟨rfl, rfl⟩ | ⟨rfl, hlong, rfl⟩
                  · obtain rfl := Option.some.inj (hm.symm.trans hn')
                    rw [if_pos (parseHex4_lt hcp)] at hsize
                    exact ⟨hback.symm ▸ hdrop, by omega, by omega⟩
                  · have hstop : line.length - (t.drop 6).length = pos + 6 + 6 := by
                      rw [List.length_drop]
                      omega
                    rw [hstop, ← List.drop_drop (i := 6) (j := pos + 6), hdrop]
                    split_ifs at hsize <;> exact ⟨rfl, by omega, by omega⟩
                have hrest := ih _ hafter.1 (Nat.sub_le _ _) hn' hafter.2.1
                  (by rw [List.length_append]; omega : (dst ++ utf8 cp').length + n < alloc)
                simpa [hletter, hdigits, hcp, hjoin, hpair, happend, indexed] using hrest
        · rw [decodeString_bad utf8 alloc rounds s dst hletter hunit]
          simp [hletter, hunit, Except.map]
    · rw [closingQuote_plain hquote hslash] at hclose
      obtain ⟨n, hn, rfl⟩ := Option.map_eq_some_iff.mp hclose
      have hfull : ¬alloc < dst.length + 1 := by omega
      have hrest := ih _ hnext hle hn (by omega)
        (by rw [List.length_append, List.length_singleton]; omega :
          (dst ++ [c]).length + n < alloc)
      rw [decodeString_plain utf8 alloc rounds s dst hquote hslash (by omega),
        decodeStringAt_succ (peek_of_drop h)]
      simpa [hc, hquote, hslash, hfull, put_eq (by omega : dst.length < alloc)] using hrest

end Faceplate.Misc
