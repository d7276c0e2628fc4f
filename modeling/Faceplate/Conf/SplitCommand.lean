import Mathlib.Algebra.GroupWithZero.Nat
import Mathlib.Data.List.Basic
import Faceplate.Lib.Writes
import Faceplate.Conf.Quoting

/-!
# The two passes of `shl_split_command_string`

The first pass counts the words and their bytes, the second writes them into memory of that
size. All counters are of type `unsigned int`. Reads behind the NUL of the string and writes
outside of the memory are undefined.
-/

namespace Faceplate.Conf

open CString Loops Writes

/-- A value of type `unsigned int`. -/
def u32 (n : ℕ) : ℕ := n % 2 ^ 32

theorem u32_of_lt {n : ℕ} (h : n < 2 ^ 32) : u32 n = n := Nat.mod_eq_of_lt h

theorem u32_lt (n : ℕ) : u32 n < 2 ^ 32 := Nat.mod_lt n (by decide)

/-- Ways to fail: `-EINVAL`, and an access outside of the memory. -/
inductive Fault where
  | invalid
  | outside
  deriving DecidableEq, Repr

/-- What both passes keep: the place in the string, the quotes, and what is their own. -/
structure Pass (τ : Type) where
  i : ℕ
  quote : QuoteStatus
  own : τ

namespace Pass

variable {τ : Type}

/-- `++i`. -/
def advance (s : Pass τ) : Pass τ := { s with i := u32 (s.i + 1) }

/-- The byte behind the place. -/
def ahead (arg : List UInt8) (s : Pass τ) : Option UInt8 := arg[u32 (s.i + 1)]?

end Pass

/-! ## Sizing -/

/-- What the first pass counts: words, bytes of the last word, and bytes of those before it
with their NULs. -/
structure Tally where
  num : ℕ
  len : ℕ
  size : ℕ
  deriving DecidableEq, Repr

/-- `++len`. -/
def Tally.grow (t : Tally) : Tally := { t with len := u32 (t.len + 1) }

/-- A word that is not empty ends. -/
def Tally.close (t : Tally) : Tally :=
  if t.len > 0 then ⟨u32 (t.num + 1), 0, u32 (t.size + u32 (t.len + 1))⟩ else t

/-- `++len`, in a pass. -/
def Pass.grow (s : Pass Tally) : Pass Tally := { s with own := s.own.grow }

/-- One round of the first loop. -/
def countRound (arg : List UInt8) (s : Pass Tally) : Round (Pass Tally) Fault :=
  match arg[s.i]? with
  | none => .fail .outside
  | some c =>
    if c = 0 then .stop s
    else if c = 0x20 ∨ c = 0x09 then
      match s.quote with
      | .unquoted => .next { s with own := s.own.close }.advance
      | .doubleQuoted | .singleQuoted => .next s.grow.advance
    else if c = 0x22 then
      match s.quote with
      | .unquoted => .next { s with quote := .doubleQuoted }.advance
      | .doubleQuoted => .next { s with quote := .unquoted }.advance
      | .singleQuoted => .next s.grow.advance
    else if c = 0x27 then
      match s.quote with
      | .unquoted => .next { s with quote := .singleQuoted }.advance
      | .doubleQuoted => .next s.grow.advance
      | .singleQuoted => .next { s with quote := .unquoted }.advance
    else if c = 0x5c then
      match s.quote with
      | .unquoted =>
        match s.ahead arg with
        | none => .fail .outside
        | some d => if d = 0 then .fail .invalid else .next s.advance.grow.advance
      | .doubleQuoted =>
        match s.ahead arg with
        | none => .fail .outside
        | some d =>
          if d = 0x22 ∨ d = 0x5c then .next s.advance.grow.advance else .next s.grow.advance
      | .singleQuoted => .next s.grow.advance
    else .next s.grow.advance

/-! ## Writing -/

/-- What the second pass keeps: the next entry of the list, the place behind the bytes that
are written, whether it is in a word, and the memory: entries, which are NULL or point to a
byte, and bytes, each of them nothing before it is written. -/
structure Layout where
  pos : ℕ
  off : ℕ
  inWord : Bool
  list : List (Option (Option ℕ))
  bytes : List (Option UInt8)

namespace Layout

/-- A byte is written, behind a new entry if it is the first of a word. -/
def put (c : UInt8) (w : Layout) : Option Layout := do
  let bytes ← write w.bytes w.off (some c)
  if w.inWord then some { w with bytes := bytes, off := w.off + 1 }
  else do
    let list ← write w.list w.pos (some (some w.off))
    some ⟨u32 (w.pos + 1), w.off + 1, true, list, bytes⟩

/-- A word ends. -/
def endWord (w : Layout) : Option Layout :=
  if w.inWord then do
    let bytes ← write w.bytes w.off (some 0)
    some { w with inWord := false, off := w.off + 1, bytes := bytes }
  else some w

end Layout

/-- A write in a pass. -/
def Pass.writes (s : Pass Layout) (own : Option Layout) : Round (Pass Layout) Fault :=
  match own with
  | none => .fail .outside
  | some own => .next { s with own := own }.advance

/-- One round of the second loop. -/
def writeRound (arg : List UInt8) (s : Pass Layout) : Round (Pass Layout) Fault :=
  match arg[s.i]? with
  | none => .fail .outside
  | some c =>
    if c = 0 then .stop s
    else if c = 0x20 ∨ c = 0x09 then
      match s.quote with
      | .unquoted => s.writes s.own.endWord
      | .doubleQuoted | .singleQuoted => s.writes (s.own.put c)
    else if c = 0x22 then
      match s.quote with
      | .unquoted => .next { s with quote := .doubleQuoted }.advance
      | .doubleQuoted => .next { s with quote := .unquoted }.advance
      | .singleQuoted => s.writes (s.own.put c)
    else if c = 0x27 then
      match s.quote with
      | .unquoted => .next { s with quote := .singleQuoted }.advance
      | .doubleQuoted => s.writes (s.own.put c)
      | .singleQuoted => .next { s with quote := .unquoted }.advance
    else if c = 0x5c then
      match s.quote with
      | .unquoted =>
        match s.ahead arg with
        | none => .fail .outside
        | some d => s.advance.writes (s.own.put d)
      | .doubleQuoted =>
        match s.ahead arg with
        | none => .fail .outside
        | some d =>
          if d = 0x22 ∨ d = 0x5c then s.advance.writes (s.own.put d) else s.writes (s.own.put c)
      | .singleQuoted => s.writes (s.own.put c)
    else s.writes (s.own.put c)

/-- A list of words in memory: how many there are, the entries, and the bytes. -/
structure CommandList where
  num : ℕ
  list : List (Option (Option ℕ))
  bytes : List (Option UInt8)
  deriving DecidableEq

/-- The end of the second pass. -/
def Layout.finish (num : ℕ) (w : Layout) : Except Fault CommandList :=
  match if w.inWord then write w.bytes w.off (some 0) else some w.bytes,
      write w.list w.pos (some none) with
  | some bytes, some list => .ok ⟨num, list, bytes⟩
  | _, _ => .error .outside

/-- `shl_split_command_string`, if both loops end within some number of rounds. The memory is
there. -/
def splitCommand (arg : CString.Str) (fuel : ℕ) : Option (Except Fault CommandList) :=
  match rounds (countRound arg.terminated) fuel ⟨0, .unquoted, 0, 0, 0⟩ with
  | .next _ => none
  | .fail e => some (.error e)
  | .stop s =>
    if s.quote ≠ .unquoted then some (.error .invalid)
    else
      let t := s.own.close
      let start := ⟨0, 0, false, List.replicate (u32 (t.num + 1)) none, List.replicate t.size none⟩
      match rounds (writeRound arg.terminated) fuel ⟨0, s.quote, start⟩ with
      | .next _ => none
      | .fail e => some (.error e)
      | .stop s => some (s.own.finish t.num)

/-! ## Both passes are one -/

section Scan

variable {τ : Type} (emit : Option UInt8 → τ → Option τ)
  (trail : Pass τ → Round (Pass τ) Fault)

/-- Something is done with a byte of a word, or with a blank. -/
def Pass.emits (s : Pass τ) (b : Option UInt8) : Round (Pass τ) Fault :=
  match emit b s.own with
  | none => .fail .outside
  | some own => .next { s with own := own }.advance

/-- One round of a pass that does something with each byte of a word and each blank, and
something else at a trailing backslash. -/
def scanRound (arg : List UInt8) (s : Pass τ) : Round (Pass τ) Fault :=
  match arg[s.i]? with
  | none => .fail .outside
  | some c =>
    if c = 0 then .stop s
    else
      match s.quote with
      | .unquoted =>
        if Separates c then s.emits emit none
        else if c = 0x22 then .next { s with quote := .doubleQuoted }.advance
        else if c = 0x27 then .next { s with quote := .singleQuoted }.advance
        else if c = 0x5c then
          match s.ahead arg with
          | none => .fail .outside
          | some d => if d = 0 then trail s else s.advance.emits emit (some d)
        else s.emits emit (some c)
      | .doubleQuoted =>
        if c = 0x22 then .next { s with quote := .unquoted }.advance
        else if c = 0x5c then
          match s.ahead arg with
          | none => .fail .outside
          | some d =>
            if d = 0x22 ∨ d = 0x5c then s.advance.emits emit (some d)
            else s.emits emit (some 0x5c)
        else s.emits emit (some c)
      | .singleQuoted =>
        if c = 0x27 then .next { s with quote := .unquoted }.advance
        else s.emits emit (some c)

end Scan

/-- The first pass counts. -/
def Tally.count (b : Option UInt8) (t : Tally) : Option Tally :=
  some (if b.isSome then t.grow else t.close)

/-- The second pass writes. -/
def Layout.emit : Option UInt8 → Layout → Option Layout
  | none, w => w.endWord
  | some c, w => w.put c

/-- Between double quotes neither a blank nor a single quote is special. -/
theorem countRound_eq (arg : List UInt8) (s : Pass Tally) :
    countRound arg s = scanRound Tally.count (fun _ => .fail .invalid) arg s := by
  obtain ⟨i, quote, t⟩ := s
  unfold countRound scanRound
  cases arg[i]? with
  | none => rfl
  | some c =>
    dsimp only
    have hgrow : ∀ (s : Pass Tally) (c : UInt8),
        s.emits Tally.count (some c) = .next s.grow.advance := fun _ _ => rfl
    have hclose : ∀ s : Pass Tally, s.emits Tally.count none =
      .next { s with own := s.own.close }.advance := fun _ => rfl
    simp only [hgrow, hclose, Separates]
    cases quote with
    | unquoted => rfl
    | doubleQuoted =>
      dsimp only
      split_ifs <;> first | rfl | simp_all
    | singleQuoted =>
      dsimp only
      split_ifs <;> first | rfl | simp_all

theorem writeRound_eq (arg : List UInt8) (s : Pass Layout) :
    writeRound arg s =
      scanRound Layout.emit (fun s => s.advance.emits Layout.emit (some 0)) arg s := by
  obtain ⟨i, quote, w⟩ := s
  unfold writeRound scanRound
  cases arg[i]? with
  | none => rfl
  | some c =>
    dsimp only
    have hput : ∀ (s : Pass Layout) (c : UInt8),
        s.emits Layout.emit (some c) = s.writes (s.own.put c) := by
      intro s c
      cases hw : s.own.put c <;> simp only [Pass.emits, Pass.writes, Layout.emit, hw]
    have hend : ∀ s : Pass Layout, s.emits Layout.emit none = s.writes s.own.endWord := by
      intro s
      cases hw : s.own.endWord <;> simp only [Pass.emits, Pass.writes, Layout.emit, hw]
    simp only [hput, hend, Separates]
    cases quote with
    | unquoted =>
      cases Pass.ahead arg ⟨i, .unquoted, w⟩ with
      | none => rfl
      | some d =>
        have htrail : (if d = 0 then
            (Pass.advance ⟨i, .unquoted, w⟩).writes ((Pass.advance ⟨i, .unquoted, w⟩).own.put 0)
            else (Pass.advance ⟨i, .unquoted, w⟩).writes
              ((Pass.advance ⟨i, .unquoted, w⟩).own.put d)) =
            (Pass.advance ⟨i, .unquoted, w⟩).writes (w.put d) := by
          split_ifs with hd
          · rw [hd]
            rfl
          · rfl
        simp only [htrail]
    | doubleQuoted =>
      by_cases hslash : c = 0x5c
      · subst hslash
        cases Pass.ahead arg ⟨i, .doubleQuoted, w⟩ with
        | none => rfl
        | some d => rfl
      · dsimp only
        split_ifs <;> first | rfl | simp_all
    | singleQuoted =>
      dsimp only
      split_ifs <;> first | rfl | simp_all

/-! ## A pass over a string -/

section Scan

variable {τ : Type} {emit : Option UInt8 → τ → Option τ} {trail : Pass τ → Round (Pass τ) Fault}
  {arg : CString.Str}

/-- The end of a pass over the whole string. -/
def Pass.atEnd (arg : CString.Str) : Option τ → Round (Pass τ) Fault
  | none => .fail .outside
  | some own => .stop ⟨arg.bytes.length, .unquoted, own⟩

/-- What a pass does with some bytes. -/
def emitAll (emit : Option UInt8 → τ → Option τ) (own : τ) (bytes : List (Option UInt8)) :
    Option τ :=
  bytes.foldlM (fun own b => emit b own) own

/-- The place in front of a byte. -/
theorem drop_cons {i : ℕ} {c : UInt8} {text : Str} (h : arg.bytes.drop i = c :: text) :
    arg.terminated[i]? = some c ∧ c ≠ 0 ∧ arg.bytes.drop (i + 1) = text ∧
      i + 1 ≤ arg.bytes.length := by
  have hget : arg.bytes[i]? = some c := by
    rw [← List.head?_drop, h]
    rfl
  obtain ⟨hlt, hc⟩ := List.getElem?_eq_some_iff.mp hget
  refine ⟨?_, ?_, ?_, hlt⟩
  · rw [CString.Str.terminated, List.getElem?_append_left hlt, hget]
  · rintro rfl
    exact arg.noNul (List.mem_of_getElem? hget)
  · rw [← List.tail_drop, h]
    rfl

/-- The place in front of the NUL. -/
theorem drop_nil {i : ℕ} (h : arg.bytes.drop i = []) (hi : i ≤ arg.bytes.length) :
    i = arg.bytes.length ∧ arg.terminated[i]? = some 0 := by
  obtain rfl : i = arg.bytes.length := Nat.le_antisymm hi (List.drop_eq_nil_iff.mp h)
  refine ⟨rfl, ?_⟩
  rw [CString.Str.terminated, List.getElem?_append_right Nat.le.refl, Nat.sub_self]
  rfl

variable (hlength : arg.bytes.length < 2 ^ 32)

include hlength

/-- A byte is done, and the rest of the string is. -/
theorem ends_emits {s : Pass τ} {k : ℕ} {q : QuoteStatus} {own : τ} {b : Option UInt8}
    {bytes : List (Option UInt8)}
    (hround : scanRound emit trail arg.terminated s = Pass.emits emit ⟨k, q, own⟩ b)
    (hk : k + 1 ≤ arg.bytes.length)
    (hnext : ∀ own, Ends (scanRound emit trail arg.terminated) ⟨k + 1, q, own⟩
      (Pass.atEnd arg (emitAll emit own bytes))) :
    Ends (scanRound emit trail arg.terminated) s
      (Pass.atEnd arg (emitAll emit own (b :: bytes))) := by
  unfold Pass.emits at hround
  have hcons : emitAll emit own (b :: bytes) =
      (emit b own).bind fun own => emitAll emit own bytes := List.foldlM_cons
  rw [hcons]
  cases hemit : emit b own with
  | none =>
    simp only [hemit] at hround
    exact .of_round hround trivial
  | some own' =>
    simp only [hemit, Pass.advance, u32_of_lt (Nat.lt_of_le_of_lt hk hlength)] at hround
    exact .of_next hround (hnext own')

/-- A quote opens or closes, and the rest of the string is done. -/
theorem ends_turn {s : Pass τ} {k : ℕ} {q : QuoteStatus} {own : τ}
    {result : Round (Pass τ) Fault}
    (hround : scanRound emit trail arg.terminated s = .next (Pass.advance ⟨k, q, own⟩))
    (hk : k + 1 ≤ arg.bytes.length)
    (hnext : Ends (scanRound emit trail arg.terminated) ⟨k + 1, q, own⟩ result) :
    Ends (scanRound emit trail arg.terminated) s result := by
  simp only [Pass.advance, u32_of_lt (Nat.lt_of_le_of_lt hk hlength)] at hround
  exact .of_next hround hnext

/-- The byte behind a place, and what follows it. -/
theorem ahead_cons {i : ℕ} {d : UInt8} {text : Str} (hi : i + 1 ≤ arg.bytes.length)
    (h : arg.bytes.drop (i + 1) = d :: text) (q : QuoteStatus) (own : τ) :
    Pass.ahead arg.terminated ⟨i, q, own⟩ = some d ∧ d ≠ 0 ∧
      Pass.advance ⟨i, q, own⟩ = ⟨i + 1, q, own⟩ := by
  obtain ⟨hget, hd, -⟩ := drop_cons h
  have hu32 : u32 (i + 1) = i + 1 := u32_of_lt (Nat.lt_of_le_of_lt hi hlength)
  exact ⟨by rw [Pass.ahead, hu32, hget], hd, by rw [Pass.advance, hu32]⟩

/-- What one round does in front of a text: it stops at its end, it meets a trailing backslash,
it does something with a byte or a blank, or it turns at a quote. -/
inductive ScanStep (emit : Option UInt8 → τ → Option τ) (trail : Pass τ → Round (Pass τ) Fault)
    (arg : CString.Str) (i : ℕ) (q : QuoteStatus) (text : Str) (own : τ) : Prop
  | stops (htext : text = [])
      (hround : scanRound emit trail arg.terminated ⟨i, q, own⟩ = .stop ⟨i, q, own⟩)
  | trails (hquote : q = .unquoted) (htext : text = [0x5c])
      (hround : scanRound emit trail arg.terminated ⟨i, q, own⟩ = trail ⟨i, q, own⟩)
  | emits {k : ℕ} {b : Option UInt8} {rest : Str} (hless : rest.length < text.length)
      (hrest : arg.bytes.drop (k + 1) = rest) (hk : k + 1 ≤ arg.bytes.length)
      (hsame : unquote q text = (unquote q rest).map (b :: ·))
      (hround : scanRound emit trail arg.terminated ⟨i, q, own⟩ = Pass.emits emit ⟨k, q, own⟩ b)
  | turns {q' : QuoteStatus} {rest : Str} (hless : rest.length < text.length)
      (hrest : arg.bytes.drop (i + 1) = rest) (hk : i + 1 ≤ arg.bytes.length)
      (hsame : unquote q text = unquote q' rest)
      (hround : scanRound emit trail arg.terminated ⟨i, q, own⟩ =
        .next (Pass.advance ⟨i, q', own⟩))

/-- One byte outside of quotes. -/
theorem scanStep_unquoted {i : ℕ} {c : UInt8} {text : Str} (hdrop : arg.bytes.drop i = c :: text)
    (own : τ) : ScanStep emit trail arg i .unquoted (c :: text) own := by
  obtain ⟨hget, hc, hrest, hi⟩ := drop_cons hdrop
  have hless : text.length < (c :: text).length := Nat.lt_succ_self _
  by_cases hblank : Separates c
  · refine .emits hless hrest hi (unquote_blank text hblank) ?_
    simp only [scanRound, hget, if_neg hc, if_pos hblank]
  by_cases hquot : c = 0x22
  · subst hquot
    refine .turns hless hrest hi (unquote_openDouble text) ?_
    simp only [scanRound, hget]
    rfl
  by_cases hapos : c = 0x27
  · subst hapos
    refine .turns hless hrest hi (unquote_openSingle text) ?_
    simp only [scanRound, hget]
    rfl
  by_cases hslash : c = 0x5c
  · subst hslash
    cases text with
    | nil =>
      obtain ⟨-, hnul⟩ := drop_nil hrest hi
      refine .trails rfl rfl ?_
      simp only [scanRound, hget, Pass.ahead, u32_of_lt (Nat.lt_of_le_of_lt hi hlength), hnul]
      rfl
    | cons d text =>
      obtain ⟨-, -, hrest', hi'⟩ := drop_cons hrest
      obtain ⟨hahead, hd, hadvance⟩ := ahead_cons hlength hi hrest .unquoted own
      refine .emits (Nat.lt_succ_of_lt (Nat.lt_succ_self _)) hrest' hi' (unquote_escape d text) ?_
      simp only [scanRound, hget, hahead, if_neg hd, hadvance]
      rfl
  · refine .emits hless hrest hi (unquote_plain text hblank hquot hapos hslash) ?_
    simp only [scanRound, hget, if_neg hc, if_neg hblank, if_neg hquot, if_neg hapos,
      if_neg hslash]

/-- One byte between double quotes. A trailing backslash stands for itself there. -/
theorem scanStep_doubleQuoted {i : ℕ} {c : UInt8} {text : Str}
    (hdrop : arg.bytes.drop i = c :: text) (own : τ) :
    ScanStep emit trail arg i .doubleQuoted (c :: text) own := by
  obtain ⟨hget, hc, hrest, hi⟩ := drop_cons hdrop
  have hless : text.length < (c :: text).length := Nat.lt_succ_self _
  by_cases hquot : c = 0x22
  · subst hquot
    refine .turns hless hrest hi (unquote_closeDouble text) ?_
    simp only [scanRound, hget]
    rfl
  by_cases hslash : c = 0x5c
  · subst hslash
    cases text with
    | nil =>
      obtain ⟨-, hnul⟩ := drop_nil hrest hi
      have hnone : unquote .doubleQuoted [0x5c] =
          (unquote .doubleQuoted []).map (some 0x5c :: ·) := by
        rw [unquote_doubleBackslash, unquote, Option.map_none]
      refine .emits hless hrest hi hnone ?_
      simp only [scanRound, hget, Pass.ahead, u32_of_lt (Nat.lt_of_le_of_lt hi hlength), hnul]
      rfl
    | cons d text =>
      obtain ⟨-, -, hrest', hi'⟩ := drop_cons hrest
      obtain ⟨hahead, -, hadvance⟩ := ahead_cons hlength hi hrest .doubleQuoted own
      by_cases hd : d = 0x22 ∨ d = 0x5c
      · refine .emits (Nat.lt_succ_of_lt (Nat.lt_succ_self _)) hrest' hi'
          (unquote_doubleEscape text hd) ?_
        simp only [scanRound, hget, hahead, if_pos hd, hadvance]
        rfl
      · refine .emits hless hrest hi (unquote_doubleKeep text hd) ?_
        simp only [scanRound, hget, hahead, if_neg hd]
        rfl
  · refine .emits hless hrest hi (unquote_inDouble text hquot hslash) ?_
    simp only [scanRound, hget, if_neg hc, if_neg hquot, if_neg hslash]

omit hlength in
/-- One byte between single quotes. -/
theorem scanStep_singleQuoted {i : ℕ} {c : UInt8} {text : Str}
    (hdrop : arg.bytes.drop i = c :: text) (own : τ) :
    ScanStep emit trail arg i .singleQuoted (c :: text) own := by
  obtain ⟨hget, hc, hrest, hi⟩ := drop_cons hdrop
  have hless : text.length < (c :: text).length := Nat.lt_succ_self _
  by_cases hapos : c = 0x27
  · subst hapos
    refine .turns hless hrest hi (unquote_closeSingle text) ?_
    simp only [scanRound, hget]
    rfl
  · refine .emits hless hrest hi (unquote_inSingle text hapos) ?_
    simp only [scanRound, hget, if_neg hc, if_neg hapos]

theorem scanStep {i : ℕ} (q : QuoteStatus) {text : Str} (hdrop : arg.bytes.drop i = text)
    (hi : i ≤ arg.bytes.length) (own : τ) : ScanStep emit trail arg i q text own := by
  cases text with
  | nil =>
    obtain ⟨-, hget⟩ := drop_nil hdrop hi
    refine .stops rfl ?_
    simp only [scanRound, hget]
    rfl
  | cons c text =>
    cases q with
    | unquoted => exact scanStep_unquoted hlength hdrop own
    | doubleQuoted => exact scanStep_doubleQuoted hlength hdrop own
    | singleQuoted => exact scanStep_singleQuoted hdrop own

/-- A pass over a text that is balanced ends behind it, with everything done that stands in
it. -/
theorem ends_of_some {q : QuoteStatus} {text : Str} {bytes : List (Option UInt8)}
    (hunquote : unquote q text = some bytes) {i : ℕ} (hdrop : arg.bytes.drop i = text)
    (hi : i ≤ arg.bytes.length) (own : τ) :
    Ends (scanRound emit trail arg.terminated) ⟨i, q, own⟩
      (Pass.atEnd arg (emitAll emit own bytes)) := by
  induction hsize : text.length using Nat.strong_induction_on generalizing text i q own bytes with
  | _ n ih =>
    subst hsize
    have hstep : ScanStep emit trail arg i q text own := scanStep hlength q hdrop hi own
    cases hstep with
    | stops htext hround =>
      subst htext
      obtain ⟨rfl, -⟩ := drop_nil hdrop hi
      cases q with
      | unquoted =>
        rw [unquote] at hunquote
        obtain rfl := Option.some.inj hunquote
        exact .of_round hround trivial
      | doubleQuoted =>
        rw [unquote] at hunquote
        cases hunquote
      | singleQuoted =>
        rw [unquote] at hunquote
        cases hunquote
    | trails hquote htext =>
      rw [hquote, htext, unquote_backslash] at hunquote
      cases hunquote
    | emits hless hrest hk hsame hround =>
      obtain ⟨bytes, hbytes, rfl⟩ := Option.map_eq_some_iff.mp (hsame.symm.trans hunquote)
      exact ends_emits hlength hround hk fun own => ih _ hless hbytes hrest hk own rfl
    | turns hless hrest hk hsame hround =>
      exact ends_turn hlength hround hk (ih _ hless (hsame.symm.trans hunquote) hrest hk own rfl)

/-- The first pass ends in a way that makes the string refused. -/
def Refuses (arg : CString.Str) (s : Pass Tally) : Prop :=
  ∃ result, Ends (countRound arg.terminated) s result ∧
    (result = .fail .invalid ∨ ∃ s, result = .stop s ∧ s.quote ≠ .unquoted)

omit hlength in
theorem Refuses.of_next {s s' : Pass Tally} (hround : countRound arg.terminated s = .next s')
    (h : Refuses arg s') : Refuses arg s := by
  obtain ⟨result, hends, hresult⟩ := h
  exact ⟨result, .of_next hround hends, hresult⟩

omit hlength in
theorem Refuses.of_stop {s : Pass Tally} (hdrop : arg.bytes.drop s.i = [])
    (hi : s.i ≤ arg.bytes.length) (hquote : s.quote ≠ .unquoted) : Refuses arg s := by
  obtain ⟨-, hget⟩ := drop_nil hdrop hi
  refine ⟨.stop s, .of_round ?_ trivial, Or.inr ⟨s, rfl, hquote⟩⟩
  simp only [countRound, hget]
  rfl

/-- A pass over a text that is not balanced is refused. -/
theorem refuses_of_none {q : QuoteStatus} {text : Str} (hunquote : unquote q text = none) {i : ℕ}
    (hdrop : arg.bytes.drop i = text) (hi : i ≤ arg.bytes.length) (t : Tally) :
    Refuses arg ⟨i, q, t⟩ := by
  induction hsize : text.length using Nat.strong_induction_on generalizing text i q t with
  | _ n ih =>
    subst hsize
    have hstep : ScanStep Tally.count (fun _ => .fail .invalid) arg i q text t :=
      scanStep hlength q hdrop hi t
    cases hstep with
    | stops htext =>
      refine .of_stop (hdrop.trans htext) hi ?_
      rintro rfl
      rw [htext, unquote] at hunquote
      cases hunquote
    | trails hquote htext hround =>
      rw [← countRound_eq] at hround
      exact ⟨.fail .invalid, .of_round hround trivial, Or.inl rfl⟩
    | emits hless hrest hk hsame hround =>
      rw [hsame, Option.map_eq_none_iff] at hunquote
      rw [← countRound_eq, Pass.emits, Tally.count] at hround
      simp only [Pass.advance, u32_of_lt (Nat.lt_of_le_of_lt hk hlength)] at hround
      exact .of_next hround (ih _ hless hunquote hrest hk _ rfl)
    | turns hless hrest hk hsame hround =>
      rw [← countRound_eq, Pass.advance, u32_of_lt (Nat.lt_of_le_of_lt hk hlength)] at hround
      exact .of_next hround (ih _ hless (hsame.symm.trans hunquote) hrest hk t rfl)

end Scan

/-! ## What is counted -/

/-- The bytes of some words with their NULs. -/
def wordsSize (words : List Str) : ℕ := (words.map fun word => word.length + 1).sum

@[simp] theorem wordsSize_append (words others : List Str) :
    wordsSize (words ++ others) = wordsSize words + wordsSize others := by
  simp [wordsSize]

@[simp] theorem wordsSize_singleton (word : Str) : wordsSize [word] = word.length + 1 := by
  simp [wordsSize]

theorem wordsSize_filter_le (p : Str → Bool) (words : List Str) :
    wordsSize (words.filter p) ≤ wordsSize words := by
  induction words with
  | nil => exact Nat.le.refl
  | cons word words ih =>
    have hcons : wordsSize (word :: words) = word.length + 1 + wordsSize words := rfl
    cases hp : p word with
    | false =>
      rw [List.filter_cons_of_neg (by simp [hp]), hcons]
      omega
    | true =>
      rw [List.filter_cons_of_pos hp]
      change word.length + 1 + wordsSize (words.filter p) ≤ _
      omega

theorem length_le_wordsSize (words : List Str) : words.length ≤ wordsSize words := by
  induction words with
  | nil => exact Nat.le.refl
  | cons word words ih =>
    change words.length + 1 ≤ word.length + 1 + wordsSize words
    omega

@[simp] theorem commandWords_nil : commandWords [] [] = [] := rfl

theorem commandWords_of_ne {word : Str} (h : word ≠ []) (others : List Str) :
    commandWords word others = word :: commandWords [] others := by
  simp [commandWords, h]

/-- A word behind which a blank stands is done. -/
theorem commandWords_cons (word first : Str) (others : List Str) :
    commandWords word (first :: others) = commandWords word [] ++ commandWords first others := by
  by_cases h : word = []
  · simp [commandWords, h]
  · simp [commandWords, h]

/-- The counts at the end of a word are right while they are in range. -/
theorem Tally.close_eq {num size : ℕ} (word : Str) (hnum : num ≤ size)
    (hsize : size + wordsSize (commandWords word []) < 2 ^ 32) :
    Tally.close ⟨num, word.length, size⟩ = ⟨num + (commandWords word []).length, 0,
      size + wordsSize (commandWords word [])⟩ := by
  by_cases h : word = []
  · subst h
    rfl
  · rw [commandWords_of_ne h, commandWords_nil, wordsSize_singleton] at hsize ⊢
    have hpos : word.length > 0 := List.length_pos_of_ne_nil h
    have hnum' : u32 (num + 1) = num + 1 := u32_of_lt (by omega)
    have hlen : u32 (word.length + 1) = word.length + 1 := u32_of_lt (by omega)
    have hsum : u32 (size + (word.length + 1)) = size + (word.length + 1) := u32_of_lt hsize
    rw [Tally.close, if_pos hpos, hnum', hlen, hsum]
    rfl

/-- The first pass counts the words and their bytes. -/
theorem tally_spec (bytes : List (Option UInt8)) (word : Str) {num size : ℕ} (hnum : num ≤ size)
    (hsize : size + wordsSize (commandWords (word ++ (segments bytes).1) (segments bytes).2) <
      2 ^ 32) :
    ∃ t, emitAll Tally.count ⟨num, word.length, size⟩ bytes = some t ∧
      t.close =
        ⟨num + (commandWords (word ++ (segments bytes).1) (segments bytes).2).length, 0,
          size + wordsSize (commandWords (word ++ (segments bytes).1) (segments bytes).2)⟩ := by
  induction bytes generalizing word num size with
  | nil =>
    rw [segments, List.append_nil] at hsize ⊢
    exact ⟨_, rfl, Tally.close_eq word hnum hsize⟩
  | cons b bytes ih =>
    cases b with
    | none =>
      rw [segments, List.append_nil, commandWords_cons, wordsSize_append] at hsize
      have hclose := Tally.close_eq word hnum (by omega)
      have hlength := length_le_wordsSize (commandWords word [])
      obtain ⟨t, ht, hend⟩ := @ih [] (num + (commandWords word []).length)
        (size + wordsSize (commandWords word [])) (by omega) (by rw [List.nil_append]; omega)
      refine ⟨t, ?_, ?_⟩
      · change emitAll Tally.count (Tally.close ⟨num, word.length, size⟩) bytes = some t
        rw [hclose]
        exact ht
      · rw [hend, segments, List.append_nil, commandWords_cons word, wordsSize_append,
          List.length_append, List.nil_append, Nat.add_assoc, Nat.add_assoc]
    | some c =>
      have hword : word ++ (segments (some c :: bytes)).1 =
          (word ++ [c]) ++ (segments bytes).1 := by
        rw [List.append_assoc]
        rfl
      have hothers : (segments (some c :: bytes)).2 = (segments bytes).2 := rfl
      rw [hword, hothers] at hsize ⊢
      obtain ⟨t, ht, hend⟩ := ih (word ++ [c]) hnum hsize
      refine ⟨t, ?_, hend⟩
      have hlen : u32 (word.length + 1) = (word ++ [c]).length := by
        have hne : word ++ [c] ++ (segments bytes).1 ≠ [] := by simp
        rw [commandWords_of_ne hne] at hsize
        have hle : word.length + 1 < 2 ^ 32 := by
          simp only [wordsSize, List.map_cons, List.sum_cons, List.length_append,
            List.length_singleton] at hsize
          omega
        rw [u32_of_lt hle, List.length_append, List.length_singleton]
      change emitAll Tally.count ⟨num, u32 (word.length + 1), size⟩ bytes = some t
      rw [hlen]
      exact ht

/-! ## What is written -/

/-- Some words with their NULs. -/
def wordsBytes (words : List Str) : Str := words.flatMap fun word => word ++ [0]

/-- Where some words start, one behind the other. -/
def offsets : ℕ → List Str → List ℕ
  | _, [] => []
  | off, word :: words => off :: offsets (off + (word.length + 1)) words

@[simp] theorem length_wordsBytes (words : List Str) :
    (wordsBytes words).length = wordsSize words := by
  simp [wordsBytes, wordsSize, List.length_flatMap]

@[simp] theorem length_offsets (off : ℕ) (words : List Str) :
    (offsets off words).length = words.length := by
  induction words generalizing off with
  | nil => rfl
  | cons word words ih => exact congrArg (· + 1) (ih _)

theorem offsets_concat (off : ℕ) (words : List Str) (word : Str) :
    offsets off (words ++ [word]) = offsets off words ++ [off + wordsSize words] := by
  induction words generalizing off with
  | nil => rfl
  | cons other words ih =>
    rw [List.cons_append, offsets, offsets, ih, List.cons_append, Nat.add_assoc]
    rfl

/-- The list of these words in memory, and nothing else. -/
def CommandList.ofWords (words : List Str) : CommandList :=
  ⟨words.length, ((offsets 0 words).map some ++ [none]).map some, (wordsBytes words).map some⟩

/-- The second pass behind some words and in the middle of another one. -/
def Layout.behind (num size : ℕ) (done : List Str) (word : Str) : Layout where
  pos := (done ++ commandWords word []).length
  off := wordsSize done + word.length
  inWord := word ≠ []
  list := filled (num + 1) ((offsets 0 (done ++ commandWords word [])).map some)
  bytes := filled size (wordsBytes done ++ word)

namespace Layout

variable {num size : ℕ} {done : List Str} {word : Str}

/-- A byte more in the memory. -/
theorem write_byte (c : UInt8) (hoff : wordsSize done + word.length < size) :
    write (filled size (wordsBytes done ++ word)) (wordsSize done + word.length) (some c) =
      some (filled size (wordsBytes done ++ (word ++ [c]))) := by
  have hlength : (wordsBytes done ++ word).length = wordsSize done + word.length := by
    rw [List.length_append, length_wordsBytes]
  rw [← hlength, write_filled (by omega), List.append_assoc]

/-- An entry more in the memory. -/
theorem write_entry (entry : Option ℕ) (hpos : done.length ≤ num) :
    write (filled (num + 1) ((offsets 0 done).map some)) done.length (some entry) =
      some (filled (num + 1) ((offsets 0 done).map some ++ [entry])) := by
  have hlength : ((offsets 0 done).map some).length = done.length := by
    rw [List.length_map, length_offsets]
  rw [← hlength]
  exact write_filled (by omega) entry

theorem behind_nil : behind num size done [] =
    ⟨done.length, wordsSize done, false, filled (num + 1) ((offsets 0 done).map some),
      filled size (wordsBytes done)⟩ := by
  simp [behind]

theorem behind_of_ne (h : word ≠ []) : behind num size done word =
    ⟨done.length + 1, wordsSize done + word.length, true,
      filled (num + 1) ((offsets 0 done).map some ++ [some (wordsSize done)]),
      filled size (wordsBytes done ++ word)⟩ := by
  simp [behind, commandWords_of_ne h, h, offsets_concat]

/-- A byte more in the last word. -/
theorem put_behind (c : UInt8) (hoff : wordsSize done + word.length < size)
    (hpos : done.length ≤ num) (hnum : num + 1 < 2 ^ 32) :
    (behind num size done word).put c = some (behind num size done (word ++ [c])) := by
  have hbytes := write_byte c hoff
  have hlength : wordsSize done + (word ++ [c]).length = wordsSize done + word.length + 1 := by
    rw [List.length_append, List.length_singleton, Nat.add_assoc]
  rw [behind_of_ne (List.concat_ne_nil c word), hlength]
  by_cases h : word = []
  · subst h
    rw [List.append_nil, List.length_nil, Nat.add_zero] at hbytes
    have hu32 : u32 (done.length + 1) = done.length + 1 := u32_of_lt (by omega)
    rw [behind_nil]
    simp only [put, hbytes, Option.bind_eq_bind, Option.bind_some, Bool.false_eq_true, if_false,
      write_entry (some (wordsSize done)) hpos, hu32, List.length_nil, Nat.add_zero]
  · rw [behind_of_ne h]
    simp only [put, hbytes, Option.bind_eq_bind, Option.bind_some, if_true]

/-- The NUL behind the last word. -/
theorem write_nul (hoff : wordsSize done + word.length < size) :
    write (filled size (wordsBytes done ++ word)) (wordsSize done + word.length) (some 0) =
      some (filled size (wordsBytes (done ++ [word]))) := by
  have hbytes : wordsBytes done ++ (word ++ [0]) = wordsBytes (done ++ [word]) := by
    simp [wordsBytes]
  rw [write_byte 0 hoff, hbytes]

theorem endWord_behind (hoff : wordsSize done + word.length < size) (hne : word ≠ []) :
    (behind num size done word).endWord = some (behind num size (done ++ [word]) []) := by
  rw [behind_of_ne hne, behind_nil, offsets_concat, Nat.zero_add, wordsSize_append,
    wordsSize_singleton, List.length_append, List.length_singleton, List.map_append]
  simp only [endWord, if_true, write_nul hoff, Option.bind_eq_bind, Option.bind_some,
    Nat.add_assoc]
  rfl

theorem endWord_behind_nil :
    (behind num size done []).endWord = some (behind num size done []) := by
  rw [behind_nil]
  rfl

/-- At the end the memory is full and has the list of all words. -/
theorem finish_behind (hpos : (done ++ commandWords word []).length = num)
    (hsize : wordsSize (done ++ commandWords word []) = size) :
    (behind num size done word).finish num =
      .ok (.ofWords (done ++ commandWords word [])) := by
  have hfull : ∀ words : List Str, words.length = num → wordsSize words = size →
      filled size (wordsBytes words) = (wordsBytes words).map some ∧
        write (filled (num + 1) ((offsets 0 words).map some)) words.length (some none) =
          some (((offsets 0 words).map some ++ [none]).map some) := by
    rintro words rfl rfl
    refine ⟨filled_full (length_wordsBytes words), ?_⟩
    rw [write_entry none Nat.le.refl, filled_full]
    rw [List.length_append, List.length_map, length_offsets, List.length_singleton]
  by_cases h : word = []
  · subst h
    rw [commandWords_nil, List.append_nil] at hpos hsize ⊢
    obtain ⟨hbytes, hlist⟩ := hfull done hpos hsize
    rw [behind_nil]
    simp only [finish, Bool.false_eq_true, if_false, hlist, hbytes]
    rw [← hpos]
    rfl
  · rw [commandWords_of_ne h, commandWords_nil] at hpos hsize ⊢
    obtain ⟨hbytes, hlist⟩ := hfull (done ++ [word]) hpos hsize
    have hoff : wordsSize done + word.length < size := by
      rw [wordsSize_append, wordsSize_singleton] at hsize
      omega
    have hentries : (offsets 0 done).map some ++ [some (wordsSize done)] =
        (offsets 0 (done ++ [word])).map some := by
      rw [offsets_concat, Nat.zero_add, List.map_append]
      rfl
    have hnext : done.length + 1 = (done ++ [word]).length := by
      rw [List.length_append, List.length_singleton]
    rw [behind_of_ne h, hentries, hnext]
    simp only [finish, if_true, write_nul hoff, hlist, hbytes]
    rw [← hpos]
    rfl

end Layout

/-- Into memory of the right size the second pass writes the list of all words. -/
theorem layout_spec (bytes : List (Option UInt8)) (done : List Str) (word : Str) {num size : ℕ}
    (hnum : (done ++ commandWords (word ++ (segments bytes).1) (segments bytes).2).length = num)
    (hsize : wordsSize (done ++ commandWords (word ++ (segments bytes).1) (segments bytes).2) =
      size)
    (hrange : num + 1 < 2 ^ 32) :
    ∃ w, emitAll Layout.emit (.behind num size done word) bytes = some w ∧
      w.finish num =
        .ok (.ofWords (done ++ commandWords (word ++ (segments bytes).1) (segments bytes).2)) := by
  induction bytes generalizing done word with
  | nil =>
    rw [segments, List.append_nil] at hnum hsize ⊢
    exact ⟨_, rfl, Layout.finish_behind hnum hsize⟩
  | cons b bytes ih =>
    cases b with
    | none =>
      have hfirst : word ++ (segments (none :: bytes)).1 = word := List.append_nil word
      have hothers : (segments (none :: bytes)).2 =
          (segments bytes).1 :: (segments bytes).2 := rfl
      rw [hfirst, hothers, commandWords_cons, ← List.append_assoc] at hnum hsize ⊢
      by_cases h : word = []
      · subst h
        rw [commandWords_nil, List.append_nil] at hnum hsize ⊢
        obtain ⟨w, hw, hfinish⟩ := ih done [] hnum hsize
        refine ⟨w, ?_, hfinish⟩
        rw [emitAll, List.foldlM_cons, Layout.emit, Layout.endWord_behind_nil]
        exact hw
      · rw [commandWords_of_ne h, commandWords_nil] at hnum hsize ⊢
        obtain ⟨w, hw, hfinish⟩ := ih (done ++ [word]) [] hnum hsize
        have hoff : wordsSize done + word.length < size := by
          rw [wordsSize_append, wordsSize_append, wordsSize_singleton] at hsize
          omega
        refine ⟨w, ?_, hfinish⟩
        rw [emitAll, List.foldlM_cons, Layout.emit, Layout.endWord_behind hoff h]
        exact hw
    | some c =>
      have hfirst : word ++ (segments (some c :: bytes)).1 =
          (word ++ [c]) ++ (segments bytes).1 := by
        rw [List.append_assoc]
        rfl
      have hothers : (segments (some c :: bytes)).2 = (segments bytes).2 := rfl
      have hne : word ++ [c] ++ (segments bytes).1 ≠ [] := by simp
      rw [hfirst, hothers] at hnum hsize ⊢
      obtain ⟨w, hw, hfinish⟩ := ih done (word ++ [c]) hnum hsize
      refine ⟨w, ?_, hfinish⟩
      have hoff : wordsSize done + word.length < size := by
        rw [wordsSize_append, commandWords_of_ne hne] at hsize
        simp only [wordsSize, List.map_cons, List.sum_cons, List.length_append,
          List.length_singleton] at hsize ⊢
        omega
      have hpos : done.length ≤ num := by
        rw [List.length_append] at hnum
        omega
      rw [emitAll, List.foldlM_cons, Layout.emit, Layout.put_behind c hoff hpos hrange]
      exact hw

/-! ## What every run keeps -/

/-- A pass keeps what each of its actions keeps. -/
theorem scanRound_holds {τ : Type} {emit : Option UInt8 → τ → Option τ}
    {trail : Pass τ → Round (Pass τ) Fault} (inv : τ → Prop)
    (hemit : ∀ b own own', inv own → emit b own = some own' → inv own')
    (htrail : ∀ s, inv s.own → (trail s).Holds fun s => inv s.own) (arg : List UInt8) (s : Pass τ)
    (h : inv s.own) : (scanRound emit trail arg s).Holds fun s => inv s.own := by
  have hemits : ∀ (s : Pass τ) (b : Option UInt8), inv s.own →
      (s.emits emit b).Holds fun s => inv s.own := by
    intro s b h
    unfold Pass.emits
    cases hb : emit b s.own with
    | none => trivial
    | some own => exact hemit b s.own own h hb
  obtain ⟨i, quote, own⟩ := s
  unfold scanRound
  cases arg[i]? with
  | none => trivial
  | some c =>
    cases quote with
    | unquoted =>
      dsimp only
      split_ifs
      · exact h
      · exact hemits _ none h
      · exact h
      · exact h
      · split
        · trivial
        · split_ifs
          · exact htrail _ h
          · exact hemits _ _ h
      · exact hemits _ _ h
    | doubleQuoted =>
      dsimp only
      split_ifs
      · exact h
      · exact h
      · split
        · trivial
        · split_ifs
          · exact hemits _ _ h
          · exact hemits _ _ h
      · exact hemits _ _ h
    | singleQuoted =>
      dsimp only
      split_ifs
      · exact h
      · exact h
      · exact hemits _ _ h

theorem Tally.close_size_lt {t : Tally} (h : t.size < 2 ^ 32) : t.close.size < 2 ^ 32 := by
  unfold close
  split_ifs
  · exact u32_lt _
  · exact h

theorem countRound_holds (arg : List UInt8) (s : Pass Tally) (h : s.own.size < 2 ^ 32) :
    (countRound arg s).Holds fun s => s.own.size < 2 ^ 32 := by
  rw [countRound_eq]
  have htrail : ∀ s : Pass Tally, s.own.size < 2 ^ 32 →
      (Round.fail .invalid : Round (Pass Tally) Fault).Holds fun s => s.own.size < 2 ^ 32 :=
    fun _ _ => trivial
  refine scanRound_holds (fun t => t.size < 2 ^ 32) ?_ htrail arg s h
  intro b t t' ht hcount
  obtain rfl := Option.some.inj hcount
  cases b with
  | none => exact Tally.close_size_lt ht
  | some c => exact ht

theorem length_write {α : Type} {mem mem' : List α} {k : ℕ} {a : α}
    (h : write mem k a = some mem') : mem'.length = mem.length := by
  unfold write at h
  split_ifs at h
  obtain rfl := Option.some.inj h
  exact List.length_set

/-- The memory keeps its size. -/
theorem Layout.length_emit {b : Option UInt8} {w w' : Layout} (h : Layout.emit b w = some w') :
    w'.bytes.length = w.bytes.length := by
  cases b with
  | none =>
    change w.endWord = some w' at h
    unfold endWord at h
    split_ifs at h
    · obtain ⟨bytes, hbytes, hw'⟩ := Option.bind_eq_some_iff.mp h
      obtain rfl := Option.some.inj hw'
      exact length_write hbytes
    · obtain rfl := Option.some.inj h
      rfl
  | some c =>
    change w.put c = some w' at h
    unfold put at h
    obtain ⟨bytes, hbytes, hrest⟩ := Option.bind_eq_some_iff.mp h
    split_ifs at hrest
    · obtain rfl := Option.some.inj hrest
      exact length_write hbytes
    · obtain ⟨list, -, hw'⟩ := Option.bind_eq_some_iff.mp hrest
      obtain rfl := Option.some.inj hw'
      exact length_write hbytes

theorem writeRound_holds (size : ℕ) (arg : List UInt8) (s : Pass Layout)
    (h : s.own.bytes.length = size) :
    (writeRound arg s).Holds fun s => s.own.bytes.length = size := by
  have hemit : ∀ b w w', w.bytes.length = size → Layout.emit b w = some w' →
      w'.bytes.length = size := by
    intro b w w' hw hemit
    rw [Layout.length_emit hemit, hw]
  rw [writeRound_eq]
  refine scanRound_holds (fun w => w.bytes.length = size) hemit ?_ arg s h
  intro s hs
  unfold Pass.emits
  cases hput : Layout.emit (some 0) s.advance.own with
  | none => trivial
  | some w => exact hemit _ _ _ hs hput

theorem Layout.length_finish {num : ℕ} {w : Layout} {list : CommandList}
    (h : w.finish num = .ok list) : list.bytes.length = w.bytes.length := by
  unfold finish at h
  split at h
  · rename_i bytes entries hbytes hentries
    obtain rfl := Except.ok.inj h
    split_ifs at hbytes
    · exact length_write hbytes
    · obtain rfl := Option.some.inj hbytes
      rfl
  · cases h

/-- Nothing of 4 GiB is ever written. -/
theorem length_splitCommand {arg : CString.Str} {fuel : ℕ} {list : CommandList}
    (h : splitCommand arg fuel = some (.ok list)) : list.bytes.length < 2 ^ 32 := by
  unfold splitCommand at h
  have hcount := rounds_holds _ (countRound_holds arg.terminated) fuel
    (s := ⟨0, .unquoted, 0, 0, 0⟩) (by decide)
  cases hfirst : rounds (countRound arg.terminated) fuel ⟨0, .unquoted, 0, 0, 0⟩ with
  | next s =>
    rw [hfirst] at h
    cases h
  | fail e =>
    rw [hfirst] at h
    cases h
  | stop s =>
    rw [hfirst] at h hcount
    dsimp only at h
    split_ifs at h
    · cases h
    have hsize : s.own.close.size < 2 ^ 32 := Tally.close_size_lt hcount
    have hwrite := rounds_holds _ (writeRound_holds s.own.close.size arg.terminated) fuel
      (s := ⟨0, s.quote, 0, 0, false, List.replicate (u32 (s.own.close.num + 1)) none,
        List.replicate s.own.close.size none⟩) List.length_replicate
    cases hsecond : rounds (writeRound arg.terminated) fuel
        ⟨0, s.quote, 0, 0, false, List.replicate (u32 (s.own.close.num + 1)) none,
          List.replicate s.own.close.size none⟩ with
    | next w =>
      rw [hsecond] at h
      cases h
    | fail e =>
      rw [hsecond] at h
      cases h
    | stop w =>
      rw [hsecond] at h hwrite
      have hfinish : w.own.finish s.own.close.num = .ok list := Option.some.inj h
      rw [Layout.length_finish hfinish, hwrite]
      exact hsize

/-- A string of at least 4 GiB is read forever. -/
theorem splitCommand_eq_none {arg : CString.Str} (hlength : 2 ^ 32 ≤ arg.bytes.length)
    (fuel : ℕ) : splitCommand arg fuel = none := by
  have hbyte : ∀ i < 2 ^ 32, ∃ c, arg.terminated[i]? = some c ∧ c ≠ 0 := by
    intro i hi
    have hlt : i < arg.bytes.length := Nat.lt_of_lt_of_le hi hlength
    refine ⟨arg.bytes[i], ?_, ?_⟩
    · rw [CString.Str.terminated, List.getElem?_append_left hlt, List.getElem?_eq_getElem hlt]
    · intro hc
      exact arg.noNul (hc ▸ List.getElem_mem hlt)
  have hstep : ∀ s : Pass Tally, s.i < 2 ^ 32 →
      ∃ s', countRound arg.terminated s = .next s' ∧ s'.i < 2 ^ 32 := by
    intro s hs
    obtain ⟨c, hget, hc⟩ := hbyte s.i hs
    obtain ⟨d, hahead, hd⟩ := hbyte (u32 (s.i + 1)) (u32_lt _)
    have hemits : ∀ (s : Pass Tally) (b : Option UInt8),
        ∃ s', s.emits Tally.count b = .next s' ∧ s'.i < 2 ^ 32 :=
      fun s b => ⟨_, rfl, u32_lt _⟩
    have hturn : ∀ s : Pass Tally, ∃ s', (.next s.advance : Round (Pass Tally) Fault) = .next s' ∧
        s'.i < 2 ^ 32 :=
      fun s => ⟨_, rfl, u32_lt _⟩
    rw [countRound_eq]
    obtain ⟨i, quote, t⟩ := s
    cases quote with
    | unquoted =>
      simp only [scanRound, hget, if_neg hc, Pass.ahead, hahead, if_neg hd]
      split_ifs
      · exact hemits _ _
      · exact hturn _
      · exact hturn _
      · exact hemits _ _
      · exact hemits _ _
    | doubleQuoted =>
      simp only [scanRound, hget, if_neg hc, Pass.ahead, hahead]
      split_ifs
      · exact hturn _
      · exact hemits _ _
      · exact hemits _ _
      · exact hemits _ _
    | singleQuoted =>
      simp only [scanRound, hget, if_neg hc]
      split_ifs
      · exact hturn _
      · exact hemits _ _
  obtain ⟨s', hs', -⟩ := rounds_running (fun s : Pass Tally => s.i < 2 ^ 32) hstep fuel
    (s := ⟨0, .unquoted, 0, 0, 0⟩) (by decide)
  rw [splitCommand, hs']

/-! ## The function -/

/-- The counters are large enough for this string. -/
def CountersFit (arg : CString.Str) : Prop :=
  arg.bytes.length < 2 ^ 32 ∧
    ∀ first others, Reads arg.bytes first others →
      wordsSize (commandWords first others) < 2 ^ 32

/-- A string that is read as some words gives the list of them, filled exactly, and one that
is unbalanced is refused. -/
def SplitsByRules (arg : CString.Str) : Prop :=
  (∀ first others, Reads arg.bytes first others →
    ∃ fuel, splitCommand arg fuel = some (.ok (.ofWords (commandWords first others)))) ∧
  (Unbalanced arg.bytes → ∃ fuel, splitCommand arg fuel = some (.error .invalid))

/-- A word that is found has at least one byte, and its NUL. -/
theorem two_mul_length_le (first : Str) (others : List Str) :
    2 * (commandWords first others).length ≤ wordsSize (commandWords first others) := by
  have hne : ∀ word ∈ commandWords first others, word ≠ [] := by
    intro word hword
    simpa using (List.mem_filter.mp hword).2
  revert hne
  generalize commandWords first others = words
  intro hne
  induction words with
  | nil => exact Nat.le.refl
  | cons word words ih =>
    have hword := List.length_pos_of_ne_nil (hne word List.mem_cons_self)
    have hwords := ih fun w hw => hne w (List.mem_cons_of_mem word hw)
    change 2 * (words.length + 1) ≤ word.length + 1 + wordsSize words
    omega

/-- With counters that are large enough the words are written. -/
theorem splitCommand_of_reads {arg : CString.Str} (h : CountersFit arg) {first : Str}
    {others : List Str} (hread : Reads arg.bytes first others) :
    ∃ fuel, splitCommand arg fuel = some (.ok (.ofWords (commandWords first others))) := by
  obtain ⟨hlength, hsizes⟩ := h
  have hsize := hsizes first others hread
  have htwo := two_mul_length_le first others
  obtain ⟨bytes, hunquote, hsegments⟩ := hread.unquote
  -- the first pass counts
  have hcount := @tally_spec bytes [] 0 0 Nat.le.refl
  rw [hsegments, List.nil_append, Nat.zero_add, Nat.zero_add] at hcount
  obtain ⟨t, ht, hclose⟩ := hcount hsize
  have hfirst := @ends_of_some _ Tally.count (fun _ => .fail .invalid) arg hlength _ _ _ hunquote
    0 List.drop_zero (Nat.zero_le _) ⟨0, 0, 0⟩
  rw [show emitAll Tally.count ⟨0, 0, 0⟩ bytes = some t from ht,
    ← funext (countRound_eq arg.terminated)] at hfirst
  -- the second one writes
  have hwrite := @layout_spec bytes [] [] (commandWords first others).length
    (wordsSize (commandWords first others))
  rw [hsegments, List.nil_append, List.nil_append] at hwrite
  obtain ⟨w, hw, hfinish⟩ := hwrite rfl rfl (by omega)
  have hsecond := @ends_of_some _ Layout.emit (fun s => s.advance.emits Layout.emit (some 0)) arg
    hlength _ _ _ hunquote 0 List.drop_zero (Nat.zero_le _)
    (.behind (commandWords first others).length (wordsSize (commandWords first others)) [] [])
  rw [hw, ← funext (writeRound_eq arg.terminated)] at hsecond
  obtain ⟨n, hn⟩ := hfirst.eventually
  obtain ⟨m, hm⟩ := hsecond.eventually
  refine ⟨max n m, ?_⟩
  have hstart : Layout.behind (commandWords first others).length
      (wordsSize (commandWords first others)) [] [] =
      ⟨0, 0, false, List.replicate (u32 ((commandWords first others).length + 1)) none,
        List.replicate (wordsSize (commandWords first others)) none⟩ := by
    rw [u32_of_lt (by omega)]
    rfl
  have hcounted := hn (max n m) (Nat.le_max_left n m)
  have hwritten := hm (max n m) (Nat.le_max_right n m)
  rw [hstart] at hwritten
  simp only [splitCommand, hcounted, Pass.atEnd, ne_eq, not_true_eq_false, if_false, hclose,
    hwritten, hfinish]

theorem splitCommand_of_unbalanced {arg : CString.Str} (hlength : arg.bytes.length < 2 ^ 32)
    (h : Unbalanced arg.bytes) : ∃ fuel, splitCommand arg fuel = some (.error .invalid) := by
  obtain ⟨result, hends, hresult⟩ := @refuses_of_none arg hlength _ _ h.unquote 0 List.drop_zero
    (Nat.zero_le _) ⟨0, 0, 0⟩
  obtain ⟨n, hn⟩ := hends.eventually
  refine ⟨n, ?_⟩
  have hcounted := hn n Nat.le.refl
  rcases hresult with rfl | ⟨s, rfl, hquote⟩
  · simp only [splitCommand, hcounted]
  · simp only [splitCommand, hcounted, hquote, ne_eq, not_false_eq_true, if_true]

/-- The function splits a string by the rules if and only if its counters are large enough. -/
theorem splitsByRules_iff (arg : CString.Str) : SplitsByRules arg ↔ CountersFit arg := by
  constructor
  · rintro ⟨hread, hopen⟩
    constructor
    · by_contra hlong
      have hnone := @splitCommand_eq_none arg (by omega)
      rcases reads_or_unbalanced arg.bytes with ⟨first, others, h⟩ | h
      · obtain ⟨fuel, hfuel⟩ := hread first others h
        rw [hnone] at hfuel
        cases hfuel
      · obtain ⟨fuel, hfuel⟩ := hopen h
        rw [hnone] at hfuel
        cases hfuel
    · intro first others h
      obtain ⟨fuel, hfuel⟩ := hread first others h
      have hlength := length_splitCommand hfuel
      rwa [CommandList.ofWords, List.length_map, length_wordsBytes] at hlength
  · intro h
    exact ⟨fun first others hread => splitCommand_of_reads h hread,
      splitCommand_of_unbalanced h.1⟩

/-! ## Strings that are not too long -/

theorem DoubleQuoted.length_le {text value : Str} (h : DoubleQuoted text value) :
    value.length ≤ text.length := by
  induction h with
  | nil => exact Nat.le.refl
  | plain _ _ _ ih => exact Nat.succ_le_succ ih
  | escape _ _ ih => exact (Nat.succ_le_succ ih).trans (Nat.le_succ _)
  | keep _ _ _ ih => exact Nat.succ_le_succ (Nat.succ_le_succ ih)

theorem Piece.length_le {piece value : Str} (h : Piece piece value) :
    value.length ≤ piece.length := by
  cases h with
  | plain => exact Nat.le.refl
  | escape => exact Nat.le_succ 1
  | single =>
    simp only [List.length_cons, List.length_append]
    omega
  | double h =>
    have := h.length_le
    simp only [List.length_cons, List.length_append]
    omega

/-- The words with their NULs take one byte more than the string at most. -/
theorem Reads.wordsSize_le {text first : Str} {others : List Str} (h : Reads text first others) :
    wordsSize (first :: others) ≤ text.length + 1 := by
  induction h with
  | done => exact Nat.le.refl
  | @blank c text first others _ _ ih =>
    change 1 + wordsSize (first :: others) ≤ text.length + 1 + 1
    omega
  | @piece piece value text first others hpiece _ ih =>
    have hle := hpiece.length_le
    have hcons (word : Str) : wordsSize (word :: others) = word.length + 1 + wordsSize others := rfl
    rw [hcons, List.length_append] at *
    rw [List.length_append]
    omega

/-- Below `2 ^ 32 - 1` bytes `shlSplitCommandString` is what the function gives. -/
theorem splitCommand_of_length {arg : CString.Str} (hlength : arg.bytes.length < 2 ^ 32 - 1) :
    ∃ fuel, splitCommand arg fuel = some (match shlSplitCommandString arg.bytes with
      | some words => .ok (.ofWords words)
      | none => .error .invalid) := by
  have hfit : CountersFit arg := by
    refine ⟨by omega, fun first others hread => ?_⟩
    have hsize := hread.wordsSize_le
    have hle := wordsSize_filter_le (· ≠ []) (first :: others)
    unfold commandWords
    omega
  cases hsplit : shlSplitCommandString arg.bytes with
  | none => exact splitCommand_of_unbalanced hfit.1 (shlSplitCommandString_eq_none_iff.mp hsplit)
  | some words =>
    obtain ⟨first, others, hread, rfl⟩ := shlSplitCommandString_eq_some_iff.mp hsplit
    exact splitCommand_of_reads hfit hread

/-- A string of one letter, over and over. -/
def letters (n : ℕ) : CString.Str :=
  ⟨List.replicate n 0x61, fun h => absurd (List.eq_of_mem_replicate h) (by decide)⟩

theorem reads_letters (n : ℕ) : Reads (letters n).bytes (letters n).bytes [] := by
  induction n with
  | zero => exact .done
  | succ n ih => exact .piece (.plain (by decide) (by decide) (by decide) (by decide)) ih

/-- The size of a word of `2 ^ 32 - 1` letters with its NUL wraps to 0. -/
theorem letters_not_splitsByRules : ¬ SplitsByRules (letters (2 ^ 32 - 1)) := by
  have hlong : ∀ n, 2 ^ 32 ≤ n + 1 → ¬ SplitsByRules (letters n) := by
    rintro n hn ⟨hread, -⟩
    obtain ⟨fuel, hfuel⟩ := hread _ _ (reads_letters n)
    have hlength := length_splitCommand hfuel
    have hne : (letters n).bytes ≠ [] := by
      intro hnil
      have hzero := congrArg List.length hnil
      rw [letters, List.length_replicate, List.length_nil] at hzero
      omega
    rw [CommandList.ofWords, List.length_map, length_wordsBytes, commandWords_of_ne hne,
      commandWords_nil, wordsSize_singleton, letters, List.length_replicate] at hlength
    omega
  exact hlong (2 ^ 32 - 1) (by decide)

end Faceplate.Conf
