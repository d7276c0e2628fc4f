import Mathlib.Data.List.Basic
import Faceplate.Conf.Types

/-!
# Quoting rules of commands

A command is read as words between blanks. A word is put together from pieces: plain bytes,
bytes behind a backslash, and quoted parts; between single quotes everything stands for
itself, between double quotes a backslash only escapes a double quote and a backslash.
This file has these rules as a grammar, and as one pass that looks one byte ahead, and
proves that both say the same.
-/

namespace Faceplate.Conf

open CString

/-! ## The grammar -/

/-- A blank between words. -/
def Separates (c : UInt8) : Prop := c = 0x20 ∨ c = 0x09

instance (c : UInt8) : Decidable (Separates c) := inferInstanceAs (Decidable (_ ∨ _))

/-- What stands between double quotes, and its value. -/
inductive DoubleQuoted : Str → Str → Prop
  | nil : DoubleQuoted [] []
  | plain {c : UInt8} {text value : Str} : c ≠ 0x22 → c ≠ 0x5c → DoubleQuoted text value →
      DoubleQuoted (c :: text) (c :: value)
  | escape {c : UInt8} {text value : Str} : c = 0x22 ∨ c = 0x5c → DoubleQuoted text value →
      DoubleQuoted (0x5c :: c :: text) (c :: value)
  | keep {c : UInt8} {text value : Str} : c ≠ 0x22 → c ≠ 0x5c → DoubleQuoted text value →
      DoubleQuoted (0x5c :: c :: text) (0x5c :: c :: value)

/-- A piece of a word, and its value. -/
inductive Piece : Str → Str → Prop
  | plain {c : UInt8} : ¬ Separates c → c ≠ 0x22 → c ≠ 0x27 → c ≠ 0x5c → Piece [c] [c]
  | escape (c : UInt8) : Piece [0x5c, c] [c]
  | single {text : Str} : 0x27 ∉ text → Piece (0x27 :: (text ++ [0x27])) text
  | double {text value : Str} : DoubleQuoted text value → Piece (0x22 :: (text ++ [0x22])) value

/-- A text is read as a first word and others behind blanks, any of which may be empty. -/
inductive Reads : Str → Str → List Str → Prop
  | done : Reads [] [] []
  | blank {c : UInt8} {text first : Str} {others : List Str} : Separates c →
      Reads text first others → Reads (c :: text) [] (first :: others)
  | piece {piece value text first : Str} {others : List Str} : Piece piece value →
      Reads text first others → Reads (piece ++ text) (value ++ first) others

/-- The words of a command are those that are not empty. -/
def commandWords (first : Str) (others : List Str) : List Str :=
  (first :: others).filter (· ≠ [])

/-- What is still open at its end: a backslash, or a quote. -/
inductive StaysOpen : Str → Prop
  | backslash : StaysOpen [0x5c]
  | single {text : Str} : 0x27 ∉ text → StaysOpen (0x27 :: text)
  | double {text value : Str} : DoubleQuoted text value → StaysOpen (0x22 :: text)
  | doubleBackslash {text value : Str} : DoubleQuoted text value →
      StaysOpen (0x22 :: (text ++ [0x5c]))

/-- A text with an open quote or a trailing backslash. -/
def Unbalanced (text : Str) : Prop :=
  ∃ front first others rest, Reads front first others ∧ StaysOpen rest ∧ text = front ++ rest

/-! ## One pass -/

/-- The bytes of the words, with nothing for a blank between them. -/
def unquote : QuoteStatus → Str → Option (List (Option UInt8))
  | .unquoted, [] => some []
  | .doubleQuoted, [] => none
  | .singleQuoted, [] => none
  | .unquoted, c :: text =>
    if Separates c then (unquote .unquoted text).map (none :: ·)
    else if c = 0x22 then unquote .doubleQuoted text
    else if c = 0x27 then unquote .singleQuoted text
    else if c = 0x5c then
      match text with
      | [] => none
      | d :: text => (unquote .unquoted text).map (some d :: ·)
    else (unquote .unquoted text).map (some c :: ·)
  | .doubleQuoted, c :: text =>
    if c = 0x22 then unquote .unquoted text
    else if c = 0x5c then
      match text with
      | [] => none
      | d :: rest =>
        if d = 0x22 ∨ d = 0x5c then (unquote .doubleQuoted rest).map (some d :: ·)
        else (unquote .doubleQuoted (d :: rest)).map (some 0x5c :: ·)
    else (unquote .doubleQuoted text).map (some c :: ·)
  | .singleQuoted, c :: text =>
    if c = 0x27 then unquote .unquoted text
    else (unquote .singleQuoted text).map (some c :: ·)

/-- The words between blanks. -/
def segments : List (Option UInt8) → Str × List Str
  | [] => ([], [])
  | none :: bytes => ([], (segments bytes).1 :: (segments bytes).2)
  | some c :: bytes => (c :: (segments bytes).1, (segments bytes).2)

/-! ## What is read is what the pass finds -/

/-- One byte outside of quotes. -/
theorem unquote_unquoted (c : UInt8) (text : Str) : unquote .unquoted (c :: text) =
    if Separates c then (unquote .unquoted text).map (none :: ·)
    else if c = 0x22 then unquote .doubleQuoted text
    else if c = 0x27 then unquote .singleQuoted text
    else if c = 0x5c then
      match text with
      | [] => none
      | d :: text => (unquote .unquoted text).map (some d :: ·)
    else (unquote .unquoted text).map (some c :: ·) := by
  rw [unquote.eq_def]
  rfl

/-- One byte between double quotes. -/
theorem unquote_doubleQuoted (c : UInt8) (text : Str) : unquote .doubleQuoted (c :: text) =
    if c = 0x22 then unquote .unquoted text
    else if c = 0x5c then
      match text with
      | [] => none
      | d :: rest =>
        if d = 0x22 ∨ d = 0x5c then (unquote .doubleQuoted rest).map (some d :: ·)
        else (unquote .doubleQuoted (d :: rest)).map (some 0x5c :: ·)
    else (unquote .doubleQuoted text).map (some c :: ·) := by
  rw [unquote.eq_def]
  rfl

/-- One byte between single quotes. -/
theorem unquote_singleQuoted (c : UInt8) (text : Str) : unquote .singleQuoted (c :: text) =
    if c = 0x27 then unquote .unquoted text
    else (unquote .singleQuoted text).map (some c :: ·) := by
  rw [unquote.eq_def]

theorem unquote_plain {c : UInt8} (text : Str) (hblank : ¬ Separates c) (hquote : c ≠ 0x22)
    (hapos : c ≠ 0x27) (hslash : c ≠ 0x5c) :
    unquote .unquoted (c :: text) = (unquote .unquoted text).map (some c :: ·) := by
  rw [unquote_unquoted, if_neg hblank, if_neg hquote, if_neg hapos, if_neg hslash]

theorem unquote_blank {c : UInt8} (text : Str) (hblank : Separates c) :
    unquote .unquoted (c :: text) = (unquote .unquoted text).map (none :: ·) := by
  rw [unquote_unquoted, if_pos hblank]

theorem unquote_escape (c : UInt8) (text : Str) :
    unquote .unquoted (0x5c :: c :: text) = (unquote .unquoted text).map (some c :: ·) := by
  rw [unquote_unquoted]
  rfl

theorem unquote_backslash : unquote .unquoted [0x5c] = none := by
  rw [unquote_unquoted]
  rfl

theorem unquote_openDouble (text : Str) :
    unquote .unquoted (0x22 :: text) = unquote .doubleQuoted text := by
  rw [unquote_unquoted]
  rfl

theorem unquote_openSingle (text : Str) :
    unquote .unquoted (0x27 :: text) = unquote .singleQuoted text := by
  rw [unquote_unquoted]
  rfl

theorem unquote_closeDouble (text : Str) :
    unquote .doubleQuoted (0x22 :: text) = unquote .unquoted text := by
  rw [unquote_doubleQuoted, if_pos rfl]

theorem unquote_closeSingle (text : Str) :
    unquote .singleQuoted (0x27 :: text) = unquote .unquoted text := by
  rw [unquote_singleQuoted, if_pos rfl]

theorem unquote_inSingle {c : UInt8} (text : Str) (hapos : c ≠ 0x27) :
    unquote .singleQuoted (c :: text) = (unquote .singleQuoted text).map (some c :: ·) := by
  rw [unquote_singleQuoted, if_neg hapos]

theorem unquote_inDouble {c : UInt8} (text : Str) (hquote : c ≠ 0x22) (hslash : c ≠ 0x5c) :
    unquote .doubleQuoted (c :: text) = (unquote .doubleQuoted text).map (some c :: ·) := by
  rw [unquote_doubleQuoted, if_neg hquote, if_neg hslash]

theorem unquote_doubleEscape {c : UInt8} (text : Str) (hc : c = 0x22 ∨ c = 0x5c) :
    unquote .doubleQuoted (0x5c :: c :: text) =
      (unquote .doubleQuoted text).map (some c :: ·) := by
  rw [unquote_doubleQuoted]
  exact if_pos hc

theorem unquote_doubleKeep {c : UInt8} (text : Str) (hc : ¬ (c = 0x22 ∨ c = 0x5c)) :
    unquote .doubleQuoted (0x5c :: c :: text) =
      (unquote .doubleQuoted (c :: text)).map (some 0x5c :: ·) := by
  rw [unquote_doubleQuoted]
  exact if_neg hc

theorem unquote_doubleBackslash : unquote .doubleQuoted [0x5c] = none := by
  rw [unquote_doubleQuoted]
  rfl

/-- Some bytes of a word in front. -/
theorem segments_append (value : Str) (bytes : List (Option UInt8)) :
    segments (value.map some ++ bytes) = (value ++ (segments bytes).1, (segments bytes).2) := by
  induction value with
  | nil => rfl
  | cons c value ih =>
    rw [List.map_cons, List.cons_append, segments, ih]
    rfl

/-- The text up to a single quote stands for itself. -/
theorem unquote_single {text : Str} (htext : 0x27 ∉ text) (rest : Str) :
    unquote .singleQuoted (text ++ 0x27 :: rest) =
      (unquote .unquoted rest).map (text.map some ++ ·) := by
  induction text with
  | nil =>
    rw [List.nil_append, unquote_closeSingle]
    exact Option.map_id'.symm
  | cons c text ih =>
    simp only [List.mem_cons, not_or] at htext
    rw [List.cons_append, unquote_inSingle _ (Ne.symm htext.1), ih htext.2, Option.map_map]
    rfl

/-- The text up to a double quote has its value. -/
theorem unquote_double {text value : Str} (h : DoubleQuoted text value) (rest : Str) :
    unquote .doubleQuoted (text ++ 0x22 :: rest) =
      (unquote .unquoted rest).map (value.map some ++ ·) := by
  induction h with
  | nil =>
    rw [List.nil_append, unquote_closeDouble]
    exact Option.map_id'.symm
  | plain hquote hslash h ih =>
    rw [List.cons_append, unquote_inDouble _ hquote hslash, ih, Option.map_map]
    rfl
  | escape hc h ih =>
    rw [List.cons_append, List.cons_append, unquote_doubleEscape _ hc, ih, Option.map_map]
    rfl
  | keep hquote hslash h ih =>
    rw [List.cons_append, List.cons_append, unquote_doubleKeep _ (not_or.mpr ⟨hquote, hslash⟩),
      unquote_inDouble _ hquote hslash, ih, Option.map_map, Option.map_map]
    rfl

/-- A piece in front gives its value. -/
theorem unquote_piece {piece value : Str} (h : Piece piece value) (rest : Str) :
    unquote .unquoted (piece ++ rest) =
      (unquote .unquoted rest).map (value.map some ++ ·) := by
  cases h with
  | plain hblank hquote hapos hslash => exact unquote_plain rest hblank hquote hapos hslash
  | escape c => exact unquote_escape c rest
  | single htext =>
    rw [List.cons_append, List.append_assoc, unquote_openSingle]
    exact unquote_single htext rest
  | double htext =>
    rw [List.cons_append, List.append_assoc, unquote_openDouble]
    exact unquote_double htext rest

/-- What is read in front is found, whatever follows. -/
theorem Reads.unquote_append {text first : Str} {others : List Str} (h : Reads text first others) :
    ∃ bytes, segments bytes = (first, others) ∧
      ∀ rest, unquote .unquoted (text ++ rest) = (unquote .unquoted rest).map (bytes ++ ·) := by
  induction h with
  | done => exact ⟨[], rfl, fun rest => Option.map_id'.symm⟩
  | blank hc h ih =>
    obtain ⟨bytes, hsegments, hrest⟩ := ih
    refine ⟨none :: bytes, ?_, fun rest => ?_⟩
    · rw [segments, hsegments]
    · rw [List.cons_append, unquote_blank _ hc, hrest, Option.map_map]
      rfl
  | @piece piece value text first others hpiece h ih =>
    obtain ⟨bytes, hsegments, hrest⟩ := ih
    refine ⟨value.map some ++ bytes, ?_, fun rest => ?_⟩
    · rw [segments_append, hsegments]
    · rw [List.append_assoc, unquote_piece hpiece, hrest, Option.map_map]
      congr 1
      funext more
      exact (List.append_assoc _ _ _).symm

theorem Reads.unquote {text first : Str} {others : List Str} (h : Reads text first others) :
    ∃ bytes, Conf.unquote .unquoted text = some bytes ∧ segments bytes = (first, others) := by
  obtain ⟨bytes, hsegments, hrest⟩ := h.unquote_append
  refine ⟨bytes, ?_, hsegments⟩
  have hall := hrest []
  rwa [List.append_nil, Conf.unquote, Option.map_some, List.append_nil] at hall

theorem unquote_single_open {text : Str} (htext : 0x27 ∉ text) :
    unquote .singleQuoted text = none := by
  induction text with
  | nil => rw [unquote]
  | cons c text ih =>
    simp only [List.mem_cons, not_or] at htext
    rw [unquote_inSingle _ (Ne.symm htext.1), ih htext.2, Option.map_none]

/-- Behind a text between double quotes nothing is found where nothing is found in what
follows. -/
theorem unquote_double_open {text value rest : Str} (h : DoubleQuoted text value)
    (hrest : unquote .doubleQuoted rest = none) :
    unquote .doubleQuoted (text ++ rest) = none := by
  induction h with
  | nil => exact hrest
  | plain hquote hslash h ih =>
    rw [List.cons_append, unquote_inDouble _ hquote hslash, ih, Option.map_none]
  | escape hc h ih =>
    rw [List.cons_append, List.cons_append, unquote_doubleEscape _ hc, ih, Option.map_none]
  | keep hquote hslash h ih =>
    rw [List.cons_append, List.cons_append, unquote_doubleKeep _ (not_or.mpr ⟨hquote, hslash⟩),
      unquote_inDouble _ hquote hslash, ih, Option.map_none, Option.map_none]

theorem StaysOpen.unquote {text : Str} (h : StaysOpen text) :
    Conf.unquote .unquoted text = none := by
  cases h with
  | backslash => exact unquote_backslash
  | single htext => rw [unquote_openSingle, unquote_single_open htext]
  | @double text value htext =>
    have hnone := @unquote_double_open text value [] htext (by rw [Conf.unquote])
    rw [List.append_nil] at hnone
    rw [unquote_openDouble, hnone]
  | doubleBackslash htext =>
    rw [unquote_openDouble, unquote_double_open htext unquote_doubleBackslash]

theorem Unbalanced.unquote {text : Str} (h : Unbalanced text) :
    Conf.unquote .unquoted text = none := by
  obtain ⟨front, first, others, rest, hfront, hrest, rfl⟩ := h
  obtain ⟨bytes, -, hbytes⟩ := hfront.unquote_append
  rw [hbytes, hrest.unquote, Option.map_none]

/-! ## Every text is read or unbalanced -/

theorem StaysOpen.unbalanced {text : Str} (h : StaysOpen text) : Unbalanced text :=
  ⟨[], [], [], text, .done, h, rfl⟩

theorem Unbalanced.blank {c : UInt8} {text : Str} (hc : Separates c) (h : Unbalanced text) :
    Unbalanced (c :: text) := by
  obtain ⟨front, first, others, rest, hfront, hrest, rfl⟩ := h
  exact ⟨c :: front, [], first :: others, rest, .blank hc hfront, hrest, rfl⟩

theorem Unbalanced.piece {piece value text : Str} (hpiece : Piece piece value)
    (h : Unbalanced text) : Unbalanced (piece ++ text) := by
  obtain ⟨front, first, others, rest, hfront, hrest, rfl⟩ := h
  exact ⟨piece ++ front, value ++ first, others, rest, .piece hpiece hfront, hrest,
    (List.append_assoc _ _ _).symm⟩

/-- Behind a double quote there is another one that closes it, or the text ends, perhaps at
a backslash. -/
theorem doubleQuoted_cases (text : Str) :
    (∃ inner value rest, text = inner ++ 0x22 :: rest ∧ DoubleQuoted inner value) ∨
      (∃ value, DoubleQuoted text value) ∨
      ∃ inner value, text = inner ++ [0x5c] ∧ DoubleQuoted inner value := by
  induction hn : text.length using Nat.strong_induction_on generalizing text with
  | _ n ih =>
    -- a step of the grammar in front of what is left
    have hstep : ∀ (piece value rest : Str), 0 < piece.length →
        (∀ {inner v : Str}, DoubleQuoted inner v → DoubleQuoted (piece ++ inner) (value ++ v)) →
        text = piece ++ rest →
        (∃ inner value rest, text = inner ++ 0x22 :: rest ∧ DoubleQuoted inner value) ∨
          (∃ value, DoubleQuoted text value) ∨
          ∃ inner value, text = inner ++ [0x5c] ∧ DoubleQuoted inner value := by
      rintro piece value rest hlength hpiece rfl
      rw [List.length_append] at hn
      rcases ih rest.length (by omega) rest rfl with
        ⟨inner, v, more, rfl, hinner⟩ | ⟨v, hinner⟩ | ⟨inner, v, rfl, hinner⟩
      · exact Or.inl ⟨piece ++ inner, _, more, (List.append_assoc _ _ _).symm, hpiece hinner⟩
      · exact Or.inr (Or.inl ⟨_, hpiece hinner⟩)
      · exact Or.inr (Or.inr ⟨piece ++ inner, _, (List.append_assoc _ _ _).symm, hpiece hinner⟩)
    cases text with
    | nil => exact Or.inr (Or.inl ⟨[], .nil⟩)
    | cons c text =>
      by_cases hquote : c = 0x22
      · subst hquote
        exact Or.inl ⟨[], [], text, rfl, .nil⟩
      by_cases hslash : c = 0x5c
      · subst hslash
        cases text with
        | nil => exact Or.inr (Or.inr ⟨[], [], rfl, .nil⟩)
        | cons d text =>
          by_cases hd : d = 0x22 ∨ d = 0x5c
          · exact hstep [0x5c, d] [d] text Nat.zero_lt_two (.escape hd) rfl
          · exact hstep [0x5c, d] [0x5c, d] text Nat.zero_lt_two
              (.keep (fun h => hd (Or.inl h)) fun h => hd (Or.inr h)) rfl
      · exact hstep [c] [c] text Nat.zero_lt_one (.plain hquote hslash) rfl

/-- Every text is read, or it is unbalanced. -/
theorem reads_or_unbalanced (text : Str) :
    (∃ first others, Reads text first others) ∨ Unbalanced text := by
  induction hn : text.length using Nat.strong_induction_on generalizing text with
  | _ n ih =>
    have hpiece : ∀ (rest : Str) {piece value : Str}, Piece piece value → 0 < piece.length →
        text = piece ++ rest → (∃ first others, Reads text first others) ∨ Unbalanced text := by
      rintro rest piece value hpiece hlength rfl
      rw [List.length_append] at hn
      rcases ih rest.length (by omega) rest rfl with ⟨first, others, hread⟩ | hopen
      · exact Or.inl ⟨_, _, .piece hpiece hread⟩
      · exact Or.inr (hopen.piece hpiece)
    cases text with
    | nil => exact Or.inl ⟨[], [], .done⟩
    | cons c text =>
      by_cases hblank : Separates c
      · rw [List.length_cons] at hn
        rcases ih text.length (by omega) text rfl with ⟨first, others, hread⟩ | hopen
        · exact Or.inl ⟨_, _, .blank hblank hread⟩
        · exact Or.inr (hopen.blank hblank)
      by_cases hquote : c = 0x22
      · subst hquote
        rcases doubleQuoted_cases text with
          ⟨inner, value, rest, rfl, hinner⟩ | ⟨value, hinner⟩ | ⟨inner, value, rfl, hinner⟩
        · refine hpiece rest (.double hinner) (Nat.zero_lt_succ _) ?_
          rw [List.cons_append, List.append_assoc]
          rfl
        · exact Or.inr (StaysOpen.double hinner).unbalanced
        · exact Or.inr (StaysOpen.doubleBackslash hinner).unbalanced
      by_cases hapos : c = 0x27
      · subst hapos
        by_cases hclosed : 0x27 ∈ text
        · obtain ⟨inner, rest, rfl, hinner⟩ := List.eq_append_cons_of_mem hclosed
          refine hpiece rest (.single hinner) (Nat.zero_lt_succ _) ?_
          rw [List.cons_append, List.append_assoc]
          rfl
        · exact Or.inr (StaysOpen.single hclosed).unbalanced
      by_cases hslash : c = 0x5c
      · subst hslash
        cases text with
        | nil => exact Or.inr StaysOpen.backslash.unbalanced
        | cons d text => exact hpiece text (.escape d) Nat.zero_lt_two rfl
      · exact hpiece text (.plain hblank hquote hapos hslash) Nat.zero_lt_one rfl

/-- The pass finds exactly what is read. -/
theorem unquote_eq_some_iff {text first : Str} {others : List Str} :
    (∃ bytes, unquote .unquoted text = some bytes ∧ segments bytes = (first, others)) ↔
      Reads text first others := by
  constructor
  · rintro ⟨bytes, hbytes, hsegments⟩
    rcases reads_or_unbalanced text with ⟨first', others', hread⟩ | hopen
    · obtain ⟨bytes', hbytes', hsegments'⟩ := hread.unquote
      obtain rfl := Option.some.inj (hbytes.symm.trans hbytes')
      cases hsegments.symm.trans hsegments'
      exact hread
    · rw [hopen.unquote] at hbytes
      cases hbytes
  · exact Reads.unquote

theorem unquote_eq_none_iff {text : Str} : unquote .unquoted text = none ↔ Unbalanced text := by
  constructor
  · intro hnone
    rcases reads_or_unbalanced text with ⟨first, others, hread⟩ | hopen
    · obtain ⟨bytes, hbytes, -⟩ := hread.unquote
      rw [hnone] at hbytes
      cases hbytes
    · exact hopen
  · exact Unbalanced.unquote

/-! ## The splitter of the login option -/

namespace Splitter

/-- What the splitter has found at the end. -/
def finish (s : Splitter) : Option (List Str) :=
  if s.quote ≠ .unquoted ∨ s.escaped = true then none else some (s.words ++ s.word.toList)

/-- The words with some bytes behind those of the last word. -/
def wordsWith (s : Splitter) (bytes : List (Option UInt8)) : List Str :=
  s.words ++ commandWords (s.word.getD [] ++ (segments bytes).1) (segments bytes).2

/-- Between two steps no backslash is pending and the last word is not empty. -/
structure Ready (s : Splitter) : Prop where
  escaped : s.escaped = false
  word : s.word ≠ some []

theorem Ready.put (s : Splitter) (c : UInt8) : (s.put c).Ready where
  escaped := rfl
  word h := by
    have hnil : s.word.getD [] ++ [c] = [] := Option.some.inj h
    simp at hnil

/-- A byte that is put into the last word is the first of those that follow. -/
theorem wordsWith_put (s : Splitter) (c : UInt8) :
    (s.put c).wordsWith = fun bytes => s.wordsWith (some c :: bytes) := by
  funext bytes
  simp only [wordsWith, put, segments, Option.getD_some, List.append_assoc, List.singleton_append]

/-- A blank ends the last word. -/
theorem wordsWith_blank {s : Splitter} (hs : s.Ready) :
    { s with word := none, words := s.words ++ s.word.toList }.wordsWith =
      fun bytes => s.wordsWith (none :: bytes) := by
  funext bytes
  simp only [wordsWith, segments, Option.getD_none, List.nil_append, List.append_assoc,
    List.append_nil]
  congr 1
  cases hword : s.word with
  | none => rfl
  | some word =>
    have hne : word ≠ [] := by
      rintro rfl
      exact hs.word hword
    simp [commandWords, hne]

theorem wordsWith_nil {s : Splitter} (hs : s.Ready) :
    s.wordsWith [] = s.words ++ s.word.toList := by
  simp only [wordsWith, segments, List.append_nil]
  congr 1
  cases hword : s.word with
  | none => rfl
  | some word =>
    have hne : word ≠ [] := by
      rintro rfl
      exact hs.word hword
    simp [commandWords, hne]

/-- Outside of single quotes a backslash is pending until the next byte. -/
theorem step_backslash {s : Splitter} (hescaped : s.escaped = false)
    (hquote : s.quote ≠ .singleQuoted) : s.step 0x5c = { s with escaped := true } := by
  cases hq : s.quote with
  | unquoted =>
    simp only [step, hescaped, hq]
    rfl
  | doubleQuoted =>
    simp only [step, hescaped, hq]
    rfl
  | singleQuoted => exact absurd hq hquote

/-- From a state between two steps the splitter finds what the pass does. -/
theorem foldl_step_eq (q : QuoteStatus) (text : Str) {s : Splitter} (hs : s.Ready)
    (hquote : s.quote = q) : (text.foldl step s).finish = (unquote q text).map s.wordsWith := by
  -- one byte that the splitter puts, and the pass finds
  have hput : ∀ {q : QuoteStatus} {text rest : Str} {s : Splitter} (c : UInt8),
      (∀ {s : Splitter}, s.Ready → s.quote = q →
        (rest.foldl step s).finish = (unquote q rest).map s.wordsWith) →
      s.quote = q → text.foldl step s = rest.foldl step (s.put c) →
      (text.foldl step s).finish = ((unquote q rest).map (some c :: ·)).map s.wordsWith := by
    intro q text rest s c ih hquote hfold
    rw [hfold, ih (.put s c) hquote, wordsWith_put, Option.map_map]
    rfl
  -- a quote that opens or closes
  have hturn : ∀ {q next : QuoteStatus} {c : UInt8} {text : Str} {s : Splitter},
      (∀ {s : Splitter}, s.Ready → s.quote = next →
        (text.foldl step s).finish = (unquote next text).map s.wordsWith) →
      s.Ready → s.step c = { s with quote := next } → unquote q (c :: text) = unquote next text →
      ((c :: text).foldl step s).finish = (unquote q (c :: text)).map s.wordsWith := by
    intro q next c text s ih hs hstep hunquote
    rw [List.foldl_cons, hstep, hunquote]
    exact ih ⟨hs.escaped, hs.word⟩ rfl
  have hescaped := hs.escaped
  induction q, text using unquote.induct generalizing s with
  | case1 =>
    have hend : s.finish = some (s.words ++ s.word.toList) := by
      rw [finish, hquote, hescaped]
      rfl
    rw [List.foldl_nil, hend, unquote, Option.map_some, wordsWith_nil hs]
  | case2 =>
    rw [unquote, List.foldl_nil, finish, hquote]
    rfl
  | case3 =>
    rw [unquote, List.foldl_nil, finish, hquote]
    rfl
  | case4 c text hblank ih =>
    have hstep : s.step c = { s with word := none, words := s.words ++ s.word.toList } := by
      simp only [step, hescaped, hquote, if_pos (show c = 0x20 ∨ c = 0x09 from hblank)]
    have hnext : Ready { s with word := none, words := s.words ++ s.word.toList } :=
      ⟨hescaped, nofun⟩
    rw [unquote_blank text hblank, List.foldl_cons, hstep, ih hnext hquote hescaped,
      wordsWith_blank hs, Option.map_map]
    rfl
  | case5 text _ ih =>
    refine hturn (fun hs hq => ih hs hq hs.escaped) hs ?_ (unquote_openDouble text)
    simp only [step, hescaped, hquote]
    rfl
  | case6 text _ _ ih =>
    refine hturn (fun hs hq => ih hs hq hs.escaped) hs ?_ (unquote_openSingle text)
    simp only [step, hescaped, hquote]
    rfl
  | case7 =>
    rw [unquote_backslash, List.foldl_cons, List.foldl_nil,
      step_backslash hescaped (by rw [hquote]; nofun)]
    exact if_pos (Or.inr rfl)
  | case8 d text _ _ _ ih =>
    rw [unquote_escape]
    refine hput d (fun hs hq => ih hs hq hs.escaped) hquote ?_
    rw [List.foldl_cons, List.foldl_cons, step_backslash hescaped (by rw [hquote]; nofun)]
    simp only [step, hquote, put]
  | case9 c text hblank hquot hapos hslash ih =>
    rw [unquote_plain text hblank hquot hapos hslash]
    refine hput c (fun hs hq => ih hs hq hs.escaped) hquote ?_
    simp only [List.foldl_cons, step, hescaped, hquote,
      if_neg (show ¬ (c = 0x20 ∨ c = 0x09) from hblank), if_neg hquot, if_neg hapos,
      if_neg hslash]
  | case10 text ih =>
    refine hturn (fun hs hq => ih hs hq hs.escaped) hs ?_ (unquote_closeDouble text)
    simp only [step, hescaped, hquote]
    rfl
  | case11 =>
    rw [unquote_doubleBackslash, List.foldl_cons, List.foldl_nil,
      step_backslash hescaped (by rw [hquote]; nofun)]
    exact if_pos (Or.inr rfl)
  | case12 d text hd _ ih =>
    rw [unquote_doubleEscape text hd]
    refine hput d (fun hs hq => ih hs hq hs.escaped) hquote ?_
    rw [List.foldl_cons, List.foldl_cons, step_backslash hescaped (by rw [hquote]; nofun)]
    simp only [step, hquote, if_pos hd, put]
  | case13 d text hd _ ih =>
    rw [unquote_doubleKeep text hd]
    refine hput 0x5c (fun hs hq => ih hs hq hs.escaped) hquote ?_
    obtain ⟨hquot, hslash⟩ := not_or.mp hd
    rw [List.foldl_cons, List.foldl_cons, List.foldl_cons,
      step_backslash hescaped (by rw [hquote]; nofun)]
    simp only [step, hquote, if_neg hd, put, if_neg hquot, if_neg hslash]
  | case14 c text hquot hslash ih =>
    rw [unquote_inDouble text hquot hslash]
    refine hput c (fun hs hq => ih hs hq hs.escaped) hquote ?_
    simp only [List.foldl_cons, step, hescaped, hquote, if_neg hquot, if_neg hslash]
  | case15 text ih =>
    refine hturn (fun hs hq => ih hs hq hs.escaped) hs ?_ (unquote_closeSingle text)
    simp only [step, hescaped, hquote]
    rfl
  | case16 c text hapos ih =>
    rw [unquote_inSingle text hapos]
    refine hput c (fun hs hq => ih hs hq hs.escaped) hquote ?_
    simp only [List.foldl_cons, step, hquote, if_neg hapos]

end Splitter

/-- The login option is split by the rules. -/
theorem shlSplitCommandString_eq (text : Str) : shlSplitCommandString text =
    (unquote .unquoted text).map fun bytes =>
      commandWords (segments bytes).1 (segments bytes).2 :=
  Splitter.foldl_step_eq .unquoted text ⟨rfl, nofun⟩ rfl

/-- A text is split into words exactly if it is read as them. -/
theorem shlSplitCommandString_eq_some_iff {text : Str} {words : List Str} :
    shlSplitCommandString text = some words ↔
      ∃ first others, Reads text first others ∧ words = commandWords first others := by
  rw [shlSplitCommandString_eq, Option.map_eq_some_iff]
  constructor
  · rintro ⟨bytes, hbytes, rfl⟩
    exact ⟨_, _, unquote_eq_some_iff.mp ⟨bytes, hbytes, rfl⟩, rfl⟩
  · rintro ⟨first, others, hread, rfl⟩
    obtain ⟨bytes, hbytes, hsegments⟩ := hread.unquote
    exact ⟨bytes, hbytes, by rw [hsegments]⟩

/-- A text is refused exactly if it is unbalanced. -/
theorem shlSplitCommandString_eq_none_iff {text : Str} :
    shlSplitCommandString text = none ↔ Unbalanced text := by
  rw [shlSplitCommandString_eq, Option.map_eq_none_iff, unquote_eq_none_iff]

end Faceplate.Conf
