import Faceplate.Font.Blocks

/-!
# Hex fonts

What a hex font file of valid lines is, and what the generator reads from it: the
glyphs of the lines, sorted by codepoint.
-/

namespace Faceplate.Font

open CString
open Collector (fgets)

/-- A hexadecimal digit. -/
def isHexDigit (c : UInt8) : Bool :=
  (0x30 ≤ c && c ≤ 0x39) || (0x61 ≤ c && c ≤ 0x66) || (0x41 ≤ c && c ≤ 0x46)

/-- A valid line: a codepoint of up to 32 bits and the pixels of 16 rows, 8 or 16
wide. -/
structure HexLine where
  digits : List UInt8
  pixels : List UInt8
  digits_ne : digits ≠ []
  digits_le : digits.length ≤ 8
  digits_hex : ∀ c ∈ digits, isHexDigit c = true
  pixels_hex : ∀ c ∈ pixels, isHexDigit c = true
  pixels_len : pixels.length = 32 ∨ pixels.length = 64

/-- The codepoint of a line. -/
def HexLine.codepoint (l : HexLine) : ℕ :=
  l.digits.foldl (fun n c => 16 * n + (hexVal c).toNat) 0

/-- The width of a line in cells. -/
def HexLine.width (l : HexLine) : ℕ := l.pixels.length / 32

/-- The bytes that the digits of a line spell. -/
def HexLine.bytes (l : HexLine) : List UInt8 :=
  (List.range (l.pixels.length / 2)).map fun k =>
    16 * hexVal (l.pixels.getD (2 * k) 0) + hexVal (l.pixels.getD (2 * k + 1) 0)

/-- The line as it stands in the file. -/
def HexLine.text (l : HexLine) : List UInt8 := l.digits ++ 0x3a :: l.pixels

/-- Lines under one another, with or without a newline at the end. -/
def hexText (lines : List HexLine) (newline : Bool) : List UInt8 :=
  [0x0a].intercalate (lines.map HexLine.text) ++ if newline then [0x0a] else []

/-- A font file of valid lines, without a codepoint given twice or 65536 glyphs of one
width in a row. -/
structure HexFile where
  lines : List HexLine
  newline : Bool
  nonempty : lines ≠ []
  distinct : (lines.map HexLine.codepoint).Nodup
  runs : ∀ cp w, ∃ k < 65536, ∀ l ∈ lines, ¬(l.codepoint = cp + k ∧ l.width = w)

/-- The file as the generator reads it. -/
def HexFile.text (f : HexFile) : List UInt8 := hexText f.lines f.newline

/-- The glyph of a line. -/
def HexLine.glyph (l : HexLine) : UnifontGlyph := ⟨l.codepoint, l.pixels⟩

theorem forall_ne {s : List UInt8} {d : UInt8} (h : d ∉ s) : ∀ c ∈ s, decide (c ≠ d) = true := by
  intro c hc
  rw [decide_eq_true_eq]
  rintro rfl
  exact h hc

theorem fgets_newline {cap : ℕ} {line : List UInt8} (hline : 0x0a ∉ line)
    (hcap : line.length + 1 < cap) (rest : List UInt8) :
    fgets cap (line ++ 0x0a :: rest) = (line ++ [0x0a], rest) := by
  have htake : (line ++ 0x0a :: rest).takeWhile (· ≠ 0x0a) = line := by
    rw [List.takeWhile_append_of_pos (forall_ne hline)]
    simp
  have hmin : min (cap - 1) (min (line.length + 1) (line ++ 0x0a :: rest).length) =
      (line ++ [0x0a]).length := by
    simp only [List.length_append, List.length_cons, List.length_nil]
    omega
  have happend : line ++ 0x0a :: rest = (line ++ [0x0a]) ++ rest := by simp
  rw [fgets, htake, hmin, happend, List.take_left, List.drop_left]

theorem fgets_last {cap : ℕ} {line : List UInt8} (hline : 0x0a ∉ line)
    (hcap : line.length < cap) : fgets cap line = (line, []) := by
  have htake : line.takeWhile (· ≠ 0x0a) = line :=
    List.takeWhile_eq_self_iff.mpr (forall_ne hline)
  have hmin : min (cap - 1) (min (line.length + 1) line.length) = line.length := by omega
  rw [fgets, htake, hmin, List.take_length, List.drop_length]

theorem hexVal_le (c : UInt8) : (hexVal c).toNat < 16 := by
  simp only [hexVal, Bool.and_eq_true, decide_eq_true_eq, UInt8.le_iff_toNat_le]
  split_ifs with h h h
  · simp only [UInt8.toNat_sub, UInt8.reduceToNat] at h ⊢
    omega
  · simp only [UInt8.toNat_add, UInt8.toNat_sub, UInt8.reduceToNat] at h ⊢
    omega
  · simp only [UInt8.toNat_add, UInt8.toNat_sub, UInt8.reduceToNat] at h ⊢
    omega
  · decide

/-- Reading a number modulo 2 ^ 32 keeps its remainder. -/
theorem foldl_mod (digits : List UInt8) (n : ℕ) :
    digits.foldl (fun val c => (16 * val + (hexVal c).toNat) % 2 ^ 32) (n % 2 ^ 32) =
      digits.foldl (fun n c => 16 * n + (hexVal c).toNat) n % 2 ^ 32 := by
  induction digits generalizing n with
  | nil => rfl
  | cons c digits ih =>
    have hstep : (16 * (n % 2 ^ 32) + (hexVal c).toNat) % 2 ^ 32 =
        (16 * n + (hexVal c).toNat) % 2 ^ 32 := by omega
    rw [List.foldl_cons, List.foldl_cons, hstep, ih]

theorem foldl_lt (digits : List UInt8) (n : ℕ) :
    digits.foldl (fun n c => 16 * n + (hexVal c).toNat) n < 16 ^ digits.length * (n + 1) := by
  induction digits generalizing n with
  | nil => simp
  | cons c digits ih =>
    have hc := hexVal_le c
    refine (ih _).trans_le ?_
    rw [List.length_cons, Nat.pow_succ, Nat.mul_assoc]
    refine Nat.mul_le_mul_left _ ?_
    have hdef : (fun n (c : UInt8) => 16 * n + (hexVal c).toNat) n c =
      16 * n + (hexVal c).toNat := rfl
    omega

theorem HexLine.codepoint_lt (l : HexLine) : l.codepoint < 2 ^ 32 := by
  have hlt := foldl_lt l.digits 0
  have hpow : 16 ^ l.digits.length ≤ 16 ^ 8 := Nat.pow_le_pow_right (by decide) l.digits_le
  simp only [HexLine.codepoint]
  omega

theorem isHexDigit_ne {c d : UInt8} (hc : isHexDigit c = true) (hd : isHexDigit d = false) :
    c ≠ d := by
  rintro rfl
  rw [hc] at hd
  exact Bool.noConfusion hd

theorem not_mem_of_hex {s : List UInt8} (hs : ∀ c ∈ s, isHexDigit c = true) {d : UInt8}
    (hd : isHexDigit d = false) : d ∉ s := fun hmem => isHexDigit_ne (hs d hmem) hd rfl

theorem HexLine.not_mem_text (l : HexLine) {d : UInt8} (hd : isHexDigit d = false)
    (hcolon : d ≠ 0x3a) : d ∉ l.text := by
  have hdigits := not_mem_of_hex l.digits_hex hd
  have hpixels := not_mem_of_hex l.pixels_hex hd
  simp [HexLine.text, hdigits, hpixels, hcolon]

theorem HexLine.length_text_lt (l : HexLine) : l.text.length + 1 < 254 := by
  have hdigits := l.digits_le
  have hpixels := l.pixels_len
  simp only [HexLine.text, List.length_append, List.length_cons]
  omega

/-- A valid line is read as its glyph. -/
theorem buildUnifontGlyph_text (l : HexLine) {tail : List UInt8} (htail : tail = [] ∨ tail = [0x0a]) :
    buildUnifontGlyph (l.text ++ tail) = some l.glyph := by
  have hzero : 0 ∉ l.text ++ tail := by
    have htext : 0 ∉ l.text := l.not_mem_text (by decide) (by decide)
    rcases htail with rfl | rfl <;> simp [htext]
  have hcolon : 0x3a ∉ l.digits := not_mem_of_hex l.digits_hex (by decide)
  have happend : l.text ++ tail = l.digits ++ 0x3a :: (l.pixels ++ tail) := by simp [HexLine.text]
  have hpixels : (l.pixels ++ tail).takeWhile (· ≠ 0x0a) = l.pixels := by
    have hline : 0x0a ∉ l.pixels := not_mem_of_hex l.pixels_hex (by decide)
    rw [List.takeWhile_append_of_pos (forall_ne hline)]
    rcases htail with rfl | rfl <;> simp
  have hlen : l.pixels.length ≤ maxDataSize := by
    have := l.pixels_len
    simp only [maxDataSize]
    omega
  have hfold := foldl_mod l.digits 0
  rw [buildUnifontGlyph, cstr_of_zero_not_mem hzero, happend, strchr_append hcolon]
  simp only [hpixels, List.take_of_length_le hlen, HexLine.glyph, Option.some.injEq,
    UnifontGlyph.mk.injEq, and_true]
  exact hfold.trans (Nat.mod_eq_of_lt l.codepoint_lt)

/-- A new codepoint is put in its place. -/
theorem insertGlyph_spec {list : List UnifontGlyph} {g : UnifontGlyph}
    (hsorted : list.Pairwise (·.codepoint < ·.codepoint))
    (hnew : ∀ g' ∈ list, g'.codepoint ≠ g.codepoint) :
    ∃ list', insertGlyph list g = some list' ∧
      list'.Pairwise (·.codepoint < ·.codepoint) ∧ list'.Perm (g :: list) := by
  simp only [insertGlyph]
  split_ifs with hlast hhead
  · obtain ⟨last, hsome, hlt⟩ := (Option.any_eq_true _ _).mp hlast
    obtain ⟨init, rfl⟩ := List.getLast?_eq_some_iff.mp hsome
    rw [decide_eq_true_eq] at hlt
    refine ⟨_, rfl, ?_, List.perm_append_singleton g _⟩
    refine List.pairwise_append.mpr ⟨hsorted, List.pairwise_singleton _ g, ?_⟩
    intro a ha b hb
    rw [List.mem_singleton.mp hb]
    rcases List.mem_append.mp ha with hmem | hmem
    · exact ((List.pairwise_append.mp hsorted).2.2 a hmem last (by simp)).trans hlt
    · rwa [List.mem_singleton.mp hmem]
  · obtain ⟨g', hsome, heq⟩ := (Option.any_eq_true _ _).mp hhead
    have hmem : g' ∈ list :=
      (List.dropWhile_suffix _).subset (List.mem_of_mem_head? (Option.mem_def.mpr hsome))
    exact absurd (decide_eq_true_eq.mp heq) (hnew g' hmem)
  · have hsplit := List.takeWhile_append_dropWhile (p := fun g' => decide (g'.codepoint < g.codepoint))
      (l := list)
    have hbefore : ∀ a ∈ list.takeWhile fun g' => decide (g'.codepoint < g.codepoint),
        a.codepoint < g.codepoint := by
      intro a ha
      have hpos := List.mem_takeWhile_imp ha
      rwa [decide_eq_true_eq] at hpos
    have hfirst := List.head?_dropWhile_not (fun g' => decide (g'.codepoint < g.codepoint)) list
    generalize list.takeWhile (fun g' => decide (g'.codepoint < g.codepoint)) = before at *
    generalize list.dropWhile (fun g' => decide (g'.codepoint < g.codepoint)) = iter at *
    subst hsplit
    obtain ⟨hbs, his, hcross⟩ := List.pairwise_append.mp hsorted
    have hiter : ∀ b ∈ iter, g.codepoint < b.codepoint := by
      cases iter with
      | nil => simp
      | cons x xs =>
        simp only [List.head?_cons, decide_eq_false_iff_not] at hfirst
        have hne := hnew x (by simp)
        intro b hb
        rcases List.mem_cons.mp hb with rfl | hmem
        · omega
        · have := (List.pairwise_cons.mp his).1 b hmem
          omega
    refine ⟨_, rfl, ?_, List.perm_middle⟩
    refine List.pairwise_append.mpr ⟨hbs, List.pairwise_cons.mpr ⟨hiter, his⟩, ?_⟩
    intro a ha b hb
    rcases List.mem_cons.mp hb with rfl | hmem
    · exact hbefore a ha
    · exact hcross a ha b hmem

/-- One round of the parser on a valid line. -/
theorem parseLines_line {content tail rest : List UInt8} {l : HexLine}
    {list list' : List UnifontGlyph} (htail : tail = [] ∨ tail = [0x0a])
    (hline : fgets 254 content = (l.text ++ tail, rest)) (hcontent : content ≠ [])
    (hinsert : insertGlyph list l.glyph = some list') (rounds : ℕ) :
    parseLines (rounds + 1) content list = parseLines rounds rest list' := by
  have hzero : 0 ∉ l.text ++ tail := by
    have htext : 0 ∉ l.text := l.not_mem_text (by decide) (by decide)
    rcases htail with rfl | rfl <;> simp [htext]
  have hcomment : (l.text ++ tail).head? ≠ some 0x23 := by
    obtain ⟨c, cs, hdigits⟩ := List.exists_cons_of_ne_nil l.digits_ne
    have hhex := l.digits_hex c (by simp [hdigits])
    simp only [HexLine.text, hdigits, List.cons_append, List.head?_cons, ne_eq,
      Option.some.injEq]
    exact isHexDigit_ne hhex (by decide)
  have hempty : content.isEmpty = false := by simpa using hcontent
  simp only [parseLines, hempty, maxDataSize, hline, cstr_of_zero_not_mem hzero, hcomment,
    buildUnifontGlyph_text l htail, hinsert, Bool.false_eq_true, if_false]

theorem hexText_singleton (l : HexLine) (newline : Bool) :
    hexText [l] newline = l.text ++ if newline then [0x0a] else [] := by
  simp [hexText]

theorem hexText_cons_cons (l l' : HexLine) (rest : List HexLine) (newline : Bool) :
    hexText (l :: l' :: rest) newline = l.text ++ 0x0a :: hexText (l' :: rest) newline := by
  simp [hexText, List.intercalate_cons_cons]

theorem HexLine.text_ne (l : HexLine) : l.text ≠ [] := by simp [HexLine.text]

/-- The first line of a text, and what is left. -/
theorem fgets_hexText (l : HexLine) (rest : List HexLine) (newline : Bool) :
    ∃ tail, (tail = [] ∨ tail = [0x0a]) ∧ fgets 254 (hexText (l :: rest) newline) =
      (l.text ++ tail, if rest = [] then [] else hexText rest newline) := by
  have hline : 0x0a ∉ l.text := l.not_mem_text (by decide) (by decide)
  have hlen := l.length_text_lt
  cases rest with
  | nil =>
    rw [hexText_singleton]
    cases newline with
    | false =>
      have hlast := fgets_last hline (by omega : l.text.length < 254)
      exact ⟨[], Or.inl rfl, by simpa using hlast⟩
    | true => exact ⟨[0x0a], Or.inr rfl, fgets_newline hline hlen []⟩
  | cons l' rest =>
    rw [hexText_cons_cons]
    exact ⟨[0x0a], Or.inr rfl, fgets_newline hline hlen _⟩

/-- The parser sorts the glyphs of valid lines into its list. -/
theorem parseLines_spec {lines : List HexLine} {newline : Bool} {list : List UnifontGlyph}
    {rounds : ℕ} (hrounds : lines.length ≤ rounds)
    (hsorted : list.Pairwise (·.codepoint < ·.codepoint))
    (hdistinct : (lines.map HexLine.codepoint).Nodup)
    (hnew : ∀ l ∈ lines, ∀ g ∈ list, g.codepoint ≠ l.codepoint) :
    ∃ list', parseLines rounds (if lines = [] then [] else hexText lines newline) list =
        some list' ∧ list'.Pairwise (·.codepoint < ·.codepoint) ∧
      list'.Perm (list ++ lines.map HexLine.glyph) := by
  induction lines generalizing list rounds with
  | nil =>
    refine ⟨list, ?_, hsorted, by simp⟩
    cases rounds <;> simp [parseLines]
  | cons l rest ih =>
    obtain ⟨hfresh, hrest⟩ := List.nodup_cons.mp hdistinct
    obtain ⟨rounds, rfl⟩ : ∃ n, rounds = n + 1 := ⟨rounds - 1, by simp at hrounds; omega⟩
    obtain ⟨list₁, hinsert, hsorted₁, hperm₁⟩ :=
      insertGlyph_spec (g := l.glyph) hsorted (hnew l List.mem_cons_self)
    obtain ⟨tail, htail, hline⟩ := fgets_hexText l rest newline
    have hne : hexText (l :: rest) newline ≠ [] := by
      intro hnil
      rw [hnil] at hline
      have := congrArg Prod.fst hline
      simp [fgets, l.text_ne] at this
    have hnew₁ : ∀ l' ∈ rest, ∀ g ∈ list₁, g.codepoint ≠ l'.codepoint := by
      intro l' hl' g hg
      rcases List.mem_cons.mp (hperm₁.mem_iff.mp hg) with rfl | hmem
      · intro heq
        exact hfresh (List.mem_map.mpr ⟨l', hl', heq.symm⟩)
      · exact hnew l' (List.mem_cons_of_mem _ hl') g hmem
    obtain ⟨list', hparse, hsorted', hperm'⟩ :=
      ih (by simpa using hrounds : rest.length ≤ rounds) hsorted₁ hrest hnew₁
    refine ⟨list', ?_, hsorted', ?_⟩
    · rw [if_neg (List.cons_ne_nil _ _), parseLines_line htail hline hne hinsert, hparse]
    · refine hperm'.trans ((hperm₁.append_right _).trans ?_)
      simpa using List.perm_middle.symm

/-- What the generator packs: the glyphs of the file in order. -/
structure HexFile.Glyphs (f : HexFile) (glyphs : List UnifontGlyph) : Prop where
  parsed : parseLines f.text.length f.text [] = some glyphs
  sorted : Sorted glyphs
  perm : glyphs.Perm (f.lines.map HexLine.glyph)

theorem HexLine.cwidth_glyph (l : HexLine) : l.glyph.cwidth = l.width := by
  simp only [UnifontGlyph.cwidth, HexLine.glyph, getWidth, HexLine.width]
  rcases l.pixels_len with h | h <;> simp [h]

theorem length_le_hexText (lines : List HexLine) (newline : Bool) :
    lines.length ≤ (hexText lines newline).length := by
  induction lines with
  | nil => simp
  | cons l rest ih =>
    have hpos : 0 < l.text.length := List.length_pos_iff.mpr l.text_ne
    cases rest with
    | nil =>
      rw [hexText_singleton]
      simp only [List.length_append, List.length_cons, List.length_nil]
      omega
    | cons l' rest =>
      rw [hexText_cons_cons]
      simp only [List.length_append, List.length_cons] at ih ⊢
      omega

theorem HexFile.exists_glyphs (f : HexFile) : ∃ glyphs, f.Glyphs glyphs := by
  obtain ⟨glyphs, hparse, hsorted, hperm⟩ := @parseLines_spec f.lines f.newline [] f.text.length
    (length_le_hexText _ _) List.Pairwise.nil f.distinct (by simp)
  rw [if_neg f.nonempty] at hparse
  rw [List.nil_append] at hperm
  have hline : ∀ g ∈ glyphs, ∃ l ∈ f.lines, l.glyph = g := by
    intro g hg
    exact List.mem_map.mp (hperm.mem_iff.mp hg)
  refine ⟨glyphs, hparse, ⟨hsorted, ?_, ?_, ?_⟩, hperm⟩
  · intro g hg
    obtain ⟨l, -, rfl⟩ := hline g hg
    exact l.codepoint_lt
  · intro g hg
    obtain ⟨l, -, rfl⟩ := hline g hg
    exact l.pixels_len
  · intro cp w
    obtain ⟨k, hk, hnone⟩ := f.runs cp w
    refine ⟨k, hk, ?_⟩
    rintro g hg ⟨hcp, hw⟩
    obtain ⟨l, hl, rfl⟩ := hline g hg
    exact hnone l hl ⟨hcp, by rw [← l.cwidth_glyph, hw]⟩

end Faceplate.Font
