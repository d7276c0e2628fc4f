import Faceplate.Feed.Sources
import Faceplate.Lib.Snprintf

/-!
# The three lines of the header in memory

`format_display_lines` appends pieces to a line as long as the position is within it. The
position advances by the length each piece would have had, so that it is behind the line
once a piece has been cut, and no further piece is appended. A line is an array of 160
bytes here, and the position is of type `size_t`.
-/

namespace Faceplate.Feed

open CString Snprintf

/-- The size of each of the lines. -/
def lineSize : ℕ := 160

/-- A line before anything is written to it. -/
structure LineBuffer where
  bytes : List UInt8
  length_eq : bytes.length = lineSize

/-- The line is an empty string, as `memset` leaves it. -/
def LineBuffer.Cleared (old : LineBuffer) : Prop := old.bytes.head? = some 0

/-- A line that is being written: its bytes, the position, and the positions at which
`snprintf` has been called. -/
structure Line where
  out : List UInt8
  used : ℕ
  reached : List ℕ

/-- The separator between pieces. -/
def sep : List UInt8 := lit " | "

/-- `append_sep`. A piece may be `NULL`. -/
def Line.appendSep (cap : ℕ) (line : Line) (piece : Option (List UInt8)) : Option Line :=
  match piece with
  | none => some line
  | some piece =>
    if piece = [] ∨ line.used ≥ cap then some line
    else
      let text := if line.used ≠ 0 then sep ++ piece else piece
      (snprintf 0 line.out line.used (subSize cap line.used) text).map fun out =>
        ⟨out, (line.used + text.length) % 2 ^ 64, line.reached ++ [line.used]⟩

/-- One line from its pieces. -/
def Line.format (old : LineBuffer) (pieces : List (Option (List UInt8))) : Option Line :=
  pieces.foldlM (Line.appendSep lineSize) ⟨old.bytes, 0, []⟩

/-- The fields of the context that `format_display_lines` reads. -/
structure LineFields where
  ip : CharArray 48
  image : CharArray 64
  buildChannel : CharArray 24
  connectionLabel : CharArray 24
  serialShort : CharArray 20
  uptimeLabel : CharArray 32
  raucSlot : CharArray 32
  raucBoot : CharArray 24
  raucUnhealthy : Bool

namespace LineFields

variable (ctx : LineFields)

/-- `ip_piece`. -/
def ipPiece : List UInt8 := if ctx.ip.text = [] then [] else fit 64 (lit "IP " ++ ctx.ip.text)

/-- `os_piece`. -/
def osPiece : List UInt8 :=
  if ctx.image.text = [] then [] else fit 80 (lit "OS " ++ ctx.image.text)

/-- `debug_piece`. -/
def debugPiece : List UInt8 :=
  if ctx.buildChannel.text = lit "debug" then fit 40 (lit "DEBUG BUILD - NOT FOR PRODUCTION")
  else []

/-- `rauc_piece`. -/
def raucPiece : List UInt8 :=
  if ctx.raucUnhealthy then
    fit 80 (lit "RAUC " ++ (if ctx.raucSlot.text = [] then lit "?" else ctx.raucSlot.text) ++
      lit " " ++ (if ctx.raucBoot.text = [] then lit "bad" else ctx.raucBoot.text))
  else []

/-- `serial_piece`. -/
def serialPiece : List UInt8 :=
  if ctx.serialShort.text = [] then [] else fit 40 (lit "Serial " ++ ctx.serialShort.text)

/-- What is appended to `supporting_line`. -/
def supportingPieces : List (Option (List UInt8)) :=
  [some ctx.debugPiece, some ctx.ipPiece, some ctx.osPiece]

/-- What is appended to `compact_line`. -/
def compactPieces : List (Option (List UInt8)) :=
  [if ctx.connectionLabel.text ≠ [] then some ctx.connectionLabel.text else none,
    some ctx.debugPiece, some ctx.ipPiece] ++
    if ctx.raucUnhealthy then [some ctx.raucPiece] else []

/-- What is appended to `secondary_line`. -/
def secondaryPieces : List (Option (List UInt8)) :=
  (if ctx.raucUnhealthy then [some ctx.raucPiece] else []) ++
    [some ctx.uptimeLabel.text, some ctx.serialPiece]

end LineFields

/-- The three lines. -/
structure DisplayLines where
  supportingLine : Line
  compactLine : Line
  secondaryLine : Line

/-- `format_display_lines`. -/
def formatLines (ctx : LineFields) (supporting compact secondary : LineBuffer) :
    Option DisplayLines := do
  let supportingLine ← Line.format supporting ctx.supportingPieces
  let compactLine ← Line.format compact ctx.compactPieces
  let secondaryLine ← Line.format secondary ctx.secondaryPieces
  return ⟨supportingLine, compactLine, secondaryLine⟩

/-! ## Joined pieces -/

/-- The pieces that are not empty, with separators between them. -/
def joined (pieces : List (Option (List UInt8))) : List UInt8 :=
  sep.intercalate ((pieces.filterMap id).filter (· ≠ []))

/-- What a further piece adds to a text. -/
def addition (text : List UInt8) : Option (List UInt8) → List UInt8
  | none => []
  | some piece => if piece = [] then [] else if text = [] then piece else sep ++ piece

theorem intercalate_concat (between : List UInt8) (xs : List (List UInt8)) (x : List UInt8) :
    between.intercalate (xs ++ [x]) =
      if xs = [] then x else between.intercalate xs ++ between ++ x := by
  induction xs with
  | nil => simp
  | cons y xs ih =>
    rw [if_neg (List.cons_ne_nil y xs), List.cons_append,
      List.intercalate_cons_of_ne_nil (by simp), ih]
    by_cases hxs : xs = []
    · subst hxs
      simp
    · rw [if_neg hxs, List.intercalate_cons_of_ne_nil hxs]
      simp

theorem intercalate_eq_nil {between : List UInt8} {xs : List (List UInt8)}
    (hne : ∀ x ∈ xs, x ≠ []) : between.intercalate xs = [] ↔ xs = [] := by
  cases xs with
  | nil => simp
  | cons x xs =>
    have hx := hne x List.mem_cons_self
    by_cases hxs : xs = []
    · simp [hxs, hx]
    · simp [List.intercalate_cons_of_ne_nil hxs, hx]

theorem joined_concat (pieces : List (Option (List UInt8))) (piece : Option (List UInt8)) :
    joined (pieces ++ [piece]) = joined pieces ++ addition (joined pieces) piece := by
  unfold joined
  rw [List.filterMap_append, List.filter_append]
  cases piece with
  | none => simp [addition]
  | some piece =>
    by_cases hpiece : piece = []
    · simp [addition, hpiece]
    · have hne : ∀ x ∈ (pieces.filterMap id).filter (· ≠ []), x ≠ [] := fun x hx => by
        simpa using (List.mem_filter.mp hx).2
      have hlast : ([some piece].filterMap id).filter (· ≠ []) = [piece] := by simp [hpiece]
      rw [hlast, intercalate_concat, addition, if_neg hpiece]
      by_cases hfirst : (pieces.filterMap id).filter (· ≠ []) = []
      · rw [if_pos hfirst, if_pos ((intercalate_eq_nil hne).mpr hfirst), hfirst]
        rfl
      · rw [if_neg hfirst, if_neg (mt (intercalate_eq_nil hne).mp hfirst), List.append_assoc]

/-! ## One line -/

/-- A line behind some pieces: nothing has been written, or their text is there, cut to the
line, and the position is its length or behind the line. -/
structure Line.Behind (old : LineBuffer) (text : List UInt8) (line : Line) : Prop where
  untouched : text = [] → line.out = old.bytes
  written : text ≠ [] → ∃ rest, line.out = text.take (lineSize - 1) ++ 0 :: rest
  length_eq : line.out.length = lineSize
  used : line.used = text.length ∨ lineSize ≤ line.used ∧ lineSize ≤ text.length
  reached : ∀ used ∈ line.reached, used < lineSize

theorem Line.behind_nil (old : LineBuffer) : Line.Behind old [] ⟨old.bytes, 0, []⟩ where
  untouched _ := rfl
  written h := absurd rfl h
  length_eq := old.length_eq
  used := .inl rfl
  reached := by simp

/-- The bytes in front of the position are the text, as long as the position is within the
line. -/
theorem Line.Behind.split {old : LineBuffer} {text : List UInt8} {line : Line}
    (h : line.Behind old text) (hused : line.used < lineSize) :
    line.used = text.length ∧ ∃ rest, line.out = text ++ rest ∧
      rest.length = lineSize - text.length := by
  have hlength : line.used = text.length := by
    rcases h.used with hused' | ⟨hover, -⟩
    · exact hused'
    · omega
  refine ⟨hlength, ?_⟩
  by_cases htext : text = []
  · refine ⟨old.bytes, ?_, ?_⟩
    · rw [h.untouched htext, htext, List.nil_append]
    · rw [htext, old.length_eq]
      rfl
  · obtain ⟨rest, hout⟩ := h.written htext
    rw [List.take_of_length_le (by omega)] at hout
    refine ⟨0 :: rest, hout, ?_⟩
    have hsize := h.length_eq
    rw [hout, List.length_append] at hsize
    omega

/-- With the position within the line, what is written behind it stays in the line, and the
line then shows the longer text. -/
theorem Line.Behind.write {old : LineBuffer} {text : List UInt8} {line : Line}
    (h : line.Behind old text) (hused : line.used < lineSize) {added : List UInt8}
    (hadded : added ≠ []) (hshort : added.length < 2 ^ 63) :
    ∃ out, snprintf 0 line.out line.used (subSize lineSize line.used) added = some out ∧
      Line.Behind old (text ++ added)
        ⟨out, (line.used + added.length) % 2 ^ 64, line.reached ++ [line.used]⟩ := by
  obtain ⟨hlength, rest, hout, hrest⟩ := h.split hused
  have hsize : lineSize = 160 := rfl
  have hroom : subSize lineSize line.used = lineSize - text.length := by
    rw [subSize_of_le (by omega) (by decide), hlength]
  obtain ⟨rest', hwrite, hrest'⟩ := snprintf_append 0 text rest added
    (by omega : 0 < lineSize - text.length) (by omega)
  have hmod : (line.used + added.length) % 2 ^ 64 = (text ++ added).length := by
    rw [Nat.mod_eq_of_lt (by omega), List.length_append, hlength]
  refine ⟨text ++ added.take (lineSize - text.length - 1) ++ 0 :: rest', ?_, ?_, ?_, ?_,
    .inl hmod, ?_⟩
  · rw [hroom, hout, hlength]
    exact hwrite
  · intro hnil
    exact absurd (List.append_eq_nil_iff.mp hnil).2 hadded
  · intro _
    have htake : (text ++ added).take (lineSize - 1) =
        text ++ added.take (lineSize - text.length - 1) := by
      rw [List.take_append, List.take_of_length_le (by omega)]
      congr 2
      omega
    exact ⟨rest', by rw [htake]⟩
  · simp only [List.length_append, List.length_cons]
    omega
  · intro used hmem
    rcases List.mem_append.mp hmem with hmem | hmem
    · exact h.reached used hmem
    · rw [List.mem_singleton.mp hmem]
      exact hused

/-- A full line stays as it is, whatever would be added to its text. -/
theorem Line.Behind.full {old : LineBuffer} {text : List UInt8} {line : Line}
    (h : line.Behind old text) (hover : line.used ≥ lineSize) (added : List UInt8) :
    line.Behind old (text ++ added) := by
  have hsize : lineSize = 160 := rfl
  have hfull : lineSize ≤ text.length := by
    rcases h.used with hused | ⟨-, hfull⟩
    · omega
    · exact hfull
  have htext : text ≠ [] := by
    rintro rfl
    exact absurd hfull (by decide)
  have htake : (text ++ added).take (lineSize - 1) = text.take (lineSize - 1) :=
    List.take_append_of_le_length (by omega)
  refine ⟨fun hnil => absurd (List.append_eq_nil_iff.mp hnil).1 htext, fun _ => ?_, h.length_eq,
    .inr ⟨hover, ?_⟩, h.reached⟩
  · rw [htake]
    exact h.written htext
  · rw [List.length_append]
    omega

/-- A piece is appended if there is room, and the line then shows the longer text. -/
theorem Line.appendSep_behind {old : LineBuffer} {text : List UInt8} {line : Line}
    (h : line.Behind old text) (piece : Option (List UInt8))
    (hpiece : ∀ p, piece = some p → p.length < 2 ^ 62) :
    ∃ line', line.appendSep lineSize piece = some line' ∧
      line'.Behind old (text ++ addition text piece) := by
  cases piece with
  | none => exact ⟨line, rfl, by rwa [addition, List.append_nil]⟩
  | some piece =>
    have hshort := hpiece piece rfl
    by_cases hempty : piece = []
    · refine ⟨line, by rw [appendSep, if_pos (.inl hempty)], ?_⟩
      rwa [addition, if_pos hempty, List.append_nil]
    by_cases hover : line.used ≥ lineSize
    · exact ⟨line, by rw [appendSep, if_pos (.inr hover)], h.full hover _⟩
    · have hused : line.used < lineSize := by omega
      have hzero : line.used ≠ 0 ↔ text ≠ [] := by
        rw [(h.split hused).1]
        exact not_congr List.length_eq_zero_iff
      have haddition : addition text (some piece) =
          if line.used ≠ 0 then sep ++ piece else piece := by
        rw [addition, if_neg hempty]
        by_cases htext : text = []
        · rw [if_pos htext, if_neg (by simpa [hzero] using htext)]
        · rw [if_neg htext, if_pos (hzero.mpr htext)]
      have hne : addition text (some piece) ≠ [] := by
        rw [haddition]
        split_ifs
        · simp [hempty]
        · exact hempty
      have hlength : (addition text (some piece)).length < 2 ^ 63 := by
        have hsep : sep.length = 3 := by decide
        rw [haddition]
        split_ifs
        · rw [List.length_append]
          omega
        · omega
      obtain ⟨out, hwrite, hbehind⟩ := h.write hused hne hlength
      refine ⟨_, ?_, hbehind⟩
      have hnot : ¬ (piece = [] ∨ line.used ≥ lineSize) := by
        rintro (hnil | hge)
        · exact hempty hnil
        · exact hover hge
      rw [haddition] at hwrite ⊢
      simp only [appendSep, if_neg hnot, hwrite, Option.map_some]

/-- The pieces are appended one after the other. -/
theorem Line.foldlM_behind {old : LineBuffer} (pieces done : List (Option (List UInt8)))
    {line : Line} (h : line.Behind old (joined done))
    (hpieces : ∀ p, some p ∈ pieces → p.length < 2 ^ 62) :
    ∃ line', pieces.foldlM (Line.appendSep lineSize) line = some line' ∧
      line'.Behind old (joined (done ++ pieces)) := by
  induction pieces generalizing done line with
  | nil => exact ⟨line, rfl, by rwa [List.append_nil]⟩
  | cons piece pieces ih =>
    obtain ⟨mid, hmid, hbehind⟩ := Line.appendSep_behind h piece fun p hp =>
      hpieces p (hp ▸ List.mem_cons_self)
    rw [← joined_concat] at hbehind
    obtain ⟨line', hline', hbehind'⟩ := ih (done ++ [piece]) hbehind fun p hp =>
      hpieces p (List.mem_cons_of_mem _ hp)
    refine ⟨line', ?_, by rwa [List.append_assoc] at hbehind'⟩
    rw [List.foldlM_cons, hmid]
    exact hline'

/-- The line is the joined pieces, cut to what it can hold, with a NUL behind them. -/
def Line.Shows (line : Line) (pieces : List (Option (List UInt8))) : Prop :=
  line.out.length = lineSize ∧ ∃ rest, line.out = (joined pieces).take (lineSize - 1) ++ 0 :: rest

/-- A line that was empty shows its text, be it empty or not. -/
theorem Line.Behind.shows {old : LineBuffer} {pieces : List (Option (List UInt8))} {line : Line}
    (h : line.Behind old (joined pieces)) (hcleared : old.Cleared) : line.Shows pieces := by
  refine ⟨h.length_eq, ?_⟩
  by_cases htext : joined pieces = []
  · obtain ⟨rest, hrest⟩ : ∃ rest, old.bytes = 0 :: rest := List.head?_eq_some_iff.mp hcleared
    exact ⟨rest, by rw [h.untouched htext, hrest, htext]; rfl⟩
  · exact h.written htext

/-- A line is formatted within its bounds. -/
theorem Line.format_behind (old : LineBuffer) {pieces : List (Option (List UInt8))}
    (hpieces : ∀ p, some p ∈ pieces → p.length < 2 ^ 62) :
    ∃ line, Line.format old pieces = some line ∧ line.Behind old (joined pieces) :=
  Line.foldlM_behind pieces [] (Line.behind_nil old) hpieces

/-! ## The lines as strings -/

/-- The line and the count of the string model behind some pieces. -/
theorem foldl_appendSep (pieces : List (List UInt8)) (done : List (Option (List UInt8)))
    {out : List UInt8 × ℕ} (hout : out.1 = (joined done).take (lineSize - 1))
    (hused : out.2 = (joined done).length ∨ lineSize ≤ out.2 ∧ lineSize ≤ (joined done).length) :
    (pieces.foldl (appendSep 160) out).1 =
      (joined (done ++ pieces.map some)).take (lineSize - 1) := by
  have hsize : lineSize = 160 := rfl
  induction pieces generalizing done out with
  | nil => simpa using hout
  | cons piece pieces ih =>
    have hnext : done ++ (piece :: pieces).map some = (done ++ [some piece]) ++ pieces.map some := by
      simp
    rw [List.foldl_cons, hnext]
    by_cases hempty : piece = []
    · have hjoined : joined (done ++ [some piece]) = joined done := by
        rw [joined_concat, addition, if_pos hempty, List.append_nil]
      rw [appendSep, if_pos (.inl (by simp [hempty]))]
      exact ih _ (by rw [hjoined]; exact hout) (by rw [hjoined]; exact hused)
    have hisEmpty : ¬ piece.isEmpty = true := by simpa using hempty
    by_cases hover : 160 ≤ out.2
    · have hfull : lineSize ≤ (joined done).length := by omega
      rw [appendSep, if_pos (.inr hover)]
      refine ih _ ?_ (.inr ⟨hover, ?_⟩)
      · rw [joined_concat, List.take_append_of_le_length (by omega)]
        exact hout
      · rw [joined_concat, List.length_append]
        omega
    · have hlength : out.2 = (joined done).length := by omega
      have hzero : (out.2 = 0) = (joined done = []) := by
        rw [hlength, List.length_eq_zero_iff]
      have htext : (if out.2 = 0 then piece else lit " | " ++ piece) =
          addition (joined done) (some piece) := by
        rw [addition, if_neg hempty]
        simp only [hzero]
        rfl
      rw [appendSep, if_neg (not_or.mpr ⟨hisEmpty, hover⟩)]
      simp only [htext]
      refine ih _ ?_ (.inl ?_)
      · have hroom : 160 - (joined done).length - 1 = lineSize - 1 - (joined done).length := by omega
        rw [joined_concat, hout, fit, List.take_append, hlength, hroom]
      · rw [joined_concat, List.length_append, hlength]

/-- The string model shows the same text. -/
theorem formatLine_eq (pieces : List (List UInt8)) :
    formatLine pieces = (joined (pieces.map some)).take (lineSize - 1) :=
  foldl_appendSep pieces [] rfl (.inl rfl)

/-- The context with these fields. -/
def LineFields.fill (fields : LineFields) (ctx : Context) : Context :=
  { ctx with
    ip := fields.ip.text
    image := fields.image.text
    buildChannel := fields.buildChannel.text
    connectionLabel := fields.connectionLabel.text
    serialShort := fields.serialShort.text
    uptimeLabel := fields.uptimeLabel.text
    raucSlot := fields.raucSlot.text
    raucBoot := fields.raucBoot.text
    raucUnhealthy := fields.raucUnhealthy }

/-- Pieces that are `NULL` or empty do not matter. -/
theorem joined_congr {pieces pieces' : List (Option (List UInt8))}
    (h : (pieces.filterMap id).filter (· ≠ []) = (pieces'.filterMap id).filter (· ≠ [])) :
    joined pieces = joined pieces' := congrArg sep.intercalate h

theorem LineFields.raucPiece_of_healthy {fields : LineFields} (h : fields.raucUnhealthy = false) :
    fields.raucPiece = [] := by
  rw [raucPiece, h]
  rfl

/-- The string model appends the RAUC piece and the label even where they are empty. -/
theorem LineFields.joined_compactPieces (fields : LineFields) :
    joined fields.compactPieces =
      joined ([fields.connectionLabel.text, fields.debugPiece, fields.ipPiece,
        fields.raucPiece].map some) := by
  apply joined_congr
  cases hrauc : fields.raucUnhealthy with
  | true => by_cases hlabel : fields.connectionLabel.text = [] <;> simp [compactPieces, hlabel, hrauc]
  | false =>
    have hnone := raucPiece_of_healthy hrauc
    by_cases hlabel : fields.connectionLabel.text = [] <;>
      simp [compactPieces, hlabel, hrauc, hnone, List.filter_cons]

theorem LineFields.joined_secondaryPieces (fields : LineFields) :
    joined fields.secondaryPieces =
      joined ([fields.raucPiece, fields.uptimeLabel.text, fields.serialPiece].map some) := by
  apply joined_congr
  cases hrauc : fields.raucUnhealthy with
  | true => simp [secondaryPieces, hrauc]
  | false => simp [secondaryPieces, hrauc, raucPiece_of_healthy hrauc]

/-- The lines in memory are those of the string model. -/
theorem formatDisplayLines_eq (fields : LineFields) (ctx : Context) :
    (formatDisplayLines (fields.fill ctx)).supportingLine =
        (joined fields.supportingPieces).take (lineSize - 1) ∧
      (formatDisplayLines (fields.fill ctx)).compactLine =
        (joined fields.compactPieces).take (lineSize - 1) ∧
      (formatDisplayLines (fields.fill ctx)).secondaryLine =
        (joined fields.secondaryPieces).take (lineSize - 1) := by
  rw [fields.joined_compactPieces, fields.joined_secondaryPieces, ← formatLine_eq,
    ← formatLine_eq, show fields.supportingPieces =
      [fields.debugPiece, fields.ipPiece, fields.osPiece].map some from rfl, ← formatLine_eq]
  simp only [formatDisplayLines, LineFields.fill, List.isEmpty_iff]
  exact ⟨rfl, rfl, rfl⟩

/-! ## The three lines -/

namespace LineFields

variable (ctx : LineFields)

theorem length_ipPiece : ctx.ipPiece.length < 64 := by
  unfold ipPiece
  split_ifs
  · decide
  · exact Nat.lt_of_le_of_lt (length_fit_le _ _) (by decide)

theorem length_osPiece : ctx.osPiece.length < 80 := by
  unfold osPiece
  split_ifs
  · decide
  · exact Nat.lt_of_le_of_lt (length_fit_le _ _) (by decide)

theorem length_debugPiece : ctx.debugPiece.length < 40 := by
  unfold debugPiece
  split_ifs
  · exact Nat.lt_of_le_of_lt (length_fit_le _ _) (by decide)
  · decide

theorem length_raucPiece : ctx.raucPiece.length < 80 := by
  unfold raucPiece
  split_ifs
  all_goals first | exact Nat.lt_of_le_of_lt (length_fit_le _ _) (by decide) | decide

theorem length_serialPiece : ctx.serialPiece.length < 40 := by
  unfold serialPiece
  split_ifs
  · decide
  · exact Nat.lt_of_le_of_lt (length_fit_le _ _) (by decide)

/-- No piece is longer than the array it is in. -/
theorem length_of_mem {p : List UInt8}
    (h : some p ∈ ctx.supportingPieces ++ ctx.compactPieces ++ ctx.secondaryPieces) :
    p.length < 2 ^ 62 := by
  have hip := ctx.length_ipPiece
  have hos := ctx.length_osPiece
  have hdebug := ctx.length_debugPiece
  have hrauc := ctx.length_raucPiece
  have hserial := ctx.length_serialPiece
  have hlabel := ctx.connectionLabel.fits
  have huptime := ctx.uptimeLabel.fits
  simp only [supportingPieces, compactPieces, secondaryPieces] at h
  grind

end LineFields

/-- `format_display_lines` calls `snprintf` only at positions within a line and writes
nothing outside of the lines, whatever they held before; and where they were empty, as the
only caller leaves them, each shows its pieces. -/
theorem formatLines_spec (ctx : LineFields) (supporting compact secondary : LineBuffer) :
    ∃ lines, formatLines ctx supporting compact secondary = some lines ∧
      (∀ used ∈ lines.supportingLine.reached ++ lines.compactLine.reached ++
        lines.secondaryLine.reached, used < lineSize) ∧
      (supporting.Cleared → lines.supportingLine.Shows ctx.supportingPieces) ∧
      (compact.Cleared → lines.compactLine.Shows ctx.compactPieces) ∧
      (secondary.Cleared → lines.secondaryLine.Shows ctx.secondaryPieces) := by
  obtain ⟨line1, hline1, h1⟩ := Line.format_behind supporting fun p hp =>
    ctx.length_of_mem (List.mem_append_left _ (List.mem_append_left _ hp))
  obtain ⟨line2, hline2, h2⟩ := Line.format_behind compact fun p hp =>
    ctx.length_of_mem (List.mem_append_left _ (List.mem_append_right _ hp))
  obtain ⟨line3, hline3, h3⟩ := Line.format_behind secondary fun p hp =>
    ctx.length_of_mem (List.mem_append_right _ hp)
  refine ⟨⟨line1, line2, line3⟩, ?_, ?_, h1.shows, h2.shows, h3.shows⟩
  · simp only [formatLines, hline1, hline2, hline3, Option.bind_eq_bind, Option.bind_some]
    rfl
  · intro used hmem
    rcases List.mem_append.mp hmem with hmem | hmem
    · rcases List.mem_append.mp hmem with hmem | hmem
      · exact h1.reached used hmem
      · exact h2.reached used hmem
    · exact h3.reached used hmem

/-- Lines as `memset` leaves them. -/
def LineBuffer.zeroed : LineBuffer := ⟨List.replicate lineSize 0, List.length_replicate⟩

/-- The fields of a device that is online. -/
def LineFields.online : LineFields where
  ip := ⟨lit "10.0.0.7", by decide +kernel, by decide +kernel⟩
  image := CharArray.empty (by decide)
  buildChannel := ⟨lit "debug", by decide +kernel, by decide +kernel⟩
  connectionLabel := ⟨lit "Online", by decide +kernel, by decide +kernel⟩
  serialShort := CharArray.empty (by decide)
  uptimeLabel := CharArray.empty (by decide)
  raucSlot := CharArray.empty (by decide)
  raucBoot := CharArray.empty (by decide)
  raucUnhealthy := false

theorem formatLines_spec_online :
    ∃ lines, formatLines .online .zeroed .zeroed .zeroed = some lines ∧
      (∀ used ∈ lines.supportingLine.reached ++ lines.compactLine.reached ++
        lines.secondaryLine.reached, used < lineSize) ∧
      lines.supportingLine.Shows LineFields.online.supportingPieces ∧
      lines.compactLine.Shows LineFields.online.compactPieces ∧
      lines.secondaryLine.Shows LineFields.online.secondaryPieces := by
  obtain ⟨lines, hlines, hreached, hsupporting, hcompact, hsecondary⟩ :=
    formatLines_spec .online .zeroed .zeroed .zeroed
  exact ⟨lines, hlines, hreached, hsupporting rfl, hcompact rfl, hsecondary rfl⟩

/-! ## The only caller -/

/-- Nothing has been written to the lines. -/
def Context.NoLines (ctx : Context) : Prop :=
  ctx.supportingLine = [] ∧ ctx.compactLine = [] ∧ ctx.secondaryLine = []

theorem noLines_refreshSource (around : Surroundings) (now : ℕ) (done : List Source)
    (source : Source) {ctx : Context} (h : ctx.NoLines) :
    (refreshSource around now done source ctx).2.NoLines := by
  unfold refreshSource
  generalize resolveSourceUser around.getpwnam source = resolved
  obtain ⟨known, source⟩ := resolved
  cases known with
  | false => exact h
  | true =>
    cases hkind : source.kind with
    | dataplicity =>
      simp only [Bool.not_true, Bool.false_eq_true, if_false, hkind]
      unfold refreshDataplicity
      dsimp only
      repeat' split
      all_goals exact h
    | system =>
      simp only [Bool.not_true, Bool.false_eq_true, if_false, hkind]
      unfold refreshSystem refreshSystemFrom storeSystem
      repeat' split
      all_goals exact h
    | events =>
      simp only [Bool.not_true, Bool.false_eq_true, if_false, hkind]
      unfold refreshEvents
      dsimp only
      repeat' split
      all_goals exact h

/-- No source writes a line. -/
theorem noLines_refreshAll (around : Surroundings) (now : ℕ) (done sources : List Source)
    {ctx : Context} (h : ctx.NoLines) : (refreshAll around now done sources ctx).2.NoLines := by
  induction sources generalizing done ctx with
  | nil => exact h
  | cons source sources ih => exact ih _ (noLines_refreshSource around now done source h)

/-- `faceplate_sources_refresh` clears the context before it asks the sources, so that the lines
are empty when `format_display_lines` gets them. -/
theorem noLines_refreshed (around : Surroundings) (now : ℕ) (sources : List Source) :
    (refreshAll around now [] sources Context.cleared).2.NoLines :=
  noLines_refreshAll around now [] sources ⟨rfl, rfl, rfl⟩

end Faceplate.Feed
