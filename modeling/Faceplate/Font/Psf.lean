import Mathlib.Algebra.Group.Int.Defs
import Mathlib.Data.List.Basic
import Faceplate.Lib.LittleEndian
import Faceplate.Lib.Loops

/-!
# PC screen fonts

`font/font_psf.c` loads the glyphs of a font from a file and draws them, each bit of a row
as a square of pixels. What it reads of the loaded glyphs follows from four numbers of the
file's header; the code does not check them against each other.
-/

namespace Faceplate.Font

open LittleEndian Loops

/-! ## The file -/

/-- A file that can be opened: its bytes, and what the library finds when it opens it as a
compressed stream, if it can: the bytes of the stream, and whether an error follows them. -/
structure PsfSource where
  plain : List UInt8
  gz : Option (List UInt8 × Bool)

/-- `font_file`, with the place in it. A stream may be compressed and may be broken. -/
structure PsfFile where
  bytes : List UInt8
  gz : Bool
  broken : Bool
  pos : ℕ

/-- A value of type `int`. -/
def int32 (n : ℕ) : ℤ := (n : ℤ).bmod (2 ^ 32)

/-- An `int` as `unsigned int`. -/
def unsigned (ret : ℤ) : ℕ := (ret % 2 ^ 32).toNat

/-- `_fread`: what it returns, and the bytes that are read. `gzread` returns -1 where an
error keeps it from reading them all, and for a size that is no `int`. -/
def PsfFile.read (file : PsfFile) (size : ℕ) : ℤ × List UInt8 × PsfFile :=
  let got := (file.bytes.drop file.pos).take size
  let file' := { file with pos := file.pos + got.length }
  if file.gz ∧ size ≥ 2 ^ 31 then (-1, [], file)
  else if file.gz ∧ file.broken ∧ got.length < size then (-1, got, file')
  else (int32 got.length, got, file')

/-- `FREAD` of four bytes. -/
def PsfFile.read4 (file : PsfFile) : Option (List UInt8 × PsfFile) :=
  let (ret, got, file) := file.read 4
  if ret < 4 then none else some (got, file)

/-- `_fseek` from the start. -/
def PsfFile.seek (file : PsfFile) (pos : ℕ) : PsfFile := { file with pos := pos }

/-- A number of the header. -/
def PsfFile.number (file : PsfFile) : Option (UInt32 × PsfFile) :=
  file.read4.map fun (got, file) => (UInt32.ofNat (value got), file)

/-- The numbers of the header. -/
structure PsfHeader where
  glyphs : UInt32
  step : UInt32
  height : UInt32
  width : UInt32
  deriving DecidableEq

/-- Up to the header: the file is opened again if it is compressed. -/
def psfHeader (src : PsfSource) : Option (PsfHeader × PsfFile) := do
  let (magic, file) ← PsfFile.read4 ⟨src.plain, false, false, 0⟩
  let (magic, file) ←
    if magic.take 2 = [0x1f, 0x8b] then do
      let (bytes, broken) ← src.gz
      PsfFile.read4 ⟨bytes, true, broken, 0⟩
    else some (magic, file)
  match magic with
  | [0x36, 0x04, mode, charsize] =>
    let height := charsize.toUInt32
    return (⟨if mode &&& 0x01 ≠ 0 then 512 else 256, height, height, 8⟩, file)
  | [0x72, 0xb5, 0x4a, 0x86] =>
    let (glyphs, file) ← (file.seek 16).number
    let (step, file) ← file.number
    let (height, file) ← file.number
    let (width, file) ← file.number
    return (⟨glyphs, step, height, width⟩, file)
  | _ => none

/-- Up to the glyphs; `mem` says whether there is memory for them. What `_fread` returns is
compared as an unsigned number. -/
def psfLoad (src : PsfSource) (mem : Bool) : Option (PsfHeader × List UInt8) := do
  let (header, file) ← psfHeader src
  let size := (header.glyphs * header.step).toNat
  if !mem then none
  else
    let (ret, data, _) := file.read size
    if unsigned ret < size then none else some (header, data)

/-! ## The font -/

/-- `psf_font_t`, with the glyph data that has been loaded, and the size in
`struct kmscon_font_attr`. -/
structure PsfFont where
  header : PsfHeader
  scale : UInt32
  data : List UInt8
  width : UInt32
  height : UInt32

/-- How `kmscon_font_psf_init` ends. -/
inductive PsfInit where
  | rejected
  | divisionByZero
  | accepted (font : PsfFont)

/-- `font->scale`, for the height that is asked for; the height of the font is not 0. -/
def psfScale (header : PsfHeader) (asked : UInt32) : UInt32 :=
  let scale := (asked + header.height / 2) / header.height
  if scale = 0 then 1 else scale

/-- The font that is made from a header. -/
def PsfHeader.font (header : PsfHeader) (asked : UInt32) (data : List UInt8) : PsfFont :=
  let scale := psfScale header asked
  ⟨header, scale, data, header.width * scale, header.height * scale⟩

/-- The end of `kmscon_font_psf_init`, when the glyphs have been loaded. -/
def psfFinish (asked : UInt32) : Option (PsfHeader × List UInt8) → PsfInit
  | none => .rejected
  | some (header, data) =>
    if header.height = 0 then .divisionByZero else .accepted (header.font asked data)

/-- `kmscon_font_psf_init`. -/
def kmsconFontPsfInit (src : PsfSource) (mem : Bool) (asked : UInt32) : PsfInit :=
  psfFinish asked (psfLoad src mem)

/-- `readrow`, from an offset. -/
def readrow (data : List UInt8) (off : ℕ) (width : UInt8) : Option UInt32 :=
  let len := (width.toNat + 7) / 8
  let row := (List.range len).foldlM
    (fun (row : UInt32) i => data[off + i]?.map fun byte => (row <<< 8) ||| byte.toUInt32) 0
  row.map fun row => row >>> UInt32.ofNat (len * 8 - width.toNat)

/-- `apply_attr`. -/
def psfApplyAttr (c : UInt32) (bold underline lastLine : Bool) : UInt32 :=
  let c := if bold then c ||| (c >>> 1) else c
  if underline && lastLine then 0xffffffff else c

/-- `unfold`. -/
def unfold (val : UInt32) : UInt8 := if val ≠ 0 then 0xff else 0

/-- One round of `new_glyph`: a row of pixels, `none` if something outside of the loaded data
is read. -/
def glyphRow (font : PsfFont) (bold underline : Bool) (ch : UInt32) (i : ℕ) :
    Option (List UInt8) := do
  let k := UInt32.ofNat i / font.scale
  let row ← readrow font.data
    ((ch * font.header.step).toNat + (k * (font.header.step / font.header.height)).toNat)
    font.header.width.toUInt8
  let c := psfApplyAttr row bold underline (k = font.header.height - 1)
  return (List.range font.width.toNat).map fun j =>
    let l := UInt32.ofNat j / font.scale
    unfold (c &&& (1 <<< (font.header.width - 1 - l)))

/-- `new_glyph`. The memory for the pixels is there. -/
def psfNewGlyph (font : PsfFont) (bold underline : Bool) (ch : UInt32) :
    Option (List (List UInt8)) :=
  (List.range font.height.toNat).mapM (glyphRow font bold underline ch)

/-- `FONT_FULL_BLOCK`. -/
def fontFullBlock : UInt32 := 0x2588

/-- `FONT_VBAR`. -/
def fontVbar : UInt32 := 0x258e

/-- The glyph that `kmscon_font_psf_render` draws for a codepoint. -/
def psfGlyph (glyphs ch : UInt32) : UInt32 :=
  let ch := if ch = fontFullBlock then 219 else if ch = fontVbar then 179 else ch
  if ch ≥ glyphs then 63 else ch

/-- `kmscon_font_psf_render`. -/
def kmsconFontPsfRender (font : PsfFont) (bold underline : Bool) (ch : UInt32) :
    Option (List (List UInt8)) :=
  psfNewGlyph font bold underline (psfGlyph font.header.glyphs ch)

/-! ## Staying inside -/

/-- No division by zero happens, and whatever is rendered, only loaded bytes are read. -/
def PsfSafe (src : PsfSource) (mem : Bool) (asked : UInt32) : Prop :=
  kmsconFontPsfInit src mem asked ≠ .divisionByZero ∧
    ∀ font, kmsconFontPsfInit src mem asked = .accepted font →
      ∀ bold underline ch, (kmsconFontPsfRender font bold underline ch).isSome = true

namespace PsfHeader

/-- The bytes of a row. -/
def rowBytes (header : PsfHeader) : ℕ := (header.width.toNat % 256 + 7) / 8

/-- The rows of pixels that are drawn. -/
def drawn (header : PsfHeader) (asked : UInt32) : ℕ :=
  (header.height * psfScale header asked).toNat

/-- The last row of the font that is drawn. -/
def lastRow (header : PsfHeader) (asked : UInt32) : ℕ :=
  (header.drawn asked - 1) / (psfScale header asked).toNat

/-- Where a glyph starts. -/
def start (header : PsfHeader) (glyph : UInt32) : ℕ :=
  glyph.toNat * header.step.toNat % 2 ^ 32

/-- The header fits the glyph data: its height is not 0, and of every glyph that a codepoint
selects the last row that is drawn ends inside of the data, if anything is drawn at all. -/
def Fits (header : PsfHeader) (asked : UInt32) (loaded : ℕ) : Prop :=
  header.height ≠ 0 ∧ (header.rowBytes = 0 ∨ header.drawn asked = 0 ∨ ∀ ch,
    header.start (psfGlyph header.glyphs ch) +
      header.lastRow asked * (header.step.toNat / header.height.toNat) + header.rowBytes ≤ loaded)

/-- The checks that the loader does not make: a height that is not 0, the replacement glyph, rows
that fit their share of a glyph, and glyphs whose size does not wrap and that have all been
loaded. -/
structure Checked (header : PsfHeader) (loaded : ℕ) : Prop where
  height : header.height ≠ 0
  replacement : 63 < header.glyphs.toNat
  row : header.rowBytes ≤ header.step.toNat / header.height.toNat
  size : header.glyphs.toNat * header.step.toNat < 2 ^ 32
  loaded : loaded = header.glyphs.toNat * header.step.toNat

end PsfHeader

theorem isSome_readrow (data : List UInt8) (off : ℕ) (width : UInt8) :
    (readrow data off width).isSome = true ↔
      (width.toNat + 7) / 8 = 0 ∨ off + (width.toNat + 7) / 8 ≤ data.length := by
  unfold readrow
  rw [Option.isSome_map, isSome_foldlM_map]
  simp only [List.mem_range, isSome_getElem?]
  constructor
  · intro h
    by_cases hlen : (width.toNat + 7) / 8 = 0
    · exact Or.inl hlen
    · have := h ((width.toNat + 7) / 8 - 1) (by omega)
      omega
  · intro h i hi
    omega

section Draw

variable {header : PsfHeader} {asked : UInt32}

/-- The row of the font that is drawn in a row of pixels is one of its rows. -/
theorem row_lt {i : ℕ} (hi : i < header.drawn asked) :
    i / (psfScale header asked).toNat < header.height.toNat := by
  rw [PsfHeader.drawn, UInt32.toNat_mul] at hi
  apply Nat.div_lt_of_lt_mul
  rw [Nat.mul_comm]
  exact Nat.lt_of_lt_of_le hi (Nat.mod_le _ _)

/-- The bytes in front of a row of the font, which do not wrap. -/
theorem row_offset {i : ℕ} (hi : i < header.drawn asked) :
    (UInt32.ofNat i / psfScale header asked * (header.step / header.height)).toNat =
      i / (psfScale header asked).toNat * (header.step.toNat / header.height.toNat) := by
  have hlt : i < 2 ^ 32 := Nat.lt_trans hi (header.height * psfScale header asked).toNat_lt
  have hrow := row_lt hi
  rw [UInt32.toNat_mul, UInt32.toNat_div, UInt32.toNat_div, UInt32.toNat_ofNat_of_lt' hlt]
  apply Nat.mod_eq_of_lt
  have hstep := header.step.toNat_lt
  have hmul := Nat.div_mul_le_self header.step.toNat header.height.toNat
  have hle := Nat.mul_le_mul_right (header.step.toNat / header.height.toNat) (Nat.le_of_lt hrow)
  rw [Nat.mul_comm] at hmul
  omega

/-- A row of pixels is drawn from loaded bytes if the row of the font is loaded. -/
theorem isSome_glyphRow (data : List UInt8) (bold underline : Bool) (ch : UInt32) {i : ℕ}
    (hi : i < header.drawn asked) :
    (glyphRow (header.font asked data) bold underline ch i).isSome = true ↔
      header.rowBytes = 0 ∨ header.start ch + i / (psfScale header asked).toNat *
        (header.step.toNat / header.height.toNat) + header.rowBytes ≤ data.length := by
  have hbytes : (header.width.toUInt8.toNat + 7) / 8 = header.rowBytes := by
    rw [UInt32.toNat_toUInt8]
    rfl
  have hread := isSome_readrow data ((ch * header.step).toNat +
    (UInt32.ofNat i / psfScale header asked * (header.step / header.height)).toNat)
    header.width.toUInt8
  rw [hbytes, row_offset hi, UInt32.toNat_mul] at hread
  rw [PsfHeader.start, ← hread, ← row_offset hi, ← UInt32.toNat_mul]
  unfold glyphRow PsfHeader.font
  simp only
  cases readrow data ((ch * header.step).toNat +
    (UInt32.ofNat i / psfScale header asked * (header.step / header.height)).toNat)
    header.width.toUInt8 <;> simp

/-- A glyph is drawn from loaded bytes if the last row that is drawn ends inside of them. -/
theorem isSome_psfNewGlyph (data : List UInt8) (bold underline : Bool) (ch : UInt32) :
    (psfNewGlyph (header.font asked data) bold underline ch).isSome = true ↔
      header.rowBytes = 0 ∨ header.drawn asked = 0 ∨
        header.start ch + header.lastRow asked * (header.step.toNat / header.height.toNat) +
          header.rowBytes ≤ data.length := by
  have hheight : (header.font asked data).height.toNat = header.drawn asked := rfl
  rw [psfNewGlyph, isSome_mapM, hheight]
  constructor
  · intro h
    by_cases hdrawn : header.drawn asked = 0
    · exact Or.inr (Or.inl hdrawn)
    · have hlast : header.drawn asked - 1 < header.drawn asked := by omega
      have hrow := h _ (List.mem_range.mpr hlast)
      rcases (isSome_glyphRow data bold underline ch hlast).mp hrow with hzero | hfits
      · exact Or.inl hzero
      · exact Or.inr (Or.inr hfits)
  · intro h i hi
    have hi' : i < header.drawn asked := List.mem_range.mp hi
    apply (isSome_glyphRow data bold underline ch hi').mpr
    rcases h with hzero | hzero | hfits
    · exact Or.inl hzero
    · omega
    · right
      have hrow : i / (psfScale header asked).toNat ≤ header.lastRow asked :=
        Nat.div_le_div_right (by omega)
      have := Nat.mul_le_mul_right (header.step.toNat / header.height.toNat) hrow
      omega

/-- What is rendered for every codepoint. -/
theorem rendered_iff (data : List UInt8) :
    (∀ bold underline ch, (kmsconFontPsfRender (header.font asked data) bold underline
      ch).isSome = true) ↔ header.rowBytes = 0 ∨ header.drawn asked = 0 ∨ ∀ ch,
        header.start (psfGlyph header.glyphs ch) + header.lastRow asked *
          (header.step.toNat / header.height.toNat) + header.rowBytes ≤ data.length := by
  have hrender : ∀ bold underline ch, (kmsconFontPsfRender (header.font asked data) bold
      underline ch).isSome = true ↔ header.rowBytes = 0 ∨ header.drawn asked = 0 ∨
        header.start (psfGlyph header.glyphs ch) + header.lastRow asked *
          (header.step.toNat / header.height.toNat) + header.rowBytes ≤ data.length :=
    fun bold underline ch => isSome_psfNewGlyph data bold underline _
  simp only [hrender, forall_const, forall_or_left]

/-- What happens with a file that is loaded. -/
theorem safe_of_load {src : PsfSource} {mem : Bool} {data : List UInt8}
    (hload : psfLoad src mem = some (header, data)) :
    PsfSafe src mem asked ↔ header.Fits asked data.length := by
  rw [PsfHeader.Fits, ← rendered_iff]
  by_cases hheight : header.height = 0
  · have hinit : kmsconFontPsfInit src mem asked = .divisionByZero := by
      rw [kmsconFontPsfInit, hload, psfFinish, if_pos hheight]
    exact iff_of_false (fun h => h.1 hinit) fun h => h.1 hheight
  · have hinit : kmsconFontPsfInit src mem asked = .accepted (header.font asked data) := by
      rw [kmsconFontPsfInit, hload, psfFinish, if_neg hheight]
    constructor
    · rintro ⟨-, h⟩
      exact ⟨hheight, h _ hinit⟩
    · rintro ⟨-, h⟩
      refine ⟨by simp [hinit], fun font hfont => ?_⟩
      obtain rfl := PsfInit.accepted.inj (hinit.symm.trans hfont)
      exact h

/-- The glyph that is drawn is one of the font if the replacement is. -/
theorem psfGlyph_lt {glyphs : UInt32} (h : 63 < glyphs.toNat) (ch : UInt32) :
    (psfGlyph glyphs ch).toNat < glyphs.toNat := by
  unfold psfGlyph
  simp only
  generalize (if ch = fontFullBlock then 219 else if ch = fontVbar then 179 else ch) = glyph
  split_ifs with hge
  · exact h
  · rw [ge_iff_le, UInt32.le_iff_toNat_le] at hge
    omega

theorem fits_of_checked (asked : UInt32) {loaded : ℕ} (h : header.Checked loaded) :
    header.Fits asked loaded := by
  refine ⟨h.height, ?_⟩
  by_cases hdrawn : header.drawn asked = 0
  · exact Or.inr (Or.inl hdrawn)
  · refine Or.inr (Or.inr fun ch => ?_)
    have hlast : header.lastRow asked < header.height.toNat :=
      row_lt (by omega : header.drawn asked - 1 < header.drawn asked)
    have hlt := psfGlyph_lt h.replacement ch
    have hglyph := Nat.mul_le_mul_right header.step.toNat (Nat.succ_le_of_lt hlt)
    have hrows := Nat.mul_le_mul_right (header.step.toNat / header.height.toNat)
      (Nat.succ_le_of_lt hlast)
    have hstep := Nat.mul_div_le header.step.toNat header.height.toNat
    rw [Nat.succ_mul] at hglyph hrows
    have hrow := h.row
    have hsize := h.size
    rw [PsfHeader.start, Nat.mod_eq_of_lt (by omega), h.loaded]
    omega

end Draw

/-- A file that is loaded is safe if and only if its header fits the data. -/
theorem psfSafe_iff_of_load (src : PsfSource) (mem : Bool) (asked : UInt32) :
    PsfSafe src mem asked ↔
      ∀ header data, psfLoad src mem = some (header, data) → header.Fits asked data.length := by
  cases hload : psfLoad src mem with
  | none =>
    have hinit : kmsconFontPsfInit src mem asked = .rejected := by
      rw [kmsconFontPsfInit, hload, psfFinish]
    simp [PsfSafe, hinit]
  | some loaded =>
    obtain ⟨header, data⟩ := loaded
    rw [safe_of_load hload]
    constructor
    · rintro h _ _ hsame
      obtain ⟨rfl, rfl⟩ := Prod.mk.inj (Option.some.inj hsame)
      exact h
    · exact fun h => h header data rfl

/-- A font is safe if and only if it is rejected or its header fits what has been loaded; a header
that the loader had checked would fit. -/
theorem psfSafe_iff (src : PsfSource) (mem : Bool) (asked : UInt32) :
    (PsfSafe src mem asked ↔
      ∀ header data, psfLoad src mem = some (header, data) → header.Fits asked data.length) ∧
    ∀ (header : PsfHeader) (loaded : ℕ), header.Checked loaded → header.Fits asked loaded :=
  ⟨psfSafe_iff_of_load src mem asked, fun _ _ h => fits_of_checked asked h⟩

/-- A PSF1 file with rows of no height, and a PSF2 file with a single glyph. -/
def flatFont : PsfSource := ⟨[0x36, 0x04, 0x00, 0x00], none⟩

@[inherit_doc flatFont]
def oneGlyphFont : PsfSource :=
  ⟨[0x72, 0xb5, 0x4a, 0x86] ++ bytes 4 0 ++ bytes 4 32 ++ bytes 4 0 ++ bytes 4 1 ++ bytes 4 16 ++
    bytes 4 16 ++ bytes 4 8 ++ List.replicate 16 0xff, none⟩

/-- The first one makes the program divide by zero. The second one is accepted, and for `A`
the replacement glyph is drawn, which is 992 bytes behind the data. -/
theorem fonts_not_psfSafe : ¬ PsfSafe flatFont true 16 ∧ ¬ PsfSafe oneGlyphFont true 16 := by
  have hflat : psfLoad flatFont true = some (⟨256, 0, 0, 8⟩, []) := by decide +kernel
  have hone : psfLoad oneGlyphFont true =
      some (⟨1, 16, 16, 8⟩, List.replicate 16 0xff) := by decide +kernel
  rw [safe_of_load hflat, safe_of_load hone]
  refine ⟨fun h => h.1 rfl, fun h => ?_⟩
  have hread := (h.2.resolve_left (by decide)).resolve_left (by decide) 0x41
  revert hread
  decide +kernel

end Faceplate.Font
