import Faceplate.Font.Genunifont

/-!
# The Unifont renderer

`font_unifont.c` searches the image that the generator wrote. The block of a
codepoint is found by a binary search with a first guess, and its place among the
pixels follows from the block. The search counts in `int`.
-/

namespace Faceplate.Font

/-- `struct kmscon_font_attr`. -/
structure FontAttr where
  bold : Bool
  italic : Bool
  underline : Bool
  height : ℕ
  width : ℕ
  deriving DecidableEq, Repr

/-- A font of this backend: its attributes and the unpacked image. -/
structure UnifontFont where
  attr : FontAttr
  fontData : List UInt8
  deriving DecidableEq, Repr

/-- `kmscon_font_unifont_init` on the linked data; `none` for an error. -/
def fontInit (z : Zlib) (binary : List UInt8) (attr : FontAttr) : Option UnifontFont :=
  if binary.isEmpty then none
  else
    match z.uncompress (binary.drop 4) (LittleEndian.word binary 0 4) with
    | none => none
    | some fontData =>
      let scale := if (attr.height + 8) / 16 = 0 then 1 else (attr.height + 8) / 16
      some ⟨⟨attr.bold, false, false, 16 * scale, 8 * scale⟩, fontData⟩

/-- Entry `i` of the block table. -/
def blockAt (fontData : List UInt8) (i : ℕ) : UnifontGlyphBlock where
  codepoint := LittleEndian.word fontData (4 + 11 * i) 4
  offset := LittleEndian.word fontData (4 + 11 * i + 4) 4
  len := LittleEndian.word fontData (4 + 11 * i + 8) 2
  cwidth := LittleEndian.word fontData (4 + 11 * i + 10) 1

/-- `is_in_block`. -/
def isInBlock (idx : UnifontGlyphBlock) (ch : ℕ) : Bool :=
  idx.codepoint ≤ ch && ch < (idx.codepoint + idx.len) % 2 ^ 32

/-- The loop of `lookup_block`, in at most so many rounds. -/
def lookupLoop (blocks : ℕ → UnifontGlyphBlock) (ch : ℕ) : ℕ → ℤ → ℤ → ℤ → Option ℤ
  | 0, _, _, _ => none
  | rounds + 1, min, max, look =>
    if min < max then
      if isInBlock (blocks look.toNat) ch then some look
      else if ch < (blocks look.toNat).codepoint then
        let max := look - 1
        lookupLoop blocks ch rounds min max (min + (max - min).tdiv 2)
      else
        let min := look + 1
        lookupLoop blocks ch rounds min max (max - (max - min).tdiv 2)
    else if isInBlock (blocks look.toNat) ch then some look
    else some (-1)

/-- An unsigned number of 32 bits as an `int`. -/
def toInt (n : ℕ) : ℤ := if n < 2 ^ 31 then n else n - 2 ^ 32

/-- `lookup_block`; `none` if the search does not come to an end. -/
def lookupBlock (blocks : ℕ → UnifontGlyphBlock) (len ch : ℕ) : Option ℤ :=
  let look := toInt (1 + ch * len % 2 ^ 32 / 0xffff)
  let max := toInt ((len + (2 ^ 32 - 1)) % 2 ^ 32)
  lookupLoop blocks ch (len + 1) 0 max (if max < look then max else look)

/-- `kmscon_font_unifont_has_glyph`. -/
def hasGlyph (font : UnifontFont) (ch : ℕ) : Option Bool :=
  (lookupBlock (blockAt font.fontData) (LittleEndian.word font.fontData 0 4) ch).map
    fun idx => decide (0 ≤ idx)

/-- The bytes of a glyph and its width in cells, read from block `idx`. -/
def glyphAt (fontData : List UInt8) (ch : ℕ) (idx : ℤ) : Option (List UInt8 × ℕ) :=
  if idx < 0 then none
  else
    let block := blockAt fontData idx.toNat
    let data := 4 + LittleEndian.word fontData 0 4 * 11 +
      (block.offset + (ch - block.codepoint) * block.cwidth * 16) % 2 ^ 32
    if fontData.length < data + 16 * block.cwidth then none
    else some ((fontData.drop data).take (16 * block.cwidth), block.cwidth)

/-- What `kmscon_font_unifont_render` gives to `new_glyph`; `some none` if there is no
glyph. -/
def glyphData (font : UnifontFont) (ch : ℕ) : Option (Option (List UInt8 × ℕ)) :=
  (lookupBlock (blockAt font.fontData) (LittleEndian.word font.fontData 0 4) ch).map
    (glyphAt font.fontData ch)

/-- `struct kmscon_glyph`. -/
structure KmsconGlyph where
  doubleWidth : Bool
  width : ℕ
  height : ℕ
  data : List UInt8
  deriving DecidableEq, Repr

/-- `apply_attr`. -/
def applyAttr (c : UInt8) (attr : FontAttr) (lastLine : Bool) : UInt8 :=
  let c := if attr.bold then c ||| (c >>> 1) else c
  if attr.underline && lastLine then 0xff else c

/-- `unfold`. -/
def unfoldBit (val : UInt8) : UInt8 := if val = 0 then 0 else 0xff

/-- One cell of a row of `new_glyph`. -/
def cellRow (attr : FontAttr) (c : UInt8) : List UInt8 :=
  (List.range attr.width).map fun j =>
    unfoldBit (c &&& (1 <<< (7 - j / (attr.height / 16)).toUInt8))

/-- `new_glyph`. -/
def newGlyph (attr : FontAttr) (data : List UInt8) (cwidth : ℕ) : KmsconGlyph where
  doubleWidth := cwidth == 2
  width := cwidth * attr.width
  height := attr.height
  data := (List.range 16).flatMap fun i =>
    let left := cellRow attr (applyAttr (data.getD (cwidth * i) 0) attr (i == 15))
    let row := if cwidth = 2 then
        left ++ cellRow attr (applyAttr (data.getD (cwidth * i + 1) 0) attr (i == 15))
      else left
    (List.replicate (attr.height / 16) row).flatten

/-- `kmscon_font_unifont_render`. -/
def render (font : UnifontFont) (ch : ℕ) : Option (Option KmsconGlyph) :=
  (glyphData font ch).map fun glyph =>
    glyph.map fun (data, cwidth) => newGlyph font.attr data cwidth

end Faceplate.Font
