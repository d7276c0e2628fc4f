import Faceplate.Lib.LittleEndian
import Faceplate.Collector.Basic
import Mathlib.Algebra.Group.Int.Defs
import Mathlib.Algebra.GroupWithZero.Nat

/-!
# The Unifont generator

`genunifont.c` turns a hex font into the image that is linked into the program.
The lines are sorted by codepoint, neighbours of one width are grouped into blocks,
and the image is the number of blocks, the block table, and the pixels of all
glyphs in order. The counters of the source have 8, 16 and 32 bits.
-/

namespace Faceplate.Font

open CString
open Collector (fgets)

/-- `hex_val`. -/
def hexVal (c : UInt8) : UInt8 :=
  if 0x30 ≤ c && c ≤ 0x39 then c - 0x30
  else if 0x61 ≤ c && c ≤ 0x66 then c - 0x61 + 10
  else if 0x41 ≤ c && c ≤ 0x46 then c - 0x41 + 10
  else 0

/-- `struct unifont_glyph`; `len` is the length of `data`. -/
structure UnifontGlyph where
  codepoint : ℕ
  data : List UInt8
  deriving DecidableEq, Repr

/-- `MAX_DATA_SIZE`. -/
def maxDataSize : ℕ := 255

/-- `build_unifont_glyph`; `none` for `-EFAULT`. -/
def buildUnifontGlyph (buf : List UInt8) : Option UnifontGlyph :=
  match strchr 0x3a (cstr buf) with
  | none => none
  | some (digits, rest) =>
    some ⟨digits.foldl (fun val c => (16 * val + (hexVal c).toNat) % 2 ^ 32) 0,
      (rest.takeWhile (· ≠ 0x0a)).take maxDataSize⟩

/-- `get_width`. -/
def getWidth (len : ℕ) : ℕ := if len = 64 then 2 else if len = 32 then 1 else 0

/-- The list of `parse_single_file` with one more glyph; `none` for a codepoint that
is there already. -/
def insertGlyph (list : List UnifontGlyph) (g : UnifontGlyph) : Option (List UnifontGlyph) :=
  -- `last` of the source is the last glyph of the list
  if list.getLast?.any (·.codepoint < g.codepoint) then some (list ++ [g])
  else
    let before := list.takeWhile (·.codepoint < g.codepoint)
    let iter := list.dropWhile (·.codepoint < g.codepoint)
    if iter.head?.any (·.codepoint = g.codepoint) then none else some (before ++ g :: iter)

/-- The loop of `parse_single_file` over the lines, in at most so many rounds. -/
def parseLines : ℕ → List UInt8 → List UnifontGlyph → Option (List UnifontGlyph)
  | 0, _, list => some list
  | rounds + 1, content, list =>
    if content.isEmpty then some list
    else
      let (line, rest) := fgets (maxDataSize - 1) content
      if (cstr line).head? = some 0x23 then parseLines rounds rest list
      else
        match buildUnifontGlyph line with
        | none => none
        | some g =>
          match insertGlyph list g with
          | none => none
          | some list => parseLines rounds rest list

/-- `struct unifont_glyph_block`. -/
structure UnifontGlyphBlock where
  codepoint : ℕ
  offset : ℕ
  len : ℕ
  cwidth : ℕ
  deriving DecidableEq, Repr

/-- The loop of `gen_blocks`: the blocks from the current one on. -/
def genBlocksLoop : ℕ → UnifontGlyphBlock → List UnifontGlyph → List UnifontGlyphBlock
  | _, block, [] => [block]
  | offset, block, g :: rest =>
    if block.cwidth = getWidth g.data.length ∧
        g.codepoint = (block.codepoint + block.len) % 2 ^ 32 then
      genBlocksLoop offset { block with len := (block.len + 1) % 2 ^ 16 } rest
    else
      let offset := (offset + block.len * 16 * block.cwidth) % 2 ^ 32
      block :: genBlocksLoop offset ⟨g.codepoint, offset, 1, getWidth g.data.length⟩ rest

/-- `gen_blocks`; without a glyph it follows a null pointer. -/
def genBlocks : List UnifontGlyph → Option (List UnifontGlyphBlock)
  | [] => none
  | g :: rest =>
    some (genBlocksLoop 0 ⟨g.codepoint, 0, 0, getWidth g.data.length⟩ (g :: rest))

/-- A block as it is stored, packed. -/
def UnifontGlyphBlock.bytes (b : UnifontGlyphBlock) : List UInt8 :=
  LittleEndian.bytes 4 b.codepoint ++ LittleEndian.bytes 4 b.offset ++
    LittleEndian.bytes 2 b.len ++ LittleEndian.bytes 1 b.cwidth

/-- The bytes that two hex digits each stand for. The field behind an odd last one is
zero. -/
def packData : List UInt8 → List UInt8
  | [] => []
  | [c] => [hexVal c <<< 4 ||| hexVal 0]
  | c :: d :: rest => (hexVal c <<< 4 ||| hexVal d) :: packData rest

/-- The buffer that `pack_glyph` fills: `none` if there is nothing to write, or if
more is written than was allocated. -/
def packGlyph (list : List UnifontGlyph) : Option (List UInt8) :=
  match genBlocks list with
  | none => none
  | some blocks =>
    let nBlocks := blocks.length % 2 ^ 32
    if nBlocks = 0 then none
    else
      let size := (4 + nBlocks * 11 + (list.map (·.data.length / 2)).sum) % 2 ^ 32
      let buf := LittleEndian.bytes 4 nBlocks ++
        (blocks.take nBlocks).flatMap UnifontGlyphBlock.bytes ++
        list.flatMap (fun g => packData g.data)
      if size < buf.length then none else some buf

/-- zlib. `stream` is the whole stream for some data. It is unpacked to the data again if
their size is known, and a stream that is cut off is not unpacked. -/
structure Zlib where
  stream : List UInt8 → List UInt8
  uncompress : List UInt8 → ℕ → Option (List UInt8)
  inverse : ∀ buf, uncompress (stream buf) buf.length = some buf
  incomplete : ∀ buf n, n < (stream buf).length →
    uncompress ((stream buf).take n) buf.length = none

/-- `compress` into `len` bytes: whether it returns `Z_OK`, and what it leaves there. With
too little room it stops when the destination is full, and returns `Z_BUF_ERROR`. -/
def Zlib.compress (z : Zlib) (len : ℕ) (buf : List UInt8) : Bool × List UInt8 :=
  (decide ((z.stream buf).length ≤ len), (z.stream buf).take len)

/-- `compress_and_write`. -/
def compressAndWrite (z : Zlib) (buf : List UInt8) : List UInt8 :=
  -- the destination is as large as the data, and the result is not looked at
  let (_, zbuf) := z.compress buf.length buf
  LittleEndian.bytes 4 buf.length ++ zbuf

/-- `parse_single_file`: what it writes, or `none` if it fails or writes nothing. -/
def parseSingleFile (z : Zlib) (content : List UInt8) : Option (List UInt8) :=
  if content.isEmpty then none
  else
    match parseLines content.length content [] with
    | none => none
    | some list => (packGlyph list).map (compressAndWrite z)

end Faceplate.Font
