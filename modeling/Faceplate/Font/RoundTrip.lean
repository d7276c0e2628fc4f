import Faceplate.Font.HexFile
import Faceplate.Font.Lookup
import Mathlib.Data.List.Sort

/-!
# From the hex font to the glyph

The image of a hex font is searched and read back: each codepoint of the file gives
the bytes and the width of its line, and no other codepoint gives a glyph. That
holds unless the image outgrows 32 bits, or zlib makes it larger than it is, or the
font has the last codepoint of all, whose block ends where the renderer's sum is 0
again.
-/

namespace Faceplate.Font

/-- The bytes that the image of a file takes: a counter, a block of 11 bytes for each
line that starts a run, and the pixels of all lines. -/
def HexFile.imageSize (f : HexFile) : ℕ :=
  4 + 11 * f.lines.countP (fun l =>
      ¬∃ l' ∈ f.lines, l'.codepoint + 1 = l.codepoint ∧ l'.width = l.width) +
    (f.lines.map fun l => 16 * l.width).sum

/-- The generator writes an image for the file that loads, and the renderer finds in
it the lines of the file and nothing else. -/
def RoundTrips (z : Zlib) (attr : FontAttr) (f : HexFile) : Prop :=
  ∃ binary font, parseSingleFile z f.text = some binary ∧ fontInit z binary attr = some font ∧
    (∀ l ∈ f.lines, glyphData font l.codepoint = some (some (l.bytes, l.width)) ∧
      hasGlyph font l.codepoint = some true) ∧
    ∀ ch < 2 ^ 32, (∀ l ∈ f.lines, l.codepoint ≠ ch) →
      render font ch = some none ∧ hasGlyph font ch = some false

theorem shiftLeft_or {a b : UInt8} (ha : a.toNat < 16) (hb : b.toNat < 16) :
    a <<< 4 ||| b = 16 * a + b := by
  apply UInt8.toNat_inj.mp
  have hor : a.toNat <<< 4 + b.toNat = a.toNat <<< 4 ||| b.toNat :=
    Nat.shiftLeft_add_eq_or_of_lt (by omega) _
  have hshift : a.toNat <<< 4 = 16 * a.toNat := by omega
  have hlow : a.toNat <<< 4 % 2 ^ 8 = a.toNat <<< 4 := Nat.mod_eq_of_lt (by omega)
  simp only [UInt8.toNat_or, UInt8.toNat_shiftLeft, UInt8.reduceToNat, UInt8.toNat_add,
    UInt8.toNat_mul]
  rw [hlow, ← hor]
  omega

/-- The packed data of a glyph are the bytes its digits spell. -/
theorem packData_eq {data : List UInt8} (heven : data.length % 2 = 0) :
    packData data = (List.range (data.length / 2)).map fun k =>
      16 * hexVal (data.getD (2 * k) 0) + hexVal (data.getD (2 * k + 1) 0) := by
  induction data using packData.induct with
  | case1 => rfl
  | case2 c => simp at heven
  | case3 c d rest ih =>
    have hlen : (c :: d :: rest).length / 2 = rest.length / 2 + 1 := by
      simp only [List.length_cons]
      omega
    rw [packData, ih (by simp only [List.length_cons] at heven; omega), hlen,
      List.range_succ_eq_map, List.map_cons, List.map_map,
      shiftLeft_or (hexVal_le c) (hexVal_le d)]
    rfl

theorem HexLine.packData_glyph (l : HexLine) : packData l.glyph.data = l.bytes :=
  packData_eq (by
    rw [HexLine.glyph]
    rcases l.pixels_len with h | h <;> rw [h])

theorem HexLine.codepoint_glyph (l : HexLine) : l.glyph.codepoint = l.codepoint := rfl

/-- The fields of a block fit where they are stored. -/
structure UnifontGlyphBlock.Fits (b : UnifontGlyphBlock) : Prop where
  codepoint : b.codepoint < 2 ^ 32
  offset : b.offset < 2 ^ 32
  len : b.len < 2 ^ 16
  cwidth : b.cwidth ≤ 2

/-- The image with these blocks. -/
def image (blocks : List UnifontGlyphBlock) (glyphs : List UnifontGlyph) : List UInt8 :=
  LittleEndian.bytes 4 blocks.length ++ blocks.flatMap UnifontGlyphBlock.bytes ++ pixels glyphs

theorem UnifontGlyphBlock.length_bytes (b : UnifontGlyphBlock) : b.bytes.length = 11 := by
  simp [UnifontGlyphBlock.bytes]

theorem length_table (blocks : List UnifontGlyphBlock) :
    (blocks.flatMap UnifontGlyphBlock.bytes).length = 11 * blocks.length := by
  induction blocks with
  | nil => rfl
  | cons b blocks ih =>
    rw [List.flatMap_cons, List.length_append, b.length_bytes, ih, List.length_cons]
    omega

theorem length_image (blocks : List UnifontGlyphBlock) (glyphs : List UnifontGlyph) :
    (image blocks glyphs).length = 4 + 11 * blocks.length + (pixels glyphs).length := by
  rw [image, List.length_append, List.length_append, LittleEndian.length_bytes, length_table]

/-- The number of blocks is read back. -/
theorem word_image {blocks : List UnifontGlyphBlock} (h : blocks.length < 2 ^ 32)
    (glyphs : List UnifontGlyph) :
    LittleEndian.word (image blocks glyphs) 0 4 = blocks.length := by
  refine LittleEndian.word_of_drop h
    (?_ : _ = _ ++ (blocks.flatMap UnifontGlyphBlock.bytes ++ pixels glyphs))
  rw [List.drop_zero, image, List.append_assoc]

/-- Each block is read back. -/
theorem blockAt_image {blocks : List UnifontGlyphBlock} (glyphs : List UnifontGlyph) {i : ℕ}
    (hi : i < blocks.length) (hfits : (blocks[i]).Fits) :
    blockAt (image blocks glyphs) i = blocks[i] := by
  have hsplit : blocks = blocks.take i ++ blocks[i] :: blocks.drop (i + 1) := by
    rw [← List.drop_eq_getElem_cons hi, List.take_append_drop]
  have hdrop : ∃ rest, (image blocks glyphs).drop (4 + 11 * i) = (blocks[i]).bytes ++ rest := by
    refine ⟨(blocks.drop (i + 1)).flatMap UnifontGlyphBlock.bytes ++ pixels glyphs, ?_⟩
    have hlen : 4 + 11 * i = (LittleEndian.bytes 4 blocks.length ++
        (blocks.take i).flatMap UnifontGlyphBlock.bytes).length := by
      rw [List.length_append, LittleEndian.length_bytes, length_table, List.length_take,
        Nat.min_eq_left hi.le]
    have himage : image blocks glyphs = (LittleEndian.bytes 4 blocks.length ++
        (blocks.take i).flatMap UnifontGlyphBlock.bytes) ++ ((blocks[i]).bytes ++
          ((blocks.drop (i + 1)).flatMap UnifontGlyphBlock.bytes ++ pixels glyphs)) := by
      have htable := congrArg (List.flatMap UnifontGlyphBlock.bytes) hsplit
      rw [List.flatMap_append, List.flatMap_cons] at htable
      simp only [image, htable, List.append_assoc]
    rw [himage, hlen, List.drop_left]
  obtain ⟨rest, hdrop⟩ := hdrop
  have hfield : ∀ (k n : ℕ) (pre post : List UInt8) (v : ℕ), pre.length = k → v < 256 ^ n →
      (blocks[i]).bytes ++ rest = pre ++ (LittleEndian.bytes n v ++ post) →
      LittleEndian.word (image blocks glyphs) (4 + 11 * i + k) n = v := by
    intro k n pre post v hk hv heq
    refine LittleEndian.word_of_drop hv (?_ : _ = _ ++ post)
    rw [← List.drop_drop, hdrop, heq, ← hk, List.drop_left]
  have hcwidth := hfits.cwidth
  have h1 := hfield 0 4 [] _ blocks[i].codepoint rfl hfits.codepoint
    (by rw [UnifontGlyphBlock.bytes, List.append_assoc, List.append_assoc, List.append_assoc]; rfl)
  have h2 := hfield 4 4 (LittleEndian.bytes 4 blocks[i].codepoint) _ blocks[i].offset (by simp)
    hfits.offset
    (by rw [UnifontGlyphBlock.bytes, List.append_assoc, List.append_assoc, List.append_assoc])
  have h3 := hfield 8 2 (LittleEndian.bytes 4 blocks[i].codepoint ++
    LittleEndian.bytes 4 blocks[i].offset) _ blocks[i].len (by simp) hfits.len
    (by rw [UnifontGlyphBlock.bytes, List.append_assoc, List.append_assoc])
  have h4 := hfield 10 1 (LittleEndian.bytes 4 blocks[i].codepoint ++
    LittleEndian.bytes 4 blocks[i].offset ++ LittleEndian.bytes 2 blocks[i].len) rest
    blocks[i].cwidth (by simp) (by omega)
    (by rw [UnifontGlyphBlock.bytes, List.append_assoc])
  rw [Nat.add_zero] at h1
  simp only [blockAt, h1, h2, h3, h4]

section Image

variable {f : HexFile} {glyphs : List UnifontGlyph}

/-- A glyph of the file starts a block if its line starts a run. -/
theorem HexFile.Glyphs.joins_iff (h : f.Glyphs glyphs) (l : HexLine) :
    Joins glyphs l.glyph ↔
      ∃ l' ∈ f.lines, l'.codepoint + 1 = l.codepoint ∧ l'.width = l.width := by
  constructor
  · rintro ⟨g', hg', hcp, hw⟩
    obtain ⟨l', hl', rfl⟩ := List.mem_map.mp (h.perm.mem_iff.mp hg')
    exact ⟨l', hl', hcp, by rw [← l'.cwidth_glyph, ← l.cwidth_glyph, hw]⟩
  · rintro ⟨l', hl', hcp, hw⟩
    have hmem : l'.glyph ∈ glyphs := h.perm.mem_iff.mpr (List.mem_map.mpr ⟨l', hl', rfl⟩)
    exact ⟨l'.glyph, hmem, hcp, by rw [l'.cwidth_glyph, l.cwidth_glyph, hw]⟩

theorem HexFile.Glyphs.length_pixels (h : f.Glyphs glyphs) :
    (pixels glyphs).length = (f.lines.map fun l => 16 * l.width).sum := by
  have hsum : (glyphs.map fun g => 16 * g.cwidth).sum =
      (f.lines.map fun l => 16 * l.width).sum := by
    rw [(h.perm.map fun g => 16 * g.cwidth).sum_nat, List.map_map]
    simp only [Function.comp_def, HexLine.cwidth_glyph]
  rw [← hsum, pixels, List.length_flatMap]
  refine congrArg List.sum (List.map_congr_left ?_)
  intro g hg
  exact length_packData_of_cwidth (h.sorted.data g hg)

/-- The image of the generator has the size that the lines of the file give. -/
theorem HexFile.Glyphs.length_image (h : f.Glyphs glyphs) {blocks : List UnifontGlyphBlock}
    (hblocks : blocks.length = glyphs.countP fun g => ¬Joins glyphs g) :
    (image blocks glyphs).length = f.imageSize := by
  have hcount : blocks.length = f.lines.countP (fun l =>
      ¬∃ l' ∈ f.lines, l'.codepoint + 1 = l.codepoint ∧ l'.width = l.width) := by
    rw [hblocks, h.perm.countP_eq, List.countP_map]
    refine List.countP_congr ?_
    intro l _
    simp only [Function.comp_apply, decide_eq_true_eq, h.joins_iff l]
  rw [Font.length_image, h.length_pixels, hcount, HexFile.imageSize]

theorem HexFile.Glyphs.sum_half (h : f.Glyphs glyphs) :
    (glyphs.map (·.data.length / 2)).sum = (pixels glyphs).length := by
  rw [pixels, List.length_flatMap]
  refine congrArg List.sum (List.map_congr_left ?_)
  intro g hg
  have hdata := h.sorted.data g hg
  rw [length_packData]
  omega

theorem length_le_pixels {glyphs : List UnifontGlyph}
    (h : ∀ g ∈ glyphs, g.data.length = 32 ∨ g.data.length = 64) :
    16 * glyphs.length ≤ (pixels glyphs).length := by
  induction glyphs with
  | nil => simp
  | cons g rest ih =>
    have hrest := ih fun g' hg' => h g' (List.mem_cons_of_mem _ hg')
    have hdata := h g List.mem_cons_self
    simp only [pixels, List.flatMap_cons, List.length_append, List.length_cons,
      length_packData] at hrest ⊢
    omega

/-- The glyphs of the lines by codepoint. -/
def HexFile.inOrder (f : HexFile) : List UnifontGlyph :=
  (f.lines.map HexLine.glyph).insertionSort fun g g' => g.codepoint ≤ g'.codepoint

/-- The image of a file: a block for each run of its lines, and the pixels of all lines by
codepoint. -/
def HexFile.image (f : HexFile) : List UInt8 :=
  Font.image (runBlocks 0 (f.inOrder.splitBy goesOn)) f.inOrder

theorem HexFile.Glyphs.ne_nil (h : f.Glyphs glyphs) : glyphs ≠ [] := by
  rintro rfl
  exact f.nonempty (List.map_eq_nil_iff.mp (List.nil_perm.mp h.perm))

theorem HexFile.Glyphs.eq_inOrder (h : f.Glyphs glyphs) : glyphs = f.inOrder := by
  have hle : Std.Total fun g g' : UnifontGlyph => g.codepoint ≤ g'.codepoint :=
    ⟨fun g g' => Nat.le_total _ _⟩
  have htrans : IsTrans UnifontGlyph fun g g' => g.codepoint ≤ g'.codepoint :=
    ⟨fun _ _ _ => Nat.le_trans⟩
  have hsorted : glyphs.Pairwise fun g g' => g.codepoint ≤ g'.codepoint :=
    h.sorted.sorted.imp Nat.le_of_lt
  have hperm : glyphs.Perm f.inOrder := h.perm.trans (List.perm_insertionSort _ _).symm
  have hnodup : (glyphs.map (·.codepoint)).Nodup :=
    List.pairwise_map.mpr (h.sorted.sorted.imp Nat.ne_of_lt)
  refine hperm.eq_of_pairwise ?_ hsorted (List.pairwise_insertionSort _ _)
  intro g g' hg hg' hle hge
  exact List.inj_on_of_nodup_map hnodup hg (hperm.mem_iff.mpr hg') (Nat.le_antisymm hle hge)

/-- The generator packs the file if and only if the image fits in 32 bits. -/
theorem HexFile.Glyphs.packGlyph_eq (h : f.Glyphs glyphs) (hne : glyphs ≠ []) :
    ∃ blocks, Tiles 0 blocks glyphs ∧ Font.image blocks glyphs = f.image ∧
      f.image.length = f.imageSize ∧
      packGlyph glyphs = if f.imageSize < 2 ^ 32 then some f.image else none := by
  obtain ⟨blocks, hgen, htiles, hcount⟩ := genBlocks_spec hne h.sorted
  have himage : Font.image blocks glyphs = f.image := by
    have hruns := Option.some.inj (hgen.symm.trans (genBlocks_runs hne h.sorted))
    rw [hruns, HexFile.image, ← h.eq_inOrder]
  have hlen := h.length_image hcount
  refine ⟨blocks, htiles, himage, himage ▸ hlen, ?_⟩
  rw [← himage]
  have hsize := Font.length_image blocks glyphs
  have hpixels := length_le_pixels h.sorted.data
  have hle : blocks.length ≤ glyphs.length := hcount ▸ List.countP_le_length
  simp only [packGlyph, hgen, h.sum_half]
  rw [hlen] at hsize
  by_cases hmany : blocks.length < 2 ^ 32
  · have hpos : blocks.length ≠ 0 := by
      intro hzero
      rw [List.eq_nil_of_length_eq_zero hzero] at htiles
      exact hne htiles
    have hbuf := hlen
    simp only [Font.image, pixels] at hbuf
    rw [Nat.mod_eq_of_lt hmany, if_neg hpos, List.take_length, hbuf]
    split_ifs with hover hfits hfits
    · omega
    · rfl
    · rfl
    · omega
  · -- then the pixels alone are too many
    have hover : ¬f.imageSize < 2 ^ 32 := by omega
    rw [if_neg hover]
    split_ifs with hzero hlt
    · rfl
    · rfl
    · exfalso
      apply hlt
      refine (Nat.mod_lt _ (by decide)).trans_le ?_
      rw [List.length_append]
      have : (pixels glyphs).length = (glyphs.flatMap fun g => packData g.data).length := rfl
      omega

theorem getWidth_le (len : ℕ) : getWidth len ≤ 2 := by
  simp only [getWidth]
  split_ifs <;> omega

/-- The blocks of a sorted font fit where they are stored. -/
theorem Tiles.fits {blocks : List UnifontGlyphBlock} {offset : ℕ}
    (h : Tiles offset blocks glyphs) (hsorted : Sorted glyphs) {b : UnifontGlyphBlock}
    (hb : b ∈ blocks) (hoffset : b.offset < 2 ^ 32) : b.Fits := by
  obtain ⟨pre, seg, rest, rfl, hspan⟩ := h.exists_spans hb
  have hpos : 0 < seg.length := List.length_pos_iff.mpr hspan.nonempty
  obtain ⟨hcp, hw⟩ := hspan.entry 0 hpos
  refine ⟨?_, hoffset, hspan.len_lt hsorted, ?_⟩
  · have hrange := hsorted.range seg[0] (by simp)
    omega
  · rw [← hw]
    exact getWidth_le _

theorem Tiles.offset_lt {blocks : List UnifontGlyphBlock} {offset : ℕ}
    (h : Tiles offset blocks glyphs) {b : UnifontGlyphBlock} (hb : b ∈ blocks) :
    b.offset < 2 ^ 32 := by
  induction blocks generalizing offset glyphs with
  | nil => simp at hb
  | cons head blocks ih =>
    obtain ⟨seg, rest, -, -, hoffset, htail⟩ := h
    rcases List.mem_cons.mp hb with rfl | hmem
    · rw [hoffset]
      exact Nat.mod_lt _ (by decide)
    · exact ih htail hmem

/-- The glyph of a block that has it. -/
theorem glyphAt_eq {fontData : List UInt8} {ch k pos : ℕ} {b : UnifontGlyphBlock}
    (hb : blockAt fontData k = b)
    (hpos : (b.offset + (ch - b.codepoint) * b.cwidth * 16) % 2 ^ 32 = pos)
    (hlen : 4 + LittleEndian.word fontData 0 4 * 11 + pos + 16 * b.cwidth ≤ fontData.length) :
    glyphAt fontData ch k = some ((fontData.drop
      (4 + LittleEndian.word fontData 0 4 * 11 + pos)).take (16 * b.cwidth), b.cwidth) := by
  have hnonneg : ¬(k : ℤ) < 0 := by omega
  subst hb hpos
  rw [glyphAt, if_neg hnonneg, Int.toNat_natCast]
  exact if_neg (Nat.not_lt.mpr hlen)

/-- An image that a font was unpacked to. -/
structure Loaded (glyphs : List UnifontGlyph) (blocks : List UnifontGlyphBlock)
    (font : UnifontFont) : Prop where
  sorted : Sorted glyphs
  nonempty : glyphs ≠ []
  tiles : Tiles 0 blocks glyphs
  data : font.fontData = image blocks glyphs
  size : font.fontData.length < 2 ^ 32

section Loaded

variable {blocks : List UnifontGlyphBlock} {font : UnifontFont}

theorem Loaded.size_eq (h : Loaded glyphs blocks font) :
    4 + 11 * blocks.length + (pixels glyphs).length < 2 ^ 32 := by
  rw [← Font.length_image, ← h.data]
  exact h.size

theorem Loaded.len_eq (h : Loaded glyphs blocks font) :
    LittleEndian.word font.fontData 0 4 = blocks.length := by
  have hsize := h.size_eq
  rw [h.data, word_image (by omega)]

theorem Loaded.blockAt_eq (h : Loaded glyphs blocks font) {i : ℕ} (hi : i < blocks.length) :
    blockAt font.fontData i = blocks[i] := by
  have hmem : blocks[i] ∈ blocks := List.getElem_mem _
  rw [h.data]
  exact blockAt_image glyphs hi (h.tiles.fits h.sorted hmem (h.tiles.offset_lt hmem))

/-- The table in the image is in order. -/
theorem Loaded.ordered (h : Loaded glyphs blocks font) :
    Ordered (blockAt font.fontData) blocks.length := by
  intro i j hij hj
  rw [h.blockAt_eq (hij.trans hj), h.blockAt_eq hj]
  exact List.pairwise_iff_getElem.mp (h.tiles.pairwise h.sorted.sorted) i j _ hj hij

/-- The search in the image. -/
theorem Loaded.lookupBlock (h : Loaded glyphs blocks font) (ch : ℕ) :
    ∃ r, lookupBlock (blockAt font.fontData) (LittleEndian.word font.fontData 0 4) ch = some r ∧
      Found (blockAt font.fontData) blocks.length ch r ∧
      ∀ t < blocks.length, isInBlock (blockAt font.fontData t) ch = true → r = t := by
  have hsize := h.size_eq
  have hpos : 0 < blocks.length := by
    apply List.length_pos_iff.mpr
    rintro rfl
    exact h.nonempty h.tiles
  rw [h.len_eq]
  exact lookupBlock_spec h.ordered hpos (by omega) ch

/-- A codepoint without a glyph is reported as missing. -/
theorem Loaded.missing (h : Loaded glyphs blocks font) {ch : ℕ}
    (hch : ∀ g ∈ glyphs, g.codepoint ≠ ch) :
    glyphData font ch = some none ∧ hasGlyph font ch = some false := by
  obtain ⟨r, hr, hfound, -⟩ := h.lookupBlock ch
  have hnone : r = -1 := by
    rcases hfound with hnone | ⟨k, -, hk, hin⟩
    · exact hnone
    · obtain ⟨hge, hlt⟩ := isInBlock_bounds hin
      rw [h.blockAt_eq hk] at hge hlt
      obtain ⟨g, hg, hcp⟩ := h.tiles.exists_glyph (List.getElem_mem hk) hge hlt
      exact absurd hcp (hch g hg)
  subst hnone
  constructor
  · rw [glyphData, hr]
    rfl
  · simp [hasGlyph, hr]

/-- A block ends below 2 ^ 32 if the last codepoint of all is not in the font. -/
theorem Loaded.end_lt (h : Loaded glyphs blocks font)
    (hlast : ∀ g ∈ glyphs, g.codepoint ≠ 2 ^ 32 - 1) {b : UnifontGlyphBlock} (hb : b ∈ blocks) :
    b.codepoint + b.len < 2 ^ 32 := by
  obtain ⟨pre, seg, rest, rfl, hspan⟩ := h.tiles.exists_spans hb
  obtain ⟨l, hl, hend, -⟩ := hspan.last
  have hmem : l ∈ pre ++ (seg ++ rest) := by simp [hl]
  have hrange := h.sorted.range l hmem
  have hne := hlast l hmem
  omega

/-- A glyph is found with its bytes and its width. -/
theorem Loaded.present (h : Loaded glyphs blocks font)
    (hlast : ∀ g ∈ glyphs, g.codepoint ≠ 2 ^ 32 - 1) {g : UnifontGlyph} (hg : g ∈ glyphs) :
    glyphData font g.codepoint = some (some (packData g.data, g.cwidth)) ∧
      hasGlyph font g.codepoint = some true := by
  obtain ⟨block, hblock, before, rest, hge, hlt, hwidth, hoffset, hdrop⟩ :=
    h.tiles.exists_block h.sorted.data hg
  obtain ⟨t, ht, rfl⟩ := List.mem_iff_getElem.mp hblock
  obtain ⟨r, hr, -, hall⟩ := h.lookupBlock g.codepoint
  have hin : isInBlock (blockAt font.fontData t) g.codepoint = true := by
    have hend := h.end_lt hlast hblock
    rw [h.blockAt_eq ht, isInBlock, Nat.mod_eq_of_lt hend]
    simp [hge, hlt]
  have hrt : r = t := hall t ht hin
  subst hrt
  have hsize := h.size_eq
  have hbytes := length_packData_of_cwidth (h.sorted.data g hg)
  have hpos : 0 < g.cwidth := by
    rw [UnifontGlyph.cwidth, getWidth]
    rcases h.sorted.data g hg with hlen | hlen <;> simp [hlen]
  have hroom := congrArg List.length hdrop
  rw [List.length_drop, List.length_append, hbytes] at hroom
  have hplace : (blocks[t].offset + (g.codepoint - blocks[t].codepoint) * blocks[t].cwidth * 16) %
      2 ^ 32 = before + (g.codepoint - blocks[t].codepoint) * blocks[t].cwidth * 16 := by
    rw [hoffset, Nat.zero_add, Nat.mod_add_mod]
    exact Nat.mod_eq_of_lt (by omega)
  have hpixels : font.fontData.drop (4 + blocks.length * 11 +
      (before + (g.codepoint - blocks[t].codepoint) * blocks[t].cwidth * 16)) =
      packData g.data ++ rest := by
    have hhead : 4 + blocks.length * 11 = (LittleEndian.bytes 4 blocks.length ++
        blocks.flatMap UnifontGlyphBlock.bytes).length := by
      rw [List.length_append, LittleEndian.length_bytes, length_table, Nat.mul_comm]
    rw [← List.drop_drop, h.data, image, hhead, List.drop_left, hdrop]
  have hlen : 4 + LittleEndian.word font.fontData 0 4 * 11 +
      (before + (g.codepoint - blocks[t].codepoint) * blocks[t].cwidth * 16) +
        16 * blocks[t].cwidth ≤ font.fontData.length := by
    rw [h.len_eq, h.data, Font.length_image, hwidth]
    rw [hwidth] at hroom
    omega
  constructor
  · rw [glyphData, hr, Option.map_some, glyphAt_eq (h.blockAt_eq ht) hplace hlen, h.len_eq, hpixels,
      hwidth, ← hbytes, List.take_left]
  · simp [hasGlyph, hr]

end Loaded

end Image

/-- The renderer unpacks what the generator wrote if zlib had room for its stream. -/
theorem fontInit_compressAndWrite (z : Zlib) (attr : FontAttr) {buf : List UInt8}
    (hsize : buf.length < 2 ^ 32) :
    (fontInit z (compressAndWrite z buf) attr).map UnifontFont.fontData =
      if (z.stream buf).length ≤ buf.length then some buf else none := by
  have hword : LittleEndian.word (compressAndWrite z buf) 0 4 = buf.length :=
    LittleEndian.word_of_drop hsize (by rw [List.drop_zero, compressAndWrite])
  have hdrop : (compressAndWrite z buf).drop 4 = (z.stream buf).take buf.length := by
    rw [compressAndWrite, List.drop_left' (LittleEndian.length_bytes 4 _), Zlib.compress]
  have hne : (compressAndWrite z buf).isEmpty = false := by
    simp [compressAndWrite, LittleEndian.bytes]
  rw [fontInit, hne, hword, hdrop, if_neg Bool.false_ne_true]
  by_cases hroom : (z.stream buf).length ≤ buf.length
  · rw [if_pos hroom, List.take_of_length_le hroom, z.inverse]
    rfl
  · rw [if_neg hroom, z.incomplete buf _ (Nat.not_le.mp hroom)]
    rfl

/-- The renderer never finds the last codepoint of all. -/
theorem glyphData_last (font : UnifontFont) (glyph : List UInt8 × ℕ) :
    glyphData font (2 ^ 32 - 1) ≠ some (some glyph) := by
  intro h
  obtain ⟨r, hr, hglyph⟩ := Option.map_eq_some_iff.mp h
  have hnonneg : 0 ≤ r := by
    by_contra hneg
    rw [glyphAt, if_pos (Int.not_le.mp hneg)] at hglyph
    exact absurd hglyph.symm (Option.some_ne_none glyph)
  have hin := isInBlock_of_lookupLoop hr hnonneg
  rw [isInBlock_last] at hin
  exact Bool.noConfusion hin

/-- What the generator writes for a file. -/
theorem HexFile.Glyphs.parseSingleFile_eq {f : HexFile} {glyphs : List UnifontGlyph}
    (h : f.Glyphs glyphs) (z : Zlib) :
    parseSingleFile z f.text = (packGlyph glyphs).map (compressAndWrite z) := by
  have hne : f.text.isEmpty = false := by
    have hpos : 0 < f.lines.length := List.length_pos_iff.mpr f.nonempty
    have hlen := length_le_hexText f.lines f.newline
    rw [List.isEmpty_eq_false_iff]
    exact List.length_pos_iff.mp (hpos.trans_le hlen)
  simp only [parseSingleFile, hne, h.parsed, Bool.false_eq_true, if_false]

/-- A file whose image is written, unpacked and searched fits in 32 bits, and zlib has room
for its stream. -/
theorem RoundTrips.fits {z : Zlib} {attr : FontAttr} {f : HexFile} (h : RoundTrips z attr f) :
    f.imageSize < 2 ^ 32 ∧ (z.stream f.image).length ≤ f.imageSize := by
  obtain ⟨binary, font, hparse, hinit, -⟩ := h
  obtain ⟨glyphs, hglyphs⟩ := f.exists_glyphs
  obtain ⟨blocks, -, -, hlen, hpack⟩ := hglyphs.packGlyph_eq hglyphs.ne_nil
  rw [hglyphs.parseSingleFile_eq z, hpack] at hparse
  have hsize : f.imageSize < 2 ^ 32 := by
    by_contra hbig
    rw [if_neg hbig] at hparse
    simp at hparse
  refine ⟨hsize, ?_⟩
  rw [if_pos hsize, Option.map_some, Option.some_inj] at hparse
  have hload := fontInit_compressAndWrite z attr (hlen ▸ hsize)
  rw [hparse, hinit, hlen] at hload
  by_contra hroom
  rw [if_neg hroom] at hload
  simp at hload

/-- The last codepoint of all gets lost. -/
theorem RoundTrips.not_last {z : Zlib} {attr : FontAttr} {f : HexFile}
    (h : RoundTrips z attr f) : ∀ l ∈ f.lines, l.codepoint ≠ 2 ^ 32 - 1 := by
  obtain ⟨binary, font, -, -, hlines, -⟩ := h
  intro l hl hlast
  have hglyph := (hlines l hl).1
  rw [hlast] at hglyph
  exact glyphData_last font _ hglyph

/-- Packing and rendering agree on a hex font if and only if it does not have the last
codepoint of all, its image fits in 32 bits, and zlib does not make the image larger. -/
theorem filesRoundTrip_iff (z : Zlib) (attr : FontAttr) (f : HexFile) :
    RoundTrips z attr f ↔
      (∀ l ∈ f.lines, l.codepoint ≠ 2 ^ 32 - 1) ∧ f.imageSize < 2 ^ 32 ∧
        (z.stream f.image).length ≤ f.imageSize := by
  constructor
  · intro h
    exact ⟨h.not_last, h.fits⟩
  rintro ⟨hlast, hsize, hroom⟩
  obtain ⟨glyphs, h⟩ := f.exists_glyphs
  have hline : ∀ g ∈ glyphs, ∃ l ∈ f.lines, l.glyph = g := fun g hg =>
    List.mem_map.mp (h.perm.mem_iff.mp hg)
  obtain ⟨blocks, htiles, himage, hlen, hpack⟩ := h.packGlyph_eq h.ne_nil
  have hload := fontInit_compressAndWrite z attr (hlen ▸ hsize)
  rw [hlen, if_pos hroom] at hload
  obtain ⟨font, hinit, hdata⟩ := Option.map_eq_some_iff.mp hload
  have hloaded : Loaded glyphs blocks font :=
    ⟨h.sorted, h.ne_nil, htiles, by rw [hdata, himage], by rw [hdata, hlen]; exact hsize⟩
  refine ⟨_, font, by rw [h.parseSingleFile_eq z, hpack, if_pos hsize]; rfl, hinit, ?_, ?_⟩
  · intro l hl
    have hmem : l.glyph ∈ glyphs := h.perm.mem_iff.mpr (List.mem_map.mpr ⟨l, hl, rfl⟩)
    have hnot : ∀ g ∈ glyphs, g.codepoint ≠ 2 ^ 32 - 1 := by
      intro g hg
      obtain ⟨l', hl', rfl⟩ := hline g hg
      exact hlast l' hl'
    have hpresent := hloaded.present hnot hmem
    rwa [l.cwidth_glyph, l.codepoint_glyph, l.packData_glyph] at hpresent
  · intro ch _ hch
    have hnot : ∀ g ∈ glyphs, g.codepoint ≠ ch := by
      intro g hg
      obtain ⟨l, hl, rfl⟩ := hline g hg
      exact hch l hl
    obtain ⟨hglyph, hhas⟩ := hloaded.missing hnot
    refine ⟨?_, hhas⟩
    rw [render, hglyph]
    rfl

/-- The file of one line. -/
def HexLine.file (l : HexLine) : HexFile where
  lines := [l]
  newline := true
  nonempty := by simp
  distinct := by simp
  runs := by
    intro cp w
    by_cases h : l.codepoint = cp
    · refine ⟨1, by decide, ?_⟩
      rintro l' hl' ⟨hcp, -⟩
      rw [List.mem_singleton.mp hl'] at hcp
      omega
    · refine ⟨0, by decide, ?_⟩
      rintro l' hl' ⟨hcp, -⟩
      rw [List.mem_singleton.mp hl'] at hcp
      exact h hcp

/-- `FFFFFFFF:` and a blank glyph. -/
def lastLine : HexLine where
  digits := List.replicate 8 0x46
  pixels := List.replicate 32 0x30
  digits_ne := by decide
  digits_le := by decide
  digits_hex := by decide +kernel
  pixels_hex := by decide +kernel
  pixels_len := by decide +kernel

/-- `0041:0123456789ABCDEFFEDCBA9876543210`. -/
def denseLine : HexLine where
  digits := [0x30, 0x30, 0x34, 0x31]
  pixels := [0x30, 0x31, 0x32, 0x33, 0x34, 0x35, 0x36, 0x37, 0x38, 0x39, 0x41, 0x42, 0x43, 0x44,
    0x45, 0x46, 0x46, 0x45, 0x44, 0x43, 0x42, 0x41, 0x39, 0x38, 0x37, 0x36, 0x35, 0x34, 0x33,
    0x32, 0x31, 0x30]
  digits_ne := by decide
  digits_le := by decide
  digits_hex := by decide +kernel
  pixels_hex := by decide +kernel
  pixels_len := by decide +kernel

/-- What zlib makes of the image of `lastLine`. -/
def lastStream : List UInt8 :=
  [0x78, 0x9c, 0x63, 0x64, 0x60, 0x60, 0xf8, 0x0f, 0x04, 0x40, 0x8a, 0x81, 0x11, 0x08, 0xd1,
    0x00, 0x00, 0x65, 0xfc, 0x04, 0x00]

/-- What zlib makes of the image of `denseLine`. -/
def denseStream : List UInt8 :=
  [0x78, 0x9c, 0x63, 0x64, 0x60, 0x60, 0x70, 0x64, 0x80, 0x00, 0x46, 0x06, 0x46, 0x46, 0x65,
    0xd7, 0xf4, 0xce, 0xd5, 0x67, 0xdf, 0xff, 0xbb, 0xb3, 0x6b, 0x46, 0x59, 0x88, 0x91, 0x00,
    0x00, 0x49, 0x19, 0x08, 0x3d]

/-- zlib on the two images; any other data are stored behind a header. -/
def samplePack (buf : List UInt8) : List UInt8 :=
  if buf = lastLine.file.image then lastStream
  else if buf = denseLine.file.image then denseStream
  else 0x78 :: 0x01 :: buf

def sampleUnpack (data : List UInt8) (size : ℕ) : Option (List UInt8) :=
  match data with
  | 0x78 :: 0x01 :: buf => if buf.length = size then some buf else none
  | _ =>
    if data = lastStream then some lastLine.file.image
    else if data = denseStream then some denseLine.file.image
    else none

def Zlib.sample : Zlib where
  stream := samplePack
  uncompress := sampleUnpack
  inverse := by
    intro buf
    rw [samplePack]
    split_ifs with hlast hdense
    · rw [hlast]
      decide +kernel
    · rw [hdense]
      decide +kernel
    · exact if_pos rfl
  incomplete := by
    intro buf n hn
    rw [samplePack] at hn ⊢
    split_ifs at hn ⊢ with hlast hdense
    · have hcut : ∀ n < lastStream.length,
          sampleUnpack (lastStream.take n) lastLine.file.image.length = none := by decide +kernel
      rw [hlast, hcut n hn]
    · have hcut : ∀ n < denseStream.length,
          sampleUnpack (denseStream.take n) denseLine.file.image.length = none := by
        decide +kernel
      rw [hdense, hcut n hn]
    · match n with
      | 0 => rfl
      | 1 => rfl
      | n + 2 =>
        have hlen : (buf.take n).length ≠ buf.length := by
          rw [List.length_take]
          simp only [List.length_cons] at hn
          omega
        exact if_neg hlen

/-- The glyph of the last codepoint is in the image and is not found, and a glyph that zlib
cannot make smaller is cut off. -/
theorem lastFile_not_roundTrips :
    ¬RoundTrips Zlib.sample ⟨false, false, false, 16, 8⟩ lastLine.file ∧
      ¬RoundTrips Zlib.sample ⟨false, false, false, 16, 8⟩ denseLine.file := by
  constructor
  · intro h
    exact h.not_last lastLine (List.mem_singleton.mpr rfl) (by decide)
  · intro h
    have hfits := h.fits.2
    revert hfits
    decide +kernel

end Faceplate.Font
