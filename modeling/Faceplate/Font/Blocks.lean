import Faceplate.Font.Genunifont
import Mathlib.Data.List.Basic
import Mathlib.Data.List.SplitBy

/-!
# The blocks of a sorted font

`gen_blocks` walks over the sorted glyphs once and closes a block at each gap and at
each change of width. On a font without overlong runs the blocks tile the glyphs:
each stands for a stretch of them, in order, and its offset is what the stretches
before it take up.
-/

namespace Faceplate.Font

/-- The width of a glyph in cells. -/
def UnifontGlyph.cwidth (g : UnifontGlyph) : ℕ := getWidth g.data.length

/-- The glyph before this one is there, with the same width. -/
def Joins (all : List UnifontGlyph) (g : UnifontGlyph) : Prop :=
  ∃ g' ∈ all, g'.codepoint + 1 = g.codepoint ∧ g'.cwidth = g.cwidth

instance (all : List UnifontGlyph) (g : UnifontGlyph) : Decidable (Joins all g) :=
  inferInstanceAs (Decidable (∃ g' ∈ all, _))

/-- The glyphs of a font in order, none of them in an overlong run. -/
structure Sorted (glyphs : List UnifontGlyph) : Prop where
  sorted : glyphs.Pairwise (·.codepoint < ·.codepoint)
  range : ∀ g ∈ glyphs, g.codepoint < 2 ^ 32
  data : ∀ g ∈ glyphs, g.data.length = 32 ∨ g.data.length = 64
  runs : ∀ cp w, ∃ k < 65536, ∀ g ∈ glyphs, ¬(g.codepoint = cp + k ∧ g.cwidth = w)

/-- A block stands for these glyphs. -/
structure Spans (block : UnifontGlyphBlock) (seg : List UnifontGlyph) : Prop where
  nonempty : seg ≠ []
  len_eq : block.len = seg.length
  entry : ∀ k (h : k < seg.length),
    seg[k].codepoint = block.codepoint + k ∧ seg[k].cwidth = block.cwidth

/-- The blocks stand for consecutive stretches of the glyphs, the first at `offset`. -/
def Tiles : ℕ → List UnifontGlyphBlock → List UnifontGlyph → Prop
  | _, [], glyphs => glyphs = []
  | offset, block :: blocks, glyphs =>
    ∃ seg rest, glyphs = seg ++ rest ∧ Spans block seg ∧ block.offset = offset % 2 ^ 32 ∧
      Tiles (offset + block.len * 16 * block.cwidth) blocks rest

/-- A glyph goes on with the run of another. -/
def goesOn (g g' : UnifontGlyph) : Bool :=
  g'.codepoint == g.codepoint + 1 && g'.cwidth == g.cwidth

/-- A block for each run, the first with its pixels at `offset`. -/
def runBlocks : ℕ → List (List UnifontGlyph) → List UnifontGlyphBlock
  | _, [] => []
  | offset, [] :: runs => runBlocks offset runs
  | offset, (g :: run) :: runs =>
    ⟨g.codepoint, offset % 2 ^ 32, run.length + 1, g.cwidth⟩ ::
      runBlocks (offset + (run.length + 1) * 16 * g.cwidth) runs

theorem Spans.entry_getLast {block : UnifontGlyphBlock} {seg : List UnifontGlyph}
    (h : Spans block seg) {g : UnifontGlyph} (hg : g ∈ seg.getLast?) :
    g.codepoint + 1 = block.codepoint + block.len ∧ g.cwidth = block.cwidth := by
  have hpos : 0 < seg.length := List.length_pos_iff.mpr h.nonempty
  rw [List.getLast?_eq_getElem?] at hg
  obtain ⟨hlt, rfl⟩ := List.getElem?_eq_some_iff.mp hg
  obtain ⟨hcp, hw⟩ := h.entry (seg.length - 1) hlt
  refine ⟨?_, hw⟩
  rw [hcp, h.len_eq]
  omega

theorem Spans.last {block : UnifontGlyphBlock} {seg : List UnifontGlyph} (h : Spans block seg) :
    ∃ g ∈ seg, g.codepoint + 1 = block.codepoint + block.len ∧ g.cwidth = block.cwidth :=
  ⟨seg.getLast h.nonempty, List.getLast_mem h.nonempty,
    h.entry_getLast (List.getLast_mem_getLast? h.nonempty)⟩

theorem Spans.codepoint_lt {block : UnifontGlyphBlock} {seg : List UnifontGlyph}
    (h : Spans block seg) {g : UnifontGlyph} (hg : g ∈ seg) :
    block.codepoint ≤ g.codepoint ∧ g.codepoint < block.codepoint + block.len := by
  obtain ⟨k, hk, rfl⟩ := List.mem_iff_getElem.mp hg
  have hcp := (h.entry k hk).1
  have hlen := h.len_eq
  omega

theorem Spans.single (g : UnifontGlyph) (offset : ℕ) :
    Spans ⟨g.codepoint, offset, 1, getWidth g.data.length⟩ [g] := by
  refine ⟨by simp, rfl, ?_⟩
  intro k hk
  have hzero : k = 0 := by simpa using hk
  subst hzero
  exact ⟨rfl, rfl⟩

theorem Spans.concat {block : UnifontGlyphBlock} {seg : List UnifontGlyph}
    (h : Spans block seg) {g : UnifontGlyph} (hcp : g.codepoint = block.codepoint + block.len)
    (hw : g.cwidth = block.cwidth) :
    Spans { block with len := block.len + 1 } (seg ++ [g]) := by
  refine ⟨by simp, by simp [h.len_eq], ?_⟩
  intro k hk
  by_cases hlt : k < seg.length
  · rw [List.getElem_append_left hlt]
    exact h.entry k hlt
  · have hlen : k = seg.length := by
      simp only [List.length_append, List.length_singleton] at hk
      omega
    subst hlen
    rw [List.getElem_concat_length rfl]
    exact ⟨by rw [hcp, h.len_eq], hw⟩

/-- The glyphs of a block are one run. -/
theorem Spans.isChain {block : UnifontGlyphBlock} {seg : List UnifontGlyph}
    (h : Spans block seg) : seg.IsChain fun g g' => goesOn g g' = true := by
  rw [List.isChain_iff_getElem]
  intro k hk
  obtain ⟨hcp, hw⟩ := h.entry k (by omega)
  obtain ⟨hcp', hw'⟩ := h.entry (k + 1) hk
  simp only [goesOn, Bool.and_eq_true, beq_iff_eq]
  exact ⟨by omega, by rw [hw', hw]⟩

/-- The block of a run. -/
theorem Spans.runBlocks_cons {block : UnifontGlyphBlock} {seg : List UnifontGlyph}
    (h : Spans block seg) {offset : ℕ} (hoffset : block.offset = offset % 2 ^ 32)
    (runs : List (List UnifontGlyph)) :
    runBlocks offset (seg :: runs) =
      block :: runBlocks (offset + block.len * 16 * block.cwidth) runs := by
  obtain ⟨g, run, rfl⟩ := List.exists_cons_of_ne_nil h.nonempty
  obtain ⟨hcp, hw⟩ := h.entry 0 (by simp)
  have hlen : block.len = run.length + 1 := h.len_eq
  simp only [List.getElem_cons_zero, Nat.add_zero] at hcp hw
  rw [runBlocks, hcp, hw, ← hlen, ← hoffset]

section Loop

variable {pre seg rest : List UnifontGlyph} {block : UnifontGlyphBlock} {g : UnifontGlyph}

/-- The current block ends before the next glyph. -/
theorem Spans.end_le (h : Spans block seg) (hall : Sorted (pre ++ (seg ++ g :: rest))) :
    block.codepoint + block.len ≤ g.codepoint := by
  obtain ⟨l, hl, hend, -⟩ := h.last
  have hlt : l.codepoint < g.codepoint :=
    (List.pairwise_append.mp (List.pairwise_append.mp hall.sorted).2.1).2.2 l hl g
      List.mem_cons_self
  omega

/-- The next glyph fits into the current block if it goes on with the last glyph. -/
theorem Spans.fits_iff_joins (h : Spans block seg)
    (hall : Sorted (pre ++ (seg ++ g :: rest))) :
    (block.cwidth = g.cwidth ∧ g.codepoint = block.codepoint + block.len) ↔
      Joins (pre ++ (seg ++ g :: rest)) g := by
  obtain ⟨l, hl, hend, hwidth⟩ := h.last
  have hle := h.end_le hall
  constructor
  · rintro ⟨hw, hcp⟩
    exact ⟨l, by simp [hl], by omega, by rw [hwidth, hw]⟩
  · rintro ⟨g', hg', hcp, hw⟩
    have hsorted := hall.sorted
    rw [← List.append_assoc] at hg' hsorted
    have hcross := (List.pairwise_append.mp hsorted).2
    have hbefore : g' ∈ pre ++ seg := by
      rcases List.mem_append.mp hg' with hmem | hmem
      · exact hmem
      · rcases List.mem_cons.mp hmem with rfl | hmem
        · omega
        · have := (List.pairwise_cons.mp hcross.1).1 g' hmem
          omega
    have hseg : g' ∈ seg := by
      rcases List.mem_append.mp hbefore with hmem | hmem
      · have := (List.pairwise_append.mp hall.sorted).2.2 g' hmem l (by simp [hl])
        omega
      · exact hmem
    have hrange := h.codepoint_lt hseg
    obtain ⟨k, hk, rfl⟩ := List.mem_iff_getElem.mp hseg
    exact ⟨by rw [← hw, (h.entry k hk).2], by omega⟩

/-- No block grows to 65536 glyphs. -/
theorem Spans.len_lt (h : Spans block seg) (hall : Sorted (pre ++ (seg ++ rest))) :
    block.len < 65536 := by
  by_contra hge
  obtain ⟨k, hk, hnone⟩ := hall.runs block.codepoint block.cwidth
  have hlt : k < seg.length := by
    have hlen := h.len_eq
    omega
  exact hnone seg[k] (by simp) (h.entry k hlt)

/-- One round of `gen_blocks` on a sorted font. -/
theorem genBlocksLoop_cons (h : Spans block seg) (hall : Sorted (pre ++ (seg ++ g :: rest)))
    (offset : ℕ) :
    genBlocksLoop offset block (g :: rest) =
      if Joins (pre ++ (seg ++ g :: rest)) g then
        genBlocksLoop offset { block with len := block.len + 1 } rest
      else
        block :: genBlocksLoop ((offset + block.len * 16 * block.cwidth) % 2 ^ 32)
          ⟨g.codepoint, (offset + block.len * 16 * block.cwidth) % 2 ^ 32, 1,
            getWidth g.data.length⟩ rest := by
  have hle := h.end_le hall
  have hrange : g.codepoint < 2 ^ 32 := hall.range g (by simp)
  have hmod : (block.codepoint + block.len) % 2 ^ 32 = block.codepoint + block.len :=
    Nat.mod_eq_of_lt (by omega)
  have hiff := h.fits_iff_joins hall
  rw [genBlocksLoop, hmod]
  by_cases hjoins : Joins (pre ++ (seg ++ g :: rest)) g
  · obtain ⟨hw, hcp⟩ := hiff.mpr hjoins
    have hspan : Spans { block with len := block.len + 1 } (seg ++ [g]) := h.concat hcp hw.symm
    have hall' : Sorted (pre ++ ((seg ++ [g]) ++ rest)) := by simpa using hall
    have hlen : block.len + 1 < 2 ^ 16 := hspan.len_lt hall'
    rw [if_pos hjoins, if_pos ⟨hw, hcp⟩, Nat.mod_eq_of_lt hlen]
  · rw [if_neg hjoins]
    exact if_neg fun hfits => hjoins (hiff.mp hfits)

end Loop

/-- The blocks from the current one on tile its glyphs and the ones to come. -/
theorem tiles_genBlocksLoop {pre seg rest : List UnifontGlyph} {block : UnifontGlyphBlock}
    {total : ℕ} (h : Spans block seg) (hall : Sorted (pre ++ (seg ++ rest)))
    (hoffset : block.offset = total % 2 ^ 32) :
    Tiles total (genBlocksLoop (total % 2 ^ 32) block rest) (seg ++ rest) := by
  induction rest generalizing pre seg block total with
  | nil => exact ⟨seg, [], rfl, h, hoffset, rfl⟩
  | cons g rest ih =>
    rw [genBlocksLoop_cons h hall]
    split_ifs with hjoins
    · obtain ⟨hw, hcp⟩ := (h.fits_iff_joins hall).mpr hjoins
      have happend : seg ++ g :: rest = (seg ++ [g]) ++ rest := by simp
      rw [happend] at hall ⊢
      exact ih (h.concat hcp hw.symm) hall hoffset
    · refine ⟨seg, g :: rest, rfl, h, hoffset, ?_⟩
      rw [Nat.mod_add_mod]
      rw [← List.append_assoc] at hall
      exact ih (Spans.single g _) hall rfl

/-- A block starts at each glyph that does not go on with the one before it. -/
theorem length_genBlocksLoop {pre seg rest : List UnifontGlyph} {block : UnifontGlyphBlock}
    (h : Spans block seg) (hall : Sorted (pre ++ (seg ++ rest))) (offset : ℕ) :
    (genBlocksLoop offset block rest).length =
      rest.countP (fun g => ¬Joins (pre ++ (seg ++ rest)) g) + 1 := by
  induction rest generalizing pre seg block offset with
  | nil => rfl
  | cons g rest ih =>
    rw [genBlocksLoop_cons h hall, List.countP_cons]
    by_cases hjoins : Joins (pre ++ (seg ++ g :: rest)) g
    · obtain ⟨hw, hcp⟩ := (h.fits_iff_joins hall).mpr hjoins
      have happend : seg ++ g :: rest = (seg ++ [g]) ++ rest := by simp
      rw [if_pos hjoins]
      rw [happend] at hall ⊢
      rw [ih (h.concat hcp hw.symm) hall]
      simp [hjoins]
    · have hassoc : pre ++ (seg ++ g :: rest) = (pre ++ seg) ++ ([g] ++ rest) := by simp
      rw [if_neg hjoins, List.length_cons]
      rw [hassoc] at hall ⊢
      rw [ih (Spans.single g _) hall]
      simp [hjoins]

/-- The blocks from the current one on are those of the runs. -/
theorem genBlocksLoop_runs {pre seg rest : List UnifontGlyph} {block : UnifontGlyphBlock}
    {total : ℕ} (h : Spans block seg) (hall : Sorted (pre ++ (seg ++ rest)))
    (hoffset : block.offset = total % 2 ^ 32) :
    genBlocksLoop (total % 2 ^ 32) block rest =
      runBlocks total ((seg ++ rest).splitBy goesOn) := by
  have hseg : seg.splitBy goesOn = [seg] := List.splitBy_of_isChain h.nonempty h.isChain
  induction rest generalizing pre seg block total with
  | nil =>
    rw [List.append_nil, hseg, h.runBlocks_cons hoffset]
    rfl
  | cons g rest ih =>
    rw [genBlocksLoop_cons h hall]
    split_ifs with hjoins
    · obtain ⟨hw, hcp⟩ := (h.fits_iff_joins hall).mpr hjoins
      have happend : seg ++ g :: rest = (seg ++ [g]) ++ rest := by simp
      have hspan := h.concat hcp hw.symm
      rw [happend] at hall ⊢
      exact ih hspan hall hoffset (List.splitBy_of_isChain hspan.nonempty hspan.isChain)
    · have hends : ∀ l ∈ seg.getLast?, goesOn l g = false := by
        intro l hl
        obtain ⟨hcp, hw⟩ := h.entry_getLast hl
        by_contra hgoes
        simp only [goesOn, Bool.not_eq_false, Bool.and_eq_true, beq_iff_eq] at hgoes
        exact hjoins ((h.fits_iff_joins hall).mp ⟨by rw [hgoes.2, hw], by omega⟩)
      rw [List.splitBy_append_cons rest hends, hseg, List.singleton_append,
        h.runBlocks_cons hoffset, Nat.mod_add_mod]
      rw [← List.append_assoc] at hall
      have hsingle := Spans.single g ((total + block.len * 16 * block.cwidth) % 2 ^ 32)
      rw [ih hsingle hall rfl (List.splitBy_of_isChain hsingle.nonempty hsingle.isChain)]
      rfl

/-- The first glyph of a sorted font starts a block. -/
theorem Sorted.not_joins_head {g : UnifontGlyph} {rest : List UnifontGlyph}
    (hall : Sorted (g :: rest)) : ¬Joins (g :: rest) g := by
  rintro ⟨g', hg', hcp, -⟩
  rcases List.mem_cons.mp hg' with rfl | hmem
  · omega
  · have := (List.pairwise_cons.mp hall.sorted).1 g' hmem
    omega

/-- The first glyph is counted in the block that starts with it. -/
theorem Sorted.genBlocksLoop_first {g : UnifontGlyph} {rest : List UnifontGlyph}
    (hall : Sorted (g :: rest)) :
    genBlocksLoop 0 ⟨g.codepoint, 0, 0, getWidth g.data.length⟩ (g :: rest) =
      genBlocksLoop 0 ⟨g.codepoint, 0, 1, getWidth g.data.length⟩ rest := by
  have hrange : g.codepoint < 2 ^ 32 := hall.range g (by simp)
  rw [genBlocksLoop, if_pos ⟨rfl, (Nat.mod_eq_of_lt hrange).symm⟩]
  rfl

/-- `gen_blocks` on a sorted font: the blocks tile it, and there is one for each glyph
that starts a run. -/
theorem genBlocks_spec {glyphs : List UnifontGlyph} (hne : glyphs ≠ []) (hall : Sorted glyphs) :
    ∃ blocks, genBlocks glyphs = some blocks ∧ Tiles 0 blocks glyphs ∧
      blocks.length = glyphs.countP fun g => ¬Joins glyphs g := by
  obtain ⟨g, rest, rfl⟩ := List.exists_cons_of_ne_nil hne
  have hfirst := hall.genBlocksLoop_first
  have hspan := Spans.single g 0
  have hsingle : Sorted ([] ++ ([g] ++ rest)) := hall
  refine ⟨_, rfl, ?_, ?_⟩
  · rw [hfirst]
    exact @tiles_genBlocksLoop [] [g] rest _ 0 hspan hsingle rfl
  · rw [hfirst, length_genBlocksLoop hspan hsingle, List.countP_cons]
    simp [hall.not_joins_head]

/-- `gen_blocks` on a sorted font: a block for each run. -/
theorem genBlocks_runs {glyphs : List UnifontGlyph} (hne : glyphs ≠ []) (hall : Sorted glyphs) :
    genBlocks glyphs = some (runBlocks 0 (glyphs.splitBy goesOn)) := by
  obtain ⟨g, rest, rfl⟩ := List.exists_cons_of_ne_nil hne
  have hall' : Sorted ([] ++ ([g] ++ rest)) := hall
  rw [genBlocks, hall.genBlocksLoop_first]
  exact congrArg some (@genBlocksLoop_runs [] [g] rest _ 0 (Spans.single g 0) hall' rfl)

/-- A block of a tiled font stands for a stretch of it. -/
theorem Tiles.exists_spans {offset : ℕ} {blocks : List UnifontGlyphBlock}
    {glyphs : List UnifontGlyph} (h : Tiles offset blocks glyphs) {block : UnifontGlyphBlock}
    (hblock : block ∈ blocks) :
    ∃ pre seg rest, glyphs = pre ++ (seg ++ rest) ∧ Spans block seg := by
  induction blocks generalizing offset glyphs with
  | nil => simp at hblock
  | cons head blocks ih =>
    obtain ⟨seg, rest, rfl, hspan, -, htail⟩ := h
    rcases List.mem_cons.mp hblock with rfl | hmem
    · exact ⟨[], seg, rest, rfl, hspan⟩
    · obtain ⟨pre, seg', rest', rfl, hspan'⟩ := ih htail hmem
      exact ⟨seg ++ pre, seg', rest', by simp, hspan'⟩

/-- Each codepoint of a block has its glyph. -/
theorem Tiles.exists_glyph {offset : ℕ} {blocks : List UnifontGlyphBlock}
    {glyphs : List UnifontGlyph} (h : Tiles offset blocks glyphs) {block : UnifontGlyphBlock}
    (hblock : block ∈ blocks) {ch : ℕ} (hge : block.codepoint ≤ ch)
    (hlt : ch < block.codepoint + block.len) : ∃ g ∈ glyphs, g.codepoint = ch := by
  obtain ⟨pre, seg, rest, rfl, hspan⟩ := h.exists_spans hblock
  have hk : ch - block.codepoint < seg.length := by
    have hlen := hspan.len_eq
    omega
  refine ⟨seg[ch - block.codepoint], by simp, ?_⟩
  rw [(hspan.entry _ hk).1]
  omega

/-- The blocks of a sorted font follow one another. -/
theorem Tiles.pairwise {offset : ℕ} {blocks : List UnifontGlyphBlock}
    {glyphs : List UnifontGlyph} (h : Tiles offset blocks glyphs)
    (hsorted : glyphs.Pairwise (·.codepoint < ·.codepoint)) :
    blocks.Pairwise fun a b => a.codepoint + a.len ≤ b.codepoint := by
  induction blocks generalizing offset glyphs with
  | nil => exact List.Pairwise.nil
  | cons head blocks ih =>
    obtain ⟨seg, rest, rfl, hspan, -, htail⟩ := h
    obtain ⟨-, hrest, hcross⟩ := List.pairwise_append.mp hsorted
    refine List.pairwise_cons.mpr ⟨?_, ih htail hrest⟩
    intro b hb
    obtain ⟨l, hl, hend, -⟩ := hspan.last
    obtain ⟨pre, seg', rest', rfl, hspan'⟩ := htail.exists_spans hb
    have hpos : 0 < seg'.length := List.length_pos_iff.mpr hspan'.nonempty
    have hlt := hcross l hl seg'[0] (by simp)
    rw [(hspan'.entry 0 hpos).1] at hlt
    omega

theorem length_packData (data : List UInt8) :
    (packData data).length = (data.length + 1) / 2 := by
  induction data using packData.induct with
  | case1 => rfl
  | case2 c => simp [packData]
  | case3 c d rest ih =>
    simp only [packData, List.length_cons, ih]
    omega

/-- The bytes of all glyphs, as the image has them. -/
def pixels (glyphs : List UnifontGlyph) : List UInt8 := glyphs.flatMap fun g => packData g.data

theorem length_packData_of_cwidth {g : UnifontGlyph}
    (h : g.data.length = 32 ∨ g.data.length = 64) :
    (packData g.data).length = 16 * g.cwidth := by
  rw [length_packData, UnifontGlyph.cwidth, getWidth]
  rcases h with h | h <;> simp [h]

/-- The pixels of glyphs of one width. -/
theorem length_pixels {seg : List UnifontGlyph} {size : ℕ}
    (h : ∀ g ∈ seg, (packData g.data).length = size) :
    (pixels seg).length = seg.length * size := by
  induction seg with
  | nil => simp [pixels]
  | cons g rest ih =>
    have hrest := ih fun g' hg' => h g' (List.mem_cons_of_mem _ hg')
    simp only [pixels, List.flatMap_cons, List.length_append, List.length_cons] at hrest ⊢
    rw [hrest, h g List.mem_cons_self, Nat.add_mul, Nat.one_mul, Nat.add_comm]

theorem pixels_append (xs ys : List UnifontGlyph) : pixels (xs ++ ys) = pixels xs ++ pixels ys :=
  List.flatMap_append

/-- A glyph among others is found behind the pixels of those before it. -/
theorem drop_pixels (pre rest : List UnifontGlyph) (g : UnifontGlyph) :
    (pixels (pre ++ g :: rest)).drop (pixels pre).length = packData g.data ++ pixels rest := by
  rw [pixels_append, List.drop_left]
  rfl

/-- Each glyph lies in a block of its width, and its bytes lie where the block says. -/
theorem Tiles.exists_block {offset : ℕ} {blocks : List UnifontGlyphBlock}
    {glyphs : List UnifontGlyph} (h : Tiles offset blocks glyphs)
    (hdata : ∀ g ∈ glyphs, g.data.length = 32 ∨ g.data.length = 64) {g : UnifontGlyph}
    (hg : g ∈ glyphs) :
    ∃ block ∈ blocks, ∃ before rest, block.codepoint ≤ g.codepoint ∧
      g.codepoint < block.codepoint + block.len ∧ block.cwidth = g.cwidth ∧
      block.offset = (offset + before) % 2 ^ 32 ∧
      (pixels glyphs).drop (before + (g.codepoint - block.codepoint) * block.cwidth * 16) =
        packData g.data ++ rest := by
  induction blocks generalizing offset glyphs with
  | nil =>
    subst h
    simp at hg
  | cons head blocks ih =>
    obtain ⟨seg, rest, rfl, hspan, hoffset, htail⟩ := h
    have hsize : ∀ g' ∈ seg, (packData g'.data).length = 16 * head.cwidth := by
      intro g' hg'
      obtain ⟨k, hk, rfl⟩ := List.mem_iff_getElem.mp hg'
      rw [length_packData_of_cwidth (hdata _ (by simp)), (hspan.entry k hk).2]
    rcases List.mem_append.mp hg with hmem | hmem
    · -- the glyph is the one at `k` of the stretch of this block
      obtain ⟨k, hk, rfl⟩ := List.mem_iff_getElem.mp hmem
      obtain ⟨hcp, hwidth⟩ := hspan.entry k hk
      have hlt := hspan.codepoint_lt hmem
      have hsplit : seg = seg.take k ++ seg[k] :: seg.drop (k + 1) := by
        rw [← List.drop_eq_getElem_cons hk, List.take_append_drop]
      have hpre : (pixels (seg.take k)).length = k * head.cwidth * 16 := by
        rw [length_pixels fun g' hg' => hsize g' (List.mem_of_mem_take hg'), List.length_take,
          Nat.min_eq_left hk.le, Nat.mul_comm 16, Nat.mul_assoc]
      refine ⟨head, List.mem_cons_self, 0, pixels (seg.drop (k + 1) ++ rest), hlt.1, hlt.2,
        hwidth.symm, hoffset, ?_⟩
      have hk' : seg[k].codepoint - head.codepoint = k := by omega
      rw [Nat.zero_add, hk', ← hpre, ← drop_pixels, ← List.cons_append, ← List.append_assoc,
        ← hsplit]
    · obtain ⟨block, hblock, before, tail, hge, hlt, hwidth, hoff, hdrop⟩ :=
        ih htail (fun g' hg' => hdata g' (List.mem_append_right _ hg')) hmem
      have hlen : (pixels seg).length = head.len * 16 * head.cwidth := by
        rw [length_pixels hsize, hspan.len_eq, Nat.mul_assoc]
      refine ⟨block, List.mem_cons_of_mem _ hblock, head.len * 16 * head.cwidth + before, tail,
        hge, hlt, hwidth, by rw [hoff, Nat.add_assoc], ?_⟩
      rw [Nat.add_assoc, ← hlen, pixels_append, List.drop_length_add_append, hdrop]

end Faceplate.Font
