import Faceplate.Render.Bbulk

/-!
# What the renderer keeps track of

The cells of a frame in the order in which they are drawn, what a buffer shows in the
place of each, and how drawing one cell changes what is noted about it and what the
buffer shows. Everything about pixels ends here: a cell paints its own place and, if
its glyph is wide, the next one.
-/

namespace Faceplate.Render

/-- The places of a grid are numbered line by line. -/
theorem Grid.places_eq (grid : Grid) : grid.places =
    (List.range (grid.txt.cols * grid.txt.rows)).map
      fun off => (off % grid.txt.cols, off / grid.txt.cols) := by
  unfold places
  generalize grid.txt.cols = cols
  induction grid.txt.rows with
  | zero => simp
  | succ rows ih =>
    rw [List.range_succ, List.flatMap_append, ih, Nat.mul_succ, List.range_add, List.map_append]
    congr 1
    simp only [List.flatMap_cons, List.flatMap_nil, List.append_nil, List.map_map]
    refine List.map_congr_left fun posx hposx => ?_
    have hlt := List.mem_range.mp hposx
    simp only [Function.comp_apply, Nat.mul_add_mod, Nat.mod_eq_of_lt hlt]
    rw [Nat.mul_add_div (by omega), Nat.div_eq_of_lt hlt, Nat.add_zero]

variable (grid : Grid) (glyphs : ℕ → CellAttr → Glyph)

/-- The number of cells. -/
def Grid.size : ℕ := grid.txt.cols * grid.txt.rows

/-- The cell of a frame with this number. -/
def Frame.at (frame : Frame) (off : ℕ) : Cell :=
  frame.cellAt grid.txt.cols (off % grid.txt.cols) (off / grid.txt.cols)

/-- The glyph of a cell is two cells wide. -/
def wide (cell : Cell) : Bool := (glyphs cell.ch cell.attr).doubleWidth

/-- The cell is the last one of its line. -/
def Grid.lastCol (off : ℕ) : Bool := off % grid.txt.cols + 1 = grid.txt.cols

/-- A pixel of the cell with this number. -/
def Grid.InSlot (off px py : ℕ) : Prop :=
  grid.InCell (off % grid.txt.cols) (off / grid.txt.cols) px py

instance (off px py : ℕ) : Decidable (grid.InSlot off px py) :=
  inferInstanceAs (Decidable (grid.InCell _ _ px py))

/-- A cell that is neither marked damaged nor left to its neighbour. -/
def Cell.Normal (cell : Cell) : Prop := cell.ch ≠ idDamaged ∧ cell.ch ≠ idOverflow

instance (cell : Cell) : Decidable cell.Normal := inferInstanceAs (Decidable (_ ∧ _))

/-- In the place `off` a buffer shows a cell drawn at `src`. -/
def Shows (canvas : Canvas) (off src : ℕ) (cell : Cell) : Prop :=
  ∀ px py, grid.InSlot off px py → canvas px py =
    (grid.cellReq (glyphs cell.ch cell.attr) cell.fg cell.bg (src % grid.txt.cols)
      (src / grid.txt.cols)).color px py

/-- Two buffers show the same in the place of a cell. -/
def SameAt (canvas canvas' : Canvas) (off : ℕ) : Prop :=
  ∀ px py, grid.InSlot off px py → canvas' px py = canvas px py

variable {grid glyphs}

theorem SameAt.shows {canvas canvas' : Canvas} {off src : ℕ} {cell : Cell}
    (h : SameAt grid canvas canvas' off) (hshows : Shows grid glyphs canvas off src cell) :
    Shows grid glyphs canvas' off src cell :=
  fun px py hpixel => (h px py hpixel).trans (hshows px py hpixel)

theorem cols_pos {off : ℕ} (h : off < grid.size) : 0 < grid.txt.cols :=
  Nat.pos_of_ne_zero fun hzero => by simp [Grid.size, hzero] at h

theorem posx_lt {off : ℕ} (h : off < grid.size) : off % grid.txt.cols < grid.txt.cols :=
  Nat.mod_lt _ (cols_pos h)

theorem posy_lt {off : ℕ} (h : off < grid.size) : off / grid.txt.cols < grid.txt.rows :=
  Nat.div_lt_of_lt_mul h

/-- The cell after one that is not the last of its line. -/
theorem next_place {off : ℕ} (h : off < grid.size) (hlast : grid.lastCol off = false) :
    (off + 1) % grid.txt.cols = off % grid.txt.cols + 1 ∧
      (off + 1) / grid.txt.cols = off / grid.txt.cols := by
  have hlt : off % grid.txt.cols + 1 < grid.txt.cols := by
    have := posx_lt h
    simp only [Grid.lastCol, decide_eq_false_iff_not] at hlast
    omega
  have hoff : off + 1 = grid.txt.cols * (off / grid.txt.cols) + (off % grid.txt.cols + 1) := by
    rw [← Nat.add_assoc, Nat.div_add_mod]
  constructor
  · rw [hoff, Nat.mul_add_mod, Nat.mod_eq_of_lt hlt]
  · rw [hoff, Nat.mul_add_div (cols_pos h), Nat.div_eq_of_lt hlt, Nat.add_zero]

theorem lastCol_iff {off : ℕ} (h : off < grid.size) :
    grid.lastCol off = true ↔ (off + 1) % grid.txt.cols = 0 := by
  constructor
  · intro hlast
    have hlast' : off % grid.txt.cols + 1 = grid.txt.cols := by simpa [Grid.lastCol] using hlast
    have hline : off + 1 = grid.txt.cols * (off / grid.txt.cols + 1) := by
      have := Nat.div_add_mod off grid.txt.cols
      rw [Nat.mul_succ]
      omega
    rw [hline]
    exact Nat.mul_mod_right _ _
  · intro hzero
    by_contra hlast
    have := (next_place h (by simpa using hlast)).1
    omega

theorem inSlot_unique (hroom : grid.HasRoom) {off off' px py : ℕ} (hoff : off < grid.size)
    (hoff' : off' < grid.size) (h : grid.InSlot off px py) (h' : grid.InSlot off' px py) :
    off = off' := by
  obtain ⟨hposx, hposy⟩ := Grid.inCell_unique hroom (posx_lt hoff) (posy_lt hoff) (posx_lt hoff')
    (posy_lt hoff') h h'
  rw [← Nat.mod_add_div off grid.txt.cols, hposx, hposy, Nat.mod_add_div]

/-! ## Drawing one cell -/

/-- Draw a cell with a given number. -/
def drawGlyph (grid : Grid) (glyphs : ℕ → CellAttr → Glyph) (cell : Cell) (off : ℕ)
    (canvas : Canvas) : Canvas :=
  displayBlend grid.sw grid.sh
    (grid.cellReq (glyphs cell.ch cell.attr) cell.fg cell.bg (off % grid.txt.cols)
      (off / grid.txt.cols)) canvas

variable {cell : Cell} {canvas : Canvas} {off : ℕ}

theorem drawGlyph_apply (hroom : grid.HasRoom) (hoff : off < grid.size) (cell : Cell)
    (canvas : Canvas) (px py : ℕ) : drawGlyph grid glyphs cell off canvas px py =
      if grid.InSlot off px py ∨
        (wide glyphs cell = true ∧ off % grid.txt.cols + 1 < grid.txt.cols) ∧
          grid.InCell (off % grid.txt.cols + 1) (off / grid.txt.cols) px py
      then (grid.cellReq (glyphs cell.ch cell.attr) cell.fg cell.bg (off % grid.txt.cols)
        (off / grid.txt.cols)).color px py
      else canvas px py :=
  Grid.blend_cellReq hroom _ _ _ (posx_lt hoff) (posy_lt hoff) canvas px py

/-- A cell that is drawn is shown in its place. -/
theorem shows_drawGlyph (hroom : grid.HasRoom) (hoff : off < grid.size) (cell : Cell)
    (canvas : Canvas) : Shows grid glyphs (drawGlyph grid glyphs cell off canvas) off off cell := by
  intro px py hpixel
  rw [drawGlyph_apply hroom hoff, if_pos (.inl hpixel)]

/-- A wide cell is shown in the next place, too. -/
theorem shows_drawGlyph_next (hroom : grid.HasRoom) (hoff : off < grid.size)
    (hwide : wide glyphs cell = true) (hlast : grid.lastCol off = false) (canvas : Canvas) :
    Shows grid glyphs (drawGlyph grid glyphs cell off canvas) (off + 1) off cell := by
  intro px py hpixel
  obtain ⟨hposx, hposy⟩ := next_place hoff hlast
  have hlt : off % grid.txt.cols + 1 < grid.txt.cols := hposx ▸ Nat.mod_lt _ (cols_pos hoff)
  rw [Grid.InSlot, hposx, hposy] at hpixel
  rw [drawGlyph_apply hroom hoff, if_pos (.inr ⟨⟨hwide, hlt⟩, hpixel⟩)]

/-- Nothing is drawn in other places. -/
theorem sameAt_drawGlyph (hroom : grid.HasRoom) (hoff : off < grid.size) {other : ℕ}
    (hother : other < grid.size) (hne : other ≠ off)
    (hnext : other = off + 1 → ¬ (wide glyphs cell = true ∧ grid.lastCol off = false))
    (canvas : Canvas) : SameAt grid canvas (drawGlyph grid glyphs cell off canvas) other := by
  intro px py hpixel
  rw [drawGlyph_apply hroom hoff, if_neg]
  rintro (hown | ⟨⟨hwide, hlt⟩, hright⟩)
  · exact hne (inSlot_unique hroom hother hoff hpixel hown)
  · have hlast : grid.lastCol off = false := by
      simp only [Grid.lastCol, decide_eq_false_iff_not]
      omega
    obtain ⟨hposx, hposy⟩ := next_place hoff hlast
    obtain ⟨hsame, hline⟩ := Grid.inCell_unique hroom (posx_lt hother) (posy_lt hother) hlt
      (posy_lt hoff) hpixel hright
    refine hnext ?_ ⟨hwide, hlast⟩
    rw [← Nat.mod_add_div other grid.txt.cols, hsame, hline, ← hposx, ← hposy, Nat.mod_add_div]

/-! ## What is noted about a cell -/

namespace Bbulk

variable (bb : Bbulk) (cell : Cell) (lastCol : Bool) (off : ℕ)

/-- The cell gets a glyph that reaches into the next one, which must be drawn again. -/
def Reaches (glyphs : ℕ → CellAttr → Glyph) : Prop :=
  wide glyphs cell = true ∧ lastCol = false ∧ bb.cells off ≠ cell

instance : Decidable (bb.Reaches cell lastCol off glyphs) :=
  inferInstanceAs (Decidable (_ ∧ _))

theorem trackCell_eq : bb.trackCell glyphs cell lastCol off =
    if bb.Reaches cell lastCol off glyphs then
      ((bb.storeCell off cell).damageCell (off + 1)).setDoubleWidth off (wide glyphs cell)
    else (bb.storeCell off cell).setDoubleWidth off (wide glyphs cell) := by
  have hcond : bb.Reaches cell lastCol off glyphs ↔ ((glyphs cell.ch cell.attr).doubleWidth &&
      !lastCol && decide (bb.cells off ≠ cell)) = true := by
    simp [Reaches, wide, and_assoc]
  rw [if_congr hcond rfl rfl]
  unfold trackCell
  dsimp only
  split_ifs <;> rfl

theorem cells_trackCell_self : (bb.trackCell glyphs cell lastCol off).cells off = cell := by
  rw [trackCell_eq]
  split_ifs <;> simp [setDoubleWidth, damageCell, storeCell]

theorem damaged_trackCell_self :
    (bb.trackCell glyphs cell lastCol off).damaged off = decide (bb.cells off ≠ cell) := by
  rw [trackCell_eq]
  split_ifs <;> simp [setDoubleWidth, damageCell, storeCell]

theorem doubleWidth_trackCell (i : ℕ) : (bb.trackCell glyphs cell lastCol off).doubleWidth i =
    if i = off then wide glyphs cell else bb.doubleWidth i := by
  rw [trackCell_eq]
  split_ifs <;> simp_all [setDoubleWidth, damageCell, storeCell]

theorem trackCell_next (hreach : bb.Reaches cell lastCol off glyphs) :
    ((bb.trackCell glyphs cell lastCol off).cells (off + 1)).ch = idDamaged ∧
      (bb.trackCell glyphs cell lastCol off).damaged (off + 1) = true := by
  rw [trackCell_eq, if_pos hreach]
  simp [setDoubleWidth, damageCell, storeCell]

/-- Other cells keep what is noted about them. -/
theorem trackCell_of_ne {i : ℕ} (hne : i ≠ off)
    (hnext : i = off + 1 → ¬ bb.Reaches cell lastCol off glyphs) :
    (bb.trackCell glyphs cell lastCol off).cells i = bb.cells i ∧
      (bb.trackCell glyphs cell lastCol off).damaged i = bb.damaged i := by
  rw [trackCell_eq]
  split_ifs with hreach
  · have hother : i ≠ off + 1 := fun heq => hnext heq hreach
    simp [setDoubleWidth, damageCell, storeCell, hne, hother]
  · simp [setDoubleWidth, storeCell, hne]

theorem overflowCell_of_ne {i : ℕ} (hne : i ≠ off) :
    (bb.overflowCell off).cells i = bb.cells i ∧
      (bb.overflowCell off).damaged i = bb.damaged i := by
  unfold overflowCell
  split_ifs <;> simp [hne]

theorem doubleWidth_overflowCell : (bb.overflowCell off).doubleWidth = bb.doubleWidth := by
  unfold overflowCell
  split_ifs <;> rfl

theorem ch_overflowCell : ((bb.overflowCell off).cells off).ch = idOverflow := by
  unfold overflowCell
  split_ifs with hmarked
  · exact hmarked
  · simp

theorem damaged_overflowCell :
    (bb.overflowCell off).damaged off = decide ((bb.cells off).ch ≠ idOverflow) := by
  unfold overflowCell
  split_ifs with hmarked <;> simp [hmarked]

end Bbulk

variable (grid glyphs)

/-- One step of the loops of `bbulk_draw` by the number of the cell. -/
theorem drawPlace_eq (frame : Frame) (st : Bbulk × Canvas) (off : ℕ) :
    Bbulk.drawPlace grid glyphs frame st (off % grid.txt.cols, off / grid.txt.cols) =
      if st.1.overflows (frame.at grid off) (off % grid.txt.cols) off then
        (st.1.overflowCell off, st.2)
      else if st.1.skips (frame.at grid off) (grid.lastCol off) off then st
      else (st.1.trackCell glyphs (frame.at grid off) (grid.lastCol off) off,
        drawGlyph grid glyphs (frame.at grid off) off st.2) := by
  have hoff : off % grid.txt.cols + off / grid.txt.cols * grid.txt.cols = off :=
    Nat.mod_add_div' off grid.txt.cols
  simp only [Bbulk.drawPlace, Bbulk.bbulkDrawCell, hoff]
  rfl

end Faceplate.Render
