import Mathlib.Tactic.Ring
import Faceplate.Render.Blend

/-!
# Where cells are drawn

`compute_border` centres the text beside its chrome, and `set_coordinate` gives the
place of each cell in the four orientations, in 32-bit words. On the screen the cells
are disjoint, and the glyph of a wide cell covers its own cell and the next one.
-/

namespace Faceplate.Render

/-- `off_x`, `off_y`, `max_x` and `max_y` of `struct bbulk`. -/
structure Border where
  offX : ℕ
  offY : ℕ
  maxX : ℕ
  maxY : ℕ
  deriving DecidableEq, Repr

/-- The space above the text, of the lines that are left. -/
def topBias (freeH fontHeight : ℕ) : ℕ := min (max (freeH / 5) fontHeight) (freeH / 3)

/-- `compute_border`. -/
def computeBorder (txt : Text) (font : Font) (sw sh : ℕ) : Border :=
  if txt.orientation.upright then
    let cardCols := txt.cols + 2 * chromePadCols
    let contentH := wrap ((txt.rows + chromeTopRows + chromeBottomRows) * font.height)
    let offX := wrapSub sw (cardCols * font.width) / 2
    let offY := if contentH < sh then topBias (sh - contentH) font.height else 0
    ⟨offX, offY, wrap (offX + cardCols * font.width), wrap (offY + contentH)⟩
  else
    let offX := wrapSub sw ((txt.rows + 2) * font.height) / 2
    let offY := wrapSub sh (txt.cols * font.width) / 2
    ⟨offX, offY, wrap (offX + txt.rows * font.height), wrap (offY + txt.cols * font.width)⟩

/-- A text that has been set for its display. The widest line of cells fits, and a
display is a few thousand pixels wide and high. -/
structure Grid where
  txt : Text
  font : Font
  sw : ℕ
  sh : ℕ
  cols_le : txt.cols ≤ txt.maxCols
  rows_le : txt.rows ≤ txt.maxRows
  cols_fit : txt.maxCols * font.width ≤ if txt.orientation.upright then sw else sh
  rows_fit : txt.maxRows * font.height ≤ if txt.orientation.upright then sh else sw
  sw_lt : sw < 16777216
  sh_lt : sh < 16777216

theorem besideChrome_le (cells chrome : ℕ) : besideChrome cells chrome ≤ cells := by
  unfold besideChrome
  split_ifs <;> omega

theorem besideChrome_mul_le (pixels size chrome : ℕ) :
    besideChrome (pixels / size) chrome * size ≤ pixels :=
  le_trans (Nat.mul_le_mul_right size (besideChrome_le _ _)) (Nat.div_mul_le_self pixels size)

namespace Grid

/-- The grid after `bbulk_set`. -/
def afterSet (txt : Text) (font : Font) (sw sh : ℕ) (hsw : sw < 16777216)
    (hsh : sh < 16777216) : Grid where
  txt := txt.measure font sw sh
  font := font
  sw := sw
  sh := sh
  cols_le := le_refl _
  rows_le := le_refl _
  cols_fit := by
    unfold Text.measure
    dsimp only
    split_ifs <;> exact besideChrome_mul_le _ _ _
  rows_fit := by
    unfold Text.measure
    dsimp only
    split_ifs <;> exact besideChrome_mul_le _ _ _
  sw_lt := hsw
  sh_lt := hsh

/-- The grid after `kmscon_text_resize`. -/
def resize (grid : Grid) (cols rows : ℕ) : Grid where
  txt := grid.txt.resize cols rows
  font := grid.font
  sw := grid.sw
  sh := grid.sh
  cols_le := by
    have hcols := grid.cols_le
    unfold Text.resize
    split_ifs with hbad
    · exact hcols
    · simp only [not_or, not_lt] at hbad
      exact hbad.2.1
  rows_le := by
    have hrows := grid.rows_le
    unfold Text.resize
    split_ifs with hbad
    · exact hrows
    · simp only [not_or, not_lt] at hbad
      exact hbad.2.2.2
  cols_fit := by
    have hfit := grid.cols_fit
    unfold Text.resize
    split_ifs at * <;> exact hfit
  rows_fit := by
    have hfit := grid.rows_fit
    unfold Text.resize
    split_ifs at * <;> exact hfit
  sw_lt := grid.sw_lt
  sh_lt := grid.sh_lt

variable (grid : Grid)

/-- The border of a grid. -/
def border : Border := computeBorder grid.txt grid.font grid.sw grid.sh

/-- `set_coordinate`. -/
def setCoordinate (posx posy : ℕ) : ℕ × ℕ :=
  match grid.txt.orientation with
  | .normal => (wrap (posx * grid.font.width + grid.border.offX),
      wrap (posy * grid.font.height + grid.border.offY))
  | .upsideDown => (wrapSub grid.border.maxX ((posx + 1) * grid.font.width),
      wrapSub grid.border.maxY ((posy + 1) * grid.font.height))
  | .right => (wrapSub grid.border.maxX ((posy + 1) * grid.font.height),
      wrap (posx * grid.font.width + grid.border.offY))
  | .left => (wrap (posy * grid.font.height + grid.border.offX),
      wrapSub grid.border.maxY ((posx + 1) * grid.font.width))

/-- The cells of a line come after one another in memory order, or before. -/
def ascending : Bool :=
  match grid.txt.orientation with
  | .normal | .right => true
  | .upsideDown | .left => false

/-- Where a column of cells starts, along the lines of the text. -/
def colStart (posx : ℕ) : ℕ :=
  if grid.txt.orientation.upright then (grid.setCoordinate posx 0).1
  else (grid.setCoordinate posx 0).2

/-- Where a line of cells starts, across the lines of the text. -/
def rowStart (posy : ℕ) : ℕ :=
  if grid.txt.orientation.upright then (grid.setCoordinate 0 posy).2
  else (grid.setCoordinate 0 posy).1

/-- The size of the screen along the lines of the text. -/
def colSize : ℕ := if grid.txt.orientation.upright then grid.sw else grid.sh

/-- The size of the screen across the lines of the text. -/
def rowSize : ℕ := if grid.txt.orientation.upright then grid.sh else grid.sw

/-- The place of a pixel along the lines of the text. -/
def colPixel (px py : ℕ) : ℕ := if grid.txt.orientation.upright then px else py

/-- The place of a pixel across the lines of the text. -/
def rowPixel (px py : ℕ) : ℕ := if grid.txt.orientation.upright then py else px

/-- A pixel of a cell of the text. -/
def InCell (posx posy px py : ℕ) : Prop :=
  Within (grid.colStart (posx + chromePadCols)) grid.font.width grid.colSize
      (grid.colPixel px py) ∧
    Within (grid.rowStart (posy + chromeTopRows)) grid.font.height grid.rowSize
      (grid.rowPixel px py)

instance (posx posy px py : ℕ) : Decidable (grid.InCell posx posy px py) :=
  inferInstanceAs (Decidable (_ ∧ _))

/-- A text that is turned left has room for its two columns of padding. -/
def HasRoom : Prop :=
  grid.txt.orientation = .left → 2 * grid.font.width ≤ grid.border.offY

instance : Decidable grid.HasRoom := inferInstanceAs (Decidable (_ → _))

/-! ## Offsets -/

variable {grid}

theorem mul_width_le {posx : ℕ} (h : posx ≤ grid.txt.cols) :
    posx * grid.font.width ≤ grid.colSize :=
  (Nat.mul_le_mul_right _ (h.trans grid.cols_le)).trans grid.cols_fit

theorem mul_height_le {posy : ℕ} (h : posy ≤ grid.txt.rows) :
    posy * grid.font.height ≤ grid.rowSize :=
  (Nat.mul_le_mul_right _ (h.trans grid.rows_le)).trans grid.rows_fit

theorem colSize_lt (grid : Grid) : grid.colSize < 16777216 := by
  unfold colSize
  split_ifs
  · exact grid.sw_lt
  · exact grid.sh_lt

theorem rowSize_lt (grid : Grid) : grid.rowSize < 16777216 := by
  unfold rowSize
  split_ifs
  · exact grid.sh_lt
  · exact grid.sw_lt

theorem width_lt (hcols : 0 < grid.txt.cols) : grid.font.width < 16777216 :=
  (Nat.le_mul_of_pos_left _ hcols).trans_lt ((mul_width_le (le_refl _)).trans_lt grid.colSize_lt)

theorem height_lt (hrows : 0 < grid.txt.rows) : grid.font.height < 16777216 :=
  (Nat.le_mul_of_pos_left _ hrows).trans_lt ((mul_height_le (le_refl _)).trans_lt grid.rowSize_lt)

theorem offX_lt (grid : Grid) : grid.border.offX < 2147483648 := by
  unfold border computeBorder
  split_ifs <;> exact wrapSub_half_lt _ _

theorem offY_lt (grid : Grid) : grid.border.offY < 2147483648 := by
  have hsh := grid.sh_lt
  unfold border computeBorder
  split_ifs
  · dsimp only
    split_ifs
    · unfold topBias
      omega
    · omega
  · exact wrapSub_half_lt _ _

/-- The columns of the card, its padding included, do not wrap around. -/
theorem maxX_upright (hup : grid.txt.orientation.upright = true) (hcols : 0 < grid.txt.cols) :
    grid.border.maxX =
      grid.border.offX + (grid.txt.cols * grid.font.width + 4 * grid.font.width) := by
  have hfit := mul_width_le (le_refl grid.txt.cols)
  have hwidth := width_lt hcols
  have hsize := grid.colSize_lt
  have hcard : (grid.txt.cols + 2 * chromePadCols) * grid.font.width =
      grid.txt.cols * grid.font.width + 4 * grid.font.width := Nat.add_mul _ _ _
  simp only [border, computeBorder, hup, if_true, hcard]
  refine wrap_of_lt ?_
  have hoff := wrapSub_half_lt grid.sw (grid.txt.cols * grid.font.width + 4 * grid.font.width)
  omega

theorem maxY_upright (hup : grid.txt.orientation.upright = true) (hrows : 0 < grid.txt.rows) :
    grid.border.maxY =
      grid.border.offY + (grid.txt.rows * grid.font.height + 9 * grid.font.height) := by
  have hfit := mul_height_le (le_refl grid.txt.rows)
  have hheight := height_lt hrows
  have hsize := grid.rowSize_lt
  have hoff := grid.offY_lt
  have hcontent : (grid.txt.rows + chromeTopRows + chromeBottomRows) * grid.font.height =
      grid.txt.rows * grid.font.height + 9 * grid.font.height := by
    rw [Nat.add_assoc, Nat.add_mul]
    rfl
  simp only [border, computeBorder, hup, if_true] at hoff ⊢
  rw [hcontent] at hoff ⊢
  rw [@wrap_of_lt (grid.txt.rows * grid.font.height + 9 * grid.font.height) (by omega)]
    at hoff ⊢
  exact wrap_of_lt (by omega)

theorem maxX_turned (hup : grid.txt.orientation.upright = false) :
    grid.border.maxX = grid.border.offX + grid.txt.rows * grid.font.height := by
  have hfit := mul_height_le (le_refl grid.txt.rows)
  have hsize := grid.rowSize_lt
  have hoff := grid.offX_lt
  simp only [border, computeBorder, hup, Bool.false_eq_true, if_false] at hoff ⊢
  exact wrap_of_lt (by omega)

theorem maxY_turned (hup : grid.txt.orientation.upright = false) :
    grid.border.maxY = grid.border.offY + grid.txt.cols * grid.font.width := by
  have hfit := mul_width_le (le_refl grid.txt.cols)
  have hsize := grid.colSize_lt
  have hoff := grid.offY_lt
  simp only [border, computeBorder, hup, Bool.false_eq_true, if_false] at hoff ⊢
  exact wrap_of_lt (by omega)

/-! ## Columns and lines -/

/-- Columns of cells lie side by side, without wrapping around. -/
theorem colStart_eq (hroom : grid.HasRoom) (hcols : 0 < grid.txt.cols) : ∃ off, ∀ posx,
    posx ≤ grid.txt.cols + 1 →
      if grid.ascending then grid.colStart posx = posx * grid.font.width + off
      else grid.colStart posx + (posx + 1) * grid.font.width = off := by
  have hfit := mul_width_le (le_refl grid.txt.cols)
  have hwidth := width_lt hcols
  have hsize := grid.colSize_lt
  have hoffX := grid.offX_lt
  have hoffY := grid.offY_lt
  have hplace {posx : ℕ} (h : posx ≤ grid.txt.cols + 1) :
      posx * grid.font.width ≤ grid.txt.cols * grid.font.width + grid.font.width := by
    rw [← Nat.succ_mul]
    exact Nat.mul_le_mul_right _ h
  cases horient : grid.txt.orientation with
  | normal =>
    refine ⟨grid.border.offX, fun posx h => ?_⟩
    have := hplace h
    simp only [ascending, colStart, setCoordinate, horient, Orientation.upright, if_true]
    exact wrap_of_lt (by omega)
  | right =>
    refine ⟨grid.border.offY, fun posx h => ?_⟩
    have := hplace h
    simp only [ascending, colStart, setCoordinate, horient, Orientation.upright, if_true,
      Bool.false_eq_true, if_false]
    exact wrap_of_lt (by omega)
  | upsideDown =>
    refine ⟨grid.border.maxX, fun posx h => ?_⟩
    have := hplace h
    have hmax := maxX_upright (by rw [horient]; rfl) hcols
    simp only [ascending, colStart, setCoordinate, horient, Orientation.upright, if_true,
      Bool.false_eq_true, if_false, Nat.succ_mul]
    rw [wrapSub_of_le (by omega) (by omega)]
    omega
  | left =>
    refine ⟨grid.border.maxY, fun posx h => ?_⟩
    have := hplace h
    have hmax := maxY_turned (by rw [horient]; rfl)
    have hmargin := hroom horient
    simp only [ascending, colStart, setCoordinate, horient, Orientation.upright,
      Bool.false_eq_true, if_false, Nat.succ_mul]
    rw [wrapSub_of_le (by omega) (by omega)]
    omega

/-- A pixel is in one column only. -/
theorem col_unique (hroom : grid.HasRoom) {posx posx' p : ℕ} (hlt : posx < posx')
    (hpos : posx' < grid.txt.cols)
    (h : Within (grid.colStart (posx + chromePadCols)) grid.font.width grid.colSize p) :
    ¬ Within (grid.colStart (posx' + chromePadCols)) grid.font.width grid.colSize p := by
  obtain ⟨off, hoff⟩ := colStart_eq hroom (by omega : 0 < grid.txt.cols)
  have hleft := hoff (posx + 2) (by omega)
  have hright := hoff (posx' + 2) (by omega)
  have hstep : (posx + 2) * grid.font.width + grid.font.width ≤ (posx' + 2) * grid.font.width := by
    rw [← Nat.succ_mul]
    exact Nat.mul_le_mul_right _ (by omega)
  unfold Within chromePadCols at *
  simp only [Nat.succ_mul] at *
  split_ifs at hleft hright <;> omega

/-- A pixel is in one line only. Lines that wrap around are not on the screen. -/
theorem row_unique {posy posy' p : ℕ} (hlt : posy < posy') (hpos : posy' < grid.txt.rows)
    (h : Within (grid.rowStart (posy + chromeTopRows)) grid.font.height grid.rowSize p) :
    ¬ Within (grid.rowStart (posy' + chromeTopRows)) grid.font.height grid.rowSize p := by
  have hfit := mul_height_le (le_refl grid.txt.rows)
  have hheight := height_lt (by omega : 0 < grid.txt.rows)
  have hsize := grid.rowSize_lt
  have hoffX := grid.offX_lt
  have hoffY := grid.offY_lt
  have hstep : (posy + 5) * grid.font.height + grid.font.height ≤
      (posy' + 5) * grid.font.height := by
    rw [← Nat.succ_mul]
    exact Nat.mul_le_mul_right _ (by omega)
  have hlast : (posy' + 5) * grid.font.height + grid.font.height ≤
      grid.txt.rows * grid.font.height + 5 * grid.font.height := by
    rw [← Nat.succ_mul, ← Nat.add_mul]
    exact Nat.mul_le_mul_right _ (by omega)
  unfold Within chromeTopRows at *
  cases horient : grid.txt.orientation with
  | normal =>
    simp only [rowStart, setCoordinate, horient, Orientation.upright, if_true] at *
    rw [wrap_of_lt (by omega)] at *
    omega
  | left =>
    simp only [rowStart, setCoordinate, horient, Orientation.upright, Bool.false_eq_true,
      if_false] at *
    rw [wrap_of_lt (by omega)] at *
    omega
  | upsideDown =>
    have hmax := maxY_upright (by rw [horient]; rfl) (by omega : 0 < grid.txt.rows)
    simp only [rowStart, setCoordinate, horient, Orientation.upright, if_true, Nat.succ_mul] at *
    unfold wrapSub wrap at *
    omega
  | right =>
    have hmax := maxX_turned (by rw [horient]; rfl)
    simp only [rowStart, setCoordinate, horient, Orientation.upright, Bool.false_eq_true,
      if_false, Nat.succ_mul] at *
    unfold wrapSub wrap at *
    omega

theorem inCell_unique (hroom : grid.HasRoom) {posx posy posx' posy' px py : ℕ}
    (hposx : posx < grid.txt.cols) (hposy : posy < grid.txt.rows)
    (hposx' : posx' < grid.txt.cols) (hposy' : posy' < grid.txt.rows)
    (h : grid.InCell posx posy px py) (h' : grid.InCell posx' posy' px py) :
    posx = posx' ∧ posy = posy' := by
  constructor
  · rcases lt_trichotomy posx posx' with hlt | heq | hlt
    · exact absurd h'.1 (col_unique hroom hlt hposx' h.1)
    · exact heq
    · exact absurd h.1 (col_unique hroom hlt hposx h'.1)
  · rcases lt_trichotomy posy posy' with hlt | heq | hlt
    · exact absurd h'.2 (row_unique hlt hposy' h.2)
    · exact heq
    · exact absurd h.2 (row_unique hlt hposy h'.2)

/-! ## Glyphs -/

variable (grid)

/-- The request for a glyph in `bbulk_draw_cell`. In two orientations the glyph of a
wide cell starts on the next cell; in the last column it is cut. -/
def cellReq (glyph : Glyph) (fg bg : Rgb) (posx posy : ℕ) : BlendReq :=
  let orientation := grid.txt.orientation
  let lastCol := posx + 1 = grid.txt.cols
  let width := if glyph.doubleWidth then 2 * grid.font.width else grid.font.width
  let bufWidth := if orientation.upright then width else grid.font.height
  let bufHeight := if orientation.upright then grid.font.height else width
  let start :=
    if glyph.doubleWidth ∧ ¬ lastCol ∧ (orientation = .left ∨ orientation = .upsideDown) then
      grid.setCoordinate (posx + 1 + chromePadCols) (posy + chromeTopRows)
    else grid.setCoordinate (posx + chromePadCols) (posy + chromeTopRows)
  { alpha := rotateGlyph orientation width grid.font.height glyph.alpha
    bufWidth := bufWidth
    bufHeight := bufHeight
    x := start.1
    y := start.2
    w := if glyph.doubleWidth ∧ lastCol ∧ orientation.upright then grid.font.width else bufWidth
    h := if glyph.doubleWidth ∧ lastCol ∧ ¬ orientation.upright then grid.font.width else bufHeight
    fg := fg
    bg := bg }

/-- The length of a glyph along its line. -/
def glyphLen (glyph : Glyph) (posx : ℕ) : ℕ :=
  if glyph.doubleWidth ∧ posx + 1 < grid.txt.cols then 2 * grid.font.width else grid.font.width

/-- Where a glyph starts along its line. -/
def glyphStart (glyph : Glyph) (posx : ℕ) : ℕ :=
  if glyph.doubleWidth ∧ posx + 1 < grid.txt.cols ∧ ¬ grid.ascending then
    grid.colStart (posx + 1 + chromePadCols)
  else grid.colStart (posx + chromePadCols)

variable {grid}

theorem setCoordinate_eq (posx posy : ℕ) : grid.setCoordinate posx posy =
    if grid.txt.orientation.upright then (grid.colStart posx, grid.rowStart posy)
    else (grid.rowStart posy, grid.colStart posx) := by
  unfold colStart rowStart setCoordinate
  cases grid.txt.orientation <;> rfl

/-- A request covers its glyph's part of the line. -/
theorem cellReq_within (glyph : Glyph) (fg bg : Rgb) {posx : ℕ} (posy px py : ℕ)
    (hposx : posx < grid.txt.cols) :
    (Within (grid.cellReq glyph fg bg posx posy).x
        (min (grid.cellReq glyph fg bg posx posy).w (grid.cellReq glyph fg bg posx posy).bufWidth)
        grid.sw px ∧
      Within (grid.cellReq glyph fg bg posx posy).y
        (min (grid.cellReq glyph fg bg posx posy).h (grid.cellReq glyph fg bg posx posy).bufHeight)
        grid.sh py) ↔
    Within (grid.glyphStart glyph posx) (grid.glyphLen glyph posx) grid.colSize
        (grid.colPixel px py) ∧
      Within (grid.rowStart (posy + chromeTopRows)) grid.font.height grid.rowSize
        (grid.rowPixel px py) := by
  have hlast : posx + 1 = grid.txt.cols ↔ ¬ posx + 1 < grid.txt.cols := by omega
  have hmin : min grid.font.width (2 * grid.font.width) = grid.font.width := by omega
  cases horient : grid.txt.orientation <;> cases hdouble : glyph.doubleWidth <;>
    by_cases hnext : posx + 1 < grid.txt.cols <;>
    simp [cellReq, setCoordinate_eq, glyphStart, glyphLen, colSize, rowSize, colPixel, rowPixel,
      ascending, hlast, horient, hdouble, Orientation.upright, hnext, hmin, and_comm]

/-- The glyph of a cell covers this cell and, if it is wide, the next one. -/
theorem within_glyph (hroom : grid.HasRoom) (glyph : Glyph) {posx p : ℕ}
    (hposx : posx < grid.txt.cols) :
    Within (grid.glyphStart glyph posx) (grid.glyphLen glyph posx) grid.colSize p ↔
      Within (grid.colStart (posx + chromePadCols)) grid.font.width grid.colSize p ∨
        (glyph.doubleWidth = true ∧ posx + 1 < grid.txt.cols) ∧
          Within (grid.colStart (posx + 1 + chromePadCols)) grid.font.width grid.colSize p := by
  obtain ⟨off, hoff⟩ := colStart_eq hroom (by omega : 0 < grid.txt.cols)
  have hown := hoff (posx + 2) (by omega)
  unfold glyphStart glyphLen
  by_cases hwide : glyph.doubleWidth = true ∧ posx + 1 < grid.txt.cols
  · have hnext := hoff (posx + 1 + 2) (by omega)
    simp only [hwide.1, hwide.2, true_and, if_true, Within, chromePadCols, Nat.succ_mul] at *
    cases hdir : grid.ascending <;> simp only [hdir, Bool.false_eq_true, if_true, if_false,
      not_true_eq_false, not_false_eq_true] at * <;> omega
  · have hstart : ¬ (glyph.doubleWidth = true ∧ posx + 1 < grid.txt.cols ∧
        ¬ grid.ascending = true) := fun h => hwide ⟨h.1, h.2.1⟩
    rw [if_neg hwide, if_neg hstart]
    simp [hwide]

/-- Drawing a glyph paints its cell and, if it is wide, the next one. -/
theorem blend_cellReq (hroom : grid.HasRoom) (glyph : Glyph) (fg bg : Rgb) {posx posy : ℕ}
    (hposx : posx < grid.txt.cols) (hposy : posy < grid.txt.rows) (canvas : Canvas) (px py : ℕ) :
    displayBlend grid.sw grid.sh (grid.cellReq glyph fg bg posx posy) canvas px py =
      if grid.InCell posx posy px py ∨
        (glyph.doubleWidth = true ∧ posx + 1 < grid.txt.cols) ∧ grid.InCell (posx + 1) posy px py
      then (grid.cellReq glyph fg bg posx posy).color px py
      else canvas px py := by
  have hwidth := width_lt (by omega : 0 < grid.txt.cols)
  have hheight := height_lt (by omega : 0 < grid.txt.rows)
  have hsw := grid.sw_lt
  have hsh := grid.sh_lt
  rw [displayBlend_apply (by omega) (by omega)]
  · refine if_congr ?_ rfl rfl
    rw [cellReq_within glyph fg bg posy px py hposx, within_glyph hroom glyph hposx]
    unfold InCell
    tauto
  · refine (min_le_right _ _).trans_lt ?_
    simp only [cellReq]
    split_ifs <;> omega
  · refine (min_le_right _ _).trans_lt ?_
    simp only [cellReq]
    split_ifs <;> omega

end Grid

end Faceplate.Render
