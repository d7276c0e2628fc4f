import Faceplate.Render.BorderFit
import Faceplate.Render.Pointer
import Faceplate.Render.Status

/-!
# What stays on the screen

On a display that is large enough for the chrome, `bbulk_set` leaves room for it along both
axes of the text. The renderer turns the cells of the text and of the chrome, but counts the
rows of the chrome at one end only, and does not turn the border of the card. Here every
rectangle it paints is checked, and every subtraction on the way to it.
-/

namespace Faceplate.Render

/-- A subtraction of two `unsigned int` does not wrap around. -/
def Subtracts (a b : ℕ) : Prop := wrap b ≤ a

instance (a b : ℕ) : Decidable (Subtracts a b) := inferInstanceAs (Decidable (_ ≤ _))

theorem Subtracts.of_le {a b : ℕ} (h : b ≤ a) : Subtracts a b := (Nat.mod_le _ _).trans h

namespace Grid

variable (grid : Grid)

/-- The rectangle of a request lies inside the display. -/
def ReqOnScreen (req : BlendReq) : Prop :=
  req.x + min req.w req.bufWidth ≤ grid.sw ∧ req.y + min req.h req.bufHeight ≤ grid.sh

/-- The subtractions of `set_coordinate`. -/
def CoordinateSubtracts (posx posy : ℕ) : Prop :=
  match grid.txt.orientation with
  | .normal => True
  | .upsideDown => Subtracts grid.border.maxX ((posx + 1) * grid.font.width) ∧
      Subtracts grid.border.maxY ((posy + 1) * grid.font.height)
  | .right => Subtracts grid.border.maxX ((posy + 1) * grid.font.height)
  | .left => Subtracts grid.border.maxY ((posx + 1) * grid.font.width)

/-- The column that `bbulk_draw_cell` gives to `set_coordinate`. -/
def startCol (glyph : Glyph) (posx : ℕ) : ℕ :=
  if glyph.doubleWidth ∧ ¬ posx + 1 = grid.txt.cols ∧
      (grid.txt.orientation = .left ∨ grid.txt.orientation = .upsideDown) then
    posx + 1 + chromePadCols
  else posx + chromePadCols

/-- A cell of the text is painted inside the display. -/
def CellOnScreen (glyph : Glyph) (posx posy : ℕ) : Prop :=
  grid.CoordinateSubtracts (grid.startCol glyph posx) (posy + chromeTopRows) ∧
    ∀ fg bg, grid.ReqOnScreen (grid.cellReq glyph fg bg posx posy)

/-- A piece of the chrome is painted inside the display. -/
def ChromeOnScreen (glyphs : ℕ → CellAttr → Glyph) (paint : ChromePaint) : Prop :=
  (match paint with
    | .cell gx gy _ _ _ => grid.CoordinateSubtracts gx gy
    | _ => True) ∧
  grid.ReqOnScreen (grid.chromeReq glyphs paint)

/-- The subtractions of `stroke_card_border`. -/
def BorderSubtracts : Prop :=
  Subtracts (wrap (wrap (grid.border.offY + chromeCardY0 * grid.font.height) +
      wrap ((chromePadRows + grid.txt.rows + chromePadRows) * grid.font.height))) chromeBorderPx ∧
    Subtracts (wrap (grid.border.offX + wrap (grid.cardCols * grid.font.width))) chromeBorderPx

/-- The subtractions of `set_pointer_coordinate`. -/
def PointerSubtracts (x y : ℕ) : Prop :=
  (match grid.txt.orientation with
    | .normal => True
    | .upsideDown => Subtracts grid.border.maxX x ∧ Subtracts grid.border.maxY y
    | .right => Subtracts grid.border.maxX y
    | .left => Subtracts grid.border.maxY x) ∧
  (Subtracts grid.border.maxX grid.pointerHalf.1 ∧ Subtracts grid.border.maxY grid.pointerHalf.2) ∧
  Subtracts (grid.pointerCentre x y).1 grid.pointerHalf.1 ∧
    Subtracts (grid.pointerCentre x y).2 grid.pointerHalf.2

/-- The pointer at a position is painted inside the display. -/
def PointerOnScreen (glyph : Glyph) (x y : ℕ) : Prop :=
  (Subtracts (wrap (grid.txt.cols * grid.font.width)) (grid.font.width / 2) ∧
    Subtracts (wrap (grid.txt.rows * grid.font.height)) (grid.font.height / 2)) ∧
  grid.PointerSubtracts (grid.clampPointer x y).1 (grid.clampPointer x y).2 ∧
  ∀ fg bg, grid.ReqOnScreen (grid.glyphReq glyph fg bg
    (grid.setPointerCoordinate (grid.clampPointer x y).1 (grid.clampPointer x y).2))

/-- Every rectangle that is painted lies inside the display, and no subtraction on the way to
it wraps around. The logo is left to `LogoOnScreen`. -/
structure PaintsOnScreen (glyphs : ℕ → CellAttr → Glyph) (chrome : Chrome) : Prop where
  border : (computeBorderChecked grid.txt grid.font grid.sw grid.sh).isSome = true
  cells : ∀ posx < grid.txt.cols, ∀ posy < grid.txt.rows, ∀ glyph,
    grid.CellOnScreen glyph posx posy
  chrome : ∀ paint ∈ grid.bbulkDrawStatus chrome, paint ∉ grid.paintLogo chrome →
    grid.ChromeOnScreen glyphs paint
  cardBorder : grid.BorderSubtracts
  pointer : ∀ glyph x y, grid.PointerOnScreen glyph x y

/-- The logo is painted inside the display. -/
def LogoOnScreen (glyphs : ℕ → CellAttr → Glyph) (chrome : Chrome) : Prop :=
  ∀ paint ∈ grid.paintLogo chrome, grid.ChromeOnScreen glyphs paint

end Grid

/-- A text on a display that is large enough for the chrome: `bbulk_set` has taken its columns
and rows away, and `kmscon_text_resize` has left at least one cell. -/
structure LargeGrid extends Grid where
  cols_pos : 0 < txt.cols
  rows_pos : 0 < txt.rows
  maxCols_eq : txt.maxCols + (chromeHorizontalCells + 2 * chromePadCols) =
    toGrid.colSize / font.width
  maxRows_eq : txt.maxRows + (chromeTopRows + chromeBottomRows + chromeSafeMarginRows) =
    toGrid.rowSize / font.height

namespace LargeGrid

variable (grid : LargeGrid)

/-- Where the text is turned, the card has room for its border, which is not, and a text that
is turned right has room for the rows of the chrome. -/
def HasTurnedRoom : Prop :=
  grid.txt.orientation.upright = false →
    (grid.sw - (grid.txt.rows + 2) * grid.font.height) / 2 +
        (grid.txt.cols + 4) * grid.font.width ≤ grid.sw ∧
      (grid.sh - grid.txt.cols * grid.font.width) / 2 +
        (grid.txt.rows + 6) * grid.font.height ≤ grid.sh ∧
      (grid.txt.orientation = .right → (grid.txt.rows + 20) * grid.font.height ≤ grid.sw)

instance : Decidable grid.HasTurnedRoom := inferInstanceAs (Decidable (_ → _))

/-- There is room for the logo, which is painted in one orientation only. -/
def HasLogoRoom (chrome : Chrome) : Prop :=
  ∀ buf, chrome.logo = some buf → grid.txt.orientation = .normal →
    (grid.sw - (grid.txt.cols + 4) * grid.font.width) / 2 + grid.font.width + buf.width ≤ grid.sw ∧
      (3 * grid.font.height < buf.height →
        topBias (grid.sh - (grid.txt.rows + 9) * grid.font.height) grid.font.height + buf.height ≤
          grid.sh)

variable {grid}

/-! ## Room -/

theorem width_pos (grid : LargeGrid) : 0 < grid.font.width :=
  Nat.pos_of_ne_zero fun hzero => by
    have := grid.maxCols_eq
    simp [hzero, chromePadCols] at this

theorem height_pos (grid : LargeGrid) : 0 < grid.font.height :=
  Nat.pos_of_ne_zero fun hzero => by
    have := grid.maxRows_eq
    simp [hzero, chromeTopRows] at this

/-- Eighteen columns are left beside the text. -/
theorem cols_room (grid : LargeGrid) :
    grid.txt.cols * grid.font.width + 18 * grid.font.width ≤ grid.colSize := by
  have hmax : (grid.txt.maxCols + 18) * grid.font.width ≤ grid.colSize := by
    have hdiv := Nat.div_mul_le_self grid.colSize grid.font.width
    rwa [← grid.maxCols_eq] at hdiv
  rw [← Nat.add_mul]
  exact (Nat.mul_le_mul_right _ (Nat.add_le_add_right grid.cols_le 18)).trans hmax

/-- Seventeen rows are left beside the text. -/
theorem rows_room (grid : LargeGrid) :
    grid.txt.rows * grid.font.height + 17 * grid.font.height ≤ grid.rowSize := by
  have hmax : (grid.txt.maxRows + 17) * grid.font.height ≤ grid.rowSize := by
    have hdiv := Nat.div_mul_le_self grid.rowSize grid.font.height
    rwa [← grid.maxRows_eq] at hdiv
  rw [← Nat.add_mul]
  exact (Nat.mul_le_mul_right _ (Nat.add_le_add_right grid.rows_le 17)).trans hmax

/-- The offsets and sums of the border of a turned text. -/
theorem border_turned (hup : grid.txt.orientation.upright = false) :
    grid.border.offX =
        (grid.sw - (grid.txt.rows * grid.font.height + 2 * grid.font.height)) / 2 ∧
      grid.border.offY = (grid.sh - grid.txt.cols * grid.font.width) / 2 := by
  have hcols := grid.cols_room
  have hrows := grid.rows_room
  have hsw := grid.sw_lt
  have hsh := grid.sh_lt
  simp only [Grid.colSize, Grid.rowSize, hup, Bool.false_eq_true, if_false] at hcols hrows
  simp only [Grid.border, computeBorder, hup, Bool.false_eq_true, if_false, Nat.add_mul]
  rw [wrapSub_of_le (by omega) (by omega), wrapSub_of_le (by omega) (by omega)]
  exact ⟨rfl, rfl⟩

/-- The offsets of the border of an upright text. -/
theorem border_upright (hup : grid.txt.orientation.upright = true) :
    grid.border.offX =
        (grid.sw - (grid.txt.cols * grid.font.width + 4 * grid.font.width)) / 2 ∧
      grid.border.offY =
        topBias (grid.sh - (grid.txt.rows * grid.font.height + 9 * grid.font.height))
          grid.font.height := by
  have hcols := grid.cols_room
  have hrows := grid.rows_room
  have hsw := grid.sw_lt
  have hsh := grid.sh_lt
  have hheight := grid.height_pos
  have hcontent : (grid.txt.rows + chromeTopRows + chromeBottomRows) * grid.font.height =
      grid.txt.rows * grid.font.height + 9 * grid.font.height := by
    rw [Nat.add_assoc, Nat.add_mul]
    rfl
  have hcard : (grid.txt.cols + 2 * chromePadCols) * grid.font.width =
      grid.txt.cols * grid.font.width + 4 * grid.font.width := Nat.add_mul _ _ _
  simp only [Grid.colSize, Grid.rowSize, hup, if_true] at hcols hrows
  simp only [Grid.border, computeBorder, hup, if_true, hcontent, hcard]
  rw [wrapSub_of_le (by omega) (by omega), wrap_of_lt (by omega), if_pos (by omega)]
  exact ⟨rfl, rfl⟩

theorem topBias_le (freeH fontHeight : ℕ) : topBias freeH fontHeight ≤ freeH / 3 :=
  min_le_right _ _

/-! ## Cells -/

/-- A place of the text or of its chrome. -/
theorem place_le {gx gy : ℕ} (hgx : gx < grid.cardCols) (hgy : gy ≤ grid.secondaryY) :
    gx * grid.font.width + grid.font.width ≤
        grid.txt.cols * grid.font.width + 4 * grid.font.width ∧
      gy * grid.font.height + grid.font.height ≤
        grid.txt.rows * grid.font.height + 9 * grid.font.height := by
  simp only [Grid.cardCols, chromePadCols, Grid.secondaryY, chromeTopRows, chromePadRows,
    chromeFooterGapRows] at hgx hgy
  rw [← Nat.succ_mul, ← Nat.succ_mul, ← Nat.add_mul, ← Nat.add_mul]
  exact ⟨Nat.mul_le_mul_right _ (by omega), Nat.mul_le_mul_right _ (by omega)⟩

/-- The glyph of a place of the text or of its chrome is inside the display. -/
theorem coordinate_onScreen (hroom : grid.HasTurnedRoom) {gx gy : ℕ} (hgx : gx < grid.cardCols)
    (hgy : gy ≤ grid.secondaryY) : grid.CoordinateSubtracts gx gy ∧
      (grid.setCoordinate gx gy).1 +
          (if grid.txt.orientation.upright then 2 * grid.font.width else grid.font.height) ≤ grid.sw ∧
        (grid.setCoordinate gx gy).2 +
          (if grid.txt.orientation.upright then grid.font.height else 2 * grid.font.width) ≤
            grid.sh := by
  obtain ⟨hcol, hrow⟩ := place_le hgx hgy
  have hcols := grid.cols_room
  have hrows := grid.rows_room
  have hsw := grid.sw_lt
  have hsh := grid.sh_lt
  cases horient : grid.txt.orientation with
  | normal =>
    have hup : grid.txt.orientation.upright = true := by rw [horient]; rfl
    obtain ⟨hoffX, hoffY⟩ := border_upright hup
    have hbias := topBias_le (grid.sh - (grid.txt.rows * grid.font.height + 9 * grid.font.height))
      grid.font.height
    simp only [Grid.colSize, Grid.rowSize, hup, if_true] at hcols hrows
    simp only [Grid.CoordinateSubtracts, Grid.setCoordinate, horient, Orientation.upright, if_true,
      true_and]
    rw [wrap_of_lt (by omega), wrap_of_lt (by omega)]
    omega
  | upsideDown =>
    have hup : grid.txt.orientation.upright = true := by rw [horient]; rfl
    obtain ⟨hoffX, hoffY⟩ := border_upright hup
    have hmaxX := Grid.maxX_upright hup grid.cols_pos
    have hmaxY := Grid.maxY_upright hup grid.rows_pos
    have hbias := topBias_le (grid.sh - (grid.txt.rows * grid.font.height + 9 * grid.font.height))
      grid.font.height
    simp only [Grid.colSize, Grid.rowSize, hup, if_true] at hcols hrows
    simp only [Grid.CoordinateSubtracts, Grid.setCoordinate, horient, Orientation.upright, if_true,
      Nat.succ_mul]
    refine ⟨⟨.of_le (by omega), .of_le (by omega)⟩, ?_⟩
    rw [wrapSub_of_le (by omega) (by omega), wrapSub_of_le (by omega) (by omega)]
    omega
  | right =>
    have hup : grid.txt.orientation.upright = false := by rw [horient]; rfl
    obtain ⟨hoffX, hoffY⟩ := border_turned hup
    have hmaxX := Grid.maxX_turned hup
    have hmargin := (hroom hup).2.2 horient
    simp only [Grid.colSize, Grid.rowSize, hup, Bool.false_eq_true, if_false] at hcols hrows
    simp only [Grid.CoordinateSubtracts, Grid.setCoordinate, horient, Orientation.upright,
      Bool.false_eq_true, if_false, Nat.succ_mul]
    rw [Nat.add_mul] at hmargin
    refine ⟨.of_le (by omega), ?_⟩
    rw [wrapSub_of_le (by omega) (by omega), wrap_of_lt (by omega)]
    omega
  | left =>
    have hup : grid.txt.orientation.upright = false := by rw [horient]; rfl
    obtain ⟨hoffX, hoffY⟩ := border_turned hup
    have hmaxY := Grid.maxY_turned hup
    simp only [Grid.colSize, Grid.rowSize, hup, Bool.false_eq_true, if_false] at hcols hrows
    simp only [Grid.CoordinateSubtracts, Grid.setCoordinate, horient, Orientation.upright,
      Bool.false_eq_true, if_false, Nat.succ_mul]
    refine ⟨.of_le (by omega), ?_⟩
    rw [wrap_of_lt (by omega), wrapSub_of_le (by omega) (by omega)]
    omega

/-- A glyph is one or two cells wide. -/
theorem glyphReq_size (grid : Grid) (glyph : Glyph) (fg bg : Rgb) (start : ℕ × ℕ) :
    min (grid.glyphReq glyph fg bg start).w (grid.glyphReq glyph fg bg start).bufWidth ≤
        (if grid.txt.orientation.upright then 2 * grid.font.width else grid.font.height) ∧
      min (grid.glyphReq glyph fg bg start).h (grid.glyphReq glyph fg bg start).bufHeight ≤
        (if grid.txt.orientation.upright then grid.font.height else 2 * grid.font.width) := by
  simp only [Grid.glyphReq, min_self]
  split_ifs <;> omega

theorem cellReq_size (grid : Grid) (glyph : Glyph) (fg bg : Rgb) (posx posy : ℕ) :
    min (grid.cellReq glyph fg bg posx posy).w (grid.cellReq glyph fg bg posx posy).bufWidth ≤
        (if grid.txt.orientation.upright then 2 * grid.font.width else grid.font.height) ∧
      min (grid.cellReq glyph fg bg posx posy).h (grid.cellReq glyph fg bg posx posy).bufHeight ≤
        (if grid.txt.orientation.upright then grid.font.height else 2 * grid.font.width) := by
  constructor <;> refine (min_le_right _ _).trans ?_ <;> simp only [Grid.cellReq] <;>
    split_ifs <;> omega

theorem cellReq_place (grid : Grid) (glyph : Glyph) (fg bg : Rgb) (posx posy : ℕ) :
    ((grid.cellReq glyph fg bg posx posy).x, (grid.cellReq glyph fg bg posx posy).y) =
      grid.setCoordinate (grid.startCol glyph posx) (posy + chromeTopRows) := by
  simp only [Grid.cellReq, Grid.startCol]
  split_ifs <;> rfl

theorem cell_onScreen (hroom : grid.HasTurnedRoom) (glyph : Glyph) {posx posy : ℕ}
    (hposx : posx < grid.txt.cols) (hposy : posy < grid.txt.rows) :
    grid.CellOnScreen glyph posx posy := by
  have hcol : grid.startCol glyph posx < grid.cardCols := by
    simp only [Grid.startCol, Grid.cardCols, chromePadCols]
    split_ifs <;> omega
  have hrow : posy + chromeTopRows ≤ grid.secondaryY := by
    simp only [Grid.secondaryY]
    omega
  obtain ⟨hsub, hx, hy⟩ := coordinate_onScreen hroom hcol hrow
  refine ⟨hsub, fun fg bg => ?_⟩
  obtain ⟨hw, hh⟩ := cellReq_size grid.toGrid glyph fg bg posx posy
  have hplace := cellReq_place grid.toGrid glyph fg bg posx posy
  rw [← hplace] at hx hy
  exact ⟨(Nat.add_le_add_left hw _).trans hx, (Nat.add_le_add_left hh _).trans hy⟩

theorem chromeCell_onScreen (hroom : grid.HasTurnedRoom) (glyphs : ℕ → CellAttr → Glyph)
    {gx gy : ℕ} (hgx : gx < grid.cardCols) (hgy : gy ≤ grid.secondaryY) (bg fg : Rgb)
    (ch : UInt8) : grid.ChromeOnScreen glyphs (.cell gx gy bg fg ch) := by
  obtain ⟨hsub, hx, hy⟩ := coordinate_onScreen hroom hgx hgy
  obtain ⟨hw, hh⟩ := glyphReq_size grid.toGrid (glyphs ch.toNat Cell.zero.attr) fg bg
    (grid.setCoordinate gx gy)
  exact ⟨hsub, (Nat.add_le_add_left hw _).trans hx, (Nat.add_le_add_left hh _).trans hy⟩

/-! ## The border of the card -/

/-- Four strokes are inside the display, if their rectangle is. -/
theorem stroke_onScreen_iff (grid : Grid) (glyphs : ℕ → CellAttr → Glyph) {x y w h : ℕ}
    (color : Rgb) (hw : 0 < w) (hh : 0 < h) (hx : x + w < 4294967296) (hy : y + h < 4294967296) :
    (∀ paint ∈ strokeCardBorder x y w h chromeBorderPx color,
      grid.ChromeOnScreen glyphs paint) ↔ x + w ≤ grid.sw ∧ y + h ≤ grid.sh := by
  have hstroke : strokeCardBorder x y w h chromeBorderPx color =
      [.solid x y w 1 color, .solid x (y + h - 1) w 1 color, .solid x y 1 h color,
        .solid (x + w - 1) y 1 h color] := by
    simp only [strokeCardBorder, fillSolidRect, chromeBorderPx, hw.ne', hh.ne', one_ne_zero,
      or_self, if_false, List.cons_append, List.nil_append]
    rw [wrap_of_lt hx, wrap_of_lt hy, wrapSub_of_le (by omega) hx, wrapSub_of_le (by omega) hy]
  rw [hstroke]
  simp only [List.mem_cons, List.not_mem_nil, or_false, forall_eq_or_imp, forall_eq,
    Grid.ChromeOnScreen, Grid.ReqOnScreen, Grid.chromeReq, min_self, true_and]
  omega

/-- The rectangle of the border. -/
theorem cardBorder_onScreen_iff (grid : LargeGrid) (glyphs : ℕ → CellAttr → Glyph) :
    (∀ paint ∈ grid.paintCardBorder, grid.ChromeOnScreen glyphs paint) ↔
      grid.border.offX + (grid.txt.cols + 4) * grid.font.width ≤ grid.sw ∧
        grid.border.offY + (grid.txt.rows + 6) * grid.font.height ≤ grid.sh := by
  have hcols := grid.cols_room
  have hrows := grid.rows_room
  have hcolSize := grid.colSize_lt
  have hrowSize := grid.rowSize_lt
  have hoffX := grid.offX_lt
  have hoffY := grid.offY_lt
  have hwidth := grid.width_pos
  have hheight := grid.height_pos
  have hw : wrap (grid.cardCols * grid.font.width) =
      grid.txt.cols * grid.font.width + 4 * grid.font.width := by
    rw [Grid.cardCols, Nat.add_mul]
    exact wrap_of_lt (by simp only [chromePadCols]; omega)
  have hh : wrap ((chromePadRows + grid.txt.rows + chromePadRows) * grid.font.height) =
      grid.txt.rows * grid.font.height + 2 * grid.font.height := by
    rw [Nat.add_right_comm, Nat.add_mul, Nat.add_comm]
    exact wrap_of_lt (by simp only [chromePadRows]; omega)
  have hy : wrap (grid.border.offY + chromeCardY0 * grid.font.height) =
      grid.border.offY + 4 * grid.font.height := wrap_of_lt (by
    simp only [chromeCardY0]
    omega)
  rw [Grid.paintCardBorder, hw, hh, hy, stroke_onScreen_iff grid.toGrid glyphs cardBorder (by omega)
    (by omega) (by omega) (by omega), Nat.add_mul, Nat.add_mul]
  omega

/-- The subtractions in the border of a card never wrap around. -/
theorem borderSubtracts (grid : LargeGrid) : grid.BorderSubtracts := by
  have hcols := grid.cols_room
  have hrows := grid.rows_room
  have hcolSize := grid.colSize_lt
  have hrowSize := grid.rowSize_lt
  have hoffX := grid.offX_lt
  have hoffY := grid.offY_lt
  have hwidth := grid.width_pos
  have hheight := grid.height_pos
  unfold Grid.BorderSubtracts Grid.cardCols
  simp only [chromePadRows, chromePadCols, chromeCardY0, chromeBorderPx, Nat.add_mul]
  constructor <;> refine .of_le ?_
  · rw [@wrap_of_lt (grid.border.offY + _) (by omega), @wrap_of_lt (1 * _ + _ + _) (by omega),
      wrap_of_lt (by omega)]
    omega
  · rw [@wrap_of_lt (_ + 2 * 2 * _) (by omega), wrap_of_lt (by omega)]
    omega

/-! ## The pointer -/

/-- Half of the pointer is kept from both ends of the border. -/
theorem pointer_place {max half val : ℕ} (hmax : max < 4294967296) (hhalf : 2 * half ≤ max) :
    Subtracts max half ∧ Subtracts (clamp val half (wrapSub max half)) half ∧
      wrapSub (clamp val half (wrapSub max half)) half + 2 * half ≤ max := by
  rw [wrapSub_of_le (by omega) hmax]
  obtain ⟨hlow, hhigh⟩ := @clamp_mem val half (max - half) (by omega)
  refine ⟨.of_le (by omega), .of_le hlow, ?_⟩
  rw [wrapSub_of_le hlow (by omega)]
  omega

theorem pointer_onScreen (grid : LargeGrid) (glyph : Glyph) (x y : ℕ) :
    grid.PointerOnScreen glyph x y := by
  obtain ⟨⟨-, hx⟩, -, hy⟩ := Grid.clampPointer_mem grid.cols_pos grid.rows_pos x y
  have hcols := grid.cols_room
  have hrows := grid.rows_room
  have hcolSize := grid.colSize_lt
  have hrowSize := grid.rowSize_lt
  have hcell := Nat.le_mul_of_pos_left grid.font.width grid.cols_pos
  have hline := Nat.le_mul_of_pos_left grid.font.height grid.rows_pos
  refine ⟨⟨?_, ?_⟩, ?_⟩
  · exact .of_le (by rw [wrap_of_lt (by omega)]; omega)
  · exact .of_le (by rw [wrap_of_lt (by omega)]; omega)
  generalize grid.clampPointer x y = pos at hx hy ⊢
  -- the border has room for a wide pointer after it along the lines of the text
  have hmax : (grid.border.maxX < 4294967296 ∧ grid.border.maxY < 4294967296) ∧
      (2 * grid.pointerHalf.1 ≤ grid.border.maxX ∧ 2 * grid.pointerHalf.2 ≤ grid.border.maxY) ∧
      (grid.border.maxX + (if grid.txt.orientation.upright then 2 * grid.font.width
          else grid.font.height) ≤ grid.sw + 2 * grid.pointerHalf.1 ∧
        grid.border.maxY + (if grid.txt.orientation.upright then grid.font.height
          else 2 * grid.font.width) ≤ grid.sh + 2 * grid.pointerHalf.2) ∧
      (grid.txt.orientation.upright = true → pos.1 ≤ grid.border.maxX ∧ pos.2 ≤ grid.border.maxY) ∧
      (grid.txt.orientation.upright = false → pos.2 ≤ grid.border.maxX ∧
        pos.1 ≤ grid.border.maxY) := by
    have hsw := grid.sw_lt
    have hsh := grid.sh_lt
    rcases Bool.eq_false_or_eq_true grid.txt.orientation.upright with hup | hup
    · obtain ⟨hoffX, hoffY⟩ := border_upright hup
      have hmaxX := Grid.maxX_upright hup grid.cols_pos
      have hmaxY := Grid.maxY_upright hup grid.rows_pos
      have hbias := topBias_le
        (grid.sh - (grid.txt.rows * grid.font.height + 9 * grid.font.height)) grid.font.height
      simp only [Grid.colSize, Grid.rowSize, hup, if_true] at hcols hrows
      simp only [hup, Grid.pointerHalf, divRoundUp, if_true]
      refine ⟨by omega, by omega, by omega, fun _ => by omega, fun h => absurd h (by decide)⟩
    · obtain ⟨hoffX, hoffY⟩ := border_turned hup
      have hmaxX := Grid.maxX_turned hup
      have hmaxY := Grid.maxY_turned hup
      simp only [Grid.colSize, Grid.rowSize, hup, Bool.false_eq_true, if_false] at hcols hrows
      simp only [hup, Grid.pointerHalf, divRoundUp, Bool.false_eq_true, if_false]
      refine ⟨by omega, by omega, by omega, fun h => absurd h id, fun _ => by omega⟩
  obtain ⟨⟨hltX, hltY⟩, ⟨hhalfX, hhalfY⟩, ⟨hendX, hendY⟩, hupright, hturned⟩ := hmax
  obtain ⟨hsubX, hcentreX, hstartX⟩ :=
    @pointer_place _ _ (grid.pointerPlace pos.1 pos.2).1 hltX hhalfX
  obtain ⟨hsubY, hcentreY, hstartY⟩ :=
    @pointer_place _ _ (grid.pointerPlace pos.1 pos.2).2 hltY hhalfY
  refine ⟨⟨?_, ⟨hsubX, hsubY⟩, hcentreX, hcentreY⟩, fun fg bg => ?_⟩
  · cases horient : grid.txt.orientation with
    | normal => trivial
    | upsideDown =>
      obtain ⟨hposX, hposY⟩ := hupright (by rw [horient]; rfl)
      exact ⟨.of_le hposX, .of_le hposY⟩
    | right => exact .of_le (hturned (by rw [horient]; rfl)).1
    | left => exact .of_le (hturned (by rw [horient]; rfl)).2
  · obtain ⟨hw, hh⟩ := glyphReq_size grid.toGrid glyph fg bg
      (grid.setPointerCoordinate pos.1 pos.2)
    constructor
    · refine (Nat.add_le_add_left hw _).trans ?_
      change wrapSub _ _ + _ ≤ _
      simp only [Grid.pointerCentre]
      omega
    · refine (Nat.add_le_add_left hh _).trans ?_
      change wrapSub _ _ + _ ≤ _
      simp only [Grid.pointerCentre]
      omega

/-! ## All that is painted -/

/-- The chrome has room beside the text. -/
theorem border_isSome (grid : LargeGrid) :
    (computeBorderChecked grid.txt grid.font grid.sw grid.sh).isSome = true := by
  have hcols := grid.cols_room
  have hrows := grid.rows_room
  have hsw := grid.sw_lt
  have hsh := grid.sh_lt
  refine (@borderFits_of_card .bbulk _ _ _ _ (by omega) (by omega) ?_ ?_).1
  all_goals
    simp only [cardCells, cellSize, Renderer.padCols]
    rcases Bool.eq_false_or_eq_true grid.txt.orientation.upright with hup | hup <;>
      simp only [Grid.colSize, Grid.rowSize, hup, Bool.false_eq_true, if_true, if_false,
        chromePadCols, chromeTopRows, chromeBottomRows, Nat.add_mul] at hcols hrows ⊢ <;>
      omega

/-- The last row of the page, below the footer's text. -/
theorem footer_mem (grid : Grid) (chrome : Chrome) (hcols : 0 < grid.cardCols) :
    .cell 0 grid.secondaryY Bbulk.page spanFg 32 ∈ grid.bbulkDrawStatus chrome := by
  have hrow : grid.secondaryY ∈
      List.range' (chromeTopRows + grid.txt.rows + 1) (chromePadRows + chromeFooterGapRows) := by
    simp only [List.mem_range'_1, Grid.secondaryY, chromePadRows, chromeFooterGapRows]
    omega
  have hspan : .cell 0 grid.secondaryY Bbulk.page spanFg 32 ∈
      paintChromeSpan grid.secondaryY 0 grid.cardCols Bbulk.page :=
    List.mem_map.mpr ⟨0, List.mem_range'_1.mpr ⟨le_rfl, by omega⟩, rfl⟩
  refine List.mem_append_left _ (List.mem_append_right _ (List.mem_append_left _ ?_))
  exact List.mem_flatMap.mpr ⟨_, hrow, hspan⟩

theorem mem_paintLogo {grid : Grid} {chrome : Chrome} {paint : ChromePaint} :
    paint ∈ grid.paintLogo chrome ↔ ∃ buf, chrome.logo = some buf ∧
      grid.txt.orientation = .normal ∧
        paint = .logo (wrap (grid.border.offX + grid.font.width)) (grid.logoY buf) buf := by
  unfold Grid.paintLogo
  cases chrome.logo with
  | none => simp
  | some buf =>
    dsimp only
    split_ifs with hnormal <;> simp [hnormal]

theorem border_not_mem_paintLogo {grid : Grid} {chrome : Chrome} {paint : ChromePaint}
    (h : paint ∈ grid.paintCardBorder) : paint ∉ grid.paintLogo chrome := by
  rintro hlogo
  obtain ⟨buf, -, -, rfl⟩ := mem_paintLogo.mp hlogo
  revert h
  simp only [Grid.paintCardBorder, strokeCardBorder, fillSolidRect]
  split_ifs <;> simp

theorem hasTurnedRoom_of_onScreen {glyphs : ℕ → CellAttr → Glyph} {chrome : Chrome}
    (h : grid.PaintsOnScreen glyphs chrome) : grid.HasTurnedRoom := by
  intro hup
  obtain ⟨hoffX, hoffY⟩ := border_turned hup
  have hborder := (cardBorder_onScreen_iff grid glyphs).mp fun paint hpaint =>
    h.chrome paint
      (List.mem_append_left _ (List.mem_append_left _ (List.mem_append_right _ hpaint)))
      (border_not_mem_paintLogo hpaint)
  rw [hoffX, hoffY] at hborder
  refine ⟨Nat.add_mul _ 2 _ ▸ hborder.1, hborder.2, fun horient => ?_⟩
  have hcols : 0 < grid.cardCols := grid.cols_pos.trans_le (Nat.le_add_right _ _)
  have hfooter := (h.chrome _ (footer_mem grid.toGrid chrome hcols) fun hlogo => by
    obtain ⟨buf, -, hnormal, -⟩ := mem_paintLogo.mp hlogo
    rw [horient] at hnormal
    simp at hnormal).1
  have hrows := grid.rows_room
  have hrowSize := grid.rowSize_lt
  have hheight := grid.height_pos
  have hmaxX := Grid.maxX_turned hup
  simp only [Grid.CoordinateSubtracts, horient, Subtracts] at hfooter
  have hrow : (grid.secondaryY + 1) * grid.font.height =
      grid.txt.rows * grid.font.height + 9 * grid.font.height := by
    rw [← Nat.add_mul]
    congr 1
    simp only [Grid.secondaryY, chromeTopRows, chromePadRows, chromeFooterGapRows]
    omega
  rw [hrow, wrap_of_lt (by omega), hmaxX] at hfooter
  rw [Nat.add_mul]
  omega

theorem onScreen_of_hasTurnedRoom (hroom : grid.HasTurnedRoom) (glyphs : ℕ → CellAttr → Glyph)
    (chrome : Chrome) : grid.PaintsOnScreen glyphs chrome where
  border := grid.border_isSome
  cells posx hposx posy hposy glyph := cell_onScreen hroom glyph hposx hposy
  cardBorder := grid.borderSubtracts
  pointer := grid.pointer_onScreen
  chrome paint hpaint hlogo := by
    rcases Grid.mem_bbulkDrawStatus hpaint with ⟨gx, hgx, gy, hgy, bg, fg, ch, rfl⟩ | hborder | h
    · exact chromeCell_onScreen hroom glyphs hgx hgy bg fg ch
    · refine (cardBorder_onScreen_iff grid glyphs).mpr ?_ paint hborder
      have hcols := grid.cols_room
      have hrows := grid.rows_room
      rcases Bool.eq_false_or_eq_true grid.txt.orientation.upright with hup | hup
      · obtain ⟨hoffX, hoffY⟩ := border_upright hup
        have hbias := topBias_le
          (grid.sh - (grid.txt.rows * grid.font.height + 9 * grid.font.height)) grid.font.height
        simp only [Grid.colSize, Grid.rowSize, hup, if_true] at hcols hrows
        simp only [Nat.add_mul]
        omega
      · obtain ⟨hoffX, hoffY⟩ := border_turned hup
        obtain ⟨hwidth, hheight, -⟩ := hroom hup
        rw [hoffX, hoffY, ← Nat.add_mul]
        exact ⟨hwidth, hheight⟩
    · exact absurd h hlogo

theorem logoOnScreen_iff (grid : LargeGrid) (glyphs : ℕ → CellAttr → Glyph) (chrome : Chrome) :
    grid.LogoOnScreen glyphs chrome ↔ grid.HasLogoRoom chrome := by
  have hcols := grid.cols_room
  have hrows := grid.rows_room
  have hrect (buf : VideoBuffer) (hnormal : grid.txt.orientation = .normal) :
      grid.ChromeOnScreen glyphs
          (.logo (wrap (grid.border.offX + grid.font.width)) (grid.logoY buf) buf) ↔
        (grid.sw - (grid.txt.cols + 4) * grid.font.width) / 2 + grid.font.width + buf.width ≤
            grid.sw ∧
          (3 * grid.font.height < buf.height →
            topBias (grid.sh - (grid.txt.rows + 9) * grid.font.height) grid.font.height +
              buf.height ≤ grid.sh) := by
    have hup : grid.txt.orientation.upright = true := by rw [hnormal]; rfl
    obtain ⟨hoffX, hoffY⟩ := border_upright hup
    have hsw := grid.sw_lt
    have hsh := grid.sh_lt
    have hbias := topBias_le
      (grid.sh - (grid.txt.rows * grid.font.height + 9 * grid.font.height)) grid.font.height
    simp only [Grid.colSize, Grid.rowSize, hup, if_true] at hcols hrows
    have hgap : wrap (chromeBrandRows * grid.font.height) = 3 * grid.font.height :=
      wrap_of_lt (by simp only [chromeBrandRows]; omega)
    simp only [Grid.ChromeOnScreen, Grid.ReqOnScreen, Grid.chromeReq, min_self, true_and,
      Nat.add_mul, ← hoffX, ← hoffY, Grid.logoY, hgap]
    rw [@wrap_of_lt (grid.border.offX + _) (by omega)]
    refine and_congr_right fun _ => ?_
    split_ifs with hsmall
    · rw [wrap_of_lt (by omega)]
      omega
    · omega
  constructor
  · exact fun h buf hlogo hnormal => (hrect buf hnormal).mp
      (h _ (mem_paintLogo.mpr ⟨buf, hlogo, hnormal, rfl⟩))
  · intro h paint hpaint
    obtain ⟨buf, hlogo, hnormal, rfl⟩ := mem_paintLogo.mp hpaint
    exact (hrect buf hnormal).mpr (h buf hlogo hnormal)

/-- All painting stays on the screen, if and only if a turned text leaves room for what is not
turned with it; and the logo does, if and only if it fits. -/
theorem paintsOnScreen_iff (grid : LargeGrid) (glyphs : ℕ → CellAttr → Glyph) (chrome : Chrome) :
    (grid.PaintsOnScreen glyphs chrome ↔ grid.HasTurnedRoom) ∧
      (grid.LogoOnScreen glyphs chrome ↔ grid.HasLogoRoom chrome) :=
  ⟨⟨hasTurnedRoom_of_onScreen, fun h => onScreen_of_hasTurnedRoom h glyphs chrome⟩,
    logoOnScreen_iff grid glyphs chrome⟩

theorem turnedRight_sw : 640 < 16777216 := by decide

theorem turnedRight_sh : 480 < 16777216 := by decide

/-- The largest text of the built-in font on a common display, turned right. -/
def turnedRight : LargeGrid where
  toGrid := Grid.afterSet ⟨.right, 0, 0, 0, 0⟩ ⟨8, 16, 8⟩ 640 480 turnedRight_sw turnedRight_sh
  cols_pos := by decide
  rows_pos := by decide
  maxCols_eq := by decide
  maxRows_eq := by decide

/-- The footer wraps around the left edge of the display. -/
theorem turnedRight_not_onScreen :
    ¬ ∃ glyphs chrome, turnedRight.PaintsOnScreen glyphs chrome := by
  rintro ⟨glyphs, chrome, h⟩
  have hfooter := (h.chrome _ (footer_mem turnedRight.toGrid chrome (by decide)) fun hlogo => by
    obtain ⟨buf, -, hnormal, -⟩ := mem_paintLogo.mp hlogo
    revert hnormal
    decide).1
  have hwrap : Subtracts turnedRight.border.maxX
    ((turnedRight.secondaryY + 1) * turnedRight.font.height) := hfooter
  revert hwrap
  decide

end LargeGrid

end Faceplate.Render
