import Faceplate.Render.Layout

/-!
# The pointer

Two mappings take a position of the pointer to the screen, that of the software pointer in
`set_pointer_coordinate` and that of the hardware cursor, and a third takes it to a cell of
the text, for selections. Cells have a mapping of their own. The four agree in the normal
orientation only.
-/

namespace Faceplate.Render

/-- `clamp`. -/
def clamp (val low high : ℕ) : ℕ := if val < low then low else if high < val then high else val

theorem clamp_mem {val low high : ℕ} (h : low ≤ high) :
    low ≤ clamp val low high ∧ clamp val low high ≤ high := by
  unfold clamp
  split_ifs <;> omega

/-- `SHL_DIV_ROUND_UP`. -/
def divRoundUp (n d : ℕ) : ℕ := (n + (d - 1)) / d

namespace Grid

variable (grid : Grid)

/-- `coord_to_cell`. -/
def coordToCell (x y : ℕ) : ℕ × ℕ :=
  let posx := x / grid.font.width
  let posy := y / grid.font.height
  (if grid.txt.cols ≤ posx then grid.txt.cols - 1 else posx,
    if grid.txt.rows ≤ posy then grid.txt.rows - 1 else posy)

/-- `pointer_x` and `pointer_y` where `bbulk_draw_pointer` draws the pointer. -/
def clampPointer (x y : ℕ) : ℕ × ℕ :=
  let fw2 := grid.font.width / 2
  let fh2 := grid.font.height / 2
  (clamp x fw2 (wrapSub (wrap (grid.txt.cols * grid.font.width)) fw2),
    clamp y fh2 (wrapSub (wrap (grid.txt.rows * grid.font.height)) fh2))

/-- `hf_w` and `hf_h`. -/
def pointerHalf : ℕ × ℕ :=
  if grid.txt.orientation.upright then
    (divRoundUp grid.font.width 2, divRoundUp grid.font.height 2)
  else (divRoundUp grid.font.height 2, divRoundUp grid.font.width 2)

/-- `x` and `y` in `set_pointer_coordinate` before they are clamped. -/
def pointerPlace (x y : ℕ) : ℕ × ℕ :=
  match grid.txt.orientation with
  | .normal => (wrap (x + grid.border.offX + chromePadCols * grid.font.width),
      wrap (y + grid.border.offY + chromeTopRows * grid.font.height))
  | .upsideDown => (wrapSub grid.border.maxX x, wrapSub grid.border.maxY y)
  | .right => (wrapSub grid.border.maxX y,
      wrap (x + grid.border.offY + chromeTopRows * grid.font.height))
  | .left => (wrap (y + grid.border.offX), wrapSub grid.border.maxY x)

/-- The centre of the pointer in `set_pointer_coordinate`. -/
def pointerCentre (x y : ℕ) : ℕ × ℕ :=
  let place := grid.pointerPlace x y
  (clamp place.1 grid.pointerHalf.1 (wrapSub grid.border.maxX grid.pointerHalf.1),
    clamp place.2 grid.pointerHalf.2 (wrapSub grid.border.maxY grid.pointerHalf.2))

/-- `set_pointer_coordinate`. -/
def setPointerCoordinate (x y : ℕ) : ℕ × ℕ :=
  (wrapSub (grid.pointerCentre x y).1 grid.pointerHalf.1,
    wrapSub (grid.pointerCentre x y).2 grid.pointerHalf.2)

/-- Where the centre of the software pointer is painted. -/
def softwareCentre (x y : ℕ) : ℕ × ℕ :=
  grid.pointerCentre (grid.clampPointer x y).1 (grid.clampPointer x y).2

/-- The position that `text_show_cursor` gives to the display. -/
def textShowCursor (x y : ℕ) : ℤ × ℤ :=
  let sw := wrap (grid.txt.cols * grid.font.width)
  let sh := wrap (grid.txt.rows * grid.font.height)
  match grid.txt.orientation with
  | .normal => (x, y)
  | .upsideDown => (toInt (wrapSub sw x), toInt (wrapSub sh y))
  | .right => (toInt (wrapSub sh y), x)
  | .left => (y, toInt (wrapSub sw x))

/-- The cursor offset that `compute_border` sets. -/
def cursorOffset : ℤ × ℤ :=
  (toInt (wrap (grid.border.offX + chromePadCols * grid.font.width)),
    toInt (wrap (grid.border.offY + chromeTopRows * grid.font.height)))

/-- Where the hot spot of the hardware cursor is. -/
def hardwareCentre (x y : ℕ) : ℤ × ℤ :=
  (grid.cursorOffset.1 + (grid.textShowCursor x y).1,
    grid.cursorOffset.2 + (grid.textShowCursor x y).2)

/-- A position of the pointer inside the text, at least half a cell from its edges. -/
structure PointerInside where
  x : ℕ
  y : ℕ
  width_pos : 0 < grid.font.width
  height_pos : 0 < grid.font.height
  left : grid.font.width ≤ 2 * x
  right : 2 * x + grid.font.width ≤ 2 * (grid.txt.cols * grid.font.width)
  top : grid.font.height ≤ 2 * y
  bottom : 2 * y + grid.font.height ≤ 2 * (grid.txt.rows * grid.font.height)

variable {grid}

/-- The pointer is painted over the cell that is selected, by either painter. -/
def PointerInside.Agrees (p : grid.PointerInside) : Prop :=
  let cell := grid.coordToCell p.x p.y
  grid.InCell cell.1 cell.2 (grid.softwareCentre p.x p.y).1 (grid.softwareCentre p.x p.y).2 ∧
    ∃ px py : ℕ, grid.hardwareCentre p.x p.y = ((px : ℤ), (py : ℤ)) ∧ grid.InCell cell.1 cell.2 px py

/-- The position of the pointer is clamped into the text, half a cell from its edges. -/
theorem clampPointer_mem (hcols : 0 < grid.txt.cols) (hrows : 0 < grid.txt.rows) (x y : ℕ) :
    (grid.font.width / 2 ≤ (grid.clampPointer x y).1 ∧
        (grid.clampPointer x y).1 + grid.font.width / 2 ≤ grid.txt.cols * grid.font.width) ∧
      grid.font.height / 2 ≤ (grid.clampPointer x y).2 ∧
        (grid.clampPointer x y).2 + grid.font.height / 2 ≤ grid.txt.rows * grid.font.height := by
  have hfit := mul_width_le (le_refl grid.txt.cols)
  have hfit' := mul_height_le (le_refl grid.txt.rows)
  have hcolSize := grid.colSize_lt
  have hrowSize := grid.rowSize_lt
  have hcell := Nat.le_mul_of_pos_left grid.font.width hcols
  have hline := Nat.le_mul_of_pos_left grid.font.height hrows
  unfold clampPointer
  dsimp only
  rw [@wrap_of_lt (grid.txt.cols * grid.font.width) (by omega),
    @wrap_of_lt (grid.txt.rows * grid.font.height) (by omega), wrapSub_of_le (by omega) (by omega),
    wrapSub_of_le (by omega) (by omega)]
  have hx := @clamp_mem x (grid.font.width / 2)
    (grid.txt.cols * grid.font.width - grid.font.width / 2) (by omega)
  have hy := @clamp_mem y (grid.font.height / 2)
    (grid.txt.rows * grid.font.height - grid.font.height / 2) (by omega)
  omega

/-! ## The cell of a position -/

namespace PointerInside

theorem cols_pos (p : grid.PointerInside) : 0 < grid.txt.cols := by
  have hwidth := p.width_pos
  have hleft := p.left
  have hright := p.right
  refine Nat.pos_of_ne_zero fun hzero => ?_
  simp only [hzero, Nat.zero_mul] at hright
  omega

theorem rows_pos (p : grid.PointerInside) : 0 < grid.txt.rows := by
  have hheight := p.height_pos
  have htop := p.top
  have hbottom := p.bottom
  refine Nat.pos_of_ne_zero fun hzero => ?_
  simp only [hzero, Nat.zero_mul] at hbottom
  omega

variable (p : grid.PointerInside)

theorem coordToCell_eq : grid.coordToCell p.x p.y = (p.x / grid.font.width, p.y / grid.font.height) ∧
    p.x / grid.font.width < grid.txt.cols ∧ p.y / grid.font.height < grid.txt.rows := by
  have hwidth := p.width_pos
  have hheight := p.height_pos
  have hright := p.right
  have hbottom := p.bottom
  have hcol : p.x / grid.font.width < grid.txt.cols :=
    (Nat.div_lt_iff_lt_mul hwidth).mpr (by omega)
  have hrow : p.y / grid.font.height < grid.txt.rows :=
    (Nat.div_lt_iff_lt_mul hheight).mpr (by omega)
  refine ⟨?_, hcol, hrow⟩
  simp only [coordToCell, if_neg (not_le.mpr hcol), if_neg (not_le.mpr hrow)]

/-- The position is in its cell. -/
theorem div_mul_le : p.x / grid.font.width * grid.font.width ≤ p.x ∧
    p.x < p.x / grid.font.width * grid.font.width + grid.font.width ∧
    p.y / grid.font.height * grid.font.height ≤ p.y ∧
    p.y < p.y / grid.font.height * grid.font.height + grid.font.height := by
  exact ⟨Nat.div_mul_le_self _ _, Nat.lt_div_mul_add p.width_pos, Nat.div_mul_le_self _ _,
    Nat.lt_div_mul_add p.height_pos⟩

/-- A position inside is not clamped. -/
theorem clampPointer_eq : grid.clampPointer p.x p.y = (p.x, p.y) := by
  have hleft := p.left
  have hright := p.right
  have htop := p.top
  have hbottom := p.bottom
  have hcols := mul_width_le (le_refl grid.txt.cols)
  have hrows := mul_height_le (le_refl grid.txt.rows)
  have hcolSize := grid.colSize_lt
  have hrowSize := grid.rowSize_lt
  unfold clampPointer
  dsimp only
  rw [@wrap_of_lt (grid.txt.cols * grid.font.width) (by omega),
    @wrap_of_lt (grid.txt.rows * grid.font.height) (by omega), wrapSub_of_le (by omega) (by omega),
    wrapSub_of_le (by omega) (by omega)]
  unfold clamp
  rw [if_neg (by omega), if_neg (by omega), if_neg (by omega), if_neg (by omega)]

/-- Half of the pointer, rounded up, on each side of its position. -/
theorem half_le : divRoundUp grid.font.width 2 ≤ p.x ∧
    p.x + divRoundUp grid.font.width 2 ≤ grid.txt.cols * grid.font.width ∧
    divRoundUp grid.font.height 2 ≤ p.y ∧
    p.y + divRoundUp grid.font.height 2 ≤ grid.txt.rows * grid.font.height := by
  have hleft := p.left
  have hright := p.right
  have htop := p.top
  have hbottom := p.bottom
  unfold divRoundUp
  omega

/-! ## The painted pointer -/

theorem clamp_of_mem {val low high : ℕ} (hlow : low ≤ val) (hhigh : val ≤ high) :
    clamp val low high = val := by
  rw [clamp, if_neg (not_lt.mpr hlow), if_neg (not_lt.mpr hhigh)]

/-- The pointer is painted where it is mapped to, except near the edges of the text. -/
theorem softwareCentre_normal (hnormal : grid.txt.orientation = .normal) :
    grid.softwareCentre p.x p.y =
      (p.x + grid.border.offX + 2 * grid.font.width,
        p.y + grid.border.offY + 5 * grid.font.height) := by
  have hup : grid.txt.orientation.upright = true := by rw [hnormal]; rfl
  have hfit := mul_width_le (le_refl grid.txt.cols)
  have hfit' := mul_height_le (le_refl grid.txt.rows)
  have hcolSize := grid.colSize_lt
  have hrowSize := grid.rowSize_lt
  have hwidth := width_lt p.cols_pos
  have hheight := height_lt p.rows_pos
  have hoffX := grid.offX_lt
  have hoffY := grid.offY_lt
  obtain ⟨hl, hr, ht, hb⟩ := p.half_le
  have hmaxX := maxX_upright hup p.cols_pos
  have hmaxY := maxY_upright hup p.rows_pos
  simp only [softwareCentre, p.clampPointer_eq, pointerCentre, pointerPlace, hnormal, pointerHalf,
    Orientation.upright, if_true, chromePadCols, chromeTopRows]
  rw [@wrap_of_lt (p.x + grid.border.offX + 2 * grid.font.width) (by omega),
    @wrap_of_lt (p.y + grid.border.offY + 5 * grid.font.height) (by omega), hmaxX, hmaxY,
    wrapSub_of_le (by omega) (by omega), wrapSub_of_le (by omega) (by omega),
    clamp_of_mem (by omega) (by omega), clamp_of_mem (by omega) (by omega)]

/-- Upside down the padding is missing on the way to the screen. -/
theorem softwareCentre_upsideDown (hdown : grid.txt.orientation = .upsideDown) :
    (grid.softwareCentre p.x p.y).1 = grid.border.maxX - p.x := by
  have hup : grid.txt.orientation.upright = true := by rw [hdown]; rfl
  have hfit := mul_width_le (le_refl grid.txt.cols)
  have hcolSize := grid.colSize_lt
  have hwidth := width_lt p.cols_pos
  have hoffX := grid.offX_lt
  obtain ⟨hl, hr, -, -⟩ := p.half_le
  have hmaxX := maxX_upright hup p.cols_pos
  simp only [softwareCentre, p.clampPointer_eq, pointerCentre, pointerPlace, hdown, pointerHalf,
    Orientation.upright, if_true]
  rw [hmaxX, wrapSub_of_le (by omega) (by omega), wrapSub_of_le (by omega) (by omega),
    clamp_of_mem (by omega) (by omega)]

/-- Turned, the rows above the text are missing. -/
theorem softwareCentre_right (hright : grid.txt.orientation = .right) :
    (grid.softwareCentre p.x p.y).1 = grid.border.maxX - p.y := by
  have hup : grid.txt.orientation.upright = false := by rw [hright]; rfl
  have hfit := mul_height_le (le_refl grid.txt.rows)
  have hrowSize := grid.rowSize_lt
  have hoffX := grid.offX_lt
  obtain ⟨-, -, ht, hb⟩ := p.half_le
  have hmaxX := maxX_turned hup
  simp only [softwareCentre, p.clampPointer_eq, pointerCentre, pointerPlace, hright, pointerHalf,
    Orientation.upright, Bool.false_eq_true, if_false]
  rw [hmaxX, wrapSub_of_le (by omega) (by omega), wrapSub_of_le (by omega) (by omega),
    clamp_of_mem (by omega) (by omega)]

theorem softwareCentre_left (hleft : grid.txt.orientation = .left) :
    (grid.softwareCentre p.x p.y).1 = p.y + grid.border.offX := by
  have hup : grid.txt.orientation.upright = false := by rw [hleft]; rfl
  have hfit := mul_height_le (le_refl grid.txt.rows)
  have hrowSize := grid.rowSize_lt
  have hoffX := grid.offX_lt
  obtain ⟨-, -, ht, hb⟩ := p.half_le
  have hmaxX := maxX_turned hup
  simp only [softwareCentre, p.clampPointer_eq, pointerCentre, pointerPlace, hleft, pointerHalf,
    Orientation.upright, Bool.false_eq_true, if_false]
  rw [hmaxX, wrap_of_lt (by omega), wrapSub_of_le (by omega) (by omega),
    clamp_of_mem (by omega) (by omega)]

/-- In no other orientation is the pointer painted over its cell. -/
theorem normal_of_inCell
    (h : grid.InCell (p.x / grid.font.width) (p.y / grid.font.height)
      (grid.softwareCentre p.x p.y).1 (grid.softwareCentre p.x p.y).2) :
    grid.txt.orientation = .normal := by
  obtain ⟨hcol, hrow⟩ := h
  obtain ⟨-, hposx, hposy⟩ := p.coordToCell_eq
  obtain ⟨hlex, hltx, hley, hlty⟩ := p.div_mul_le
  obtain ⟨hl, hr, ht, hb⟩ := p.half_le
  have hfit := mul_width_le (le_refl grid.txt.cols)
  have hfit' := mul_height_le (le_refl grid.txt.rows)
  have hcolSize := grid.colSize_lt
  have hrowSize := grid.rowSize_lt
  have hwidth := width_lt p.cols_pos
  have hheight := height_lt p.rows_pos
  have hoffX := grid.offX_lt
  cases horient : grid.txt.orientation with
  | normal => rfl
  | upsideDown =>
    have hmaxX := maxX_upright (by rw [horient]; rfl) p.cols_pos
    simp only [Within, colPixel, colStart, setCoordinate, horient, Orientation.upright, if_true,
      p.softwareCentre_upsideDown horient, chromePadCols, Nat.succ_mul] at hcol
    rw [wrapSub_of_le (by omega) (by omega)] at hcol
    omega
  | right =>
    have hmaxX := maxX_turned (by rw [horient]; rfl)
    simp only [Within, rowPixel, rowStart, setCoordinate, horient, Orientation.upright,
      Bool.false_eq_true, if_false, p.softwareCentre_right horient, chromeTopRows] at hrow
    have hplace : (p.y / grid.font.height + 5 + 1) * grid.font.height =
        p.y / grid.font.height * grid.font.height + 6 * grid.font.height := by ring
    rw [hplace] at hrow
    -- a cell that wraps around is far beyond the text
    rcases Nat.lt_or_ge grid.border.maxX
      (p.y / grid.font.height * grid.font.height + 6 * grid.font.height) with hlt | hle
    · rw [wrapSub_of_lt hlt (by omega)] at hrow
      omega
    · rw [wrapSub_of_le hle (by omega)] at hrow
      omega
  | left =>
    simp only [Within, rowPixel, rowStart, setCoordinate, horient, Orientation.upright,
      Bool.false_eq_true, if_false, p.softwareCentre_left horient, chromeTopRows,
      Nat.succ_mul] at hrow
    rw [wrap_of_lt (by omega)] at hrow
    omega

/-! ## The normal orientation -/

/-- A card that is too wide starts far outside of the display. -/
theorem card_le_of_offX (hup : grid.txt.orientation.upright = true) (p : grid.PointerInside)
    (h : grid.border.offX < grid.sw) :
    grid.txt.cols * grid.font.width + 4 * grid.font.width ≤ grid.sw ∧
      2 * grid.border.offX + (grid.txt.cols * grid.font.width + 4 * grid.font.width) ≤ grid.sw := by
  have hfit := mul_width_le (le_refl grid.txt.cols)
  have hcolSize := grid.colSize_lt
  have hsw := grid.sw_lt
  have hwidth := width_lt p.cols_pos
  have hcard : (grid.txt.cols + 2 * chromePadCols) * grid.font.width =
      grid.txt.cols * grid.font.width + 4 * grid.font.width := Nat.add_mul _ _ _
  simp only [border, computeBorder, hup, if_true, hcard] at h ⊢
  rcases Nat.lt_or_ge grid.sw (grid.txt.cols * grid.font.width + 4 * grid.font.width)
    with hlt | hle
  · rw [wrapSub_of_lt hlt (by omega)] at h
    omega
  · rw [wrapSub_of_le hle (by omega)]
    omega

theorem offX_le (hup : grid.txt.orientation.upright = true)
    (hcard : (grid.txt.cols + 4) * grid.font.width ≤ grid.sw) :
    2 * grid.border.offX + (grid.txt.cols * grid.font.width + 4 * grid.font.width) ≤ grid.sw := by
  have hsw := grid.sw_lt
  rw [Nat.add_mul] at hcard
  have hcard' : (grid.txt.cols + 2 * chromePadCols) * grid.font.width =
      grid.txt.cols * grid.font.width + 4 * grid.font.width := Nat.add_mul _ _ _
  simp only [border, computeBorder, hup, if_true, hcard']
  rw [wrapSub_of_le hcard (by omega)]
  omega

/-- The lines that are left are below the text, too. -/
theorem offY_add_lt (hup : grid.txt.orientation.upright = true)
    (hrow : 5 * grid.font.height + p.y < grid.sh) :
    p.y + grid.border.offY + 5 * grid.font.height < grid.sh := by
  have hfit := mul_height_le (le_refl grid.txt.rows)
  have hrowSize := grid.rowSize_lt
  have hheight := height_lt p.rows_pos
  have hbottom := p.bottom
  have hcontent : (grid.txt.rows + chromeTopRows + chromeBottomRows) * grid.font.height =
      grid.txt.rows * grid.font.height + 9 * grid.font.height := by
    rw [Nat.add_assoc, Nat.add_mul]
    rfl
  simp only [border, computeBorder, hup, if_true, hcontent]
  rw [@wrap_of_lt (grid.txt.rows * grid.font.height + 9 * grid.font.height) (by omega)]
  unfold topBias
  split_ifs <;> omega

/-- A cell in the normal orientation. -/
theorem inCell_normal (hnormal : grid.txt.orientation = .normal) {px py : ℕ}
    (hpx : px = p.x + grid.border.offX + 2 * grid.font.width)
    (hpy : py = p.y + grid.border.offY + 5 * grid.font.height) :
    grid.InCell (p.x / grid.font.width) (p.y / grid.font.height) px py ↔
      px < grid.sw ∧ py < grid.sh := by
  obtain ⟨hlex, hltx, hley, hlty⟩ := p.div_mul_le
  have hright := p.right
  have hbottom := p.bottom
  have hfit := mul_width_le (le_refl grid.txt.cols)
  have hfit' := mul_height_le (le_refl grid.txt.rows)
  have hcolSize := grid.colSize_lt
  have hrowSize := grid.rowSize_lt
  have hwidth := width_lt p.cols_pos
  have hheight := height_lt p.rows_pos
  have hoffX := grid.offX_lt
  have hoffY := grid.offY_lt
  simp only [InCell, Within, colPixel, rowPixel, colSize, rowSize, colStart, rowStart,
    setCoordinate, hnormal, Orientation.upright, if_true, chromePadCols, chromeTopRows,
    Nat.add_mul]
  rw [@wrap_of_lt (p.x / grid.font.width * grid.font.width + 2 * grid.font.width +
    grid.border.offX) (by omega), @wrap_of_lt (p.y / grid.font.height * grid.font.height +
    5 * grid.font.height + grid.border.offY) (by omega)]
  omega

/-- On the display the hardware cursor is where the software pointer is. -/
theorem hardwareCentre_normal (hnormal : grid.txt.orientation = .normal)
    (hpx : p.x + grid.border.offX + 2 * grid.font.width < grid.sw)
    (hpy : p.y + grid.border.offY + 5 * grid.font.height < grid.sh) :
    grid.hardwareCentre p.x p.y =
      (((p.x + grid.border.offX + 2 * grid.font.width : ℕ) : ℤ),
        ((p.y + grid.border.offY + 5 * grid.font.height : ℕ) : ℤ)) := by
  have hsw := grid.sw_lt
  have hsh := grid.sh_lt
  simp only [hardwareCentre, cursorOffset, textShowCursor, hnormal, chromePadCols, chromeTopRows]
  rw [@wrap_of_lt (grid.border.offX + 2 * grid.font.width) (by omega),
    @wrap_of_lt (grid.border.offY + 5 * grid.font.height) (by omega), toInt_of_lt (by omega),
    toInt_of_lt (by omega)]
  congr 1 <;> omega

/-- The pointer and its cell agree in the normal orientation, where they are on the
display. -/
theorem agrees_iff (p : grid.PointerInside) : p.Agrees ↔
    grid.txt.orientation = .normal ∧ (grid.txt.cols + 4) * grid.font.width ≤ grid.sw ∧
      5 * grid.font.height + p.y < grid.sh := by
  simp only [Agrees, p.coordToCell_eq.1]
  constructor
  · rintro ⟨hsoftware, -⟩
    have hnormal := p.normal_of_inCell hsoftware
    have hup : grid.txt.orientation.upright = true := by rw [hnormal]; rfl
    rw [p.softwareCentre_normal hnormal] at hsoftware
    obtain ⟨hpx, hpy⟩ := (p.inCell_normal hnormal rfl rfl).mp hsoftware
    have hcard := card_le_of_offX hup p (by omega)
    refine ⟨hnormal, ?_, by omega⟩
    rw [Nat.add_mul]
    exact hcard.1
  · rintro ⟨hnormal, hcard, hrow⟩
    have hup : grid.txt.orientation.upright = true := by rw [hnormal]; rfl
    have hright := p.right
    have hwidth := p.width_pos
    have hoffX := offX_le hup hcard
    have hpy := p.offY_add_lt hup hrow
    have hpx : p.x + grid.border.offX + 2 * grid.font.width < grid.sw := by omega
    refine ⟨?_, _, _, p.hardwareCentre_normal hnormal hpx hpy, ?_⟩
    · rw [p.softwareCentre_normal hnormal]
      exact (p.inCell_normal hnormal rfl rfl).mpr ⟨hpx, hpy⟩
    · exact (p.inCell_normal hnormal rfl rfl).mpr ⟨hpx, hpy⟩

/-- A display of 640 by 640 pixels, upside down. -/
def upsideDownGrid : Grid :=
  Grid.afterSet ⟨.upsideDown, 0, 0, 0, 0⟩ ⟨8, 16, 8⟩ 640 640 (by decide) (by decide)

/-- The pointer over the cell in column 10 and line 10. -/
def overTen : upsideDownGrid.PointerInside where
  x := 84
  y := 168
  width_pos := by decide
  height_pos := by decide
  left := by decide
  right := by decide
  top := by decide
  bottom := by decide

/-- It is painted over another cell. -/
theorem overTen_not_agrees : ¬ overTen.Agrees := by
  rintro ⟨hsoftware, -⟩
  revert hsoftware
  decide

end PointerInside

end Grid

end Faceplate.Render
