import Faceplate.Render.Chrome

/-!
# The chrome of the bulk renderer

`bbulk_draw_status` paints the chrome around the cells of the text: rows of the page above
and below, the padding of the card and its border, the texts, and the logo. Here it is the
list of what is painted, in order; each entry is one request for the display. Characters are
placed by `set_coordinate` like the cells of the text, the border and the logo are not.
-/

namespace Faceplate.Render

open CString

/-- One `display_blend` of the chrome. -/
inductive ChromePaint where
  | cell (gx gy : ℕ) (bg fg : Rgb) (ch : UInt8)
  | solid (x y w h : ℕ) (color : Rgb)
  | logo (x y : ℕ) (buf : VideoBuffer)

/-- The text colour of the blanks in `paint_chrome_span`. -/
def spanFg : Rgb := ⟨180, 196, 255⟩

/-- `FACEPLATE_CARD_BORDER`. -/
def cardBorder : Rgb := ⟨51, 65, 85⟩

/-- `FACEPLATE_CHROME_BORDER_PX`. -/
def chromeBorderPx : ℕ := 1

/-- `FACEPLATE_CHROME_BRAND_ROWS`. -/
def chromeBrandRows : ℕ := 3

/-- `paint_chrome_span`. -/
def paintChromeSpan (y x0 x1 : ℕ) (bg : Rgb) : List ChromePaint :=
  (List.range' x0 (x1 - x0)).map fun x => .cell x y bg spanFg 32

/-- `fill_solid_rect`. -/
def fillSolidRect (x y w h : ℕ) (color : Rgb) : List ChromePaint :=
  if w = 0 ∨ h = 0 then [] else [.solid x y w h color]

/-- `stroke_card_border`. -/
def strokeCardBorder (x y w h px : ℕ) (color : Rgb) : List ChromePaint :=
  if w = 0 ∨ h = 0 ∨ px = 0 then []
  else
    fillSolidRect x y w px color ++ fillSolidRect x (wrapSub (wrap (y + h)) px) w px color ++
      fillSolidRect x y px h color ++ fillSolidRect (wrapSub (wrap (x + w)) px) y px h color

/-- `paint_chrome_text`. -/
def paintChromeText (y x0 maxCols : ℕ) (line : List UInt8) (bg fg : Rgb) : List ChromePaint :=
  (line.take maxCols).mapIdx fun x ch => .cell (x0 + x) y bg fg ch

/-- `paint_chrome_text_right`. -/
def paintChromeTextRight (y x0 maxCols : ℕ) (line : List UInt8) (bg fg : Rgb) :
    List ChromePaint :=
  if maxCols ≤ line.length then
    paintChromeText y x0 maxCols (line.drop (line.length - maxCols)) bg fg
  else paintChromeText y (x0 + maxCols - line.length) maxCols line bg fg

namespace Chrome

variable (chrome : Chrome)

/-- `connection_fg`. -/
def connectionFg : Rgb := if chrome.connectionAlert then alertFg else onlineFg

/-- `status_fg_for_line`. -/
def statusFgForLine (line : List UInt8) : Rgb :=
  if chrome.connectionAlert ∧ (lit "Offline" <:+: line ∨ lit "Unknown" <:+: line) ∨
      chrome.raucAlert ∧ lit "RAUC" <:+: line then alertFg
  else mutedFg

end Chrome

namespace Grid

variable (grid : Grid) (chrome : Chrome)

/-- `card_cols`. -/
def cardCols : ℕ := grid.txt.cols + 2 * chromePadCols

/-- `right_x0` and `right_cols`: the texts on the right stay clear of the logo. -/
def rightBand : ℕ × ℕ :=
  match chrome.logo with
  | some buf =>
    let logoCols := (buf.width + grid.font.width - 1) / grid.font.width + 2
    if grid.font.width ≠ 0 ∧ logoCols + 8 < grid.txt.cols then
      (chromePadCols + logoCols, grid.txt.cols - logoCols)
    else (chromePadCols, grid.txt.cols)
  | none => (chromePadCols, grid.txt.cols)

/-- The rows above the card, with the texts of the brand band. -/
def paintBrandBand : List ChromePaint :=
  let right := fun y => paintChromeTextRight y (grid.rightBand chrome).1 (grid.rightBand chrome).2
  ((List.range chromeCardY0).flatMap fun y => paintChromeSpan y 0 grid.cardCols Bbulk.page) ++
  (if chrome.logo.isNone then
    paintChromeText 0 0 grid.cardCols chrome.title.chars Bbulk.page titleFg else []) ++
  if chrome.idle then
    right 0 chrome.statusText.chars Bbulk.page chrome.connectionFg ++
    right 1 chrome.hostText.chars Bbulk.page hostFg ++
    right 2 chrome.supporting.chars Bbulk.page mutedFg
  else
    right 0 chrome.compactText.chars Bbulk.page
      (if ¬ chrome.connectionAlert ∧ ¬ chrome.raucAlert then chrome.connectionFg
      else chrome.statusFgForLine chrome.compactText.chars)

/-- The padding of the card on all sides of the text. -/
def paintCardPadding : List ChromePaint :=
  paintChromeSpan chromeCardY0 0 grid.cardCols card ++
  ((List.range' chromeTopRows grid.txt.rows).flatMap fun y =>
    paintChromeSpan y 0 chromePadCols card ++
      paintChromeSpan y (chromePadCols + grid.txt.cols) grid.cardCols card) ++
  paintChromeSpan (chromeTopRows + grid.txt.rows) 0 grid.cardCols card

/-- The border of the card. -/
def paintCardBorder : List ChromePaint :=
  strokeCardBorder grid.border.offX (wrap (grid.border.offY + chromeCardY0 * grid.font.height))
    (wrap (grid.cardCols * grid.font.width))
    (wrap ((chromePadRows + grid.txt.rows + chromePadRows) * grid.font.height)) chromeBorderPx
    cardBorder

/-- The row of the footer. -/
def secondaryY : ℕ := chromeTopRows + grid.txt.rows + chromePadRows + chromeFooterGapRows

/-- The rows below the card, with the line of the footer. -/
def paintFooter : List ChromePaint :=
  ((List.range' (chromeTopRows + grid.txt.rows + 1) (chromePadRows + chromeFooterGapRows)).flatMap
    fun y => paintChromeSpan y 0 grid.cardCols Bbulk.page) ++
  paintChromeText grid.secondaryY chromePadCols grid.txt.cols chrome.secondary.chars Bbulk.page
    (if chrome.raucAlert then chrome.statusFgForLine chrome.secondary.chars else mutedFg)

/-- `logo_y`. -/
def logoY (buf : VideoBuffer) : ℕ :=
  let gap := wrap (chromeBrandRows * grid.font.height)
  if buf.height < gap then wrap (grid.border.offY + (gap - buf.height) / 2) else grid.border.offY

/-- The logo, which is not turned. -/
def paintLogo : List ChromePaint :=
  match chrome.logo with
  | some buf =>
    if grid.txt.orientation = .normal then
      [.logo (wrap (grid.border.offX + grid.font.width)) (grid.logoY buf) buf]
    else []
  | none => []

/-- `bbulk_draw_status`. -/
def bbulkDrawStatus : List ChromePaint :=
  grid.paintBrandBand chrome ++ grid.paintCardPadding ++ grid.paintCardBorder ++
    grid.paintFooter chrome ++ grid.paintLogo chrome

/-- The request for a whole glyph. -/
def glyphReq (glyph : Glyph) (fg bg : Rgb) (start : ℕ × ℕ) : BlendReq :=
  let width := if glyph.doubleWidth then 2 * grid.font.width else grid.font.width
  let bufWidth := if grid.txt.orientation.upright then width else grid.font.height
  let bufHeight := if grid.txt.orientation.upright then grid.font.height else width
  { alpha := rotateGlyph grid.txt.orientation width grid.font.height glyph.alpha
    bufWidth := bufWidth
    bufHeight := bufHeight
    x := start.1
    y := start.2
    w := bufWidth
    h := bufHeight
    fg := fg
    bg := bg }

/-- The request that paints a piece of the chrome. -/
def chromeReq (glyphs : ℕ → CellAttr → Glyph) : ChromePaint → BlendReq
  | .cell gx gy bg fg ch =>
    grid.glyphReq (glyphs ch.toNat Cell.zero.attr) fg bg (grid.setCoordinate gx gy)
  | .solid x y w h color =>
    { alpha := fun _ _ => 255, bufWidth := w, bufHeight := h, x, y, w, h, fg := color,
      bg := color }
  | .logo x y buf =>
    { alpha := buf.pixel, bufWidth := buf.width, bufHeight := buf.height, x, y, w := buf.width,
      h := buf.height, fg := titleFg, bg := Bbulk.page }

end Grid

/-! ## Places -/

/-- The rows and columns that a list of requests stays in. -/
def CellsIn (cols rows : Set ℕ) (paints : List ChromePaint) : Prop :=
  ∀ paint ∈ paints, ∃ gx ∈ cols, ∃ gy ∈ rows, ∃ bg fg ch, paint = .cell gx gy bg fg ch

section Places

variable {cols rows : Set ℕ} {paints : List ChromePaint}

theorem CellsIn.mono {cols' rows' : Set ℕ} (h : CellsIn cols rows paints) (hcols : cols ⊆ cols')
    (hrows : rows ⊆ rows') : CellsIn cols' rows' paints := by
  intro paint hpaint
  obtain ⟨gx, hgx, gy, hgy, hcell⟩ := h paint hpaint
  exact ⟨gx, hcols hgx, gy, hrows hgy, hcell⟩

theorem cellsIn_nil : CellsIn cols rows [] := fun _ h => absurd h List.not_mem_nil

theorem CellsIn.append {paints' : List ChromePaint} (h : CellsIn cols rows paints)
    (h' : CellsIn cols rows paints') : CellsIn cols rows (paints ++ paints') :=
  fun paint hpaint => (List.mem_append.mp hpaint).elim (h paint) (h' paint)

theorem cellsIn_flatMap {ys : List ℕ} {f : ℕ → List ChromePaint}
    (h : ∀ y ∈ ys, CellsIn cols rows (f y)) : CellsIn cols rows (ys.flatMap f) := by
  intro paint hpaint
  obtain ⟨y, hy, hmem⟩ := List.mem_flatMap.mp hpaint
  exact h y hy paint hmem

theorem cellsIn_paintChromeSpan {y x0 x1 : ℕ} {bg : Rgb} (hy : y ∈ rows)
    (hx : ∀ x, x0 ≤ x → x < x1 → x ∈ cols) :
    CellsIn cols rows (paintChromeSpan y x0 x1 bg) := by
  intro paint hpaint
  obtain ⟨x, hmem, rfl⟩ := List.mem_map.mp hpaint
  obtain ⟨hlow, hhigh⟩ := List.mem_range'_1.mp hmem
  exact ⟨x, hx x hlow (by omega), y, hy, bg, spanFg, 32, rfl⟩

theorem cellsIn_paintChromeText {y x0 maxCols : ℕ} {line : List UInt8} {bg fg : Rgb}
    (hy : y ∈ rows) (hx : ∀ x < min maxCols line.length, x0 + x ∈ cols) :
    CellsIn cols rows (paintChromeText y x0 maxCols line bg fg) := by
  intro paint hpaint
  obtain ⟨i, hi, rfl⟩ := List.mem_mapIdx.mp hpaint
  exact ⟨x0 + i, hx i (by simpa using hi), y, hy, bg, fg, _, rfl⟩

theorem cellsIn_paintChromeTextRight {y x0 maxCols : ℕ} {line : List UInt8} {bg fg : Rgb}
    (hy : y ∈ rows) (hx : ∀ x, x0 ≤ x → x < x0 + maxCols → x ∈ cols) :
    CellsIn cols rows (paintChromeTextRight y x0 maxCols line bg fg) := by
  unfold paintChromeTextRight
  split_ifs
  · exact cellsIn_paintChromeText hy fun x h => hx _ (by omega) (by omega)
  · exact cellsIn_paintChromeText hy fun x h => hx _ (by omega) (by omega)

end Places

namespace Grid

variable (grid : Grid) (chrome : Chrome)

/-- The texts on the right end at the last column of the text. -/
theorem rightBand_le : chromePadCols ≤ (grid.rightBand chrome).1 ∧
    (grid.rightBand chrome).1 + (grid.rightBand chrome).2 = chromePadCols + grid.txt.cols := by
  unfold rightBand
  cases chrome.logo with
  | none => simp
  | some buf =>
    dsimp only
    generalize (buf.width + grid.font.width - 1) / grid.font.width = logoCols
    split_ifs with hroom
    · dsimp only
      omega
    · simp

theorem cellsIn_paintBrandBand : CellsIn (Set.Iio grid.cardCols) (Set.Iio chromeCardY0)
    (grid.paintBrandBand chrome) := by
  obtain ⟨hlow, hhigh⟩ := grid.rightBand_le chrome
  have hright {y : ℕ} (hy : y < chromeCardY0) (line : List UInt8) (bg fg : Rgb) :
      CellsIn (Set.Iio grid.cardCols) (Set.Iio chromeCardY0)
        (paintChromeTextRight y (grid.rightBand chrome).1 (grid.rightBand chrome).2 line bg fg) :=
    cellsIn_paintChromeTextRight hy fun x _ hx => by
      simp only [Set.mem_Iio, cardCols, chromePadCols] at *
      omega
  unfold paintBrandBand
  refine (CellsIn.append (cellsIn_flatMap fun y hy => ?_) ?_).append ?_
  · exact cellsIn_paintChromeSpan (List.mem_range.mp hy) fun x _ hx => hx
  · split_ifs
    · exact cellsIn_paintChromeText (by decide : 0 < chromeCardY0) fun x hx => by
        simp only [Set.mem_Iio]
        omega
    · exact cellsIn_nil
  · split_ifs
    · exact ((hright (by decide) _ _ _).append (hright (by decide) _ _ _)).append
        (hright (by decide) _ _ _)
    all_goals exact hright (by decide) _ _ _

theorem cellsIn_paintCardPadding : CellsIn (Set.Iio grid.cardCols)
    (Set.Icc chromeCardY0 (chromeTopRows + grid.txt.rows)) grid.paintCardPadding := by
  unfold paintCardPadding
  refine (CellsIn.append ?_ (cellsIn_flatMap fun y hy => ?_)).append ?_
  · exact cellsIn_paintChromeSpan (by simp [chromeCardY0, chromeTopRows]; omega)
      fun x _ hx => hx
  · obtain ⟨hlow, hhigh⟩ := List.mem_range'_1.mp hy
    have hrow : y ∈ Set.Icc chromeCardY0 (chromeTopRows + grid.txt.rows) :=
      ⟨le_trans (by decide) hlow, hhigh.le⟩
    refine (cellsIn_paintChromeSpan hrow fun x _ hx => ?_).append
      (cellsIn_paintChromeSpan hrow fun x _ hx => hx)
    simp only [Set.mem_Iio, cardCols]
    omega
  · exact cellsIn_paintChromeSpan (by simp [chromeCardY0, chromeTopRows]; omega)
      fun x _ hx => hx

theorem cellsIn_paintFooter : CellsIn (Set.Iio grid.cardCols)
    (Set.Ioc (chromeTopRows + grid.txt.rows) grid.secondaryY) (grid.paintFooter chrome) := by
  unfold paintFooter
  refine CellsIn.append (cellsIn_flatMap fun y hy => ?_) ?_
  · obtain ⟨hlow, hhigh⟩ := List.mem_range'_1.mp hy
    refine cellsIn_paintChromeSpan ⟨hlow, ?_⟩ fun x _ hx => hx
    simp only [secondaryY]
    omega
  · refine cellsIn_paintChromeText ⟨?_, le_rfl⟩ fun x hx => ?_
    · simp only [secondaryY, chromePadRows, chromeFooterGapRows]
      omega
    · simp only [Set.mem_Iio, cardCols, chromePadCols]
      omega

/-- The character cells of the chrome lie around those of the text. -/
theorem mem_bbulkDrawStatus {grid : Grid} {chrome : Chrome} {paint : ChromePaint}
    (h : paint ∈ grid.bbulkDrawStatus chrome) :
    (∃ gx < grid.cardCols, ∃ gy ≤ grid.secondaryY, ∃ bg fg ch, paint = .cell gx gy bg fg ch) ∨
      paint ∈ grid.paintCardBorder ∨ paint ∈ grid.paintLogo chrome := by
  have hcells {rows : Set ℕ} {paints : List ChromePaint}
      (hin : CellsIn (Set.Iio grid.cardCols) rows paints) (hmem : paint ∈ paints)
      (hrows : rows ⊆ Set.Iic grid.secondaryY) : ∃ gx < grid.cardCols, ∃ gy ≤ grid.secondaryY,
        ∃ bg fg ch, paint = .cell gx gy bg fg ch :=
    hin.mono subset_rfl hrows paint hmem
  unfold bbulkDrawStatus at h
  simp only [List.mem_append] at h
  rcases h with (((hband | hpad) | hborder) | hfooter) | hlogo
  · refine .inl (hcells (grid.cellsIn_paintBrandBand chrome) hband fun gy hgy => ?_)
    simp only [Set.mem_Iio, Set.mem_Iic, chromeCardY0, secondaryY, chromeTopRows] at *
    omega
  · refine .inl (hcells grid.cellsIn_paintCardPadding hpad fun gy hgy => ?_)
    exact hgy.2.trans (by simp only [secondaryY]; omega)
  · exact .inr (.inl hborder)
  · exact .inl (hcells (grid.cellsIn_paintFooter chrome) hfooter fun gy hgy => hgy.2)
  · exact .inr (.inr hlogo)

end Grid

end Faceplate.Render
