import Faceplate.Lib.Layers
import Faceplate.Render.Damage
import Faceplate.Render.Incremental
import Faceplate.Render.Status

/-!
# Whole frames of the bulk renderer

A frame of cells is followed by the chrome around it and by the pointer, which marks the
four cells that are thought to be below it. Two buffers are swapped after each frame, and
`bbulk_compute_damage` reports rectangles for the new one.
-/

namespace Faceplate.Render

/-- What one frame shows. -/
structure Picture where
  frame : Frame
  chrome : Chrome
  pointer : Option (ℕ × ℕ)

namespace Grid

variable (grid : Grid)

/-- `posx` and `posy` in `mark_damaged`. -/
def markedPlace (x y : ℕ) : ℕ × ℕ :=
  let fw := divRoundUp grid.font.width 2
  let fh := divRoundUp grid.font.height 2
  let posx := if fw < x then (x - fw) / grid.font.width else 0
  let posy := if fh < y then (y - fh) / grid.font.height else 0
  (if grid.txt.cols ≤ posx then grid.txt.cols - 1 else posx,
    if grid.txt.rows ≤ posy then grid.txt.rows - 1 else posy)

/-- The request for the pointer in `bbulk_draw_pointer`, in two colours. -/
def pointerReq (glyphs : ℕ → CellAttr → Glyph) (colors : Rgb × Rgb) (x y : ℕ) : BlendReq :=
  let pos := grid.clampPointer x y
  grid.glyphReq (glyphs 73 Cell.zero.attr) colors.1 colors.2 (grid.setPointerCoordinate pos.1 pos.2)

end Grid

namespace Bbulk

variable (grid : Grid)

/-- `mark_damaged`. -/
def markDamaged (x y : ℕ) (bb : Bbulk) : Bbulk :=
  let pos := grid.markedPlace x y
  let off := pos.1 + pos.2 * grid.txt.cols
  let bb := bb.damageCell off
  let bb := if pos.1 + 1 < grid.txt.cols then bb.damageCell (off + 1) else bb
  let bb := if pos.2 + 1 < grid.txt.rows then bb.damageCell (off + grid.txt.cols) else bb
  if pos.1 + 1 < grid.txt.cols ∧ pos.2 + 1 < grid.txt.rows then
    bb.damageCell (off + 1 + grid.txt.cols)
  else bb

end Bbulk

/-- Paint requests one after the other. -/
def blendAll (sw sh : ℕ) (reqs : List BlendReq) (canvas : Canvas) : Canvas :=
  reqs.foldl (fun canvas req => displayBlend sw sh req canvas) canvas

namespace Grid

variable (grid : Grid) (glyphs : ℕ → CellAttr → Glyph) (attrColors : ℕ → Rgb × Rgb)

/-- The requests of the chrome. -/
def chromeReqs (chrome : Chrome) : List BlendReq :=
  (grid.bbulkDrawStatus chrome).map (grid.chromeReq glyphs)

/-- The requests of the pointer. -/
def pointerReqs (pic : Picture) : List BlendReq :=
  pic.pointer.toList.map fun pos =>
    grid.pointerReq glyphs (attrColors pic.frame.attr) pos.1 pos.2

end Grid

namespace Painter

variable (grid : Grid) (glyphs : ℕ → CellAttr → Glyph) (attrColors : ℕ → Rgb × Rgb)

/-- Draw a whole frame into the back buffer and swap. -/
def drawPicture (painter : Painter) (pic : Picture) : Painter :=
  let st := Bbulk.bbulkPrepare grid pic.frame (painter.bb, painter.back)
  let st := Bbulk.bbulkDraw grid glyphs pic.frame st
  let canvas := blendAll grid.sw grid.sh (grid.chromeReqs glyphs pic.chrome) st.2
  let canvas := blendAll grid.sw grid.sh (grid.pointerReqs glyphs attrColors pic) canvas
  let bb := match pic.pointer with
    | some pos => st.1.markDamaged grid (grid.clampPointer pos.1 pos.2).1
        (grid.clampPointer pos.1 pos.2).2
    | none => st.1
  ⟨bb, canvas, painter.front⟩

/-- The frame is a full redraw. -/
def Redraws (painter : Painter) (frame : Frame) : Prop := painter.bb.redraws frame ≠ 0

instance (painter : Painter) (frame : Frame) : Decidable (painter.Redraws frame) :=
  inferInstanceAs (Decidable (_ ≠ _))

/-- Without a full redraw, each pixel of the display that a frame changes is in a damage
rectangle of this frame. -/
def ClipsCover (painter : Painter) (pic : Picture) : Prop :=
  let next := painter.drawPicture grid glyphs attrColors pic
  ¬ painter.Redraws pic.frame → ∃ rects, grid.computeDamage next.bb.damaged = some rects ∧
    ∀ px < grid.sw, ∀ py < grid.sh, next.front px py ≠ painter.front px py →
      ∃ r ∈ rects, r.Contains px py

end Painter

/-! ## What may change from frame to frame -/

namespace Grid

variable (grid : Grid) (glyphs : ℕ → CellAttr → Glyph)

/-- The size of a cell down the display. -/
def cellHeight : ℕ := if grid.txt.orientation.upright then grid.font.height else grid.font.width

/-- A request stays inside one of the two strips of the chrome. -/
def InStrips (req : BlendReq) : Prop :=
  req.y + min req.h req.bufHeight ≤ grid.border.offY + chromeTopRows * grid.cellHeight ∨
    grid.border.offY + (chromeTopRows + grid.txt.rows) * grid.cellHeight ≤ req.y

instance (req : BlendReq) : Decidable (grid.InStrips req) := inferInstanceAs (Decidable (_ ∨ _))

/-- The chrome that reaches out of the two strips. -/
def outsideStrips (chrome : Chrome) : List ChromePaint :=
  (grid.bbulkDrawStatus chrome).filter fun paint => ¬ grid.InStrips (grid.chromeReq glyphs paint)

/-- The chrome outside of the strips is the same in two frames. -/
def ChromeSteady (chrome chrome' : Chrome) : Prop :=
  grid.outsideStrips glyphs chrome = grid.outsideStrips glyphs chrome'

/-- The pointer at a position is covered by the strips or by the cells that it marks. Only in
the normal orientation it is painted over these, except for a line of pixels at the left edge,
where half of a cell is rounded up. -/
def PointerClear (pos : ℕ × ℕ) : Prop :=
  grid.InStrips (grid.pointerReq glyphs (⟨0, 0, 0⟩, ⟨0, 0, 0⟩) pos.1 pos.2) ∨
    grid.txt.orientation = .normal ∧ (glyphs 73 Cell.zero.attr).doubleWidth = false ∧
      divRoundUp grid.font.width 2 ≤ (grid.clampPointer pos.1 pos.2).1

instance (pos : ℕ × ℕ) : Decidable (grid.PointerClear glyphs pos) :=
  inferInstanceAs (Decidable (_ ∨ _))

/-- The pointer stays where it is, or is covered in both frames. -/
def PointerSteady (pointer pointer' : Option (ℕ × ℕ)) : Prop :=
  pointer = pointer' ∨ (∀ pos ∈ pointer, grid.PointerClear glyphs pos) ∧
    ∀ pos ∈ pointer', grid.PointerClear glyphs pos

end Grid

/-! ## Requests at one pixel -/

/-- The colour that a request paints a pixel in, if it does. -/
def BlendReq.at (req : BlendReq) (sw sh px py : ℕ) : Option Rgb :=
  if req.x ≤ px ∧ px < req.x + clipped req.x (min req.w req.bufWidth) sw ∧ req.y ≤ py ∧
      py < req.y + clipped req.y (min req.h req.bufHeight) sh then some (req.color px py)
  else none

theorem displayBlend_eq (sw sh : ℕ) (req : BlendReq) (canvas : Canvas) (px py : ℕ) :
    displayBlend sw sh req canvas px py = (req.at sw sh px py).getD (canvas px py) := by
  unfold displayBlend BlendReq.at
  split_ifs <;> rfl

/-- What a list of requests paints on one pixel. -/
theorem blendAll_eq (sw sh : ℕ) (reqs : List BlendReq) (canvas : Canvas) (px py : ℕ) :
    blendAll sw sh reqs canvas px py =
      (Layers.seen (reqs.map fun req => req.at sw sh px py)).getD (canvas px py) := by
  rw [← Layers.foldl_getD]
  unfold blendAll
  induction reqs generalizing canvas with
  | nil => rfl
  | cons req reqs ih => rw [List.foldl_cons, ih, displayBlend_eq, List.map_cons, List.foldl_cons]

theorem clipped_le (start len size : ℕ) : clipped start len size ≤ len := by
  have hwrap : wrap (start + len) ≤ start + len := Nat.mod_le _ _
  unfold clipped
  split_ifs <;> omega

/-- A request paints inside its rectangle only. -/
theorem BlendReq.mem_of_at {req : BlendReq} {sw sh px py : ℕ} {color : Rgb}
    (h : req.at sw sh px py = some color) :
    (req.x ≤ px ∧ px < req.x + min req.w req.bufWidth) ∧
      req.y ≤ py ∧ py < req.y + min req.h req.bufHeight := by
  have hwidth := clipped_le req.x (min req.w req.bufWidth) sw
  have hheight := clipped_le req.y (min req.h req.bufHeight) sh
  unfold BlendReq.at at h
  split_ifs at h with hin
  omega

/-! ## Strips -/

namespace Grid

variable {grid : Grid}

/-- A line of pixels in one of the two strips. -/
def InStrip (grid : Grid) (py : ℕ) : Prop :=
  py < grid.border.offY + chromeTopRows * grid.cellHeight ∨
    grid.border.offY + (chromeTopRows + grid.txt.rows) * grid.cellHeight ≤ py

instance (py : ℕ) : Decidable (grid.InStrip py) := inferInstanceAs (Decidable (_ ∨ _))

theorem InStrips.at_eq_none {req : BlendReq} (h : grid.InStrips req) {px py : ℕ}
    (hpixel : ¬ grid.InStrip py) : req.at grid.sw grid.sh px py = none := by
  rw [Option.eq_none_iff_forall_ne_some]
  intro color hcolor
  obtain ⟨-, hlow, hhigh⟩ := BlendReq.mem_of_at hcolor
  unfold InStrips at h
  unfold InStrip at hpixel
  omega

theorem offY_le (grid : Grid) : grid.border.offY ≤ grid.sh := by
  have hfit := mul_width_le (le_refl grid.txt.cols)
  have hsh := grid.sh_lt
  unfold border computeBorder
  unfold colSize at hfit
  split_ifs at hfit ⊢
  · dsimp only
    split_ifs
    · unfold topBias
      omega
    · exact Nat.zero_le _
  · rw [wrapSub_of_le hfit (by omega)]
    dsimp only
    omega

theorem cellHeight_lt (hcols : 0 < grid.txt.cols) (hrows : 0 < grid.txt.rows) :
    grid.cellHeight < 16777216 := by
  unfold cellHeight
  split_ifs
  · exact height_lt hrows
  · exact width_lt hcols

/-- The strips of the display are damage rectangles. -/
theorem strip_contains (hcols : 0 < grid.txt.cols) (hrows : 0 < grid.txt.rows) {px py : ℕ}
    (hpx : px < grid.sw) (hpy : py < grid.sh) (h : grid.InStrip py) :
    grid.topStrip.Contains px py ∨ grid.bottomStrip.Contains px py := by
  have hoff := grid.offY_le
  have hsw := grid.sw_lt
  have hsh := grid.sh_lt
  have hcell := cellHeight_lt hcols hrows
  have htop : grid.topStrip = ⟨0, 0, toInt grid.sw,
      toInt (wrap (grid.border.offY + chromeTopRows * grid.cellHeight))⟩ := rfl
  have hbottom : grid.bottomStrip = ⟨0,
      toInt (wrap (grid.border.offY + (chromeTopRows + grid.txt.rows) * grid.cellHeight)),
      toInt grid.sw, toInt grid.sh⟩ := rfl
  rw [htop, hbottom]
  unfold VideoRect.Contains
  unfold InStrip at h
  generalize (chromeTopRows + grid.txt.rows) * grid.cellHeight = low at h
  simp only [chromeTopRows] at h ⊢
  rcases h with hup | hdown
  · left
    rw [wrap_of_lt (by omega), toInt_of_lt (by omega), toInt_of_lt (by omega)]
    omega
  · right
    rw [wrap_of_lt (by omega), toInt_of_lt (by omega), toInt_of_lt (by omega),
      toInt_of_lt (by omega)]
    omega

/-! ## Steady chrome -/

variable {glyphs : ℕ → CellAttr → Glyph}

/-- What lies in the strips does not matter outside of them. -/
theorem seen_outsideStrips (chrome : Chrome) {px py : ℕ} (hpixel : ¬ grid.InStrip py) :
    Layers.seen ((grid.chromeReqs glyphs chrome).map fun req => req.at grid.sw grid.sh px py) =
      Layers.seen ((grid.outsideStrips glyphs chrome).map fun paint =>
        (grid.chromeReq glyphs paint).at grid.sw grid.sh px py) := by
  rw [chromeReqs, List.map_map, outsideStrips, Layers.seen_map_filter]
  · rfl
  · intro paint _ hkeep
    simp only [decide_not, Bool.not_eq_false', decide_eq_true_eq] at hkeep
    exact hkeep.at_eq_none hpixel

theorem glyphReq_upright (hup : grid.txt.orientation.upright = true) (glyph : Glyph) (fg bg : Rgb)
    (start : ℕ × ℕ) : (grid.glyphReq glyph fg bg start).y = start.2 ∧
      min (grid.glyphReq glyph fg bg start).h (grid.glyphReq glyph fg bg start).bufHeight =
        grid.font.height := by
  simp [glyphReq, hup]

/-- Upright, the rows of the chrome beside the card are in the strips. -/
theorem inStrips_chromeCell (hup : grid.txt.orientation.upright = true) (hrows : 0 < grid.txt.rows)
    {gx gy : ℕ}
    (hgy : gy < chromeCardY0 ∨ chromeTopRows + grid.txt.rows < gy ∧ gy ≤ grid.secondaryY)
    (bg fg : Rgb) (ch : UInt8) : grid.InStrips (grid.chromeReq glyphs (.cell gx gy bg fg ch)) := by
  obtain ⟨hy, hh⟩ := glyphReq_upright hup (glyphs ch.toNat Cell.zero.attr) fg bg
    (grid.setCoordinate gx gy)
  have hoff := grid.offY_le
  have hsh := grid.sh_lt
  have hcell := height_lt hrows
  have hfit := mul_height_le (le_refl grid.txt.rows)
  have hrow : (gy + 1) * grid.font.height ≤ 4 * grid.font.height ∨
      (grid.txt.rows + 6) * grid.font.height ≤ gy * grid.font.height ∧
        (gy + 1) * grid.font.height ≤ (grid.txt.rows + 9) * grid.font.height := by
    simp only [chromeCardY0, chromeTopRows, secondaryY, chromePadRows, chromeFooterGapRows] at hgy
    rcases hgy with hlow | ⟨hlow, hhigh⟩
    · exact .inl (Nat.mul_le_mul_right _ hlow)
    · exact .inr ⟨Nat.mul_le_mul_right _ (by omega), Nat.mul_le_mul_right _ (by omega)⟩
  unfold InStrips
  simp only [rowSize, hup, if_true] at hfit
  simp only [chromeReq, hy, hh, cellHeight, hup, if_true, chromeTopRows, Nat.add_mul] at hrow ⊢
  cases horient : grid.txt.orientation with
  | normal =>
    simp only [setCoordinate, horient]
    rw [wrap_of_lt (by omega)]
    omega
  | upsideDown =>
    have hmax := maxY_upright hup hrows
    simp only [setCoordinate, horient, Nat.add_mul]
    rw [wrapSub_of_le (by omega) (by omega)]
    omega
  | right => simp [horient, Orientation.upright] at hup
  | left => simp [horient, Orientation.upright] at hup

theorem filter_eq_nil_of_cellsIn {cols rows : Set ℕ} {paints : List ChromePaint}
    (hin : CellsIn cols rows paints)
    (hstrips : ∀ gx, ∀ gy ∈ rows, ∀ bg fg ch,
      grid.InStrips (grid.chromeReq glyphs (.cell gx gy bg fg ch))) :
    (paints.filter fun paint => ¬ grid.InStrips (grid.chromeReq glyphs paint)) = [] := by
  rw [List.filter_eq_nil_iff]
  intro paint hpaint
  obtain ⟨gx, -, gy, hgy, bg, fg, ch, rfl⟩ := hin paint hpaint
  simpa using hstrips gx gy hgy bg fg ch

/-- Upright, all but the logo may change. -/
theorem chromeSteady_of_upright (hup : grid.txt.orientation.upright = true)
    (hrows : 0 < grid.txt.rows) {chrome chrome' : Chrome} (hlogo : chrome.logo = chrome'.logo) :
    grid.ChromeSteady glyphs chrome chrome' := by
  have hband (chrome : Chrome) := @filter_eq_nil_of_cellsIn grid glyphs _ _ _
    (grid.cellsIn_paintBrandBand chrome) fun gx gy hgy =>
      inStrips_chromeCell hup hrows (.inl hgy)
  have hfooter (chrome : Chrome) := @filter_eq_nil_of_cellsIn grid glyphs _ _ _
    (grid.cellsIn_paintFooter chrome) fun gx gy hgy =>
      inStrips_chromeCell hup hrows (.inr hgy)
  unfold ChromeSteady outsideStrips bbulkDrawStatus
  simp only [List.filter_append, hband, hfooter, paintLogo, hlogo]

/-- Outside of the strips a steady chrome looks the same in both frames. -/
theorem ChromeSteady.seen_eq {chrome chrome' : Chrome}
    (h : grid.ChromeSteady glyphs chrome chrome') {px py : ℕ} (hpixel : ¬ grid.InStrip py) :
    Layers.seen ((grid.chromeReqs glyphs chrome).map fun req => req.at grid.sw grid.sh px py) =
      Layers.seen ((grid.chromeReqs glyphs chrome').map fun req =>
        req.at grid.sw grid.sh px py) := by
  have hsame : grid.outsideStrips glyphs chrome = grid.outsideStrips glyphs chrome' := h
  rw [seen_outsideStrips chrome hpixel, seen_outsideStrips chrome' hpixel, hsame]

end Grid

end Faceplate.Render
