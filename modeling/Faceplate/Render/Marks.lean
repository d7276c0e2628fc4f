import Faceplate.Render.Picture

/-!
# The marks of the pointer

`mark_damaged` marks four cells after a frame has been drawn. What is noted about the other
cells still agrees with the buffers. In the normal orientation the marked cells are those
below the pointer.
-/

namespace Faceplate.Render

namespace Bbulk

variable {bb bb' bb'' : Bbulk}

/-- Some cells have been marked. -/
structure Marked (bb bb' : Bbulk) : Prop where
  cells : ∀ off, bb'.cells off = bb.cells off ∧ bb'.damaged off = bb.damaged off ∨
    (bb'.cells off).ch = idDamaged ∧ bb'.damaged off = true
  doubleWidth : bb'.doubleWidth = bb.doubleWidth
  attr : bb'.attr = bb.attr
  redraw : bb'.redraw = bb.redraw

theorem Marked.refl (bb : Bbulk) : Marked bb bb := ⟨fun _ => .inl ⟨rfl, rfl⟩, rfl, rfl, rfl⟩

theorem Marked.trans (h : Marked bb bb') (h' : Marked bb' bb'') : Marked bb bb'' where
  cells off := by
    rcases h'.cells off with ⟨hcell, hdamaged⟩ | hmark
    · rw [hcell, hdamaged]
      exact h.cells off
    · exact .inr hmark
  doubleWidth := h'.doubleWidth.trans h.doubleWidth
  attr := h'.attr.trans h.attr
  redraw := h'.redraw.trans h.redraw

/-- A cell with its mark. -/
def HasMark (bb : Bbulk) (off : ℕ) : Prop := (bb.cells off).ch = idDamaged ∧ bb.damaged off = true

theorem Marked.hasMark (h : Marked bb bb') {off : ℕ} (hmark : bb.HasMark off) :
    bb'.HasMark off := by
  rcases h.cells off with ⟨hcell, hdamaged⟩ | hnew
  · exact ⟨hcell ▸ hmark.1, hdamaged ▸ hmark.2⟩
  · exact hnew

theorem Marked.damaged (h : Marked bb bb') {off : ℕ} (hdamaged : bb.damaged off = true) :
    bb'.damaged off = true := by
  rcases h.cells off with ⟨-, hsame⟩ | ⟨-, hnew⟩
  · rw [hsame, hdamaged]
  · exact hnew

theorem marked_damageCell (off : ℕ) (bb : Bbulk) : Marked bb (bb.damageCell off) where
  cells i := by
    rcases eq_or_ne i off with rfl | hne
    · exact .inr (by simp [damageCell])
    · exact .inl (by simp [damageCell, hne])
  doubleWidth := rfl
  attr := rfl
  redraw := rfl

theorem hasMark_damageCell (off : ℕ) (bb : Bbulk) : (bb.damageCell off).HasMark off := by
  simp [HasMark, damageCell]

/-- Mark a cell under a condition. -/
theorem marked_ite (cond : Prop) [Decidable cond] (off : ℕ) (bb : Bbulk) :
    Marked bb (if cond then bb.damageCell off else bb) := by
  split_ifs
  · exact marked_damageCell off bb
  · exact .refl bb

variable (grid : Grid)

theorem marked_markDamaged (x y : ℕ) (bb : Bbulk) : Marked bb (bb.markDamaged grid x y) := by
  unfold markDamaged
  exact (((marked_damageCell _ _).trans (marked_ite _ _ _)).trans (marked_ite _ _ _)).trans
    (marked_ite _ _ _)

/-- The four cells around the corner are marked, as far as there are such cells. -/
theorem hasMark_markDamaged (x y : ℕ) (bb : Bbulk) {posx posy : ℕ}
    (hposx : posx = (grid.markedPlace x y).1 ∨
      posx = (grid.markedPlace x y).1 + 1 ∧ posx < grid.txt.cols)
    (hposy : posy = (grid.markedPlace x y).2 ∨
      posy = (grid.markedPlace x y).2 + 1 ∧ posy < grid.txt.rows) :
    (bb.markDamaged grid x y).HasMark (posx + posy * grid.txt.cols) := by
  unfold markDamaged
  dsimp only
  generalize grid.markedPlace x y = pos at hposx hposy ⊢
  rcases hposy with rfl | ⟨rfl, hrow⟩
  · rcases hposx with rfl | ⟨rfl, hcol⟩
    · exact (((marked_ite _ _ _).trans (marked_ite _ _ _)).trans (marked_ite _ _ _)).hasMark
        (hasMark_damageCell _ _)
    · refine ((marked_ite _ _ _).trans (marked_ite _ _ _)).hasMark ?_
      rw [if_pos hcol, Nat.add_right_comm]
      exact hasMark_damageCell _ _
  · rcases hposx with rfl | ⟨rfl, hcol⟩
    · refine (marked_ite _ _ _).hasMark ?_
      rw [if_pos hrow, Nat.succ_mul, ← Nat.add_assoc]
      exact hasMark_damageCell _ _
    · rw [if_pos ⟨hcol, hrow⟩, Nat.succ_mul, ← Nat.add_assoc, Nat.add_right_comm pos.1]
      exact hasMark_damageCell _ _

end Bbulk

/-! ## What is noted about the other cells -/

variable {grid : Grid} {glyphs : ℕ → CellAttr → Glyph}

/-- Marks make cells only stale. What a marked cell looks like does not matter. -/
theorem Tracks.mark {bb bb' : Bbulk} {front front' back : Canvas}
    (h : Tracks grid glyphs bb front back) (hmarked : bb.Marked bb')
    (hsame : ∀ off < grid.size, ¬ bb'.HasMark off → SameAt grid front front' off) :
    Tracks grid glyphs bb' front' back := by
  have hkept {off : ℕ} (hch : (bb'.cells off).ch ≠ idDamaged) :
      bb'.cells off = bb.cells off ∧ bb'.damaged off = bb.damaged off := by
    rcases hmarked.cells off with hsame | hmark
    · exact hsame
    · exact absurd hmark.1 hch
  have hbelieves {canvas : Canvas} {off : ℕ} (hcell : bb'.cells off = bb.cells off)
      (hb : Believes grid glyphs canvas bb off) : Believes grid glyphs canvas bb' off := by
    unfold Believes at *
    rw [hcell]
    split_ifs at * with hover
    · intro hch
      have hleft := (hkept hch).1
      rw [hleft] at hch ⊢
      exact hb hch
    · exact hb
  refine ⟨fun off hoff hch => ?_, fun off hoff hn => ?_, fun off hoff hch => ?_,
    fun off hoff hn hwide hlast hdam => ?_, fun off hoff hquiet => ?_, fun off hoff hch => ?_⟩
  · rcases hmarked.cells off with ⟨hcell, hdamaged⟩ | ⟨-, hdamaged⟩
    · rw [hdamaged]
      exact h.damaged off hoff (hcell ▸ hch)
    · exact hdamaged
  · have hcell := (hkept hn.1).1
    rw [hcell] at hn ⊢
    rw [hmarked.doubleWidth]
    exact h.width off hoff hn
  · rw [(hkept (by rw [hch]; decide)).1] at hch
    obtain ⟨hpos, hleft⟩ := h.left off hoff hch
    refine ⟨hpos, fun hstay => ?_⟩
    have hcell := (hkept hstay).1
    rw [hcell] at hstay ⊢
    exact hleft hstay
  · obtain ⟨hcell, hdamaged⟩ := hkept hn.1
    rw [hcell] at hn hwide
    exact hmarked.damaged (h.next off hoff hn hwide hlast (hdamaged ▸ hdam))
  · rcases hmarked.cells off with ⟨hcell, hdamaged⟩ | ⟨-, hdamaged⟩
    · exact hbelieves hcell (h.back off hoff (hdamaged ▸ hquiet))
    · simp [hdamaged] at hquiet
  · have hcell := (hkept hch).1
    have hb := hbelieves hcell (h.front off hoff (hcell ▸ hch))
    have hsame' := hsame off hoff fun hmark => hch hmark.1
    unfold Believes at hb ⊢
    split_ifs at hb ⊢
    · exact fun hleft => hsame'.shows (hb hleft)
    · exact hsame'.shows hb

/-! ## Cells below the pointer -/

namespace Grid

/-- Along one axis, the two cells from the marked one on are below the pointer. -/
theorem marked_axis {c size cells q : ℕ} (hsize : 0 < size) (hcells : 0 < cells)
    (hc : c + size / 2 ≤ cells * size) (hlow : c ≤ q + divRoundUp size 2)
    (hhigh : q + divRoundUp size 2 < c + size) {place : ℕ}
    (hplace : place = if divRoundUp size 2 < c then (c - divRoundUp size 2) / size else 0) :
    ∃ pos < cells, (pos * size ≤ q ∧ q < pos * size + size) ∧
      (pos = (if cells ≤ place then cells - 1 else place) ∨
        pos = (if cells ≤ place then cells - 1 else place) + 1 ∧ pos < cells) := by
  have hhalf : divRoundUp size 2 + size / 2 = size := by
    unfold divRoundUp
    omega
  have hdiv : place = (c - divRoundUp size 2) / size := by
    rw [hplace]
    split_ifs with hlt
    · rfl
    · rw [Nat.sub_eq_zero_of_le (not_lt.mp hlt), Nat.zero_div]
  have hplace_le : place * size ≤ c - divRoundUp size 2 := hdiv ▸ Nat.div_mul_le_self _ _
  have hlt_place : c - divRoundUp size 2 < place * size + size :=
    hdiv ▸ Nat.lt_div_mul_add hsize
  have hone : size ≤ cells * size := Nat.le_mul_of_pos_left size hcells
  have hin : place < cells := by
    refine Nat.lt_of_mul_lt_mul_right (a := size) ?_
    omega
  have hq : q < cells * size := by omega
  have hpos_le : q / size * size ≤ q := Nat.div_mul_le_self _ _
  have hlt_pos : q < q / size * size + size := Nat.lt_div_mul_add hsize
  have hpos : q / size < cells := (Nat.div_lt_iff_lt_mul hsize).mpr hq
  refine ⟨q / size, hpos, ⟨hpos_le, hlt_pos⟩, ?_⟩
  rw [if_neg (not_le.mpr hin)]
  -- the pointer is no longer than a cell, so it ends in the next one
  have hge : place ≤ q / size := by
    refine Nat.lt_succ_iff.mp (Nat.lt_of_mul_lt_mul_right (a := size) ?_)
    rw [Nat.succ_mul]
    omega
  have hle : q / size < place + 2 := by
    refine Nat.lt_of_mul_lt_mul_right (a := size) ?_
    rw [Nat.add_mul]
    omega
  omega

/-- On the display, a request paints what is inside of its rectangle. -/
theorem within_of_at {req : BlendReq} {px py : ℕ} {color : Rgb}
    (hw : min req.w req.bufWidth < 3221225472) (hh : min req.h req.bufHeight < 3221225472)
    (h : req.at grid.sw grid.sh px py = some color) :
    Within req.x (min req.w req.bufWidth) grid.sw px ∧
      Within req.y (min req.h req.bufHeight) grid.sh py := by
  have hsw := grid.sw_lt
  have hsh := grid.sh_lt
  unfold BlendReq.at at h
  split_ifs at h with hin
  exact ⟨(lt_clipped (by omega) hw).mp ⟨hin.1, hin.2.1⟩,
    (lt_clipped (by omega) hh).mp ⟨hin.2.2.1, hin.2.2.2⟩⟩

/-- Where the pointer is painted in the normal orientation. -/
theorem setPointerCoordinate_normal (hnormal : grid.txt.orientation = .normal)
    (hcols : 0 < grid.txt.cols) (hrows : 0 < grid.txt.rows) (x y : ℕ) :
    grid.setPointerCoordinate (grid.clampPointer x y).1 (grid.clampPointer x y).2 =
      ((grid.clampPointer x y).1 + grid.border.offX + 2 * grid.font.width -
          divRoundUp grid.font.width 2,
        (grid.clampPointer x y).2 + grid.border.offY + 5 * grid.font.height -
          divRoundUp grid.font.height 2) := by
  have hup : grid.txt.orientation.upright = true := by rw [hnormal]; rfl
  obtain ⟨⟨hleft, hright⟩, htop, hbottom⟩ := clampPointer_mem hcols hrows x y
  generalize grid.clampPointer x y = pos at *
  have hfit := mul_width_le (le_refl grid.txt.cols)
  have hfit' := mul_height_le (le_refl grid.txt.rows)
  have hcolSize := grid.colSize_lt
  have hrowSize := grid.rowSize_lt
  have hwidth := width_lt hcols
  have hheight := height_lt hrows
  have hoffX := grid.offX_lt
  have hoffY := grid.offY_lt
  have hmaxX := maxX_upright hup hcols
  have hmaxY := maxY_upright hup hrows
  have hhalf : grid.pointerHalf =
      (divRoundUp grid.font.width 2, divRoundUp grid.font.height 2) := by
    rw [pointerHalf, if_pos hup]
  have hdivX : divRoundUp grid.font.width 2 ≤ grid.font.width := by
    unfold divRoundUp
    omega
  have hdivY : divRoundUp grid.font.height 2 ≤ grid.font.height := by
    unfold divRoundUp
    omega
  have hsumX : divRoundUp grid.font.width 2 + grid.font.width / 2 = grid.font.width := by
    unfold divRoundUp
    omega
  have hsumY : divRoundUp grid.font.height 2 + grid.font.height / 2 = grid.font.height := by
    unfold divRoundUp
    omega
  simp only [setPointerCoordinate, pointerCentre, pointerPlace, hnormal, hhalf, chromePadCols,
    chromeTopRows]
  rw [@wrap_of_lt (pos.1 + grid.border.offX + 2 * grid.font.width) (by omega),
    @wrap_of_lt (pos.2 + grid.border.offY + 5 * grid.font.height) (by omega),
    @wrapSub_of_le grid.border.maxX _ (by omega) (by omega),
    @wrapSub_of_le grid.border.maxY _ (by omega) (by omega),
    PointerInside.clamp_of_mem (by omega) (by omega),
    PointerInside.clamp_of_mem (by omega) (by omega), wrapSub_of_le (by omega) (by omega),
    wrapSub_of_le (by omega) (by omega)]

/-- A place by the number of its cell. -/
theorem inSlot_place {posx posy px py : ℕ} (hposx : posx < grid.txt.cols) :
    grid.InSlot (posx + posy * grid.txt.cols) px py ↔ grid.InCell posx posy px py := by
  have hcols : 0 < grid.txt.cols := by omega
  rw [InSlot, Nat.add_mul_mod_self_right, Nat.mod_eq_of_lt hposx, Nat.add_mul_div_right _ _ hcols,
    Nat.div_eq_of_lt hposx, Nat.zero_add]

theorem place_lt_size {posx posy : ℕ} (hposx : posx < grid.txt.cols)
    (hposy : posy < grid.txt.rows) : posx + posy * grid.txt.cols < grid.size := by
  have hline := Nat.mul_le_mul_right grid.txt.cols (Nat.succ_le_of_lt hposy)
  rw [Nat.succ_mul, Nat.mul_comm grid.txt.rows] at hline
  rw [size]
  omega

variable {colors : Rgb × Rgb} {pos : ℕ × ℕ}

/-- What a clear pointer paints is in the strips or on marked cells. -/
theorem PointerClear.hasMark (hclear : grid.PointerClear glyphs pos) (hcols : 0 < grid.txt.cols)
    (hrows : 0 < grid.txt.rows) (hwidth : 0 < grid.font.width) (hheight : 0 < grid.font.height)
    (bb : Bbulk) {px py : ℕ} {color : Rgb}
    (hcolor : (grid.pointerReq glyphs colors pos.1 pos.2).at grid.sw grid.sh px py = some color)
    (hstrip : ¬ grid.InStrip py) : ∃ off < grid.size, grid.InSlot off px py ∧
      (bb.markDamaged grid (grid.clampPointer pos.1 pos.2).1
        (grid.clampPointer pos.1 pos.2).2).HasMark off := by
  rcases hclear with hin | ⟨hnormal, hnarrow, hedge⟩
  · have hnone : (grid.pointerReq glyphs colors pos.1 pos.2).at grid.sw grid.sh px py = none :=
      @InStrips.at_eq_none grid (grid.pointerReq glyphs colors pos.1 pos.2) hin _ _ hstrip
    rw [hnone] at hcolor
    simp at hcolor
  have hup : grid.txt.orientation.upright = true := by rw [hnormal]; rfl
  obtain ⟨⟨hleft, hright⟩, htop, hbottom⟩ := clampPointer_mem hcols hrows pos.1 pos.2
  have hw := width_lt hcols
  have hh := height_lt hrows
  have hreq : (grid.pointerReq glyphs colors pos.1 pos.2).x =
        (grid.clampPointer pos.1 pos.2).1 + grid.border.offX + 2 * grid.font.width -
          divRoundUp grid.font.width 2 ∧
      (grid.pointerReq glyphs colors pos.1 pos.2).y =
        (grid.clampPointer pos.1 pos.2).2 + grid.border.offY + 5 * grid.font.height -
          divRoundUp grid.font.height 2 ∧
      min (grid.pointerReq glyphs colors pos.1 pos.2).w
        (grid.pointerReq glyphs colors pos.1 pos.2).bufWidth = grid.font.width ∧
      min (grid.pointerReq glyphs colors pos.1 pos.2).h
        (grid.pointerReq glyphs colors pos.1 pos.2).bufHeight = grid.font.height := by
    have hplace := setPointerCoordinate_normal hnormal hcols hrows pos.1 pos.2
    simp [pointerReq, glyphReq, hplace, hup, hnarrow]
  obtain ⟨hx, hy, hsx, hsy⟩ := hreq
  have hwithin := within_of_at (by omega) (by omega) hcolor
  rw [hx, hy, hsx, hsy] at hwithin
  unfold Within at hwithin
  simp only [InStrip, cellHeight, hup, if_true, chromeTopRows, Nat.add_mul] at hstrip
  obtain ⟨posx, hposx, hcol, hmarkx⟩ :=
    marked_axis (q := px - (grid.border.offX + 2 * grid.font.width)) hwidth hcols hright
      (by omega) (by omega) rfl
  obtain ⟨posy, hposy, hrow, hmarky⟩ :=
    marked_axis (q := py - (grid.border.offY + 5 * grid.font.height)) hheight hrows hbottom
      (by omega) (by omega) rfl
  refine ⟨posx + posy * grid.txt.cols, place_lt_size hposx hposy, ?_,
    bb.hasMark_markDamaged grid _ _ hmarkx hmarky⟩
  rw [inSlot_place hposx]
  have hfit := mul_width_le hposx.le
  have hfit' := mul_height_le hposy.le
  have hoffX := grid.offX_lt
  have hoffY := grid.offY_lt
  have hcolSize := grid.colSize_lt
  have hrowSize := grid.rowSize_lt
  simp only [InCell, Within, colStart, rowStart, colSize, rowSize, colPixel, rowPixel,
    Orientation.upright, if_true, setCoordinate, hnormal, chromePadCols, chromeTopRows, Nat.add_mul]
    at hfit hfit' hcolSize hrowSize ⊢
  rw [wrap_of_lt (by omega), wrap_of_lt (by omega)]
  omega

end Grid

end Faceplate.Render
