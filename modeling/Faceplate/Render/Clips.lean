import Faceplate.Render.Marks

/-!
# Damage clips cover every change

The notes about the cells agree with two buffers on which nothing but cells has been drawn.
Outside of the strips the real buffers differ from these where the chrome or a pointer that
is not clear covers them, which is the same from frame to frame, and on marked cells, which
are drawn again. So what a frame changes is in a strip or on a cell with a flag.
-/

namespace Faceplate.Render

variable {grid : Grid} {glyphs : ℕ → CellAttr → Glyph} {px py : ℕ}

/-- A pixel of the text. -/
def InText (grid : Grid) (px py : ℕ) : Prop := ∃ off < grid.size, grid.InSlot off px py

/-- A pixel of a cell that the pointer has marked. -/
def UnderMark (grid : Grid) (bb : Bbulk) (px py : ℕ) : Prop :=
  ∃ off < grid.size, grid.InSlot off px py ∧ bb.HasMark off

/-! ## Cells on two canvases -/

/-- What is noted about the cells does not depend on the canvas. -/
theorem drawPlace_fst (frame : Frame) (bb : Bbulk) (canvas canvas' : Canvas) (pos : ℕ × ℕ) :
    (Bbulk.drawPlace grid glyphs frame (bb, canvas) pos).1 =
      (Bbulk.drawPlace grid glyphs frame (bb, canvas') pos).1 := by
  unfold Bbulk.drawPlace Bbulk.bbulkDrawCell
  dsimp only
  split_ifs <;> rfl

/-- What is drawn on a pixel does not, either. -/
theorem drawPlace_same (frame : Frame) (bb : Bbulk) {canvas canvas' : Canvas} (pos : ℕ × ℕ)
    (h : canvas px py = canvas' px py) :
    (Bbulk.drawPlace grid glyphs frame (bb, canvas) pos).2 px py =
      (Bbulk.drawPlace grid glyphs frame (bb, canvas') pos).2 px py := by
  unfold Bbulk.drawPlace Bbulk.bbulkDrawCell
  dsimp only
  split_ifs
  · exact h
  · exact h
  · dsimp only
    rw [displayBlend_eq, displayBlend_eq, h]

theorem foldl_drawPlace_fst (frame : Frame) (places : List (ℕ × ℕ)) (bb : Bbulk)
    (canvas canvas' : Canvas) :
    (places.foldl (Bbulk.drawPlace grid glyphs frame) (bb, canvas)).1 =
      (places.foldl (Bbulk.drawPlace grid glyphs frame) (bb, canvas')).1 := by
  induction places generalizing bb canvas canvas' with
  | nil => rfl
  | cons pos places ih =>
    have hnext := ih (Bbulk.drawPlace grid glyphs frame (bb, canvas) pos).1
      (Bbulk.drawPlace grid glyphs frame (bb, canvas) pos).2
      (Bbulk.drawPlace grid glyphs frame (bb, canvas') pos).2
    rwa [Prod.mk.eta, drawPlace_fst frame bb canvas canvas' pos, Prod.mk.eta] at hnext

theorem foldl_drawPlace_same (frame : Frame) (places : List (ℕ × ℕ)) (bb : Bbulk)
    {canvas canvas' : Canvas} (h : canvas px py = canvas' px py) :
    (places.foldl (Bbulk.drawPlace grid glyphs frame) (bb, canvas)).2 px py =
      (places.foldl (Bbulk.drawPlace grid glyphs frame) (bb, canvas')).2 px py := by
  induction places generalizing bb canvas canvas' with
  | nil => exact h
  | cons pos places ih =>
    have hcanvas := @drawPlace_same grid glyphs px py frame bb canvas canvas' pos h
    have hnext := ih (Bbulk.drawPlace grid glyphs frame (bb, canvas) pos).1 hcanvas
    rwa [Prod.mk.eta, drawPlace_fst frame bb canvas canvas' pos, Prod.mk.eta] at hnext

/-- The condition on the cells does not read the canvas, either. -/
theorem along_drawPlace_same {frame : Frame} {places : List (ℕ × ℕ)} {bb : Bbulk}
    {canvas : Canvas} (canvas' : Canvas)
    (h : Runs.Along (Bbulk.drawPlace grid glyphs frame) (CellMeets grid frame)
      (bb, canvas) places) :
    Runs.Along (Bbulk.drawPlace grid glyphs frame) (CellMeets grid frame)
      (bb, canvas') places := by
  induction places generalizing bb canvas canvas' with
  | nil => trivial
  | cons pos places ih =>
    obtain ⟨hpos, hrest⟩ := h
    rw [← Prod.mk.eta (p := Bbulk.drawPlace grid glyphs frame (bb, canvas) pos)] at hrest
    have hnext := ih (Bbulk.drawPlace grid glyphs frame (bb, canvas') pos).2 hrest
    rw [drawPlace_fst frame bb canvas canvas' pos, Prod.mk.eta] at hnext
    exact ⟨hpos, hnext⟩

/-- Nothing is drawn outside of the text. -/
theorem bbulkDraw_outside (hroom : grid.HasRoom) (frame : Frame) (st : Bbulk × Canvas)
    (hout : ¬ InText grid px py) :
    (Bbulk.bbulkDraw grid glyphs frame st).2 px py = st.2 px py := by
  have hplace (st : Bbulk × Canvas) {off : ℕ} (hoff : off < grid.size) :
      (Bbulk.drawPlace grid glyphs frame st
        (off % grid.txt.cols, off / grid.txt.cols)).2 px py = st.2 px py := by
    rw [drawPlace_eq]
    split_ifs
    · rfl
    · rfl
    · dsimp only
      rw [drawGlyph_apply hroom hoff, if_neg]
      rintro (hin | ⟨⟨-, hnext⟩, hin⟩)
      · exact hout ⟨off, hoff, hin⟩
      · refine hout ⟨_, Grid.place_lt_size hnext (posy_lt hoff), ?_⟩
        exact (Grid.inSlot_place hnext).mpr hin
  have hall (offs : List ℕ) (hoffs : ∀ off ∈ offs, off < grid.size) (st : Bbulk × Canvas) :
      ((offs.map fun off => (off % grid.txt.cols, off / grid.txt.cols)).foldl
        (Bbulk.drawPlace grid glyphs frame) st).2 px py = st.2 px py := by
    induction offs generalizing st with
    | nil => rfl
    | cons off offs ih =>
      rw [List.map_cons, List.foldl_cons, ih fun i hi => hoffs i (List.mem_cons_of_mem _ hi)]
      exact hplace st (hoffs off List.mem_cons_self)
  rw [Bbulk.bbulkDraw, Grid.places_eq]
  exact hall _ (fun off hoff => List.mem_range.mp hoff) st

/-! ## Runs of frames -/

/-- A text with at least one cell. -/
structure CellGrid extends Grid where
  cols_pos : 0 < txt.cols
  rows_pos : 0 < txt.rows
  width_pos : 0 < font.width
  height_pos : 0 < font.height

section

variable (grid : CellGrid) (glyphs : ℕ → CellAttr → Glyph) (attrColors : ℕ → Rgb × Rgb)

/-- The frame starts a full redraw: its attributes are new, or the display asks for it. -/
def Painter.StartsRedraw (painter : Painter) (frame : Frame) : Prop :=
  painter.bb.attr ≠ frame.attr ∨ frame.needRedraw = true

instance (painter : Painter) (frame : Frame) : Decidable (painter.StartsRedraw frame) :=
  inferInstanceAs (Decidable (_ ∨ _))

/-- One step of a run: a frame is drawn, and remembered. -/
def showPicture (st : Painter × Picture) (pic : Picture) : Painter × Picture :=
  (st.1.drawPicture grid.toGrid glyphs attrColors pic, pic)

/-- The condition on a frame. Its cells meet theirs; and, unless it starts a full redraw, its
chrome and its pointer are steady. -/
def PictureMeets (st : Painter × Picture) (pic : Picture) : Prop :=
  FrameMeets grid.toGrid glyphs st.1 pic.frame ∧ (st.1.StartsRedraw pic.frame ∨
    grid.ChromeSteady glyphs st.2.chrome pic.chrome ∧
      grid.PointerSteady glyphs st.2.pointer pic.pointer)

/-! ## Requests that do not move -/

/-- The requests of a picture that are not covered by damage: those of the chrome, and that of
a pointer that is not clear. -/
def fixedReqs (pic : Picture) : List BlendReq :=
  grid.chromeReqs glyphs pic.chrome ++
    if ∀ pos ∈ pic.pointer, grid.PointerClear glyphs pos then []
    else grid.pointerReqs glyphs attrColors pic

/-- The colour of a pixel under the fixed requests of a picture. -/
def fixedAt (pic : Picture) (px py : ℕ) : Option Rgb :=
  Layers.seen ((fixedReqs grid glyphs attrColors pic).map fun req =>
    req.at grid.sw grid.sh px py)

end

section

variable {grid : CellGrid} {attrColors : ℕ → Rgb × Rgb} {last pic : Picture} {painter : Painter}

/-- Steady pictures have the same fixed colours. -/
theorem fixedAt_eq (hattr : last.frame.attr = pic.frame.attr)
    (hchrome : grid.ChromeSteady glyphs last.chrome pic.chrome)
    (hpointer : grid.PointerSteady glyphs last.pointer pic.pointer) (hpixel : ¬ grid.InStrip py) :
    fixedAt grid glyphs attrColors last px py = fixedAt grid glyphs attrColors pic px py := by
  have hseen := @Grid.ChromeSteady.seen_eq grid.toGrid glyphs _ _ hchrome px py hpixel
  have htop : (if ∀ pos ∈ last.pointer, grid.PointerClear glyphs pos then []
      else grid.pointerReqs glyphs attrColors last) =
      if ∀ pos ∈ pic.pointer, grid.PointerClear glyphs pos then []
      else grid.pointerReqs glyphs attrColors pic := by
    rcases hpointer with hsame | ⟨hclear, hclear'⟩
    · simp only [Grid.pointerReqs, hsame, hattr]
    · rw [if_pos hclear, if_pos hclear']
  unfold fixedAt fixedReqs
  rw [htop, List.map_append, List.map_append, Layers.seen_append, Layers.seen_append, hseen]

/-! ## One frame -/

/-- What the cells and the chrome beside them leave of a canvas: where nothing fixed is painted,
it agrees with a canvas of cells alone, and is empty outside of the text. -/
structure Settled (grid : CellGrid) (glyphs : ℕ → CellAttr → Glyph) (attrColors : ℕ → Rgb × Rgb)
    (pic : Picture) (ghost canvas : Canvas) : Prop where
  same : ∀ px py, ¬ grid.InStrip py → fixedAt grid glyphs attrColors pic px py = none →
    canvas px py = ghost px py
  page : ∀ px py, ¬ grid.InStrip py → fixedAt grid glyphs attrColors pic px py = none →
    ¬ InText grid.toGrid px py → canvas px py = Bbulk.page

/-- A canvas on which a picture has been drawn; a clear pointer is on marked cells. -/
structure Shown (grid : CellGrid) (glyphs : ℕ → CellAttr → Glyph) (attrColors : ℕ → Rgb × Rgb)
    (pic : Picture) (bb : Bbulk) (ghost canvas : Canvas) : Prop
    extends Settled grid glyphs attrColors pic ghost canvas where
  fixed : ∀ px py color, ¬ grid.InStrip py →
    fixedAt grid glyphs attrColors pic px py = some color →
    canvas px py = color ∨ UnderMark grid.toGrid bb px py

/-- The notes after a picture has been drawn are those after its cells, with the marks of its
pointer. -/
theorem marked_drawPicture (painter : Painter) (pic : Picture) :
    Bbulk.Marked (Bbulk.bbulkDraw grid.toGrid glyphs pic.frame
        (Bbulk.bbulkPrepare grid.toGrid pic.frame (painter.bb, painter.back))).1
      (painter.drawPicture grid.toGrid glyphs attrColors pic).bb := by
  unfold Painter.drawPicture
  cases pic.pointer with
  | none => exact .refl _
  | some pos => exact Bbulk.marked_markDamaged grid.toGrid _ _ _

/-- Outside of the strips, a picture is its cells below its fixed requests, but for marked
cells. -/
theorem front_drawPicture (painter : Painter) (pic : Picture) {px py : ℕ}
    (hpixel : ¬ grid.InStrip py) :
    (painter.drawPicture grid.toGrid glyphs attrColors pic).front px py =
        (fixedAt grid glyphs attrColors pic px py).getD
          ((Bbulk.bbulkDraw grid.toGrid glyphs pic.frame
            (Bbulk.bbulkPrepare grid.toGrid pic.frame (painter.bb, painter.back))).2 px py) ∨
      UnderMark grid.toGrid (painter.drawPicture grid.toGrid glyphs attrColors pic).bb px py := by
  have hfront : (painter.drawPicture grid.toGrid glyphs attrColors pic).front px py =
      (Layers.seen ((grid.pointerReqs glyphs attrColors pic).map fun req =>
        req.at grid.sw grid.sh px py)).getD
        ((Layers.seen ((grid.chromeReqs glyphs pic.chrome).map fun req =>
          req.at grid.sw grid.sh px py)).getD
          ((Bbulk.bbulkDraw grid.toGrid glyphs pic.frame
            (Bbulk.bbulkPrepare grid.toGrid pic.frame (painter.bb, painter.back))).2 px py)) := by
    simp only [Painter.drawPicture, blendAll_eq]
  rw [hfront]
  unfold fixedAt fixedReqs
  by_cases hclear : ∀ pos ∈ pic.pointer, grid.PointerClear glyphs pos
  · rw [if_pos hclear, List.append_nil]
    cases hcolor : Layers.seen ((grid.pointerReqs glyphs attrColors pic).map fun req =>
        req.at grid.sw grid.sh px py) with
    | none =>
      left
      rw [Option.getD_none]
    | some color =>
      right
      cases hpointer : pic.pointer with
      | none => simp [Grid.pointerReqs, hpointer] at hcolor
      | some pos =>
        have hpaint : (grid.pointerReq glyphs (attrColors pic.frame.attr) pos.1 pos.2).at grid.sw
            grid.sh px py = some color := by
          simpa [Grid.pointerReqs, hpointer, Layers.seen] using hcolor
        obtain ⟨drawn, hbb⟩ : ∃ drawn : Bbulk,
            (painter.drawPicture grid.toGrid glyphs attrColors pic).bb =
              drawn.markDamaged grid.toGrid (grid.clampPointer pos.1 pos.2).1
                (grid.clampPointer pos.1 pos.2).2 := by
          simp only [Painter.drawPicture, hpointer]
          exact ⟨_, rfl⟩
        rw [hbb]
        exact (hclear pos hpointer).hasMark grid.cols_pos grid.rows_pos grid.width_pos
          grid.height_pos drawn hpaint hpixel
  · left
    rw [if_neg hclear, List.map_append, Layers.seen_append, Option.getD_or]

/-- Drawing a picture over canvases that have settled for it: the notes agree with canvases
of cells alone, and the new front shows the picture. Cells that were stale have their flag; the
others show on both buffers what the frame has for them. -/
theorem drawPicture_spec (hroom : grid.HasRoom) {ghostFront ghostBack : Canvas}
    (htracks : Tracks grid.toGrid glyphs painter.bb ghostFront ghostBack)
    (hsettled : Settled grid glyphs attrColors pic
      (Bbulk.bbulkPrepare grid.toGrid pic.frame (painter.bb, ghostBack)).2
      (Bbulk.bbulkPrepare grid.toGrid pic.frame (painter.bb, painter.back)).2)
    (hmeets : FrameMeets grid.toGrid glyphs painter pic.frame) :
    let next := painter.drawPicture grid.toGrid glyphs attrColors pic
    (∃ ghost, Tracks grid.toGrid glyphs next.bb ghost ghostFront ∧
      Shown grid glyphs attrColors pic next.bb ghost next.front) ∧
    (∀ off < grid.size, (painter.bb.cells off).ch = idDamaged → next.bb.damaged off = true) ∧
    ∀ off < grid.size, next.bb.damaged off = false → ∀ px py, grid.InSlot off px py →
      ¬ grid.InStrip py → fixedAt grid glyphs attrColors pic px py = none →
      next.front px py = ghostFront px py := by
  intro next
  -- the same frame on the canvas without chrome and pointer
  let start := Bbulk.bbulkPrepare grid.toGrid pic.frame (painter.bb, painter.back)
  let ghostStart := Bbulk.bbulkPrepare grid.toGrid pic.frame (painter.bb, ghostBack)
  have hbb : start.1 = ghostStart.1 := by
    simp only [start, ghostStart, Bbulk.bbulkPrepare]
    split_ifs <;> rfl
  let drawn := Bbulk.bbulkDraw grid.toGrid glyphs pic.frame start
  let ghostDrawn := Bbulk.bbulkDraw grid.toGrid glyphs pic.frame ghostStart
  have hghostMeets : Runs.Along (Bbulk.drawPlace grid.toGrid glyphs pic.frame)
      (CellMeets grid.toGrid pic.frame) (ghostStart.1, ghostStart.2) grid.places := by
    rw [← hbb]
    exact along_drawPlace_same ghostStart.2 hmeets
  have hupto : Upto grid.toGrid glyphs pic.frame ghostStart.1 ghostFront ghostStart.2 grid.size
      ghostDrawn := upto_bbulkDraw hroom (htracks.bbulkPrepare pic.frame) hghostMeets
  have hghostTracks : Tracks grid.toGrid glyphs ghostDrawn.1 ghostDrawn.2 ghostFront :=
    hupto.tracks hmeets.normal
  have hstart : start = (ghostStart.1, start.2) := by rw [← hbb]
  have hdrawn : drawn.1 = ghostDrawn.1 := by
    simp only [drawn, ghostDrawn, Bbulk.bbulkDraw]
    rw [hstart]
    exact foldl_drawPlace_fst pic.frame grid.places ghostStart.1 start.2 ghostStart.2
  have hsame {px py : ℕ} (hpixel : ¬ grid.InStrip py)
      (hloose : fixedAt grid glyphs attrColors pic px py = none) :
      drawn.2 px py = ghostDrawn.2 px py := by
    simp only [drawn, ghostDrawn, Bbulk.bbulkDraw]
    rw [hstart]
    exact foldl_drawPlace_same pic.frame grid.places ghostStart.1
      (hsettled.same px py hpixel hloose)
  have hmarked : Bbulk.Marked drawn.1 next.bb := marked_drawPicture painter pic
  have hfront {px py : ℕ} (hpixel : ¬ grid.InStrip py) :=
    @front_drawPicture glyphs grid attrColors painter pic px py hpixel
  -- on a cell without a mark nothing lies over the text
  have hcell {off px py : ℕ} (hoff : off < grid.size) (hmark : ¬ next.bb.HasMark off)
      (hslot : grid.InSlot off px py) (hpixel : ¬ grid.InStrip py)
      (hloose : fixedAt grid glyphs attrColors pic px py = none) :
      next.front px py = ghostDrawn.2 px py := by
    rcases hfront hpixel with hcolor | ⟨other, hother, hslot', hmark'⟩
    · rw [hcolor, hloose, Option.getD_none]
      exact hsame hpixel hloose
    · rw [inSlot_unique hroom hother hoff hslot' hslot] at hmark'
      exact absurd hmark' hmark
  refine ⟨?_, fun off hoff hch => ?_, fun off hoff hquiet px py hslot hpixel hloose => ?_⟩
  · let ghost : Canvas := fun px py =>
      if ¬ grid.InStrip py ∧ fixedAt grid glyphs attrColors pic px py = none then
        next.front px py
      else ghostDrawn.2 px py
    refine ⟨ghost, ?_, ⟨⟨fun px py hpixel hloose => ?_, fun px py hpixel hloose hout => ?_⟩,
      fun px py color hpixel hcolor => ?_⟩⟩
    · rw [← hdrawn] at hghostTracks
      refine hghostTracks.mark hmarked fun off hoff hmark px py hslot => ?_
      simp only [ghost]
      split_ifs with hin
      · exact hcell hoff hmark hslot hin.1 hin.2
      · rfl
    · simp only [ghost]
      rw [if_pos ⟨hpixel, hloose⟩]
    · rcases hfront hpixel with hcolor | ⟨off, hoff, hslot, -⟩
      · rw [hcolor, hloose, Option.getD_none, bbulkDraw_outside hroom pic.frame _ hout]
        exact hsettled.page px py hpixel hloose hout
      · exact absurd ⟨off, hoff, hslot⟩ hout
    · rcases @hfront px py hpixel with hshown | hmark
      · left
        rw [hshown, hcolor, Option.getD_some]
      · exact .inr hmark
  · have hstale : (ghostStart.1.cells off).ch = idDamaged := by
      simp only [ghostStart, Bbulk.bbulkPrepare]
      split_ifs
      · simp [Bbulk.damageAll, lt_cellCount hoff]
      · simp only [Bbulk.carryDamage]
        split_ifs
        · rfl
        · exact hch
      · exact hch
    refine hmarked.damaged ?_
    rw [hdrawn]
    exact hupto.stale off hoff hstale
  · have hquiet' : ghostDrawn.1.damaged off = false := by
      rw [← hdrawn, ← Bool.not_eq_true]
      intro hdamaged
      have := hmarked.damaged hdamaged
      simp only [next] at hquiet
      rw [hquiet] at this
      simp at this
    rw [hcell hoff (fun hmark => by simp [hmark.2] at hquiet) hslot hpixel hloose]
    exact eq_of_displays (hupto.shows off hoff) (hupto.front off hoff hquiet') hslot

/-! ## What a run keeps -/

/-- The notes on the default attributes and on redraws are left alone by the cells. -/
theorem drawPlace_redraw (frame : Frame) (st : Bbulk × Canvas) (pos : ℕ × ℕ) :
    (Bbulk.drawPlace grid.toGrid glyphs frame st pos).1.attr = st.1.attr ∧
      (Bbulk.drawPlace grid.toGrid glyphs frame st pos).1.redraw = st.1.redraw := by
  obtain ⟨bb, canvas⟩ := st
  simp only [Bbulk.drawPlace, Bbulk.bbulkDrawCell, Bbulk.trackCell, Bbulk.overflowCell]
  split_ifs <;> exact ⟨rfl, rfl⟩

theorem bbulkDraw_redraw (frame : Frame) (st : Bbulk × Canvas) :
    (Bbulk.bbulkDraw grid.toGrid glyphs frame st).1.attr = st.1.attr ∧
      (Bbulk.bbulkDraw grid.toGrid glyphs frame st).1.redraw = st.1.redraw := by
  unfold Bbulk.bbulkDraw
  induction grid.places generalizing st with
  | nil => exact ⟨rfl, rfl⟩
  | cons pos places ih =>
    obtain ⟨hattr, hredraw⟩ := @drawPlace_redraw glyphs grid frame st pos
    obtain ⟨hattr', hredraw'⟩ := ih (Bbulk.drawPlace grid.toGrid glyphs frame st pos)
    exact ⟨hattr'.trans hattr, hredraw'.trans hredraw⟩

theorem drawPicture_redraw (painter : Painter) (pic : Picture) :
    (painter.drawPicture grid.toGrid glyphs attrColors pic).bb.attr = pic.frame.attr ∧
      (painter.drawPicture grid.toGrid glyphs attrColors pic).bb.redraw =
        painter.bb.redraws pic.frame - 1 := by
  have hmarked := @marked_drawPicture glyphs grid attrColors painter pic
  obtain ⟨hattr, hredraw⟩ := @bbulkDraw_redraw glyphs grid pic.frame
    (Bbulk.bbulkPrepare grid.toGrid pic.frame (painter.bb, painter.back))
  rw [hmarked.attr, hmarked.redraw, hattr, hredraw]
  unfold Bbulk.bbulkPrepare
  dsimp only
  split_ifs <;> exact ⟨rfl, rfl⟩

/-- What holds between two frames. The back buffer counts only where it is not about to be
cleared. -/
structure Between (grid : CellGrid) (glyphs : ℕ → CellAttr → Glyph) (attrColors : ℕ → Rgb × Rgb)
    (st : Painter × Picture) (ghostFront ghostBack : Canvas) : Prop where
  tracks : Tracks grid.toGrid glyphs st.1.bb ghostFront ghostBack
  shown : Shown grid glyphs attrColors st.2 st.1.bb ghostFront st.1.front
  settled : st.1.bb.redraw = 0 → Settled grid glyphs attrColors st.2 ghostBack st.1.back
  attr : st.1.bb.attr = st.2.frame.attr
  redraw : st.1.bb.redraw ≤ 1

theorem Settled.steady {ghost canvas : Canvas} (hattr : last.frame.attr = pic.frame.attr)
    (hchrome : grid.ChromeSteady glyphs last.chrome pic.chrome)
    (hpointer : grid.PointerSteady glyphs last.pointer pic.pointer)
    (h : Settled grid glyphs attrColors last ghost canvas) :
    Settled grid glyphs attrColors pic ghost canvas where
  same px py hpixel hloose :=
    h.same px py hpixel ((fixedAt_eq hattr hchrome hpointer hpixel).trans hloose)
  page px py hpixel hloose :=
    h.page px py hpixel ((fixedAt_eq hattr hchrome hpointer hpixel).trans hloose)

theorem settled_cleared (pic : Picture) :
    Settled grid glyphs attrColors pic Bbulk.cleared Bbulk.cleared :=
  ⟨fun _ _ _ _ => rfl, fun _ _ _ _ _ => rfl⟩

theorem redraws_eq_zero {bb : Bbulk} {frame : Frame} :
    bb.redraws frame = 0 ↔ ¬ (bb.attr ≠ frame.attr ∨ frame.needRedraw = true) ∧ bb.redraw = 0 := by
  unfold Bbulk.redraws
  split_ifs with h
  · simp [h]
  · simp [h]

/-- Other default attributes start a full redraw. -/
theorem attr_eq_of_not_starts {frame : Frame} (h : ¬ painter.StartsRedraw frame) :
    painter.bb.attr = frame.attr := by
  by_contra hne
  exact h (.inl hne)

/-- A buffer that is not cleared is prepared as it is. -/
theorem bbulkPrepare_snd (frame : Frame) (bb : Bbulk) (canvas : Canvas) :
    (Bbulk.bbulkPrepare grid.toGrid frame (bb, canvas)).2 =
      if bb.redraws frame = 0 then canvas else Bbulk.cleared := by
  unfold Bbulk.bbulkPrepare
  dsimp only
  split_ifs <;> first | rfl | contradiction

/-- The canvas that a frame is drawn over has settled for it. -/
theorem Between.prepared {ghostFront ghostBack : Canvas}
    (h : Between grid glyphs attrColors (painter, last) ghostFront ghostBack)
    (hsteady : ¬ painter.StartsRedraw pic.frame → grid.ChromeSteady glyphs last.chrome pic.chrome ∧
      grid.PointerSteady glyphs last.pointer pic.pointer) :
    Settled grid glyphs attrColors pic
      (Bbulk.bbulkPrepare grid.toGrid pic.frame (painter.bb, ghostBack)).2
      (Bbulk.bbulkPrepare grid.toGrid pic.frame (painter.bb, painter.back)).2 := by
  rw [bbulkPrepare_snd, bbulkPrepare_snd]
  split_ifs with hredraws
  · obtain ⟨hstarts, hredraw⟩ := redraws_eq_zero.mp hredraws
    obtain ⟨hchrome, hpointer⟩ := hsteady hstarts
    exact (h.settled hredraw).steady (h.attr.symm.trans (attr_eq_of_not_starts hstarts)) hchrome
      hpointer
  · exact settled_cleared pic

/-- Between two frames without a full redraw, what changes is covered. -/
theorem Between.clipsCover (hroom : grid.HasRoom) (hnum : grid.Numbered)
    {ghostFront ghostBack : Canvas}
    (h : Between grid glyphs attrColors (painter, last) ghostFront ghostBack)
    (hmeets : PictureMeets grid glyphs (painter, last) pic) :
    painter.ClipsCover grid.toGrid glyphs attrColors pic := by
  intro hkeeps
  let next := painter.drawPicture grid.toGrid glyphs attrColors pic
  obtain ⟨hframe, hsteady⟩ := hmeets
  have hsteady' := fun hstarts => hsteady.resolve_left hstarts
  obtain ⟨⟨ghost, -, hshown⟩, hstale, hquiet⟩ :=
    drawPicture_spec hroom h.tracks (h.prepared hsteady') hframe
  have hredraws : painter.bb.redraws pic.frame = 0 := not_not.mp hkeeps
  obtain ⟨hstarts, -⟩ := redraws_eq_zero.mp hredraws
  obtain ⟨hchrome, hpointer⟩ := hsteady' hstarts
  have hattr := attr_eq_of_not_starts hstarts
  obtain ⟨rects, hrects, hscanned⟩ := Grid.computeDamage_spec hnum next.bb.damaged
  refine ⟨_, hrects, fun px hpx py hpy hchange => ?_⟩
  by_cases hpixel : grid.InStrip py
  · rcases Grid.strip_contains grid.cols_pos grid.rows_pos hpx hpy hpixel with htop | hbottom
    · exact ⟨_, List.mem_cons_of_mem _ List.mem_cons_self, htop⟩
    · exact ⟨_, List.mem_cons_self, hbottom⟩
  have hfixed : fixedAt grid glyphs attrColors last px py =
      fixedAt grid glyphs attrColors pic px py :=
    fixedAt_eq (h.attr.symm.trans hattr) hchrome hpointer hpixel
  -- the pixel is on a cell with a flag
  have hflag : ∃ off < grid.size, grid.InSlot off px py ∧ next.bb.damaged off = true := by
    cases hcolor : fixedAt grid glyphs attrColors pic px py with
    | some color =>
      rcases hshown.fixed px py color hpixel hcolor with hnew | ⟨off, hoff, hslot, hmark⟩
      · rcases h.shown.fixed px py color hpixel (hfixed.trans hcolor) with
          hold | ⟨off, hoff, hslot, hmark⟩
        · exact absurd (hnew.trans hold.symm) hchange
        · exact ⟨off, hoff, hslot, hstale off hoff hmark.1⟩
      · exact ⟨off, hoff, hslot, hmark.2⟩
    | none =>
      by_cases htext : InText grid.toGrid px py
      · obtain ⟨off, hoff, hslot⟩ := htext
        refine ⟨off, hoff, hslot, ?_⟩
        by_contra hclean
        refine hchange ?_
        rw [hquiet off hoff (by simpa using hclean) px py hslot hpixel hcolor]
        exact (h.shown.same px py hpixel (hfixed.trans hcolor)).symm
      · refine absurd ?_ hchange
        rw [hshown.page px py hpixel hcolor htext]
        exact (h.shown.page px py hpixel (hfixed.trans hcolor) htext).symm
  obtain ⟨off, hoff, hslot, hdamaged⟩ := hflag
  have hposy := posy_lt hoff
  have hplace : off % grid.txt.cols + off / grid.txt.cols * grid.txt.cols = off :=
    Nat.mod_add_div' off grid.txt.cols
  rw [← hplace] at hdamaged
  obtain ⟨r, hr, hin⟩ := hscanned.covered _ (by omega) _ (posx_lt hoff) hdamaged
  exact ⟨r, by simp [hr], hin.contains (Grid.contains_of_inCell (posx_lt hoff) hposy hslot)⟩

/-- A frame that meets its condition keeps what holds between two frames. -/
theorem Between.step (hroom : grid.HasRoom) {ghostFront ghostBack : Canvas}
    (h : Between grid glyphs attrColors (painter, last) ghostFront ghostBack)
    (hmeets : PictureMeets grid glyphs (painter, last) pic) :
    ∃ ghost, Between grid glyphs attrColors
      (showPicture grid glyphs attrColors (painter, last) pic) ghost ghostFront := by
  obtain ⟨hframe, hsteady⟩ := hmeets
  have hsteady' := fun hstarts => hsteady.resolve_left hstarts
  obtain ⟨⟨ghost, htracks, hshown⟩, -, -⟩ :=
    drawPicture_spec hroom h.tracks (h.prepared hsteady') hframe
  obtain ⟨hattr, hredraw⟩ := @drawPicture_redraw glyphs grid attrColors painter pic
  have hbefore : painter.bb.redraw ≤ 1 := h.redraw
  have hredraws : painter.bb.redraws pic.frame ≤ 2 := by
    unfold Bbulk.redraws
    split_ifs <;> omega
  refine ⟨ghost, htracks, hshown, fun hzero => ?_, hattr, ?_⟩
  · change (painter.drawPicture grid.toGrid glyphs attrColors pic).bb.redraw = 0 at hzero
    have hstarts : ¬ painter.StartsRedraw pic.frame := by
      intro hstarts
      have htwo : painter.bb.redraws pic.frame = 2 := if_pos hstarts
      omega
    obtain ⟨hchrome, hpointer⟩ := hsteady' hstarts
    exact h.shown.toSettled.steady (h.attr.symm.trans (attr_eq_of_not_starts hstarts)) hchrome
      hpointer
  · change (painter.drawPicture grid.toGrid glyphs attrColors pic).bb.redraw ≤ 1
    omega

/-- The first frame after the text has been set. -/
theorem between_first (hroom : grid.HasRoom) (resized : Bool) (doubleWidth : ℕ → Bool)
    (hmeets : FrameMeets grid.toGrid glyphs (Painter.init grid.toGrid resized doubleWidth)
      pic.frame) :
    ∃ ghost, Between grid glyphs attrColors
      ((Painter.init grid.toGrid resized doubleWidth).drawPicture grid.toGrid glyphs attrColors pic,
        pic) ghost Bbulk.cleared := by
  have hprepared : (Bbulk.bbulkPrepare grid.toGrid pic.frame
      ((Painter.init grid.toGrid resized doubleWidth).bb, Bbulk.cleared)).2 = Bbulk.cleared := by
    rw [bbulkPrepare_snd, ite_self]
  have hsettled : Settled grid glyphs attrColors pic
      (Bbulk.bbulkPrepare grid.toGrid pic.frame
        ((Painter.init grid.toGrid resized doubleWidth).bb, Bbulk.cleared)).2
      (Bbulk.bbulkPrepare grid.toGrid pic.frame
        ((Painter.init grid.toGrid resized doubleWidth).bb,
          (Painter.init grid.toGrid resized doubleWidth).back)).2 := by
    change Settled grid glyphs attrColors pic _ (Bbulk.bbulkPrepare grid.toGrid pic.frame
      ((Painter.init grid.toGrid resized doubleWidth).bb, Bbulk.cleared)).2
    rw [hprepared]
    exact settled_cleared pic
  have htracks : Tracks grid.toGrid glyphs (Painter.init grid.toGrid resized doubleWidth).bb
      Bbulk.cleared Bbulk.cleared := tracks_init resized doubleWidth
  obtain ⟨⟨ghost, hnext, hshown⟩, -, -⟩ := drawPicture_spec hroom htracks hsettled hmeets
  obtain ⟨hattr, hredraw⟩ := @drawPicture_redraw glyphs grid attrColors
    (Painter.init grid.toGrid resized doubleWidth) pic
  refine ⟨ghost, hnext, hshown, fun _ => settled_cleared pic, hattr, ?_⟩
  have hdue : (Painter.init grid.toGrid resized doubleWidth).bb.redraw ≤ 2 := by
    cases resized
    · exact Nat.zero_le 2
    · exact le_rfl
  have hredraws : (Painter.init grid.toGrid resized doubleWidth).bb.redraws pic.frame ≤ 2 := by
    unfold Bbulk.redraws
    split_ifs <;> omega
  change ((Painter.init grid.toGrid resized doubleWidth).drawPicture grid.toGrid glyphs attrColors
    pic).bb.redraw ≤ 1
  omega

/-- In a run of frames whose chrome and pointer are steady, each pixel that a frame without a
full redraw changes is in a damage rectangle of this frame. -/
theorem clipsCover_of_pictureMeets (hroom : grid.HasRoom) (hnum : grid.Numbered)
    (glyphs : ℕ → CellAttr → Glyph) (attrColors : ℕ → Rgb × Rgb) (resized : Bool)
    (doubleWidth : ℕ → Bool) (first : Picture) (pics : List Picture)
    (hfirst : FrameMeets grid.toGrid glyphs (Painter.init grid.toGrid resized doubleWidth)
      first.frame)
    (hmeets : Runs.Along (showPicture grid glyphs attrColors) (PictureMeets grid glyphs)
      ((Painter.init grid.toGrid resized doubleWidth).drawPicture grid.toGrid glyphs attrColors
        first, first) pics) :
    Runs.Along (showPicture grid glyphs attrColors)
      (fun st pic => st.1.ClipsCover grid.toGrid glyphs attrColors pic)
      ((Painter.init grid.toGrid resized doubleWidth).drawPicture grid.toGrid glyphs attrColors
        first, first) pics := by
  obtain ⟨ghost, hbetween⟩ :=
    @between_first glyphs grid attrColors first hroom resized doubleWidth hfirst
  refine hmeets.imp (J := fun st => ∃ ghostFront ghostBack,
    Between grid glyphs attrColors st ghostFront ghostBack) ?_ ⟨ghost, _, hbetween⟩
  rintro ⟨painter, last⟩ pic ⟨ghostFront, ghostBack, h⟩ hpic
  obtain ⟨next, hnext⟩ := h.step hroom hpic
  exact ⟨h.clipsCover hroom hnum hpic, next, ghostFront, hnext⟩

end

/-! ## A pointer that moves -/

/-- White on black. -/
def blackAndWhite (_ : ℕ) : Rgb × Rgb := (⟨255, 255, 255⟩, ⟨0, 0, 0⟩)

/-- A chrome that only tells whether there is an alert. -/
def statusLine (alert : Bool) : Chrome :=
  ⟨none, .empty, true, .empty, .empty, .empty, .empty, .empty, alert, false, .empty⟩

/-- Two letters below a line of status and a pointer. -/
def lettersBelow (left right : ℕ) (alert : Bool) (pointer : Option (ℕ × ℕ)) : Picture :=
  ⟨twoLetters left right, statusLine alert, pointer⟩

/-- The two cells as a text. -/
def twoCellText : CellGrid where
  toGrid := twoCells
  cols_pos := by decide
  rows_pos := by decide
  width_pos := by decide
  height_pos := by decide

/-- Letters, the status and the pointer change. -/
def movedRight : List Picture :=
  [lettersBelow 120 121 true (some (1, 0)), lettersBelow 121 121 false (some (2, 0))]

theorem clipsCover_of_pictureMeets_letters :
    Runs.Along (showPicture twoCellText boxFont blackAndWhite)
      (fun st pic => st.1.ClipsCover twoCells boxFont blackAndWhite pic)
      ((Painter.init twoCells false fun _ => false).drawPicture twoCells boxFont blackAndWhite
        (lettersBelow 87 32 false none), lettersBelow 87 32 false none) movedRight := by
  have hclear (x : ℕ) (hx : twoCells.PointerClear boxFont (x, 0)) :
      ∀ pos ∈ some (x, 0), twoCells.PointerClear boxFont pos := by
    rintro pos ⟨⟩
    exact hx
  have hone := hclear 1 (by decide +kernel)
  have hchrome (alert alert' : Bool) :
      twoCells.ChromeSteady boxFont (statusLine alert) (statusLine alert') :=
    Grid.chromeSteady_of_upright (by decide) (by decide) rfl
  refine @clipsCover_of_pictureMeets twoCellText (by decide +kernel) (by decide +kernel) boxFont
    blackAndWhite false (fun _ => false) _ movedRight (by decide +kernel)
    ⟨⟨?_, .inr ⟨hchrome _ _, .inr ⟨?_, hone⟩⟩⟩,
      ⟨?_, .inr ⟨hchrome _ _, .inr ⟨hone, hclear 2 (by decide +kernel)⟩⟩⟩, trivial⟩
  · decide +kernel
  · simp [lettersBelow]
  · decide +kernel

/-- A text of five lines on a display that is upside down. -/
def upsideDownText : CellGrid where
  toGrid := Grid.PointerInside.upsideDownGrid.resize 1 5
  cols_pos := by decide
  rows_pos := by decide
  width_pos := by decide
  height_pos := by decide

/-- Empty lines in the default attributes, and a pointer. -/
def emptyLines (pointer : Option (ℕ × ℕ)) : Picture :=
  ⟨⟨1, false, false, fun _ => letter 32, ⟨false, 0, 0, Cell.zero⟩, false⟩, statusLine false,
    pointer⟩

/-- The pointer appears after three frames; the first two of them are full redraws. -/
def pointerAppears : List Picture := [emptyLines none, emptyLines none, emptyLines (some (4, 72))]

/-- The state before the pointer appears. -/
def beforePointer : Painter × Picture :=
  Runs.run (showPicture upsideDownText boxFont blackAndWhite)
    ((Painter.init upsideDownText.toGrid true fun _ => false).drawPicture upsideDownText.toGrid
      boxFont blackAndWhite (emptyLines none), emptyLines none) [emptyLines none, emptyLines none]

/-- It is painted beside the cells, and on other lines than those that are marked. -/
theorem pointerAppears_not_clipsCover :
    ¬ Runs.Along (showPicture upsideDownText boxFont blackAndWhite)
      (fun st pic => st.1.ClipsCover upsideDownText.toGrid boxFont blackAndWhite pic)
      ((Painter.init upsideDownText.toGrid true fun _ => false).drawPicture upsideDownText.toGrid
        boxFont blackAndWhite (emptyLines none), emptyLines none) pointerAppears := by
  rintro ⟨-, -, hcover, -⟩
  change beforePointer.1.ClipsCover upsideDownText.toGrid boxFont blackAndWhite
    (emptyLines (some (4, 72))) at hcover
  obtain ⟨rects, hrects, hall⟩ := hcover (by decide +kernel)
  have hout : ∀ r ∈ (upsideDownText.computeDamage (beforePointer.1.drawPicture
      upsideDownText.toGrid boxFont blackAndWhite (emptyLines (some (4, 72)))).bb.damaged).getD [],
      ¬ r.Contains 335 230 := by
    decide +kernel
  obtain ⟨r, hr, hin⟩ := hall 335 (by decide +kernel) 230 (by decide +kernel) (by decide +kernel)
  rw [hrects] at hout
  exact hout r hr hin

end Faceplate.Render
