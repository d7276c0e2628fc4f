import Faceplate.Render.Upto

/-!
# Incremental drawing

A run of frames drawn into two buffers that are swapped after each. While every cell
meets its condition, the buffer on the screen holds on its text area what a full redraw
of its frame would.
-/

namespace Faceplate.Render

variable (grid : Grid) (glyphs : ℕ → CellAttr → Glyph)

/-- The condition on a frame: while it is drawn, every cell meets its own. -/
def FrameMeets (painter : Painter) (frame : Frame) : Prop :=
  Runs.Along (Bbulk.drawPlace grid glyphs frame) (CellMeets grid frame)
    (Bbulk.bbulkPrepare grid frame (painter.bb, painter.back)) grid.places

instance (painter : Painter) (frame : Frame) : Decidable (FrameMeets grid glyphs painter frame) :=
  Runs.Along.decidable _ _ _ _

variable {grid glyphs} {frame : Frame} {start : Bbulk} {front back : Canvas} {off : ℕ}
  {st : Bbulk × Canvas}

theorem overflows_iff {bb : Bbulk} {cell : Cell} {posx : ℕ} :
    bb.overflows cell posx off = true ↔
      cell.blank = true ∧ posx ≠ 0 ∧ bb.doubleWidth (off - 1) = true := by
  simp [Bbulk.overflows, and_assoc]

/-- A cell that meets its condition is left to its neighbour exactly if this is wide. -/
theorem Upto.overflows_eq (h : Upto grid glyphs frame start front back off st)
    (hmeets : st.1.overflows (frame.at grid off) (off % grid.txt.cols) off = true →
      (st.1.cells (off - 1)).ch ≠ idOverflow) :
    st.1.overflows (frame.at grid off) (off % grid.txt.cols) off =
      spills grid glyphs frame off := by
  have hbefore (hpos : off % grid.txt.cols ≠ 0) : off - 1 < off := by
    have : off ≠ 0 := fun hzero => hpos (by simp [hzero])
    omega
  rw [Bool.eq_iff_iff, spills_iff]
  constructor
  · intro hover
    obtain ⟨hblank, hpos, hdouble⟩ := overflows_iff.mp hover
    have hown : spills grid glyphs frame (off - 1) = false := by
      rw [← Bool.not_eq_true]
      exact fun hspills => hmeets hover (h.spilled _ (hbefore hpos) hspills).1
    exact ⟨⟨hpos, hown, (h.own _ (hbefore hpos) hown).2.symm.trans hdouble⟩, hblank⟩
  · rintro ⟨⟨hpos, hown, hwide⟩, hblank⟩
    exact overflows_iff.mpr ⟨hblank, hpos, (h.own _ (hbefore hpos) hown).2.trans hwide⟩

/-- Drawing one cell that meets its condition. -/
theorem Upto.step (hroom : grid.HasRoom) (h : Upto grid glyphs frame start front back off st)
    (htracks : Tracks grid glyphs start front back) (hoff : off < grid.size)
    (hmeets : CellMeets grid frame st (off % grid.txt.cols, off / grid.txt.cols)) :
    Upto grid glyphs frame start front back (off + 1)
      (Bbulk.drawPlace grid glyphs frame st (off % grid.txt.cols, off / grid.txt.cols)) := by
  obtain ⟨hnormal, hover, hkept⟩ := (cellMeets_iff hoff).mp hmeets
  have hspills := h.overflows_eq hover
  rw [drawPlace_eq]
  split_ifs with hleft hskips
  · obtain ⟨hwide, hblank⟩ := spills_iff.mp (hspills.symm.trans hleft)
    exact h.overflow htracks hoff hwide hnormal hblank
  · rw [Bool.not_eq_true] at hleft
    exact h.skip htracks hoff (hspills.symm.trans hleft) hnormal hskips (hkept hleft hskips)
  · rw [Bool.not_eq_true] at hleft hskips
    exact h.draw hroom htracks hoff (hspills.symm.trans hleft) hnormal hskips

/-- The places from one number on. -/
theorem places_eq_range' (grid : Grid) : grid.places = (List.range' 0 grid.size).map
    fun off => (off % grid.txt.cols, off / grid.txt.cols) := by
  rw [Grid.places_eq, List.range_eq_range', Grid.size]

/-- Drawing the rest of a frame, where each cell meets its condition when its turn comes. -/
theorem Upto.run (hroom : grid.HasRoom) (htracks : Tracks grid glyphs start front back)
    {count : ℕ} (hcount : off + count = grid.size)
    (h : Upto grid glyphs frame start front back off st)
    (hmeets : Runs.Along (Bbulk.drawPlace grid glyphs frame) (CellMeets grid frame) st
      ((List.range' off count).map fun off => (off % grid.txt.cols, off / grid.txt.cols))) :
    Upto grid glyphs frame start front back grid.size
      (((List.range' off count).map fun off => (off % grid.txt.cols, off / grid.txt.cols)).foldl
        (Bbulk.drawPlace grid glyphs frame) st) := by
  induction count generalizing off st with
  | zero =>
    obtain rfl : off = grid.size := hcount
    exact h
  | succ count ih =>
    rw [List.range'_succ, List.map_cons] at hmeets ⊢
    exact ih (by omega) (h.step hroom htracks (by omega) hmeets.1) hmeets.2

/-- A frame whose cells meet their conditions is drawn as a whole. -/
theorem upto_bbulkDraw (hroom : grid.HasRoom) (htracks : Tracks grid glyphs start front back)
    (hmeets : Runs.Along (Bbulk.drawPlace grid glyphs frame) (CellMeets grid frame) (start, back)
      grid.places) : Upto grid glyphs frame start front back grid.size
        (Bbulk.bbulkDraw grid glyphs frame (start, back)) := by
  rw [Bbulk.bbulkDraw, places_eq_range'] at *
  exact (upto_zero start front back frame).run hroom htracks (Nat.zero_add _) hmeets

/-! ## After a frame -/

/-- Behind a frame of ordinary cells, the notes agree with the buffers after the swap. -/
theorem Upto.tracks (h : Upto grid glyphs frame start front back grid.size st)
    (hnormal : ∀ off < grid.size, (frame.at grid off).Normal) :
    Tracks grid glyphs st.1 st.2 front := by
  have hcases (off : ℕ) (hoff : off < grid.size) :
      (spills grid glyphs frame off = true ∧ (st.1.cells off).ch = idOverflow) ∨
        (spills grid glyphs frame off = false ∧ st.1.cells off = frame.at grid off) := by
    cases hspills : spills grid glyphs frame off with
    | true => exact .inl ⟨rfl, (h.spilled off hoff hspills).1⟩
    | false => exact .inr ⟨rfl, (h.own off hoff hspills).1⟩
  have hleft (off : ℕ) (hoff : off < grid.size) (hspills : spills grid glyphs frame off = true) :
      st.1.cells (off - 1) = frame.at grid (off - 1) :=
    (h.own (off - 1) (by omega) (spills_iff.mp hspills).1.2.1).1
  have hbelieves (canvas : Canvas) (off : ℕ) (hoff : off < grid.size)
      (hdisplays : Displays grid glyphs canvas frame off) :
      Believes grid glyphs canvas st.1 off := by
    rcases hcases off hoff with ⟨hspills, hch⟩ | ⟨hspills, hcell⟩
    · rw [Displays, if_pos hspills] at hdisplays
      rw [Believes, if_pos hch, hleft off hoff hspills]
      exact fun _ => hdisplays
    · rw [Displays, if_neg (by simp [hspills])] at hdisplays
      rwa [Believes, if_neg (hcell ▸ (hnormal off hoff).2), hcell]
  refine ⟨fun off hoff hch => ?_, fun off hoff hn => ?_, fun off hoff hch => ?_,
    fun off hoff hn hwide hlast hdam => ?_, fun off hoff hquiet => ?_, fun off hoff _ => ?_⟩
  · rcases hcases off hoff with ⟨-, hover⟩ | ⟨-, hcell⟩
    · exact absurd (hover.symm.trans hch) (by decide)
    · exact absurd hch (hcell ▸ (hnormal off hoff).1)
  · rcases hcases off hoff with ⟨-, hover⟩ | ⟨hspills, hcell⟩
    · exact absurd hover hn.2
    · rw [(h.own off hoff hspills).2, hcell]
  · rcases hcases off hoff with ⟨hspills, -⟩ | ⟨-, hcell⟩
    · obtain ⟨hpos, -, hwide⟩ := (spills_iff.mp hspills).1
      rw [hleft off hoff hspills]
      exact ⟨hpos, fun _ => ⟨hnormal (off - 1) (by omega), hwide⟩⟩
    · exact absurd hch (hcell ▸ (hnormal off hoff).2)
  · rcases hcases off hoff with ⟨-, hover⟩ | ⟨hspills, hcell⟩
    · exact absurd hover hn.2
    · have hplace := (next_place hoff hlast)
      have hnext : off + 1 < grid.size := by
        by_contra hend
        obtain hend' : off + 1 = grid.size := by omega
        rw [hend', Grid.size, Nat.mul_mod_right] at hplace
        omega
      exact h.next off hnext ⟨by omega, hspills, hcell ▸ hwide⟩ hdam
  · exact hbelieves front off hoff (h.front off hoff hquiet)
  · exact hbelieves st.2 off hoff (h.shows off hoff)

/-- A cell that is looked at is one of those that `prepare` looks at. -/
theorem lt_cellCount (hoff : off < grid.size) : off < Bbulk.cellCount grid :=
  hoff.trans_le (Nat.mul_le_mul grid.cols_le (grid.rows_le.trans (Nat.le_add_right _ 2)))

theorem tracks_damageAll (bb : Bbulk) (front back : Canvas) :
    Tracks grid glyphs (bb.damageAll grid) front back := by
  have hch (off : ℕ) (hoff : off < grid.size) : ((bb.damageAll grid).cells off).ch = idDamaged := by
    simp [Bbulk.damageAll, lt_cellCount hoff]
  have hdam (off : ℕ) (hoff : off < grid.size) : (bb.damageAll grid).damaged off = true := by
    simp [Bbulk.damageAll, lt_cellCount hoff]
  refine ⟨fun off hoff _ => hdam off hoff, fun off hoff hn => absurd (hch off hoff) hn.1,
    fun off hoff hover => absurd ((hch off hoff).symm.trans hover) (by decide),
    fun off hoff hn => absurd (hch off hoff) hn.1, fun off hoff hquiet => ?_,
    fun off hoff hn => absurd (hch off hoff) hn⟩
  simp [hdam off hoff] at hquiet

/-- Carried damage makes cells only stale. -/
theorem Tracks.carryDamage (h : Tracks grid glyphs start front back) :
    Tracks grid glyphs (start.carryDamage grid) front back := by
  have hcell (off : ℕ) (hoff : off < grid.size) : (start.carryDamage grid).cells off =
      if start.damaged off = true then { start.cells off with ch := idDamaged }
      else start.cells off := by
    simp [Bbulk.carryDamage, lt_cellCount hoff]
  have hkept (off : ℕ) (hoff : off < grid.size)
      (hch : ((start.carryDamage grid).cells off).ch ≠ idDamaged) :
      (start.carryDamage grid).cells off = start.cells off ∧ start.damaged off = false := by
    rw [hcell off hoff] at hch ⊢
    split_ifs at hch ⊢ with hdam
    · exact absurd rfl hch
    · exact ⟨rfl, by simpa using hdam⟩
  -- a cell whose neighbour on the left has become stale is one of which nothing is noted
  have hbelieves (canvas : Canvas) (off : ℕ) (hoff : off < grid.size)
      (hsame : (start.carryDamage grid).cells off = start.cells off)
      (hb : Believes grid glyphs canvas start off) :
      Believes grid glyphs canvas (start.carryDamage grid) off := by
    unfold Believes at *
    rw [hsame]
    split_ifs at * with hover
    · intro hch
      have hleft := (hkept (off - 1) (by omega) hch).1
      rw [hleft] at hch ⊢
      exact hb hch
    · exact hb
  refine ⟨fun off hoff hch => ?_, fun off hoff hn => ?_, fun off hoff hch => ?_,
    fun off hoff hn => ?_, fun off hoff hquiet => ?_, fun off hoff hch => ?_⟩
  · change start.damaged off = true
    by_contra hquiet
    rw [hcell off hoff, if_neg hquiet] at hch
    exact hquiet (h.damaged off hoff hch)
  · obtain ⟨hsame, -⟩ := hkept off hoff hn.1
    rw [hsame] at hn ⊢
    exact h.width off hoff hn
  · obtain ⟨hsame, -⟩ := hkept off hoff (by rw [hch]; decide)
    rw [hsame] at hch
    obtain ⟨hpos, hleft⟩ := h.left off hoff hch
    refine ⟨hpos, fun hstay => ?_⟩
    have hsame' := (hkept (off - 1) (by omega) hstay).1
    rw [hsame'] at hstay ⊢
    exact hleft hstay
  · obtain ⟨hsame, -⟩ := hkept off hoff hn.1
    rw [hsame] at hn ⊢
    exact h.next off hoff hn
  · have hquiet' : start.damaged off = false := hquiet
    have hsame : (start.carryDamage grid).cells off = start.cells off := by
      rw [hcell off hoff, if_neg (by simp [hquiet'])]
    exact hbelieves back off hoff hsame (h.back off hoff hquiet')
  · obtain ⟨hsame, -⟩ := hkept off hoff hch
    exact hbelieves front off hoff hsame (h.front off hoff (hsame ▸ hch))

/-- Nothing is noted yet of a renderer that has just been set. -/
theorem tracks_init (resized : Bool) (doubleWidth : ℕ → Bool) :
    Tracks grid glyphs (Painter.init grid resized doubleWidth).bb front back := by
  have h := @tracks_damageAll grid glyphs
    ⟨fun _ => Cell.zero, doubleWidth, fun _ => false, 0, 0⟩ front back
  cases resized with
  | false => exact h
  | true => exact ⟨h.damaged, h.width, h.left, h.next, h.back, h.front⟩

theorem Tracks.bbulkPrepare (h : Tracks grid glyphs start front back) (frame : Frame) :
    Tracks grid glyphs (Bbulk.bbulkPrepare grid frame (start, back)).1 front
      (Bbulk.bbulkPrepare grid frame (start, back)).2 := by
  have hsame : Tracks grid glyphs
      { start with attr := frame.attr, redraw := start.redraws frame - 1 } front back :=
    ⟨h.damaged, h.width, h.left, h.next, h.back, h.front⟩
  unfold Bbulk.bbulkPrepare
  dsimp only
  split_ifs
  · exact tracks_damageAll _ front _
  · exact hsame.carryDamage
  · exact hsame

/-! ## A full redraw -/

/-- Over fresh cells nothing is skipped, and no cell is left to one that is left itself. -/
theorem Upto.fresh_meets (h : Upto grid glyphs frame start front back off st)
    (hoff : off < grid.size) (hmarked : ∀ i < grid.size, (start.cells i).ch = idDamaged)
    (hsingle : ∀ i < grid.size, start.doubleWidth i = false)
    (hnormal : ∀ i < grid.size, (frame.at grid i).Normal) :
    CellMeets grid frame st (off % grid.txt.cols, off / grid.txt.cols) := by
  refine (cellMeets_iff hoff).mpr ⟨hnormal off hoff, fun hover => ?_, fun _ hskips => ?_⟩
  · obtain ⟨-, hpos, hdouble⟩ := overflows_iff.mp hover
    have hpos' : 0 < off := Nat.pos_of_ne_zero fun hzero => hpos (by simp [hzero])
    cases hspills : spills grid glyphs frame (off - 1) with
    | true =>
      have hwidth := (h.spilled (off - 1) (by omega) hspills).2
      rw [hdouble, hsingle (off - 1) (by omega)] at hwidth
      simp at hwidth
    | false =>
      rw [(h.own (off - 1) (by omega) hspills).1]
      exact (hnormal (off - 1) (by omega)).2
  · have hcell := (skips_iff.mp hskips).1
    have hch : (st.1.cells off).ch = idDamaged := by
      rcases h.here hoff with hunt | ⟨-, hred | hcov⟩
      · exact hunt.cell ▸ hmarked off hoff
      · exact hred.cell ▸ hmarked off hoff
      · exact hcov.cell
    exact absurd (hcell ▸ hch) (hnormal off hoff).1

theorem Upto.fresh_along (hroom : grid.HasRoom) (htracks : Tracks grid glyphs start front back)
    (hmarked : ∀ i < grid.size, (start.cells i).ch = idDamaged)
    (hsingle : ∀ i < grid.size, start.doubleWidth i = false)
    (hnormal : ∀ i < grid.size, (frame.at grid i).Normal) {count : ℕ}
    (hcount : off + count = grid.size) (h : Upto grid glyphs frame start front back off st) :
    Runs.Along (Bbulk.drawPlace grid glyphs frame) (CellMeets grid frame) st
      ((List.range' off count).map fun off => (off % grid.txt.cols, off / grid.txt.cols)) := by
  induction count generalizing off st with
  | zero => trivial
  | succ count ih =>
    rw [List.range'_succ, List.map_cons]
    have hmeets := h.fresh_meets (by omega) hmarked hsingle hnormal
    exact ⟨hmeets, ih (by omega) (h.step hroom htracks (by omega) hmeets)⟩

/-- A full redraw shows the frame. -/
theorem displays_fullRedraw (hroom : grid.HasRoom)
    (hnormal : ∀ i < grid.size, (frame.at grid i).Normal) (hoff : off < grid.size) :
    Displays grid glyphs (Painter.fullRedraw grid glyphs frame) frame off := by
  let start := Bbulk.bbulkSet grid fun _ => false
  have htracks : Tracks grid glyphs start Bbulk.cleared Bbulk.cleared := tracks_damageAll _ _ _
  have hmeets : Runs.Along (Bbulk.drawPlace grid glyphs frame) (CellMeets grid frame)
      (start, Bbulk.cleared) grid.places := by
    rw [places_eq_range']
    refine (upto_zero start Bbulk.cleared Bbulk.cleared frame).fresh_along hroom htracks ?_ ?_
      hnormal (Nat.zero_add _)
    · intro i hi
      simp [start, Bbulk.bbulkSet, Bbulk.damageAll, lt_cellCount hi]
    · exact fun _ _ => rfl
  exact (upto_bbulkDraw hroom htracks hmeets).shows off hoff

/-! ## Runs of frames -/

/-- A frame that meets its condition has no cell with one of the marks. -/
theorem FrameMeets.normal {painter : Painter} (h : FrameMeets grid glyphs painter frame) :
    ∀ i < grid.size, (frame.at grid i).Normal := by
  have hall (places : List (ℕ × ℕ)) (st : Bbulk × Canvas)
      (h : Runs.Along (Bbulk.drawPlace grid glyphs frame) (CellMeets grid frame) st places) :
      ∀ pos ∈ places, (frame.cellAt grid.txt.cols pos.1 pos.2).Normal := by
    induction places generalizing st with
    | nil => simp
    | cons place places ih =>
      intro pos hpos
      rcases List.mem_cons.mp hpos with rfl | hrest
      · exact h.1.1
      · exact ih _ h.2 pos hrest
  intro i hi
  refine hall _ _ h (i % grid.txt.cols, i / grid.txt.cols) ?_
  rw [Grid.places_eq]
  exact List.mem_map.mpr ⟨i, List.mem_range.mpr hi, rfl⟩

/-- Two buffers that show the same frame agree on its text area. -/
theorem eq_of_displays {canvas canvas' : Canvas} (h : Displays grid glyphs canvas frame off)
    (h' : Displays grid glyphs canvas' frame off) {px py : ℕ} (hpixel : grid.InSlot off px py) :
    canvas px py = canvas' px py := by
  unfold Displays at h h'
  split_ifs at h h' <;> rw [h px py hpixel, h' px py hpixel]

/-- A frame that meets its condition is drawn like a full redraw, and leaves the notes in
agreement with the buffers. -/
theorem frame_spec (hroom : grid.HasRoom) {painter : Painter}
    (htracks : Tracks grid glyphs painter.bb painter.front painter.back)
    (hmeets : FrameMeets grid glyphs painter frame) :
    painter.Agrees grid glyphs frame ∧
      Tracks grid glyphs (painter.draw grid glyphs frame).bb (painter.draw grid glyphs frame).front
        (painter.draw grid glyphs frame).back := by
  have hdrawn := upto_bbulkDraw hroom (htracks.bbulkPrepare frame) hmeets
  refine ⟨fun posx hposx posy hposy px py hpixel => ?_, hdrawn.tracks hmeets.normal⟩
  have hoff : grid.txt.cols * posy + posx < grid.size := by
    have := Nat.mul_le_mul_left grid.txt.cols (Nat.succ_le_of_lt hposy)
    rw [Nat.mul_succ] at this
    exact (Nat.add_lt_add_left hposx _).trans_le this
  refine eq_of_displays (hdrawn.shows _ hoff) (displays_fullRedraw hroom hmeets.normal hoff) ?_
  rw [Grid.InSlot, Nat.mul_add_mod, Nat.mod_eq_of_lt hposx, Nat.mul_add_div (by omega),
    Nat.div_eq_of_lt hposx]
  exact hpixel

/-- In a run of frames that all meet their condition, each frame is on the text area of
its buffer as a full redraw would draw it. -/
theorem agrees_of_frameMeets (hroom : grid.HasRoom) (glyphs : ℕ → CellAttr → Glyph)
    (resized : Bool) (doubleWidth : ℕ → Bool) (frames : List Frame)
    (hmeets : Runs.Along (Painter.draw grid glyphs) (FrameMeets grid glyphs)
      (Painter.init grid resized doubleWidth) frames) :
    Runs.Along (Painter.draw grid glyphs) (Painter.Agrees grid glyphs)
      (Painter.init grid resized doubleWidth) frames := by
  refine hmeets.imp (J := fun painter : Painter =>
    Tracks grid glyphs painter.bb painter.front painter.back) ?_ (tracks_init resized doubleWidth)
  exact fun painter frame htracks hframe => frame_spec hroom htracks hframe

/-! ## A ghost -/

/-- The line of two cells that the chrome leaves of a small screen. -/
def twoCells : Grid :=
  Grid.afterSet ⟨.normal, 0, 0, 0, 0⟩ ⟨1, 1, 1⟩ 20 18 (by decide) (by decide)

/-- A font in which `W` is wide and only the blank is empty. -/
def boxFont (ch : ℕ) (_ : CellAttr) : Glyph := ⟨ch = 87, fun _ _ => if ch = 32 then 0 else 255⟩

/-- A white cell on black, but `x` in red. -/
def letter (ch : ℕ) : Cell :=
  { Cell.zero with ch := ch, fg := if ch = 120 then ⟨255, 0, 0⟩ else ⟨255, 255, 255⟩ }

/-- A frame of two cells without a cursor. -/
def twoLetters (left right : ℕ) : Frame :=
  ⟨0, false, false, fun off => if off = 0 then letter left else letter right,
    ⟨false, 0, 0, Cell.zero⟩, false⟩

theorem agrees_of_frameMeets_letters :
    Runs.Along (Painter.draw twoCells boxFont) (Painter.Agrees twoCells boxFont)
      (Painter.init twoCells false fun _ => true)
      [twoLetters 87 32, twoLetters 87 120, twoLetters 120 32] :=
  agrees_of_frameMeets (by decide +kernel) boxFont false _ _ (by decide +kernel)

/-- A letter next to a wide one is deleted once both buffers show them. -/
def deletedLetter : List Frame := [twoLetters 87 120, twoLetters 87 120, twoLetters 87 32]

/-- The letter stays on the buffer of the third frame. -/
theorem deletedLetter_not_agrees :
    ¬ Runs.Along (Painter.draw twoCells boxFont) (Painter.Agrees twoCells boxFont)
      (Painter.init twoCells false fun _ => false) deletedLetter := by
  rintro ⟨-, -, hghost, -⟩
  have hpixel := hghost 1 (by decide +kernel) 0 (by decide +kernel) 10 6 (by decide +kernel)
  revert hpixel
  decide +kernel

end Faceplate.Render
