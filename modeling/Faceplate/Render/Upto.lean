import Faceplate.Render.Tracking

/-!
# Drawing a frame cell by cell

What both buffers and the notes about the cells have in common before a frame is drawn,
and what holds while it is drawn: behind the current cell the frame is on the back
buffer, ahead of it nothing has changed, and the current cell knows what the glyph on
its left has done to it.
-/

namespace Faceplate.Render

variable (grid : Grid) (glyphs : ℕ → CellAttr → Glyph)

/-- A blank cell of a frame that is covered by the wide glyph on its left. -/
def spills (frame : Frame) : ℕ → Bool
  | 0 => false
  | off + 1 =>
    (off + 1) % grid.txt.cols ≠ 0 && (frame.at grid (off + 1)).blank &&
      wide glyphs (frame.at grid off) && !spills frame off

/-- The cell on the left has a wide glyph of its own. -/
def LeftWide (frame : Frame) (off : ℕ) : Prop :=
  off % grid.txt.cols ≠ 0 ∧ spills grid glyphs frame (off - 1) = false ∧
    wide glyphs (frame.at grid (off - 1)) = true

/-- A buffer shows a frame in one place. -/
def Displays (canvas : Canvas) (frame : Frame) (off : ℕ) : Prop :=
  if spills grid glyphs frame off then
    Shows grid glyphs canvas off (off - 1) (frame.at grid (off - 1))
  else Shows grid glyphs canvas off off (frame.at grid off)

/-- A buffer shows what is noted about one place. Nothing is noted about a cell that is left
to a stale one. -/
def Believes (canvas : Canvas) (bb : Bbulk) (off : ℕ) : Prop :=
  if (bb.cells off).ch = idOverflow then
    (bb.cells (off - 1)).ch ≠ idDamaged →
      Shows grid glyphs canvas off (off - 1) (bb.cells (off - 1))
  else Shows grid glyphs canvas off off (bb.cells off)

/-- What is noted about the cells agrees with the two buffers. -/
structure Tracks (bb : Bbulk) (front back : Canvas) : Prop where
  damaged : ∀ off < grid.size, (bb.cells off).ch = idDamaged → bb.damaged off = true
  width : ∀ off < grid.size, (bb.cells off).Normal →
    bb.doubleWidth off = wide glyphs (bb.cells off)
  left : ∀ off < grid.size, (bb.cells off).ch = idOverflow → off % grid.txt.cols ≠ 0 ∧
    ((bb.cells (off - 1)).ch ≠ idDamaged →
      (bb.cells (off - 1)).Normal ∧ wide glyphs (bb.cells (off - 1)) = true)
  next : ∀ off < grid.size, (bb.cells off).Normal → wide glyphs (bb.cells off) = true →
    grid.lastCol off = false → bb.damaged off = true → bb.damaged (off + 1) = true
  back : ∀ off < grid.size, bb.damaged off = false → Believes grid glyphs back bb off
  front : ∀ off < grid.size, (bb.cells off).ch ≠ idDamaged → Believes grid glyphs front bb off

/-- The glyph on the left was not drawn, or is not wide. -/
structure Untouched (frame : Frame) (start : Bbulk) (back : Canvas) (off : ℕ) (bb : Bbulk)
    (canvas : Canvas) : Prop where
  cell : bb.cells off = start.cells off
  damaged : bb.damaged off = start.damaged off
  same : SameAt grid back canvas off
  left : LeftWide grid glyphs frame off → start.cells (off - 1) = frame.at grid (off - 1) ∧
    bb.damaged (off - 1) = false ∧ start.damaged off = false ∧
    ((frame.at grid off).blank = true → (start.cells off).ch = idOverflow)

/-- The wide glyph on the left was drawn once more. -/
structure Redrawn (frame : Frame) (start : Bbulk) (off : ℕ) (bb : Bbulk) (canvas : Canvas) :
    Prop where
  cell : bb.cells off = start.cells off
  damaged : bb.damaged off = start.damaged off
  stale : start.damaged off = true
  left : start.cells (off - 1) = frame.at grid (off - 1) ∧ bb.damaged (off - 1) = false
  shows : Shows grid glyphs canvas off (off - 1) (frame.at grid (off - 1))

/-- A new wide glyph was drawn on the left. -/
structure Covered (frame : Frame) (off : ℕ) (bb : Bbulk) (canvas : Canvas) : Prop where
  cell : (bb.cells off).ch = idDamaged
  damaged : bb.damaged off = true
  shows : Shows grid glyphs canvas off (off - 1) (frame.at grid (off - 1))

/-- The cells before `off` of a frame have been drawn. -/
structure Upto (frame : Frame) (start : Bbulk) (front back : Canvas) (off : ℕ)
    (st : Bbulk × Canvas) : Prop where
  normal : ∀ i < off, (frame.at grid i).Normal
  spilled : ∀ i < off, spills grid glyphs frame i = true →
    (st.1.cells i).ch = idOverflow ∧ st.1.doubleWidth i = start.doubleWidth i
  own : ∀ i < off, spills grid glyphs frame i = false →
    st.1.cells i = frame.at grid i ∧ st.1.doubleWidth i = wide glyphs (frame.at grid i)
  shows : ∀ i < off, Displays grid glyphs st.2 frame i
  front : ∀ i < off, st.1.damaged i = false → Displays grid glyphs front frame i
  next : ∀ i, i + 1 < off → LeftWide grid glyphs frame (i + 1) → st.1.damaged i = true →
    st.1.damaged (i + 1) = true
  stale : ∀ i < off, (start.cells i).ch = idDamaged → st.1.damaged i = true
  width : ∀ i < grid.size, off ≤ i → st.1.doubleWidth i = start.doubleWidth i
  later : ∀ i < grid.size, off < i → st.1.cells i = start.cells i ∧
    st.1.damaged i = start.damaged i ∧ SameAt grid back st.2 i
  here : off < grid.size → Untouched grid glyphs frame start back off st.1 st.2 ∨
    LeftWide grid glyphs frame off ∧ (Redrawn grid glyphs frame start off st.1 st.2 ∨
      Covered grid glyphs frame off st.1 st.2)

/-- The condition on drawing one cell. Its character is not one of the two marks. A cell
is not left to a neighbour that is itself left to another one. And a wide glyph that is
not drawn again has already been on the screen together with the blank on its right. -/
def CellMeets (frame : Frame) (st : Bbulk × Canvas) (pos : ℕ × ℕ) : Prop :=
  let cols := grid.txt.cols
  let off := pos.1 + pos.2 * cols
  let cell := frame.cellAt cols pos.1 pos.2
  let lastCol : Bool := pos.1 + 1 = cols
  cell.Normal ∧
    (st.1.overflows cell pos.1 off = true → (st.1.cells (off - 1)).ch ≠ idOverflow) ∧
    (st.1.overflows cell pos.1 off = false → st.1.skips cell lastCol off = true →
      st.1.doubleWidth off = true → lastCol = false →
      (frame.cellAt cols (pos.1 + 1) pos.2).blank = true → (st.1.cells (off + 1)).ch = idOverflow)

instance (frame : Frame) (st : Bbulk × Canvas) (pos : ℕ × ℕ) :
    Decidable (CellMeets grid frame st pos) :=
  inferInstanceAs (Decidable (_ ∧ _))

variable {grid glyphs} {frame : Frame} {start : Bbulk} {front back : Canvas} {off : ℕ}
  {st : Bbulk × Canvas}

theorem spills_iff : spills grid glyphs frame off = true ↔
    LeftWide grid glyphs frame off ∧ (frame.at grid off).blank = true := by
  cases off with
  | zero => simp [spills, LeftWide]
  | succ off =>
    simp only [spills, LeftWide, Bool.and_eq_true, decide_eq_true_eq, Bool.not_eq_true',
      Nat.add_sub_cancel]
    tauto

/-- A cell that is left to its neighbour is no wide cell. -/
theorem not_leftWide_of_spills (h : spills grid glyphs frame off = true) :
    ¬ LeftWide grid glyphs frame (off + 1) := by
  rintro ⟨-, hown, -⟩
  simp [h] at hown

theorem SameAt.refl (canvas : Canvas) (off : ℕ) : SameAt grid canvas canvas off :=
  fun _ _ _ => rfl

theorem SameAt.trans {canvas canvas' canvas'' : Canvas} (h : SameAt grid canvas canvas' off)
    (h' : SameAt grid canvas' canvas'' off) : SameAt grid canvas canvas'' off :=
  fun px py hpixel => (h' px py hpixel).trans (h px py hpixel)

theorem SameAt.displays {canvas canvas' : Canvas} (h : SameAt grid canvas canvas' off)
    (hdisplays : Displays grid glyphs canvas frame off) :
    Displays grid glyphs canvas' frame off := by
  unfold Displays at *
  split_ifs at * <;> exact h.shows hdisplays

theorem Believes.shows {canvas : Canvas} {bb : Bbulk} (h : Believes grid glyphs canvas bb off)
    (hch : (bb.cells off).ch ≠ idOverflow) :
    Shows grid glyphs canvas off off (bb.cells off) := by
  rwa [Believes, if_neg hch] at h

theorem Believes.shows_left {canvas : Canvas} {bb : Bbulk}
    (h : Believes grid glyphs canvas bb off) (hch : (bb.cells off).ch = idOverflow)
    (hleft : (bb.cells (off - 1)).ch ≠ idDamaged) :
    Shows grid glyphs canvas off (off - 1) (bb.cells (off - 1)) := by
  rw [Believes, if_pos hch] at h
  exact h hleft

/-- The condition by the number of the cell. -/
theorem cellMeets_iff (hoff : off < grid.size) :
    CellMeets grid frame st (off % grid.txt.cols, off / grid.txt.cols) ↔
      (frame.at grid off).Normal ∧
        (st.1.overflows (frame.at grid off) (off % grid.txt.cols) off = true →
          (st.1.cells (off - 1)).ch ≠ idOverflow) ∧
        (st.1.overflows (frame.at grid off) (off % grid.txt.cols) off = false →
          st.1.skips (frame.at grid off) (grid.lastCol off) off = true →
          st.1.doubleWidth off = true → grid.lastCol off = false →
          (frame.at grid (off + 1)).blank = true → (st.1.cells (off + 1)).ch = idOverflow) := by
  have hnum : off % grid.txt.cols + off / grid.txt.cols * grid.txt.cols = off :=
    Nat.mod_add_div' off grid.txt.cols
  have hnext (hlast : grid.lastCol off = false) :
      frame.cellAt grid.txt.cols (off % grid.txt.cols + 1) (off / grid.txt.cols) =
        frame.at grid (off + 1) := by
    obtain ⟨hposx, hposy⟩ := next_place hoff hlast
    rw [Frame.at, hposx, hposy]
  simp only [CellMeets, hnum]
  refine and_congr_right fun _ => and_congr_right fun _ => ?_
  refine forall₃_congr fun _ _ _ => forall_congr' fun hlast => ?_
  rw [hnext hlast]

theorem upto_zero (start : Bbulk) (front back : Canvas) (frame : Frame) :
    Upto grid glyphs frame start front back 0 (start, back) where
  normal i hi := absurd hi (Nat.not_lt_zero i)
  spilled i hi := absurd hi (Nat.not_lt_zero i)
  own i hi := absurd hi (Nat.not_lt_zero i)
  shows i hi := absurd hi (Nat.not_lt_zero i)
  front i hi := absurd hi (Nat.not_lt_zero i)
  next _ hi := absurd hi (Nat.not_lt_zero _)
  stale i hi := absurd hi (Nat.not_lt_zero i)
  width _ _ _ := rfl
  later _ _ _ := ⟨rfl, rfl, .refl back _⟩
  here _ := .inl ⟨rfl, rfl, .refl back 0, fun h => absurd (Nat.zero_mod _) h.1⟩

/-! ## One cell -/

theorem skips_iff {bb : Bbulk} {cell : Cell} {lastCol : Bool} :
    bb.skips cell lastCol off = true ↔ bb.cells off = cell ∧ bb.damaged off = false ∧
      ¬ (bb.doubleWidth off = true ∧ lastCol = false ∧ bb.damaged (off + 1) = true) := by
  unfold Bbulk.skips
  cases bb.doubleWidth off <;> cases lastCol <;> simp [and_assoc]

/-- A stale cell in the other buffer has its mark, as long as the glyph on the left has. -/
theorem Upto.left_quiet (h : Upto grid glyphs frame start front back off st)
    (hoff : off < grid.size) (hleft : LeftWide grid glyphs frame off)
    (hch : (st.1.cells off).ch ≠ idDamaged) : st.1.damaged (off - 1) = false := by
  rcases h.here hoff with hunt | ⟨-, hred | hcov⟩
  · exact (hunt.left hleft).2.1
  · exact hred.left.2
  · exact absurd hcov.cell hch

/-- A stale cell has kept its mark when its turn comes. -/
theorem Upto.here_stale (h : Upto grid glyphs frame start front back off st)
    (hoff : off < grid.size) (hch : (start.cells off).ch = idDamaged) :
    (st.1.cells off).ch = idDamaged := by
  rcases h.here hoff with hunt | ⟨-, hred | hcov⟩
  · rw [hunt.cell, hch]
  · rw [hred.cell, hch]
  · exact hcov.cell

theorem Upto.normal_succ (h : Upto grid glyphs frame start front back off st)
    (hnormal : (frame.at grid off).Normal) : ∀ i < off + 1, (frame.at grid i).Normal := by
  intro i hi
  rcases Nat.lt_succ_iff_lt_or_eq.mp hi with hlt | rfl
  · exact h.normal i hlt
  · exact hnormal

/-- The cell is left to the wide glyph on its left. -/
theorem Upto.overflow (h : Upto grid glyphs frame start front back off st)
    (htracks : Tracks grid glyphs start front back) (hoff : off < grid.size)
    (hleft : LeftWide grid glyphs frame off) (hnormal : (frame.at grid off).Normal)
    (hblank : (frame.at grid off).blank = true) :
    Upto grid glyphs frame start front back (off + 1) (st.1.overflowCell off, st.2) := by
  have hspills : spills grid glyphs frame off = true := spills_iff.mpr ⟨hleft, hblank⟩
  have hkeep {i : ℕ} (hne : i ≠ off) := st.1.overflowCell_of_ne off hne
  have hwidth := st.1.doubleWidth_overflowCell off
  have hpos : off ≠ 0 := fun hzero => hleft.1 (by rw [hzero, Nat.zero_mod])
  have hleftNormal : (frame.at grid (off - 1)).Normal := h.normal (off - 1) (by omega)
  -- the glyph on the left is in place: drawn just now, or kept with its right half
  have hshown : Shows grid glyphs st.2 off (off - 1) (frame.at grid (off - 1)) := by
    rcases h.here hoff with hunt | ⟨-, hred | hcov⟩
    · obtain ⟨hcell, -, hquiet, hover⟩ := hunt.left hleft
      have hback := (htracks.back off hoff hquiet).shows_left (hover hblank)
        (hcell ▸ hleftNormal.1)
      rw [hcell] at hback
      exact hunt.same.shows hback
    · exact hred.shows
    · exact hcov.shows
  have hother (hch : (st.1.cells off).ch = idOverflow) :
      Shows grid glyphs front off (off - 1) (frame.at grid (off - 1)) := by
    have hstart : start.cells off = st.1.cells off ∧
        start.cells (off - 1) = frame.at grid (off - 1) := by
      rcases h.here hoff with hunt | ⟨-, hred | hcov⟩
      · exact ⟨hunt.cell.symm, (hunt.left hleft).1⟩
      · exact ⟨hred.cell.symm, hred.left.1⟩
      · exact absurd (hcov.cell.symm.trans hch) (by decide)
    rw [← hstart.1] at hch
    have hfront := (htracks.front off hoff (by rw [hch]; decide)).shows_left hch
      (hstart.2 ▸ hleftNormal.1)
    rwa [hstart.2] at hfront
  refine ⟨h.normal_succ hnormal, fun i hi hsp => ?_, fun i hi hsp => ?_, fun i hi => ?_,
    fun i hi hdam => ?_, fun i hi hwide hdam => ?_, fun i hi hch => ?_, fun i hi hle => ?_,
    fun i hi hlt => ?_, fun hnext => .inl ?_⟩
  · rcases Nat.lt_succ_iff_lt_or_eq.mp hi with hlt | rfl
    · rw [(hkeep hlt.ne).1, hwidth]
      exact h.spilled i hlt hsp
    · exact ⟨st.1.ch_overflowCell i, hwidth ▸ h.width i hoff (le_refl i)⟩
  · rcases Nat.lt_succ_iff_lt_or_eq.mp hi with hlt | rfl
    · rw [(hkeep hlt.ne).1, hwidth]
      exact h.own i hlt hsp
    · simp [hspills] at hsp
  · rcases Nat.lt_succ_iff_lt_or_eq.mp hi with hlt | rfl
    · exact h.shows i hlt
    · rw [Displays, if_pos hspills]
      exact hshown
  · rcases Nat.lt_succ_iff_lt_or_eq.mp hi with hlt | rfl
    · rw [(hkeep hlt.ne).2] at hdam
      exact h.front i hlt hdam
    · rw [Displays, if_pos hspills]
      refine hother ?_
      simpa [st.1.damaged_overflowCell i] using hdam
  · rcases Nat.lt_succ_iff_lt_or_eq.mp hi with hlt | rfl
    · rw [(hkeep (by omega)).2] at hdam ⊢
      exact h.next i hlt hwide hdam
    · rw [(hkeep (by omega)).2] at hdam
      rw [st.1.damaged_overflowCell, decide_eq_true_eq]
      intro hch
      have hquiet : st.1.damaged i = false := h.left_quiet hoff hwide (by rw [hch]; decide)
      simp [hquiet] at hdam
  · rcases Nat.lt_succ_iff_lt_or_eq.mp hi with hlt | rfl
    · rw [(hkeep hlt.ne).2]
      exact h.stale i hlt hch
    · rw [st.1.damaged_overflowCell, h.here_stale hoff hch]
      rfl
  · rw [hwidth]
    exact h.width i hi (by omega)
  · rw [(hkeep (by omega)).1, (hkeep (by omega)).2]
    exact h.later i hi (by omega)
  · obtain ⟨hcell, hdamaged, hsame⟩ := h.later (off + 1) hnext (by omega)
    refine ⟨?_, ?_, hsame, fun hwide => absurd hwide (not_leftWide_of_spills hspills)⟩
    · rw [(hkeep (by omega)).1]
      exact hcell
    · rw [(hkeep (by omega)).2]
      exact hdamaged

/-- The cell is on both buffers and not drawn. -/
theorem Upto.skip (h : Upto grid glyphs frame start front back off st)
    (htracks : Tracks grid glyphs start front back) (hoff : off < grid.size)
    (hspills : spills grid glyphs frame off = false) (hnormal : (frame.at grid off).Normal)
    (hskips : st.1.skips (frame.at grid off) (grid.lastCol off) off = true)
    (hmeets : st.1.doubleWidth off = true → grid.lastCol off = false →
      (frame.at grid (off + 1)).blank = true → (st.1.cells (off + 1)).ch = idOverflow) :
    Upto grid glyphs frame start front back (off + 1) st := by
  obtain ⟨hcell, hquiet, hright⟩ := skips_iff.mp hskips
  have hunt : Untouched grid glyphs frame start back off st.1 st.2 := by
    rcases h.here hoff with hunt | ⟨-, hred | hcov⟩
    · exact hunt
    · simp [hred.damaged, hred.stale] at hquiet
    · simp [hcov.damaged] at hquiet
  have hstart : start.cells off = frame.at grid off := hunt.cell.symm.trans hcell
  have hdamaged : start.damaged off = false := hunt.damaged.symm.trans hquiet
  have hwidth : st.1.doubleWidth off = wide glyphs (frame.at grid off) := by
    rw [h.width off hoff (le_refl off), htracks.width off hoff (hstart ▸ hnormal), hstart]
  have hback := (htracks.back off hoff hdamaged).shows (hstart ▸ hnormal.2)
  have hfront := (htracks.front off hoff (hstart ▸ hnormal.1)).shows (hstart ▸ hnormal.2)
  rw [hstart] at hback hfront
  refine ⟨h.normal_succ hnormal, fun i hi hsp => ?_, fun i hi hsp => ?_, fun i hi => ?_,
    fun i hi hdam => ?_, fun i hi hwide hdam => ?_, fun i hi hch => ?_,
    fun i hi hle => h.width i hi (by omega), fun i hi hlt => h.later i hi (by omega),
    fun hnext => .inl ?_⟩
  · rcases Nat.lt_succ_iff_lt_or_eq.mp hi with hlt | rfl
    · exact h.spilled i hlt hsp
    · simp [hspills] at hsp
  · rcases Nat.lt_succ_iff_lt_or_eq.mp hi with hlt | rfl
    · exact h.own i hlt hsp
    · exact ⟨hcell, hwidth⟩
  · rcases Nat.lt_succ_iff_lt_or_eq.mp hi with hlt | rfl
    · exact h.shows i hlt
    · rw [Displays, if_neg (by simp [hspills])]
      exact hunt.same.shows hback
  · rcases Nat.lt_succ_iff_lt_or_eq.mp hi with hlt | rfl
    · exact h.front i hlt hdam
    · rw [Displays, if_neg (by simp [hspills])]
      exact hfront
  · rcases Nat.lt_succ_iff_lt_or_eq.mp hi with hlt | rfl
    · exact h.next i hlt hwide hdam
    · have hleft : st.1.damaged i = false :=
        h.left_quiet hoff hwide (by rw [hcell]; exact hnormal.1)
      simp [hleft] at hdam
  · rcases Nat.lt_succ_iff_lt_or_eq.mp hi with hlt | rfl
    · exact h.stale i hlt hch
    · exact absurd (hstart ▸ hch) hnormal.1
  · obtain ⟨hcell', hdamaged', hsame⟩ := h.later (off + 1) hnext (by omega)
    refine ⟨hcell', hdamaged', hsame, fun hwide => ⟨hstart, hquiet, ?_, fun hblank => ?_⟩⟩
    · have hlast : grid.lastCol off = false := by
        rw [← Bool.not_eq_true, lastCol_iff hoff]
        exact hwide.1
      rw [← hdamaged', ← Bool.not_eq_true]
      exact fun hdam => hright ⟨hwidth.trans hwide.2.2, hlast, hdam⟩
    · have hlast : grid.lastCol off = false := by
        rw [← Bool.not_eq_true, lastCol_iff hoff]
        exact hwide.1
      rw [← hcell']
      exact hmeets (hwidth.trans hwide.2.2) hlast hblank

/-- The cell is drawn. -/
theorem Upto.draw (hroom : grid.HasRoom) (h : Upto grid glyphs frame start front back off st)
    (htracks : Tracks grid glyphs start front back) (hoff : off < grid.size)
    (hspills : spills grid glyphs frame off = false) (hnormal : (frame.at grid off).Normal)
    (hskips : st.1.skips (frame.at grid off) (grid.lastCol off) off = false) :
    Upto grid glyphs frame start front back (off + 1)
      (st.1.trackCell glyphs (frame.at grid off) (grid.lastCol off) off,
        drawGlyph grid glyphs (frame.at grid off) off st.2) := by
  let bb := st.1.trackCell glyphs (frame.at grid off) (grid.lastCol off) off
  have hkeep {i : ℕ} (hne : i ≠ off) (hnext : i ≠ off + 1) :
      bb.cells i = st.1.cells i ∧ bb.damaged i = st.1.damaged i :=
    st.1.trackCell_of_ne _ _ off hne fun heq => absurd heq hnext
  let canvas := drawGlyph grid glyphs (frame.at grid off) off st.2
  have hsame {i : ℕ} (hi : i < grid.size) (hne : i ≠ off) (hnext : i ≠ off + 1) :
      SameAt grid st.2 canvas i :=
    sameAt_drawGlyph hroom hoff hi hne (fun heq => absurd heq hnext) st.2
  have hcell : bb.cells off = frame.at grid off := st.1.cells_trackCell_self _ _ off
  have hdamaged : bb.damaged off = decide (st.1.cells off ≠ frame.at grid off) :=
    st.1.damaged_trackCell_self _ _ off
  have hwidth (i : ℕ) : bb.doubleWidth i =
      if i = off then wide glyphs (frame.at grid off) else st.1.doubleWidth i :=
    st.1.doubleWidth_trackCell _ _ off i
  have hown : Displays grid glyphs canvas frame off := by
    rw [Displays, if_neg (by simp [hspills])]
    exact shows_drawGlyph hroom hoff _ _
  -- a cell that has not changed is what was noted before the frame
  have hunchanged (hsame : st.1.cells off = frame.at grid off) :
      start.cells off = frame.at grid off ∧ start.damaged off = st.1.damaged off := by
    rcases h.here hoff with hunt | ⟨-, hred | hcov⟩
    · exact ⟨hunt.cell.symm.trans hsame, hunt.damaged.symm⟩
    · exact ⟨hred.cell.symm.trans hsame, hred.damaged.symm⟩
    · exact absurd (hsame ▸ hcov.cell) hnormal.1
  refine ⟨h.normal_succ hnormal, fun i hi hsp => ?_, fun i hi hsp => ?_, fun i hi => ?_,
    fun i hi hdam => ?_, fun i hi hwide hdam => ?_, fun i hi hch => ?_, fun i hi hle => ?_,
    fun i hi hlt => ?_, fun hnext => ?_⟩
  · rcases Nat.lt_succ_iff_lt_or_eq.mp hi with hlt | rfl
    · change (bb.cells i).ch = _ ∧ bb.doubleWidth i = _
      rw [(hkeep hlt.ne (by omega)).1, hwidth, if_neg hlt.ne]
      exact h.spilled i hlt hsp
    · simp [hspills] at hsp
  · change bb.cells i = _ ∧ bb.doubleWidth i = _
    rcases Nat.lt_succ_iff_lt_or_eq.mp hi with hlt | rfl
    · rw [(hkeep hlt.ne (by omega)).1, hwidth, if_neg hlt.ne]
      exact h.own i hlt hsp
    · exact ⟨hcell, by rw [hwidth, if_pos rfl]⟩
  · rcases Nat.lt_succ_iff_lt_or_eq.mp hi with hlt | rfl
    · exact (hsame (by omega) hlt.ne (by omega)).displays (h.shows i hlt)
    · exact hown
  · change bb.damaged i = false at hdam
    rcases Nat.lt_succ_iff_lt_or_eq.mp hi with hlt | rfl
    · rw [(hkeep hlt.ne (by omega)).2] at hdam
      exact h.front i hlt hdam
    · rw [hdamaged, decide_eq_false_iff_not, not_not] at hdam
      have hstart := (hunchanged hdam).1
      have hfront := (htracks.front i hoff (hstart ▸ hnormal.1)).shows (hstart ▸ hnormal.2)
      rw [hstart] at hfront
      rw [Displays, if_neg (by simp [hspills])]
      exact hfront
  · change bb.damaged i = true at hdam
    change bb.damaged (i + 1) = true
    rcases Nat.lt_succ_iff_lt_or_eq.mp hi with hlt | rfl
    · rw [(hkeep (by omega) (by omega)).2] at hdam ⊢
      exact h.next i hlt hwide hdam
    · rw [(hkeep (by omega) (by omega)).2] at hdam
      rw [hdamaged, decide_eq_true_eq]
      intro hsame
      have hquiet : st.1.damaged i = false := h.left_quiet hoff hwide (hsame ▸ hnormal.1)
      simp [hquiet] at hdam
  · change bb.damaged i = true
    rcases Nat.lt_succ_iff_lt_or_eq.mp hi with hlt | rfl
    · rw [(hkeep hlt.ne (by omega)).2]
      exact h.stale i hlt hch
    · rw [hdamaged, decide_eq_true_eq]
      exact fun hsame => hnormal.1 (hsame ▸ h.here_stale hoff hch)
  · change bb.doubleWidth i = _
    rw [hwidth, if_neg (by omega)]
    exact h.width i hi (by omega)
  · change bb.cells i = _ ∧ bb.damaged i = _ ∧ _
    obtain ⟨hcell', hdamaged', hsame'⟩ := h.later i hi (by omega)
    rw [(hkeep (by omega) (by omega)).1, (hkeep (by omega) (by omega)).2]
    exact ⟨hcell', hdamaged', hsame'.trans (hsame hi (by omega) (by omega))⟩
  · obtain ⟨hcell', hdamaged', hsame'⟩ := h.later (off + 1) hnext (by omega)
    by_cases hreach : wide glyphs (frame.at grid off) = true ∧ grid.lastCol off = false
    · have hleft : LeftWide grid glyphs frame (off + 1) := by
        refine ⟨?_, hspills, hreach.1⟩
        rw [Ne, ← lastCol_iff hoff]
        simp [hreach.2]
      have hshown := shows_drawGlyph_next hroom hoff hreach.1 hreach.2 st.2
      refine .inr ⟨hleft, ?_⟩
      by_cases hchanged : st.1.cells off = frame.at grid off
      · -- drawn because it or its right half was stale
        obtain ⟨hstart, hstale⟩ := hunchanged hchanged
        have hstay : bb.cells (off + 1) = st.1.cells (off + 1) ∧
            bb.damaged (off + 1) = st.1.damaged (off + 1) :=
          st.1.trackCell_of_ne _ _ off (Nat.succ_ne_self off) fun _ hr => hr.2.2 hchanged
        have hright : start.damaged (off + 1) = true := by
          by_contra hquiet
          have hno : start.damaged off = false := by
            rw [← Bool.not_eq_true]
            exact fun hdam => hquiet (htracks.next off hoff (hstart ▸ hnormal)
              (hstart ▸ hreach.1) hreach.2 hdam)
          rw [← Bool.not_eq_true, skips_iff] at hskips
          refine hskips ⟨hchanged, hstale ▸ hno, fun hright => hquiet ?_⟩
          exact hdamaged' ▸ hright.2.2
        refine .inl ⟨hstay.1.trans hcell', hstay.2.trans hdamaged', hright, ⟨hstart, ?_⟩, hshown⟩
        change bb.damaged off = false
        rw [hdamaged]
        simp [hchanged]
      · have hmark : (bb.cells (off + 1)).ch = idDamaged ∧ bb.damaged (off + 1) = true :=
          st.1.trackCell_next _ _ off ⟨hreach.1, hreach.2, hchanged⟩
        exact .inr ⟨hmark.1, hmark.2, hshown⟩
    · have hstay : bb.cells (off + 1) = st.1.cells (off + 1) ∧
          bb.damaged (off + 1) = st.1.damaged (off + 1) :=
        st.1.trackCell_of_ne _ _ off (Nat.succ_ne_self off) fun _ hr => hreach ⟨hr.1, hr.2.1⟩
      have hsame'' : SameAt grid st.2 canvas (off + 1) :=
        sameAt_drawGlyph hroom hoff hnext (Nat.succ_ne_self off) (fun _ => hreach) st.2
      refine .inl ⟨hstay.1.trans hcell', hstay.2.trans hdamaged', hsame'.trans hsame'', ?_⟩
      intro hwide
      refine absurd ⟨hwide.2.2, ?_⟩ hreach
      rw [← Bool.not_eq_true, lastCol_iff hoff]
      exact hwide.1

end Faceplate.Render
