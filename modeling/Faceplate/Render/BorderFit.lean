import Faceplate.Render.Layout

/-!
# When the border arithmetic holds

`bbulk_set` and `gltex_set` leave room for the chrome only where a display is large, while
`compute_border` and `compute_advance_and_offset` subtract the chrome from every display.
Here the subtractions are checked, for each renderer, orientation and size of display.
-/

namespace Faceplate.Render

/-- The two text renderers. -/
inductive Renderer where
  | bbulk
  | gltex
  deriving DecidableEq, Repr

/-- The columns of padding that a renderer counts. -/
def Renderer.padCols : Renderer → ℕ
  | .bbulk => 2 * chromePadCols
  | .gltex => 0

/-- A subtraction of two `unsigned int` that must not wrap around. -/
def checkedSub (a b : ℕ) : Option ℕ := if b ≤ a then some (a - b) else none

/-- `compute_border`, where no subtraction wraps around. -/
def computeBorderChecked (txt : Text) (font : Font) (sw sh : ℕ) : Option Border :=
  if txt.orientation.upright then
    let cardCols := txt.cols + 2 * chromePadCols
    let contentH := wrap ((txt.rows + chromeTopRows + chromeBottomRows) * font.height)
    (checkedSub sw (wrap (cardCols * font.width))).bind fun freeW =>
      let offX := freeW / 2
      (if contentH < sh then
        (checkedSub sh contentH).map fun freeH => topBias freeH font.height
      else some 0).map fun offY =>
        ⟨offX, offY, wrap (offX + cardCols * font.width), wrap (offY + contentH)⟩
  else
    (checkedSub sw (wrap ((txt.rows + 2) * font.height))).bind fun freeW =>
      (checkedSub sh (wrap (txt.cols * font.width))).map fun freeH =>
        ⟨freeW / 2, freeH / 2, wrap (freeW / 2 + txt.rows * font.height),
          wrap (freeH / 2 + txt.cols * font.width)⟩

/-- `off_x` and `off_y` in `compute_advance_and_offset`, where no subtraction wraps
around. -/
def computeAdvanceAndOffsetChecked (txt : Text) (font : Font) (sw sh : ℕ) : Option (ℕ × ℕ) :=
  if txt.orientation.upright then
    (checkedSub sw (wrap (txt.cols * font.width))).bind fun freeW =>
      (checkedSub sh (wrap ((txt.rows + chromeTopRows + chromeBottomRows) * font.height))).map
        fun freeH => (freeW / 2, freeH / 2)
  else
    (checkedSub sw (wrap ((txt.rows + 2) * font.height))).bind fun freeW =>
      (checkedSub sh (wrap (txt.cols * font.width))).map fun freeH => (freeW / 2, freeH / 2)

/-- The cells that a renderer makes room for, across the display and down: those of the
text with the padding and the reserved rows. -/
def cardCells (renderer : Renderer) (txt : Text) : ℕ × ℕ :=
  if txt.orientation.upright then
    (txt.cols + renderer.padCols, txt.rows + chromeTopRows + chromeBottomRows)
  else (txt.rows + 2, txt.cols)

/-- The size of a cell on the display. -/
def cellSize (txt : Text) (font : Font) : ℕ × ℕ :=
  if txt.orientation.upright then (font.width, font.height) else (font.height, font.width)

/-- No subtraction of the renderer wraps around, and the card fits on the display. -/
def BorderFits (renderer : Renderer) (txt : Text) (font : Font) (sw sh : ℕ) : Prop :=
  (match renderer with
    | .bbulk => (computeBorderChecked txt font sw sh).isSome
    | .gltex => (computeAdvanceAndOffsetChecked txt font sw sh).isSome) = true ∧
  (cardCells renderer txt).1 * (cellSize txt font).1 ≤ sw ∧
  (cardCells renderer txt).2 * (cellSize txt font).2 ≤ sh

/-- A display and a font with which the largest text has a cell. -/
structure Screen where
  orientation : Orientation
  font : Font
  sw : ℕ
  sh : ℕ
  sw_lt : sw < 4294967296
  sh_lt : sh < 4294967296
  width_le : 0 < font.width ∧ font.width ≤ if orientation.upright then sw else sh
  height_le : 0 < font.height ∧ font.height ≤ if orientation.upright then sh else sw

namespace Screen

variable (screen : Screen)

/-- The largest text, which `bbulk_set` and `gltex_set` compute. -/
def largest : Text := Text.measure ⟨screen.orientation, 0, 0, 0, 0⟩ screen.font screen.sw screen.sh

/-- A text of this size. -/
def text (cols rows : ℕ) : Text := { screen.largest with cols := cols, rows := rows }

/-- The border fits for every text up to the largest one. -/
def BordersFit (renderer : Renderer) : Prop :=
  ∀ cols ≤ screen.largest.maxCols, ∀ rows ≤ screen.largest.maxRows,
    BorderFits renderer (screen.text cols rows) screen.font screen.sw screen.sh

/-- The display is large enough for `bbulk_set` and `gltex_set` to take the room away that
the border adds. -/
def HasChromeRoom (renderer : Renderer) : Prop :=
  if screen.orientation.upright then
    (renderer = .bbulk → chromeHorizontalCells + 2 * chromePadCols < screen.sw / screen.font.width) ∧
      chromeTopRows + chromeBottomRows + chromeSafeMarginRows < screen.sh / screen.font.height
  else chromeTopRows + chromeBottomRows + chromeSafeMarginRows < screen.sw / screen.font.height

end Screen

/-! ## Room for the chrome -/

/-- What was taken away can be added again. -/
theorem besideChrome_add_mul_le {pixels size chrome cells : ℕ} (extra : ℕ)
    (hlarge : chrome < pixels / size) (hextra : extra ≤ chrome)
    (hcells : cells ≤ besideChrome (pixels / size) chrome) : (cells + extra) * size ≤ pixels := by
  refine le_trans (Nat.mul_le_mul_right size ?_) (Nat.div_mul_le_self pixels size)
  unfold besideChrome at hcells
  rw [if_pos hlarge] at hcells
  omega

/-- What was not taken away is too much. -/
theorem lt_besideChrome_add_mul {pixels size chrome : ℕ} (extra : ℕ) (hsize : 0 < size)
    (hsmall : ¬ chrome < pixels / size) (hextra : 0 < extra) :
    pixels < (besideChrome (pixels / size) chrome + extra) * size := by
  have hlt := Nat.lt_mul_div_succ pixels hsize
  rw [besideChrome, if_neg hsmall, Nat.mul_comm]
  refine hlt.trans_le (Nat.mul_le_mul_left size ?_)
  omega

theorem checkedSub_isSome {a b : ℕ} (h : b ≤ a) : checkedSub a b = some (a - b) := if_pos h

/-- Where a card fits, its subtractions do not wrap around. -/
theorem borderFits_of_card {renderer : Renderer} {txt : Text} {font : Font} {sw sh : ℕ}
    (hsw : sw < 4294967296) (hsh : sh < 4294967296)
    (hwidth : (cardCells renderer txt).1 * (cellSize txt font).1 ≤ sw)
    (hheight : (cardCells renderer txt).2 * (cellSize txt font).2 ≤ sh) :
    BorderFits renderer txt font sw sh := by
  refine ⟨?_, hwidth, hheight⟩
  unfold cardCells cellSize at hwidth hheight
  cases hup : txt.orientation.upright <;> cases renderer <;>
    simp only [hup, Bool.false_eq_true, if_true, if_false, Renderer.padCols, Nat.add_zero]
      at hwidth hheight
  · simp only [computeBorderChecked, hup, Bool.false_eq_true, if_false]
    rw [wrap_of_lt (hwidth.trans_lt hsw), wrap_of_lt (hheight.trans_lt hsh),
      checkedSub_isSome hwidth, checkedSub_isSome hheight]
    rfl
  · simp only [computeAdvanceAndOffsetChecked, hup, Bool.false_eq_true, if_false]
    rw [wrap_of_lt (hwidth.trans_lt hsw), wrap_of_lt (hheight.trans_lt hsh),
      checkedSub_isSome hwidth, checkedSub_isSome hheight]
    rfl
  · simp only [computeBorderChecked, hup, if_true]
    rw [wrap_of_lt (hwidth.trans_lt hsw), wrap_of_lt (hheight.trans_lt hsh),
      checkedSub_isSome hwidth, checkedSub_isSome hheight]
    split_ifs <;> rfl
  · simp only [computeAdvanceAndOffsetChecked, hup, if_true]
    rw [wrap_of_lt (hwidth.trans_lt hsw), wrap_of_lt (hheight.trans_lt hsh),
      checkedSub_isSome hwidth, checkedSub_isSome hheight]
    rfl

/-- The border that does not wrap around is the border. -/
theorem computeBorder_of_checked {txt : Text} {font : Font} {sw sh : ℕ} {border : Border}
    (hsw : sw < 4294967296) (hsh : sh < 4294967296)
    (h : computeBorderChecked txt font sw sh = some border) :
    computeBorder txt font sw sh = border := by
  have hsub {a b : ℕ} (ha : a < 4294967296) {v : ℕ} (hv : checkedSub a (wrap b) = some v) :
      wrapSub a b = v := by
    unfold checkedSub at hv
    split_ifs at hv with hle
    rw [← Option.some.inj hv]
    unfold wrapSub wrap at *
    omega
  unfold computeBorderChecked at h
  unfold computeBorder
  split_ifs at h ⊢ with hup
  · obtain ⟨freeW, hfreeW, h⟩ := Option.bind_eq_some_iff.mp h
    obtain ⟨offY, hoffY, h⟩ := Option.map_eq_some_iff.mp h
    have hbias : (if wrap ((txt.rows + chromeTopRows + chromeBottomRows) * font.height) < sh then
        topBias (sh - wrap ((txt.rows + chromeTopRows + chromeBottomRows) * font.height))
          font.height else 0) = offY := by
      split_ifs at hoffY ⊢ with hlt
      · rw [checkedSub_isSome hlt.le] at hoffY
        exact Option.some.inj hoffY
      · exact Option.some.inj hoffY
    simp only [hsub hsw hfreeW, hbias]
    exact h
  · obtain ⟨freeW, hfreeW, h⟩ := Option.bind_eq_some_iff.mp h
    obtain ⟨freeH, hfreeH, h⟩ := Option.map_eq_some_iff.mp h
    simp only [hsub hsw hfreeW, hsub hsh hfreeH]
    exact h

namespace Screen

variable {screen : Screen} {renderer : Renderer}

/-- On a large display the card of every text fits. -/
theorem card_le (hroom : screen.HasChromeRoom renderer) {cols rows : ℕ}
    (hcols : cols ≤ screen.largest.maxCols) (hrows : rows ≤ screen.largest.maxRows) :
    (cardCells renderer (screen.text cols rows)).1 *
        (cellSize (screen.text cols rows) screen.font).1 ≤ screen.sw ∧
      (cardCells renderer (screen.text cols rows)).2 *
        (cellSize (screen.text cols rows) screen.font).2 ≤ screen.sh := by
  unfold HasChromeRoom at hroom
  simp only [largest, Text.measure] at hcols hrows
  simp only [cardCells, cellSize, text, largest, Text.measure]
  rcases Bool.eq_false_or_eq_true screen.orientation.upright with hup | hup <;>
    simp only [hup, Bool.false_eq_true, if_true, if_false] at hroom hcols hrows ⊢
  · constructor
    · cases renderer with
      | bbulk => exact besideChrome_add_mul_le _ (hroom.1 rfl) (by decide) hcols
      | gltex => exact (Nat.mul_le_mul_right _ hcols).trans (besideChrome_mul_le _ _ _)
    · exact besideChrome_add_mul_le (chromeTopRows + chromeBottomRows) hroom.2 (by decide)
        hrows
  · exact ⟨besideChrome_add_mul_le _ hroom (by decide) hrows,
      (Nat.mul_le_mul_right _ hcols).trans (besideChrome_mul_le _ _ _)⟩

/-- On a small display the card of the largest text does not. -/
theorem hasChromeRoom_of_bordersFit (h : screen.BordersFit renderer) :
    screen.HasChromeRoom renderer := by
  obtain ⟨-, hwidth, hheight⟩ := h _ le_rfl _ le_rfl
  have hw := screen.width_le.1
  have hh := screen.height_le.1
  simp only [cardCells, cellSize, text, largest, Text.measure] at hwidth hheight
  unfold HasChromeRoom
  rcases Bool.eq_false_or_eq_true screen.orientation.upright with hup | hup <;>
    simp only [hup, Bool.false_eq_true, if_true, if_false] at hwidth hheight ⊢
  · constructor
    · rintro rfl
      by_contra hsmall
      exact absurd hwidth (not_le.mpr (lt_besideChrome_add_mul _ hw hsmall (by decide)))
    · by_contra hsmall
      exact absurd hheight (not_le.mpr
        (lt_besideChrome_add_mul (chromeTopRows + chromeBottomRows) hh hsmall (by decide)))
  · by_contra hsmall
    exact absurd hwidth (not_le.mpr (lt_besideChrome_add_mul _ hh hsmall (by decide)))

theorem bordersFit_iff (screen : Screen) (renderer : Renderer) :
    screen.BordersFit renderer ↔ screen.HasChromeRoom renderer := by
  constructor
  · exact hasChromeRoom_of_bordersFit
  · intro hroom cols hcols rows hrows
    obtain ⟨hwidth, hheight⟩ := card_le hroom hcols hrows
    exact borderFits_of_card screen.sw_lt screen.sh_lt hwidth hheight

/-- A display of eight columns and twenty rows of the built-in font. -/
def narrow : Screen where
  orientation := .normal
  font := ⟨8, 16, 8⟩
  sw := 64
  sh := 320
  sw_lt := by decide
  sh_lt := by decide
  width_le := by decide
  height_le := by decide

/-- The padding is subtracted from a display that the text fills. -/
theorem narrow_not_bordersFit : ¬ narrow.BordersFit .bbulk := by
  intro h
  obtain ⟨hsome, -⟩ := h 8 (by decide) 3 (by decide)
  revert hsome
  decide

end Screen

end Faceplate.Render
