import Faceplate.Lib.Loops
import Faceplate.Render.Bbulk
import Faceplate.Render.Pointer

/-!
# Damage rectangles

`bbulk_compute_damage` turns the flags of the cells into rectangles for the display. On each
line, damaged cells with small gaps between them share a rectangle, and two more stand for
the chrome. The rectangles go into an array whose length was fixed when the text was set.
-/

namespace Faceplate.Render

/-- `struct video_rect`. -/
structure VideoRect where
  x1 : ℤ
  y1 : ℤ
  x2 : ℤ
  y2 : ℤ
  deriving DecidableEq, Repr

namespace VideoRect

/-- The smallest rectangle around two others. -/
def join (out r : VideoRect) : VideoRect :=
  ⟨min out.x1 r.x1, min out.y1 r.y1, max out.x2 r.x2, max out.y2 r.y2⟩

/-- A pixel of a rectangle. -/
def Contains (r : VideoRect) (px py : ℕ) : Prop := (r.x1 ≤ px ∧ px < r.x2) ∧ r.y1 ≤ py ∧ py < r.y2

instance (r : VideoRect) (px py : ℕ) : Decidable (r.Contains px py) :=
  inferInstanceAs (Decidable (_ ∧ _))

/-- A rectangle that is covered by another one. -/
def Inside (r out : VideoRect) : Prop :=
  (out.x1 ≤ r.x1 ∧ r.x2 ≤ out.x2) ∧ out.y1 ≤ r.y1 ∧ r.y2 ≤ out.y2

theorem Inside.contains {r out : VideoRect} (h : r.Inside out) {px py : ℕ}
    (hpixel : r.Contains px py) : out.Contains px py := by
  unfold Inside at h
  unfold Contains at *
  omega

theorem Inside.refl (r : VideoRect) : r.Inside r := by
  unfold Inside
  omega

theorem Inside.trans {r s t : VideoRect} (h : r.Inside s) (h' : s.Inside t) : r.Inside t := by
  unfold Inside at *
  omega

theorem inside_join_left (out r : VideoRect) : out.Inside (out.join r) := by
  unfold Inside join
  dsimp only
  omega

theorem inside_join_right (out r : VideoRect) : r.Inside (out.join r) := by
  unfold Inside join
  dsimp only
  omega

end VideoRect

/-- `DAMAGE_MERGE_LEN`. -/
def damageMergeLen : ℕ := 3

namespace Grid

variable (grid : Grid)

/-- `max_damage_rects` in `bbulk_set`, the length of the array. -/
def maxDamageRects : ℤ :=
  toInt (wrap (divRoundUp grid.txt.maxCols (damageMergeLen + 1) * (grid.txt.maxRows + 2) + 2))

/-- `off` in `bbulk_compute_damage`. It is an `int`, and undefined where the array of flags
has no such place. -/
def flagIndex (posx posy : ℕ) : Option ℕ :=
  let off := toInt (wrap (posx + posy * grid.txt.cols))
  if 0 ≤ off ∧ off < wrap (Bbulk.cellCount grid) then some off.toNat else none

/-- The rectangle of a cell. -/
def cellRect (posx posy : ℕ) : VideoRect :=
  let start := grid.setCoordinate (posx + chromePadCols) (posy + chromeTopRows)
  let fw := if grid.txt.orientation.upright then grid.font.width else grid.font.height
  let fh := if grid.txt.orientation.upright then grid.font.height else grid.font.width
  ⟨toInt start.1, toInt start.2, toInt (wrap (start.1 + fw)), toInt (wrap (start.2 + fh))⟩

/-- The rectangle above the text. -/
def topStrip : VideoRect :=
  let fh := if grid.txt.orientation.upright then grid.font.height else grid.font.width
  ⟨0, 0, toInt grid.sw, toInt (wrap (grid.border.offY + chromeTopRows * fh))⟩

/-- The rectangle below the text. -/
def bottomStrip : VideoRect :=
  let fh := if grid.txt.orientation.upright then grid.font.height else grid.font.width
  ⟨0, toInt (wrap (grid.border.offY + (chromeTopRows + grid.txt.rows) * fh)), toInt grid.sw,
    toInt grid.sh⟩

variable (flags : ℕ → Bool)

/-- One round of the inner loop: the rectangles, newest first, and `prev`. -/
def damageRound (posy : ℕ) (st : List VideoRect × ℕ) (posx : ℕ) : Option (List VideoRect × ℕ) :=
  (grid.flagIndex posx posy).bind fun off =>
    if flags off then
      match st with
      | (rects, 0) => some (grid.cellRect posx posy :: rects, damageMergeLen)
      | (out :: rects, _) => some (out.join (grid.cellRect posx posy) :: rects, damageMergeLen)
      | ([], _) => none
    else some (st.1, st.2 - 1)

/-- The rectangles of a line. -/
def damageLine (rects : List VideoRect) (posy : ℕ) : Option (List VideoRect) :=
  ((List.range grid.txt.cols).foldlM (grid.damageRound flags posy) (rects, 0)).map Prod.fst

/-- `bbulk_compute_damage`. -/
def computeDamage : Option (List VideoRect) :=
  ((List.range (grid.txt.rows + 2)).foldlM (grid.damageLine flags) []).map fun rects =>
    grid.bottomStrip :: grid.topStrip :: rects

/-- The flags are read inside their array, the rectangles fit in theirs, and each cell that
is flagged is on the screen inside one rectangle. -/
def DamageCovers : Prop :=
  ∃ rects, grid.computeDamage flags = some rects ∧ (rects.length : ℤ) ≤ grid.maxDamageRects ∧
    ∀ posx < grid.txt.cols, ∀ posy < grid.txt.rows, flags (posx + posy * grid.txt.cols) = true →
      ∃ r ∈ rects, ∀ px py, grid.InCell posx posy px py → r.Contains px py

/-- A smaller text on the same display. -/
def sized (cols rows : ℕ) (hcols : cols ≤ grid.txt.maxCols) (hrows : rows ≤ grid.txt.maxRows) :
    Grid where
  txt := { grid.txt with cols := cols, rows := rows }
  font := grid.font
  sw := grid.sw
  sh := grid.sh
  cols_le := hcols
  rows_le := hrows
  cols_fit := grid.cols_fit
  rows_fit := grid.rows_fit
  sw_lt := grid.sw_lt
  sh_lt := grid.sh_lt

/-- The cells of every text up to the allocated size can be numbered by an `int`. -/
def Numbered : Prop := grid.txt.maxCols * (grid.txt.maxRows + 2) ≤ 2147483648

instance : Decidable grid.Numbered := inferInstanceAs (Decidable (_ ≤ _))

variable {grid flags}

/-! ## Flags -/

theorem place_lt {posx posy : ℕ} (hposx : posx < grid.txt.cols) (hposy : posy < grid.txt.rows + 2) :
    posx + posy * grid.txt.cols < grid.txt.maxCols * (grid.txt.maxRows + 2) := by
  have hline : (posy + 1) * grid.txt.cols ≤ (grid.txt.maxRows + 2) * grid.txt.maxCols :=
    Nat.mul_le_mul (by have := grid.rows_le; omega) grid.cols_le
  rw [Nat.succ_mul] at hline
  rw [Nat.mul_comm grid.txt.maxCols]
  omega

/-- Nothing of `cell_count` is lost where cells have numbers. -/
theorem wrap_cellCount (hnum : grid.Numbered) :
    wrap (Bbulk.cellCount grid) = Bbulk.cellCount grid := by
  unfold Numbered at hnum
  exact wrap_of_lt (by unfold Bbulk.cellCount; omega)

theorem flagIndex_eq (hnum : grid.Numbered) {posx posy : ℕ} (hposx : posx < grid.txt.cols)
    (hposy : posy < grid.txt.rows + 2) :
    grid.flagIndex posx posy = some (posx + posy * grid.txt.cols) := by
  have hlt := place_lt hposx hposy
  unfold flagIndex
  dsimp only
  rw [wrap_cellCount hnum]
  unfold Numbered at hnum
  rw [@wrap_of_lt (posx + posy * grid.txt.cols) (by omega), toInt_of_lt (by omega),
    if_pos ⟨by omega, by exact_mod_cast hlt⟩, Int.toNat_natCast]

/-! ## One line -/

/-- What holds of a line after `posx` cells: its rectangles are new ones in front of the old
ones, at least four cells apart, and they cover its damaged cells. -/
structure Scanned (grid : Grid) (flags : ℕ → Bool) (old : List VideoRect) (posy posx : ℕ)
    (st : List VideoRect × ℕ) : Prop where
  split : ∃ new, st.1 = new ++ old ∧ 4 * new.length ≤ posx + st.2 ∧ st.2 ≤ damageMergeLen ∧
    (st.2 ≠ 0 → new ≠ []) ∧
    ∀ i < posx, flags (i + posy * grid.txt.cols) = true →
      ∃ r ∈ new, (grid.cellRect i posy).Inside r

theorem Scanned.step (hnum : grid.Numbered) {old : List VideoRect} {posy posx : ℕ}
    (hposx : posx < grid.txt.cols) (hposy : posy < grid.txt.rows + 2)
    {st : List VideoRect × ℕ} (h : Scanned grid flags old posy posx st) :
    ∃ st', grid.damageRound flags posy st posx = some st' ∧
      Scanned grid flags old posy (posx + 1) st' := by
  obtain ⟨new, hst, hcount, hprev, hnew, hcovered⟩ := h.split
  obtain ⟨rects, prev⟩ := st
  obtain rfl : rects = new ++ old := hst
  simp only at hcount hprev hnew
  unfold damageRound
  rw [flagIndex_eq hnum hposx hposy, Option.bind_some]
  split_ifs with hflag
  · cases prev with
    | zero =>
      refine ⟨_, rfl, grid.cellRect posx posy :: new, rfl, ?_, le_rfl, by simp, fun i hi hf => ?_⟩
      · simp only [List.length_cons, damageMergeLen]
        omega
      · rcases Nat.lt_succ_iff_lt_or_eq.mp hi with hlt | rfl
        · obtain ⟨r, hr, hin⟩ := hcovered i hlt hf
          exact ⟨r, by simp [hr], hin⟩
        · exact ⟨_, List.mem_cons_self, .refl _⟩
    | succ prev =>
      cases new with
      | nil => exact absurd rfl (hnew (by simp))
      | cons out new =>
        refine ⟨_, rfl, out.join (grid.cellRect posx posy) :: new, rfl, ?_, le_rfl, by simp,
          fun i hi hf => ?_⟩
        · simp only [List.length_cons, damageMergeLen] at hcount hprev ⊢
          omega
        · rcases Nat.lt_succ_iff_lt_or_eq.mp hi with hlt | rfl
          · obtain ⟨r, hr, hin⟩ := hcovered i hlt hf
            rcases List.mem_cons.mp hr with rfl | hr
            · exact ⟨_, List.mem_cons_self, hin.trans (r.inside_join_left _)⟩
            · exact ⟨r, by simp [hr], hin⟩
          · exact ⟨_, List.mem_cons_self, out.inside_join_right _⟩
  · refine ⟨_, rfl, new, rfl, ?_, ?_, fun hne => hnew ?_, fun i hi hf => ?_⟩
    · simp only
      omega
    · simp only
      omega
    · simp only at hne
      omega
    · rcases Nat.lt_succ_iff_lt_or_eq.mp hi with hlt | rfl
      · exact hcovered i hlt hf
      · exact absurd hf hflag

/-- A line adds at most one rectangle for every four cells. -/
theorem damageLine_spec (hnum : grid.Numbered) (flags : ℕ → Bool) (old : List VideoRect) {posy : ℕ}
    (hposy : posy < grid.txt.rows + 2) :
    ∃ new, grid.damageLine flags old posy = some (new ++ old) ∧
      new.length ≤ divRoundUp grid.txt.cols (damageMergeLen + 1) ∧
      ∀ posx < grid.txt.cols, flags (posx + posy * grid.txt.cols) = true →
        ∃ r ∈ new, (grid.cellRect posx posy).Inside r := by
  have hstart : Scanned grid flags old posy 0 (old, 0) :=
    ⟨[], rfl, Nat.zero_le _, Nat.zero_le _, by simp, fun i hi => absurd hi (Nat.not_lt_zero i)⟩
  obtain ⟨st, hst, hscanned⟩ := Loops.count_spec (Scanned grid flags old posy) grid.txt.cols
    hstart fun posx hposx st h => h.step hnum hposx hposy
  obtain ⟨new, hsplit, hcount, hprev, -, hcovered⟩ := hscanned.split
  refine ⟨new, ?_, ?_, hcovered⟩
  · rw [damageLine, hst, Option.map_some, hsplit]
  · unfold divRoundUp damageMergeLen at *
    omega

/-! ## All lines -/

/-- What holds after `posy` lines. -/
structure ScannedLines (grid : Grid) (flags : ℕ → Bool) (posy : ℕ) (rects : List VideoRect) :
    Prop where
  count : rects.length ≤ posy * divRoundUp grid.txt.cols (damageMergeLen + 1)
  covered : ∀ i < posy, ∀ posx < grid.txt.cols, flags (posx + i * grid.txt.cols) = true →
    ∃ r ∈ rects, (grid.cellRect posx i).Inside r

theorem computeDamage_spec (hnum : grid.Numbered) (flags : ℕ → Bool) :
    ∃ rects, grid.computeDamage flags = some (grid.bottomStrip :: grid.topStrip :: rects) ∧
      ScannedLines grid flags (grid.txt.rows + 2) rects := by
  have hstart : ScannedLines grid flags 0 [] :=
    ⟨Nat.zero_le _, fun i hi => absurd hi (Nat.not_lt_zero i)⟩
  obtain ⟨rects, hrects, hscanned⟩ := Loops.count_spec (ScannedLines grid flags)
    (grid.txt.rows + 2) hstart fun posy hposy old h => by
      obtain ⟨new, hline, hcount, hcovered⟩ := damageLine_spec hnum flags old hposy
      refine ⟨_, hline, ?_, fun i hi posx hposx hf => ?_⟩
      · rw [List.length_append, Nat.succ_mul]
        have := h.count
        omega
      · rcases Nat.lt_succ_iff_lt_or_eq.mp hi with hlt | rfl
        · obtain ⟨r, hr, hin⟩ := h.covered i hlt posx hposx hf
          exact ⟨r, by simp [hr], hin⟩
        · obtain ⟨r, hr, hin⟩ := hcovered posx hposx hf
          exact ⟨r, by simp [hr], hin⟩
  exact ⟨rects, by rw [computeDamage, hrects, Option.map_some], hscanned⟩

/-! ## The array of rectangles -/

/-- The length of the array does not overflow, and is enough for the largest text. -/
theorem maxDamageRects_eq (hnum : grid.Numbered) (hheight : 0 < grid.font.height) :
    grid.maxDamageRects = (divRoundUp grid.txt.maxCols (damageMergeLen + 1) *
      (grid.txt.maxRows + 2) + 2 : ℕ) := by
  have hrows : grid.txt.maxRows ≤ grid.txt.maxRows * grid.font.height :=
    Nat.le_mul_of_pos_right _ hheight
  have hfit := grid.rows_fit
  have hsw := grid.sw_lt
  have hsh := grid.sh_lt
  have hquarter : 4 * divRoundUp grid.txt.maxCols (damageMergeLen + 1) ≤ grid.txt.maxCols + 3 := by
    unfold divRoundUp damageMergeLen
    omega
  have harea := Nat.mul_le_mul_right (grid.txt.maxRows + 2) hquarter
  rw [Nat.add_mul, Nat.mul_assoc] at harea
  have hrows' : grid.txt.maxRows < 16777216 := by
    split_ifs at hfit <;> omega
  unfold Numbered at hnum
  unfold maxDamageRects
  rw [@wrap_of_lt (divRoundUp grid.txt.maxCols (damageMergeLen + 1) * (grid.txt.maxRows + 2) + 2)
    (by omega), toInt_of_lt (by omega)]

theorem length_le_maxDamageRects (hnum : grid.Numbered) (hheight : 0 < grid.font.height) {count : ℕ}
    (hcount : count ≤ (grid.txt.rows + 2) * divRoundUp grid.txt.cols (damageMergeLen + 1)) :
    ((count + 2 : ℕ) : ℤ) ≤ grid.maxDamageRects := by
  rw [maxDamageRects_eq hnum hheight, Int.ofNat_le, Nat.mul_comm]
  refine Nat.add_le_add_right (hcount.trans ?_) 2
  refine Nat.mul_le_mul (Nat.add_le_add_right grid.rows_le 2) ?_
  exact Nat.div_le_div_right (Nat.add_le_add_right grid.cols_le _)

/-! ## Cells on the screen -/

/-- The end of a side that starts on the screen does not wrap around. -/
theorem toInt_within {start len size p : ℕ} (hsize : size < 16777216) (hlen : len < 16777216)
    (h : Within start len size p) :
    toInt start ≤ p ∧ (p : ℤ) < toInt (wrap (start + len)) := by
  unfold Within at h
  rw [toInt_of_lt (by omega), wrap_of_lt (by omega), toInt_of_lt (by omega)]
  omega

/-- What is on the screen of a cell is in its rectangle. -/
theorem contains_of_inCell {posx posy px py : ℕ} (hposx : posx < grid.txt.cols)
    (hposy : posy < grid.txt.rows) (h : grid.InCell posx posy px py) :
    (grid.cellRect posx posy).Contains px py := by
  have hcol := toInt_within grid.colSize_lt (width_lt (by omega)) h.1
  have hrow := toInt_within grid.rowSize_lt (height_lt (by omega)) h.2
  unfold colPixel at hcol
  unfold rowPixel at hrow
  simp only [VideoRect.Contains, cellRect, setCoordinate_eq]
  split_ifs at hcol hrow ⊢
  · exact ⟨hcol, hrow⟩
  · exact ⟨hrow, hcol⟩

theorem damageCovers_of_numbered (hnum : grid.Numbered) (hheight : 0 < grid.font.height)
    (flags : ℕ → Bool) : grid.DamageCovers flags := by
  obtain ⟨rects, hrects, hscanned⟩ := computeDamage_spec hnum flags
  refine ⟨_, hrects, length_le_maxDamageRects hnum hheight hscanned.count, ?_⟩
  intro posx hposx posy hposy hflag
  obtain ⟨r, hr, hin⟩ := hscanned.covered posy (by omega) posx hposx hflag
  exact ⟨r, by simp [hr], fun px py hpixel => hin.contains (contains_of_inCell hposx hposy hpixel)⟩

/-! ## Texts of a display -/

/-- The cells of a text that was set for its display can be numbered. Where the rows of the
chrome were taken away, the two lines more are some of those; elsewhere the text is low. -/
theorem numbered_afterSet (txt : Text) (font : Font) {sw sh : ℕ} (hsw : sw < 16777216)
    (hsh : sh < 16777216) (hpixels : sw * sh < 2147483648) :
    (afterSet txt font sw sh hsw hsh).Numbered := by
  have hproduct (along across : ℕ) (halong : along < 16777216)
      (harea : along * across < 2147483648) (width height chrome : ℕ) :
      besideChrome (along / width) chrome *
        (besideChrome (across / height) (chromeTopRows + chromeBottomRows +
          chromeSafeMarginRows) + 2) ≤ 2147483648 := by
    have hcols : besideChrome (along / width) chrome ≤ along :=
      (besideChrome_le _ _).trans (Nat.div_le_self _ _)
    have hrows : besideChrome (across / height) (chromeTopRows + chromeBottomRows +
        chromeSafeMarginRows) + 2 ≤ max across 19 := by
      have := Nat.div_le_self across height
      unfold besideChrome chromeTopRows chromeBottomRows chromeSafeMarginRows
      split_ifs <;> omega
    refine (Nat.mul_le_mul hcols hrows).trans ?_
    rcases le_total across 19 with hlow | hhigh
    · rw [max_eq_right hlow]
      omega
    · rw [max_eq_left hhigh]
      exact harea.le
  unfold Numbered afterSet Text.measure
  dsimp only
  cases txt.orientation.upright
  · exact hproduct sh sw hsh (by rwa [Nat.mul_comm]) _ _ _
  · exact hproduct sw sh hsw hpixels _ _ _

/-- On a display of fewer than 2^31 pixels, damage is computed well for every text up to the
allocated size, in every orientation and for all flags. -/
theorem damageCovers_afterSet (txt : Text) (font : Font) (hheight : 0 < font.height) {sw sh : ℕ}
    (hsw : sw < 16777216) (hsh : sh < 16777216) (hpixels : sw * sh < 2147483648) (cols rows : ℕ)
    (hcols : cols ≤ (afterSet txt font sw sh hsw hsh).txt.maxCols)
    (hrows : rows ≤ (afterSet txt font sw sh hsw hsh).txt.maxRows) (flags : ℕ → Bool) :
    ((afterSet txt font sw sh hsw hsh).sized cols rows hcols hrows).DamageCovers flags :=
  @damageCovers_of_numbered (sized _ cols rows hcols hrows)
    (numbered_afterSet txt font hsw hsh hpixels) hheight flags

/-- The text of ten columns and twelve lines on a display that is turned right, with two
damaged cells in one line. -/
theorem damageCovers_afterSet_turned :
    ((afterSet ⟨.right, 0, 0, 0, 0⟩ ⟨8, 16, 1⟩ 640 480 (by decide) (by decide)).sized 10 12
      (by decide) (by decide)).DamageCovers fun off => off == 3 || off == 9 :=
  damageCovers_afterSet ⟨.right, 0, 0, 0, 0⟩ ⟨8, 16, 1⟩ (by decide) (by decide) (by decide)
    (by decide) 10 12 (by decide) (by decide) _

end Grid

end Faceplate.Render
