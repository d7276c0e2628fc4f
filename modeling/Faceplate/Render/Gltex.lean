import Faceplate.Lib.Runs
import Faceplate.Render.Chrome

/-!
# The queues of the GL renderer

The GL renderer queues one quad for each cell, for each character of the chrome and for the
pointer, in the queue of the atlas that holds its glyph. The length of a queue was fixed when
its atlas was made. A frame is the list of calls that queue something; a call that finds its
queue full drops its quad.
-/

namespace Faceplate.Render

open CString

/-- `struct gl_glyph` without the place in the texture. -/
structure GlGlyph where
  doubleWidth : Bool
  atlas : ℕ
  deriving DecidableEq, Repr

/-- The glyphs of a font, and the atlases they were put into. -/
structure GlFont where
  hasGlyph : ℕ → CellAttr → Bool
  glyph : ℕ → CellAttr → GlGlyph

/-- `FONT_REPLACEMENT_CHAR`. -/
def replacementChar : ℕ := 0x25a1

/-- The fields of `struct gltex` and of its atlases that decide what is queued. -/
structure Gltex where
  cacheNum : ℕ → ℕ
  previousOverflow : Bool

/-- A call of `gltex_draw_cell_at` or `gltex_draw_pointer`. -/
inductive GlCall where
  | cell (cell : Cell) (posx posy : ℕ)
  | pointer (x y : ℕ)
  deriving DecidableEq, Repr

namespace Gltex

variable (txt : Text) (font : GlFont) (blinking : Bool)

/-- `cache_size` of an atlas, from `get_atlas`. -/
def cacheSize : ℕ := wrap (txt.maxCols * (txt.maxRows + 2) + 1)

/-- `find_glyph`. -/
def findGlyph (cell : Cell) : GlGlyph :=
  let ch := if cell.ch = 0 then 32 else cell.ch
  let ch := if cell.attr.blink && blinking then 32 else ch
  font.glyph (if font.hasGlyph ch cell.attr then ch else replacementChar) cell.attr

/-- Queue a quad, if there is room for it. -/
def queueQuad (atlas : ℕ) (gt : Gltex) : Option Gltex :=
  if cacheSize txt ≤ gt.cacheNum atlas then none
  else some { gt with cacheNum := Function.update gt.cacheNum atlas (gt.cacheNum atlas + 1) }

/-- `gltex_draw_cell_at`; it leaves a blank cell to the wide one before it, and fails with
`-ERANGE` where the queue is full. -/
def gltexDrawCellAt (gt : Gltex) (cell : Cell) (posx : ℕ) : Option Gltex :=
  if posx ≠ 0 && gt.previousOverflow && cell.blank then
    some { gt with previousOverflow := false }
  else
    let glyph := findGlyph font blinking cell
    (gt.queueQuad txt glyph.atlas).map fun gt => { gt with previousOverflow := glyph.doubleWidth }

/-- `gltex_draw_pointer`. -/
def gltexDrawPointer (gt : Gltex) : Option Gltex :=
  gt.queueQuad txt (findGlyph font blinking { Cell.zero with ch := 73 }).atlas

/-- One call. -/
def call (gt : Gltex) : GlCall → Option Gltex
  | .cell cell posx _ => gt.gltexDrawCellAt txt font blinking cell posx
  | .pointer _ _ => gt.gltexDrawPointer txt font blinking

/-- The state after one call. The callers do not look at results. -/
def afterCall (gt : Gltex) (c : GlCall) : Gltex := (gt.call txt font blinking c).getD gt

/-- The calls of `gltex_draw`. -/
def gltexDraw (frame : Frame) : List GlCall :=
  (List.range txt.rows).flatMap fun posy =>
    (List.range txt.cols).map fun posx =>
      .cell (frame.cellAt txt.cols posx posy) posx (wrap (posy + chromeTopRows))

/-- `gltex_paint_chrome_row`. -/
def gltexPaintChromeRow (y : ℕ) (text : Label) (bg fg : Rgb) : List GlCall :=
  (List.range txt.cols).map fun x =>
    .cell (chromeCell bg fg (text.chars.getD x 32)) (wrap (x + chromePadCols)) y

/-- `gltex_paint_chrome_row_right`. -/
def gltexPaintChromeRowRight (y x0 maxCols : ℕ) (text : Label) (bg fg : Rgb) : List GlCall :=
  let shown := text.chars.drop (text.chars.length - maxCols)
  let start := wrapSub (wrap (x0 + maxCols)) shown.length
  shown.mapIdx fun i ch => .cell (chromeCell bg fg ch) (wrap (start + i)) y

/-- `gltex_draw_status`. -/
def gltexDrawStatus (chrome : Chrome) : List GlCall :=
  let right := fun y => gltexPaintChromeRowRight y chromePadCols txt.cols
  (if chrome.logo.isNone ∧ chrome.title.chars ≠ [] then
    gltexPaintChromeRow txt 0 chrome.title Bbulk.page titleFg else []) ++
  (if chrome.idle then
    right 0 chrome.statusText Bbulk.page (if chrome.connectionAlert then alertFg else onlineFg) ++
    right 1 chrome.hostText Bbulk.page hostFg ++
    right 2 chrome.supporting Bbulk.page mutedFg
  else
    right 0 chrome.compactText Bbulk.page
      (if chrome.connectionAlert || chrome.raucAlert then alertFg else onlineFg)) ++
  gltexPaintChromeRow txt (Chrome.secondaryY txt) chrome.secondary Bbulk.page
    (if chrome.raucAlert then alertFg else mutedFg)

/-- The calls of a frame, with the pointer where there is one. -/
def frameCalls (frame : Frame) (chrome : Chrome) (pointer : Option (ℕ × ℕ)) : List GlCall :=
  gltexDraw txt frame ++ gltexDrawStatus txt chrome ++
    pointer.toList.map fun pos => .pointer pos.1 pos.2

/-- `gltex_prepare`. -/
def gltexPrepare (gt : Gltex) : Gltex := { gt with cacheNum := fun _ => 0 }

/-- No call of a frame finds its queue full. -/
def DropsNothing (frame : Frame) (chrome : Chrome) (pointer : Option (ℕ × ℕ)) (gt : Gltex) :
    Prop :=
  Runs.Along (afterCall txt font frame.blinking)
    (fun gt c => (gt.call txt font frame.blinking c).isSome = true) gt.gltexPrepare
    (frameCalls txt frame chrome pointer)

/-- The characters of the chrome, with the blanks that fill the rows of the title and of the
footer. -/
def chromeChars (chrome : Chrome) : ℕ :=
  (if chrome.logo.isNone ∧ chrome.title.chars ≠ [] then txt.cols else 0) +
  (if chrome.idle then
    min chrome.statusText.chars.length txt.cols + min chrome.hostText.chars.length txt.cols +
      min chrome.supporting.chars.length txt.cols
  else min chrome.compactText.chars.length txt.cols) + txt.cols

variable {txt font blinking}

/-! ## Counting calls -/

theorem length_gltexDraw (frame : Frame) : (gltexDraw txt frame).length = txt.cols * txt.rows := by
  simp [gltexDraw, List.length_flatMap, Nat.mul_comm]

theorem length_gltexPaintChromeRow (y : ℕ) (text : Label) (bg fg : Rgb) :
    (gltexPaintChromeRow txt y text bg fg).length = txt.cols := by
  simp [gltexPaintChromeRow]

theorem length_gltexPaintChromeRowRight (y x0 maxCols : ℕ) (text : Label) (bg fg : Rgb) :
    (gltexPaintChromeRowRight y x0 maxCols text bg fg).length =
      min text.chars.length maxCols := by
  simp only [gltexPaintChromeRowRight, List.length_mapIdx, List.length_drop]
  omega

theorem length_gltexDrawStatus (chrome : Chrome) :
    (gltexDrawStatus txt chrome).length = chromeChars txt chrome := by
  unfold gltexDrawStatus chromeChars
  simp only [List.length_append, length_gltexPaintChromeRow]
  split_ifs <;>
    simp only [List.length_append, length_gltexPaintChromeRow, length_gltexPaintChromeRowRight,
      List.length_nil]

theorem length_frameCalls (frame : Frame) (chrome : Chrome) (pointer : Option (ℕ × ℕ)) :
    (frameCalls txt frame chrome pointer).length =
      txt.cols * txt.rows + chromeChars txt chrome + if pointer.isSome then 1 else 0 := by
  unfold frameCalls
  rw [List.length_append, List.length_append, length_gltexDraw, length_gltexDrawStatus,
    List.length_map]
  cases pointer <;> rfl

/-! ## Room in the queues -/

/-- Each queue has room for so many quads. -/
def Room (txt : Text) (count : ℕ) (gt : Gltex) : Prop :=
  ∀ atlas, gt.cacheNum atlas + count ≤ cacheSize txt

theorem Room.queueQuad {count : ℕ} {gt : Gltex} (h : Room txt (count + 1) gt) (atlas : ℕ) :
    ∃ gt', gt.queueQuad txt atlas = some gt' ∧ Room txt count gt' := by
  have hatlas := h atlas
  refine ⟨_, if_neg (by omega), fun other => ?_⟩
  have hother := h other
  rcases eq_or_ne other atlas with rfl | hne
  · simp only [Function.update_self]
    omega
  · simp only [Function.update_of_ne hne]
    omega

/-- A call takes the room of one quad at most. -/
theorem Room.call {count : ℕ} {gt : Gltex} (h : Room txt (count + 1) gt) (c : GlCall) :
    ∃ gt', gt.call txt font blinking c = some gt' ∧ Room txt count gt' := by
  cases c with
  | cell cell posx posy =>
    unfold Gltex.call gltexDrawCellAt
    dsimp only
    split_ifs
    · exact ⟨_, rfl, fun atlas => Nat.le_of_succ_le (h atlas)⟩
    · obtain ⟨gt', hgt', hroom⟩ := h.queueQuad (findGlyph font blinking cell).atlas
      rw [hgt']
      exact ⟨_, rfl, hroom⟩
  | pointer x y => exact h.queueQuad _

theorem Room.along {calls : List GlCall} {gt : Gltex} (h : Room txt calls.length gt) :
    Runs.Along (afterCall txt font blinking)
      (fun gt c => (gt.call txt font blinking c).isSome = true) gt calls := by
  induction calls generalizing gt with
  | nil => trivial
  | cons c calls ih =>
    obtain ⟨gt', hgt', hroom⟩ := @Room.call txt font blinking calls.length gt h c
    refine ⟨Option.isSome_iff_exists.mpr ⟨gt', hgt'⟩, ih ?_⟩
    rw [afterCall, hgt']
    exact hroom

/-! ## The worst font -/

/-- A font of narrow glyphs in one atlas. -/
def oneAtlas : GlFont := ⟨fun _ _ => true, fun _ _ => ⟨false, 0⟩⟩

/-- A frame without text. -/
def emptyFrame : Frame :=
  ⟨0, false, false, fun _ => Cell.zero, ⟨false, 0, 0, Cell.zero⟩, false⟩

/-- With narrow glyphs each call queues a quad. -/
theorem call_oneAtlas {gt : Gltex} (hgt : gt.previousOverflow = false) (c : GlCall) :
    gt.call txt oneAtlas blinking c =
      if cacheSize txt ≤ gt.cacheNum 0 then none
      else some ⟨Function.update gt.cacheNum 0 (gt.cacheNum 0 + 1), false⟩ := by
  have hatlas (cell : Cell) : findGlyph oneAtlas blinking cell = ⟨false, 0⟩ := rfl
  cases c with
  | cell cell posx posy =>
    simp only [call, gltexDrawCellAt, queueQuad, hatlas, hgt, Bool.and_false, Bool.false_and,
      Bool.false_eq_true, if_false]
    split_ifs <;> rfl
  | pointer x y => simp only [call, gltexDrawPointer, queueQuad, hatlas, hgt]

theorem le_cacheSize_of_along {calls : List GlCall} {gt : Gltex}
    (hgt : gt.previousOverflow = false) (hroom : gt.cacheNum 0 ≤ cacheSize txt)
    (h : Runs.Along (afterCall txt oneAtlas blinking)
      (fun gt c => (gt.call txt oneAtlas blinking c).isSome = true) gt calls) :
    gt.cacheNum 0 + calls.length ≤ cacheSize txt := by
  induction calls generalizing gt with
  | nil => exact hroom
  | cons c calls ih =>
    obtain ⟨hsome, hrest⟩ := h
    have hcall := @call_oneAtlas txt blinking gt hgt c
    rw [afterCall, hcall] at hrest
    rw [hcall] at hsome
    split_ifs at hsome hrest with hfull
    · simp at hsome
    · have hnum : Function.update gt.cacheNum 0 (gt.cacheNum 0 + 1) 0 = gt.cacheNum 0 + 1 :=
        Function.update_self ..
      have hnext := ih rfl (hnum.trans_le (by omega)) hrest
      simp only [Option.getD_some, hnum] at hnext
      rw [List.length_cons]
      omega

/-- Whatever the cells are and wherever the glyphs were put, a frame drops nothing, if and
only if a queue has room for all cells, all characters of the chrome, and the pointer. -/
theorem dropsNothing_iff (txt : Text) (chrome : Chrome) (pointer : Option (ℕ × ℕ)) :
    (∀ font frame gt, DropsNothing txt font frame chrome pointer gt) ↔
      txt.cols * txt.rows + chromeChars txt chrome + (if pointer.isSome then 1 else 0) ≤
        cacheSize txt := by
  constructor
  · intro h
    have hcount := le_cacheSize_of_along rfl (Nat.zero_le _)
      (h oneAtlas emptyFrame ⟨fun _ => 0, false⟩)
    rw [length_frameCalls] at hcount
    exact (Nat.le_add_left _ _).trans hcount
  · intro h font frame gt
    refine Room.along fun atlas => ?_
    rw [length_frameCalls]
    exact (Nat.zero_add _).le.trans h

/-- The largest text on a display of twenty columns and eighteen rows. -/
def twoColumns : Text := Text.measure ⟨.normal, 0, 0, 0, 0⟩ ⟨8, 16, 8⟩ 160 288

/-- The chrome of a device that waits for a login and has no state yet. -/
def idleChrome : Chrome where
  logo := none
  title := ⟨lit "FACEPLATE", by decide +kernel⟩
  idle := true
  hostname := .empty
  status := .empty
  supporting := .empty
  secondary := .empty
  compact := .empty
  connectionAlert := true
  raucAlert := false
  line := .empty

/-- The footer is dropped. -/
theorem idleChrome_drops :
    ¬ DropsNothing twoColumns oneAtlas emptyFrame idleChrome none ⟨fun _ => 0, false⟩ := by
  unfold DropsNothing
  decide +kernel

end Gltex

end Faceplate.Render
