import Mathlib.Logic.Function.Basic
import Faceplate.Lib.Runs
import Faceplate.Render.Layout

/-!
# The bulk renderer

The renderer draws a frame of cells into the back buffer and skips what it believes
to be there already. It keeps the cells of the frame before and, for each of them,
whether it differs from the frame before that, since two buffers are swapped. A blank
cell next to a wide glyph is left to that glyph.
-/

namespace Faceplate.Render

/-- `attr2` of a cell; `other` stands for the bits that only glyphs depend on. -/
structure CellAttr where
  bold : Bool
  italic : Bool
  underline : Bool
  blink : Bool
  other : ℕ
  deriving DecidableEq, Repr

/-- `struct tsm_screen_cell`. -/
structure Cell where
  ch : ℕ
  fg : Rgb
  bg : Rgb
  attr : CellAttr
  deriving DecidableEq, Repr

/-- `ID_DAMAGED`. -/
def idDamaged : ℕ := 0x80000001

/-- `ID_OVERFLOW`. -/
def idOverflow : ℕ := 0x80000002

/-- A cell in zeroed memory. -/
def Cell.zero : Cell := ⟨0, ⟨0, 0, 0⟩, ⟨0, 0, 0⟩, ⟨false, false, false, false, 0⟩⟩

/-- A cell without a character of its own. -/
def Cell.blank (cell : Cell) : Bool := cell.ch = 0 || cell.ch = 32

/-- `struct kmscon_cursor`. -/
structure Cursor where
  visible : Bool
  x : ℕ
  y : ℕ
  cell : Cell
  deriving DecidableEq, Repr

/-- What one frame is drawn from: `attr` are the default attributes, `needRedraw` and
`hasDamage` are answers of the display, and `blinking` is that of the text. -/
structure Frame where
  attr : ℕ
  needRedraw : Bool
  hasDamage : Bool
  cells : ℕ → Cell
  cursor : Cursor
  blinking : Bool

/-- The fields of `struct bbulk` that decide what is drawn. -/
structure Bbulk where
  cells : ℕ → Cell
  doubleWidth : ℕ → Bool
  damaged : ℕ → Bool
  attr : ℕ
  redraw : ℕ

namespace Bbulk

/-- `damage_cell`. -/
def damageCell (off : ℕ) (bb : Bbulk) : Bbulk :=
  { bb with
    cells := Function.update bb.cells off { bb.cells off with ch := idDamaged }
    damaged := Function.update bb.damaged off true }

/-- Leave a cell to the wide glyph on its left. -/
def overflowCell (off : ℕ) (bb : Bbulk) : Bbulk :=
  if (bb.cells off).ch = idOverflow then
    { bb with damaged := Function.update bb.damaged off false }
  else
    { bb with
      cells := Function.update bb.cells off { bb.cells off with ch := idOverflow }
      damaged := Function.update bb.damaged off true }

/-- Note the cell that is drawn. -/
def storeCell (off : ℕ) (cell : Cell) (bb : Bbulk) : Bbulk :=
  { bb with
    cells := Function.update bb.cells off cell
    damaged := Function.update bb.damaged off (bb.cells off ≠ cell) }

/-- Note the width of the glyph that is drawn. -/
def setDoubleWidth (off : ℕ) (doubleWidth : Bool) (bb : Bbulk) : Bbulk :=
  { bb with doubleWidth := Function.update bb.doubleWidth off doubleWidth }

/-- The cell is left to the one on its left. -/
def overflows (bb : Bbulk) (cell : Cell) (posx off : ℕ) : Bool :=
  cell.blank && posx ≠ 0 && bb.doubleWidth (off - 1)

/-- The cell is taken to be on the screen already. -/
def skips (bb : Bbulk) (cell : Cell) (lastCol : Bool) (off : ℕ) : Bool :=
  bb.cells off = cell && !bb.damaged off &&
    !(bb.doubleWidth off && !lastCol && bb.damaged (off + 1))

variable (grid : Grid) (glyphs : ℕ → CellAttr → Glyph)

/-- What `bbulk_draw_cell` notes about the cell that it draws. -/
def trackCell (bb : Bbulk) (cell : Cell) (lastCol : Bool) (off : ℕ) : Bbulk :=
  let glyph := glyphs cell.ch cell.attr
  let changed := bb.cells off ≠ cell
  let bb := bb.storeCell off cell
  let bb := if glyph.doubleWidth && !lastCol && changed then bb.damageCell (off + 1) else bb
  bb.setDoubleWidth off glyph.doubleWidth

/-- `bbulk_draw_cell`. -/
def bbulkDrawCell (st : Bbulk × Canvas) (cell : Cell) (posx posy : ℕ) : Bbulk × Canvas :=
  let (bb, canvas) := st
  let off := posx + posy * grid.txt.cols
  let lastCol : Bool := posx + 1 = grid.txt.cols
  if bb.overflows cell posx off then (bb.overflowCell off, canvas)
  else if bb.skips cell lastCol off then (bb, canvas)
  else
    let glyph := glyphs cell.ch cell.attr
    (bb.trackCell glyphs cell lastCol off,
      displayBlend grid.sw grid.sh (grid.cellReq glyph cell.fg cell.bg posx posy) canvas)

end Bbulk

/-- The cell of a frame that `bbulk_draw` draws at a place. -/
def Frame.cellAt (frame : Frame) (cols posx posy : ℕ) : Cell :=
  let cell := frame.cells (posx + posy * cols)
  if frame.cursor.visible && frame.cursor.x = posx && frame.cursor.y = posy then frame.cursor.cell
  else if cell.attr.blink && frame.blinking then { cell with ch := 32 }
  else cell

/-- The places of a grid in the order of `bbulk_draw`. -/
def Grid.places (grid : Grid) : List (ℕ × ℕ) :=
  (List.range grid.txt.rows).flatMap fun posy =>
    (List.range grid.txt.cols).map fun posx => (posx, posy)

namespace Bbulk

variable (grid : Grid) (glyphs : ℕ → CellAttr → Glyph)

/-- One step of the loops of `bbulk_draw`. -/
def drawPlace (frame : Frame) (st : Bbulk × Canvas) (pos : ℕ × ℕ) : Bbulk × Canvas :=
  bbulkDrawCell grid glyphs st (frame.cellAt grid.txt.cols pos.1 pos.2) pos.1 pos.2

/-- `bbulk_draw`. -/
def bbulkDraw (frame : Frame) (st : Bbulk × Canvas) : Bbulk × Canvas :=
  grid.places.foldl (drawPlace grid glyphs frame) st

/-- `cell_count`, before it is stored in 32 bits; see `wrap_cellCount`. -/
def cellCount : ℕ := grid.txt.maxCols * (grid.txt.maxRows + 2)

/-- The colour of the page around the text. -/
def page : Rgb := ⟨11, 18, 32⟩

/-- A cleared buffer. -/
def cleared : Canvas := fun _ _ => page

/-- Damage all cells. -/
def damageAll (bb : Bbulk) : Bbulk :=
  { bb with
    cells := fun off =>
      if off < cellCount grid then { bb.cells off with ch := idDamaged } else bb.cells off
    damaged := fun off => if off < cellCount grid then true else bb.damaged off }

/-- Carry the damage of the last frame over. -/
def carryDamage (bb : Bbulk) : Bbulk :=
  { bb with
    cells := fun off =>
      if off < cellCount grid ∧ bb.damaged off then { bb.cells off with ch := idDamaged }
      else bb.cells off }

/-- `redraw` in `bbulk_prepare`: two frames after a change of the default attributes, or
where the display asks for it. -/
def redraws (frame : Frame) (bb : Bbulk) : ℕ :=
  if bb.attr ≠ frame.attr ∨ frame.needRedraw then 2 else bb.redraw

/-- `bbulk_prepare`. -/
def bbulkPrepare (frame : Frame) (st : Bbulk × Canvas) : Bbulk × Canvas :=
  let (bb, canvas) := st
  let redraw := bb.redraws frame
  let bb := { bb with attr := frame.attr, redraw := redraw - 1 }
  if redraw ≠ 0 then (bb.damageAll grid, cleared)
  else if frame.hasDamage then (bb.carryDamage grid, canvas)
  else (bb, canvas)

/-- The state after `bbulk_set`. The flags are not initialised. -/
def bbulkSet (doubleWidth : ℕ → Bool) : Bbulk :=
  damageAll grid ⟨fun _ => Cell.zero, doubleWidth, fun _ => false, 0, 0⟩

/-- `bbulk_resize`; the sizes and the border are those of the grid. -/
def bbulkResize (bb : Bbulk) : Bbulk := { bb with redraw := 2 }

end Bbulk

/-- A renderer with its two buffers. The front one is on the screen. -/
structure Painter where
  bb : Bbulk
  front : Canvas
  back : Canvas

namespace Painter

variable (grid : Grid) (glyphs : ℕ → CellAttr → Glyph)

/-- Draw a frame into the back buffer and swap. -/
def draw (painter : Painter) (frame : Frame) : Painter :=
  let st := Bbulk.bbulkPrepare grid frame (painter.bb, painter.back)
  let st := Bbulk.bbulkDraw grid glyphs frame st
  ⟨st.1, st.2, painter.front⟩

/-- A renderer that has just been set and perhaps resized, over cleared buffers. -/
def init (resized : Bool) (doubleWidth : ℕ → Bool) : Painter :=
  let bb := Bbulk.bbulkSet grid doubleWidth
  ⟨if resized then bb.bbulkResize else bb, Bbulk.cleared, Bbulk.cleared⟩

/-- Every cell of a frame drawn with fresh cell state into a cleared buffer. -/
def fullRedraw (frame : Frame) : Canvas :=
  (Bbulk.bbulkDraw grid glyphs frame (Bbulk.bbulkSet grid fun _ => false, Bbulk.cleared)).2

/-- On the text area, the buffer that shows a frame holds its full redraw. -/
def Agrees (painter : Painter) (frame : Frame) : Prop :=
  ∀ posx < grid.txt.cols, ∀ posy < grid.txt.rows, ∀ px py, grid.InCell posx posy px py →
    (painter.draw grid glyphs frame).front px py = fullRedraw grid glyphs frame px py

end Painter

end Faceplate.Render
