import Mathlib.Data.Nat.Notation

/-!
# The grid of a text renderer

What `text.c` keeps about a screen full of text: how it is turned, its size in
cells, and the largest size that fits its display beside the chrome. The two
renderers measure in the same way.
-/

namespace Faceplate.Render

/-- `enum Orientation`. -/
inductive Orientation where
  | normal
  | right
  | upsideDown
  | left
  deriving DecidableEq, Repr

namespace Orientation

/-- Cells run along the width of the display. -/
def upright : Orientation → Bool
  | normal => true
  | right => false
  | upsideDown => true
  | left => false

/-- The next orientation clockwise. -/
def cw : Orientation → Orientation
  | normal => right
  | right => upsideDown
  | upsideDown => left
  | left => normal

/-- The next orientation counter-clockwise. -/
def ccw : Orientation → Orientation
  | normal => left
  | right => normal
  | upsideDown => right
  | left => upsideDown

end Orientation

/-- The fields of `struct kmscon_font` that sizes depend on. -/
structure Font where
  width : ℕ
  height : ℕ
  increaseStep : ℕ
  deriving DecidableEq, Repr

/-- `struct kmscon_text` as far as its grid goes. -/
structure Text where
  orientation : Orientation
  cols : ℕ
  rows : ℕ
  maxCols : ℕ
  maxRows : ℕ
  deriving DecidableEq, Repr

/-- `FACEPLATE_CHROME_PAD_COLS`. -/
def chromePadCols : ℕ := 2

/-- `FACEPLATE_CHROME_TOP_ROWS`. -/
def chromeTopRows : ℕ := 5

/-- `FACEPLATE_CHROME_BOTTOM_ROWS`. -/
def chromeBottomRows : ℕ := 4

/-- `FACEPLATE_CHROME_HORIZONTAL_CELLS`. -/
def chromeHorizontalCells : ℕ := 14

/-- `FACEPLATE_CHROME_SAFE_MARGIN_ROWS`. -/
def chromeSafeMarginRows : ℕ := 8

/-- Take the room of the chrome away, where there is more than that. -/
def besideChrome (cells chrome : ℕ) : ℕ := if chrome < cells then cells - chrome else cells

namespace Text

/-- The computation of the sizes in `bbulk_set` and `gltex_set`. -/
def measure (txt : Text) (font : Font) (sw sh : ℕ) : Text :=
  let cols := if txt.orientation.upright then sw / font.width else sh / font.width
  let rows := if txt.orientation.upright then sh / font.height else sw / font.height
  let cols := besideChrome cols (chromeHorizontalCells + 2 * chromePadCols)
  let rows := besideChrome rows (chromeTopRows + chromeBottomRows + chromeSafeMarginRows)
  { txt with cols := cols, rows := rows, maxCols := cols, maxRows := rows }

/-- How `ops->set` ends: before the sizes are computed, after that, or well. Where
`gltex_set` finds a GL error in its new shader, it returns the 0 of the call
before. -/
inductive SetResult where
  | early
  | glError
  | late
  | done
  deriving DecidableEq, Repr

/-- `ops->set`. `bbulk` refuses a display without a size. -/
def opsSet (txt : Text) (font : Font) (sw sh : ℕ) (opengl : Bool) (result : SetResult) :
    Bool × Text :=
  if !opengl && (sw == 0 || sh == 0) then (false, txt)
  else
    match result with
    | .early => (false, txt)
    | .glError => (opengl, txt)
    | .late => (false, txt.measure font sw sh)
    | .done => (true, txt.measure font sw sh)

/-- `kmscon_text_set`, which unsets the renderer first. -/
def set (txt : Text) (font : Font) (sw sh : ℕ) (opengl : Bool) (result : SetResult) :
    Bool × Text :=
  { txt with cols := 0, rows := 0 }.opsSet font sw sh opengl result

/-- `kmscon_text_rotate`; its result is not looked at. -/
def rotate (txt : Text) (orientation : Orientation) (font : Font) (sw sh : ℕ) (opengl : Bool)
    (result : SetResult) : Text :=
  ({ txt with orientation := orientation }.opsSet font sw sh opengl result).2

/-- `kmscon_text_resize`. -/
def resize (txt : Text) (cols rows : ℕ) : Text :=
  if cols = 0 ∨ txt.maxCols < cols ∨ rows = 0 ∨ txt.maxRows < rows then txt
  else { txt with cols := cols, rows := rows }

end Text

end Faceplate.Render
