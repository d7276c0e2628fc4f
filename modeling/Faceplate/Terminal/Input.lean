import Mathlib.Algebra.Group.Int.Defs
import Faceplate.Terminal.Mode

/-!
# Keys and pointer

`input_event` and `pointer_event`, with the zoom and the rotation of screens that
some keys and the wheel ask for.
-/

namespace Faceplate.Terminal

open Render Video

/-- `struct input_pointer_event`, by its type. -/
inductive PointerEvent where
  | moved (x y : ℤ) (button : ℕ) (pressed : Bool)
  | button (button : ℕ) (pressed doubleClick : Bool)
  | wheel (wheel : ℤ) (button : ℕ)
  | sync
  | hideTimeout
  deriving DecidableEq, Repr

/-- The bit of `INPUT_CONTROL_MASK`. -/
def inputControlMask : ℕ := 2

variable {κ : Type*} (tsm : Tsm κ) (conf : Conf) (env : Env)

/-- Whether a display draws with OpenGL, which decides about its renderer. -/
def hasOpengl (disp : Display) : Bool := disp.backend == .drm3d

/-- `font_set`, with `true` for success. -/
def fontSet (term : Terminal κ) : Bool × Terminal κ :=
  match env.font term.fontHeight with
  | none => (false, term)
  | some font =>
    let term := { term with font := font, minCols := 0, minRows := 0 }
    let term := term.screenDisplays.foldl (fun term d =>
      (term.onText d fun txt disp =>
        (txt.set font disp.width disp.height (hasOpengl disp) (env.textSet d)).2).refreshHwCursor
          env d) term
    (true, term.updateSizeNotify tsm conf env)

/-- `zoom_in`. -/
def zoomIn (term : Terminal κ) : Terminal κ :=
  if 150 < term.fontHeight then term
  else
    let step := term.font.increaseStep
    let (ok, out) := { term with fontHeight := term.fontHeight + step }.fontSet tsm conf env
    if ok then out else term

/-- `zoom_out`. -/
def zoomOut (term : Terminal κ) : Terminal κ :=
  let step := term.font.increaseStep
  if term.fontHeight ≤ step ∨ term.fontHeight - step < 10 then term
  else
    let (ok, out) := { term with fontHeight := term.fontHeight - step }.fontSet tsm conf env
    if ok then out else term

/-- `rotate_cw_all` and `rotate_ccw_all`, which turn each screen one way. -/
def rotateAll (turn : Orientation → Orientation) (term : Terminal κ) : Terminal κ :=
  let term := term.screenDisplays.foldl (fun term d =>
    (term.onText d fun txt disp =>
      txt.rotate (turn txt.orientation) term.font disp.width disp.height (hasOpengl disp)
        (env.textSet d)).refreshHwCursor env d) term
  term.updateSizeNotify tsm conf env

/-- The action of a grab. -/
def grabAction (term : Terminal κ) : Grab → Terminal κ
  | .scrollUp => (term.onConsole (tsm.sbUp · 1)).redrawAll env
  | .scrollDown => (term.onConsole (tsm.sbDown · 1)).redrawAll env
  | .pageUp => (term.onConsole (tsm.sbPageUp · 1)).redrawAll env
  | .pageDown => (term.onConsole (tsm.sbPageDown · 1)).redrawAll env
  | .zoomIn => term.zoomIn tsm conf env
  | .zoomOut => term.zoomOut tsm conf env
  | .rotateCw => term.rotateAll tsm conf env Orientation.cw
  | .rotateCcw => term.rotateAll tsm conf env Orientation.ccw

/-- The grabs in the order in which they are looked for. -/
def grabs : List Grab :=
  [.scrollUp, .scrollDown, .pageUp, .pageDown, .zoomIn, .zoomOut, .rotateCw, .rotateCcw]

/-- The end of `input_event`: a grab, or a key for the child. -/
def handleKey (ev : KeyEvent) (term : Terminal κ) : Bool × Terminal κ :=
  match grabs.find? (conf.grabMatches · ev) with
  | some grab => (true, term.grabAction tsm conf env grab)
  | none =>
    if 1 < ev.numSyms then (ev.handled, term)
    else
      let (handled, out) := tsm.handleKeyboard term.console ev
      let term := term.vte tsm env out
      if handled then (true, (term.onConsole tsm.sbReset).redrawAll env)
      else (ev.handled, term)

/-- `input_event`, with the `handled` flag it leaves in the event. -/
def inputEvent (ev : KeyEvent) (term : Terminal κ) : Bool × Terminal κ :=
  if !term.opened || !term.panel.awake || ev.handled || !term.panel.foreground then
    (ev.handled, term)
  else
    { term.onConsole tsm.selectionReset with cursorBlinking := false }.handleKey tsm conf env ev

/-- One coordinate of `coord_to_cell`: C division, then unsigned arithmetic. -/
def coordToCell (pos : ℤ) (size cells : ℕ) : ℕ :=
  let cell := (pos.tdiv size % 2 ^ 32).toNat
  if cells ≤ cell then (((cells : ℤ) - 1) % 2 ^ 32).toNat else cell

/-- `copy_selection`. -/
def copySelection (term : Terminal κ) : Terminal κ :=
  { term with pointer := { term.pointer with copy := tsm.selectionCopy term.console } }

/-- The report of `forward_pointer_event`. -/
def pointerReport (conf : Conf) (pointer : Pointer) : PointerEvent → Option MouseReport
  | .moved _ _ button pressed =>
    some ⟨pointer.posx, pointer.posy, pointer.x, pointer.y,
      if pressed && button ≤ 2 then button + 32 else button, .moved⟩
  | .button button pressed _ =>
    some ⟨pointer.posx, pointer.posy, pointer.x, pointer.y, button,
      if pressed then .pressed else .released⟩
  | .wheel wheel _ =>
    let wheel := if conf.naturalScrolling then -wheel else wheel
    some ⟨pointer.posx, pointer.posy, pointer.x, pointer.y, if 0 < wheel then 4 else 5, .pressed⟩
  | .sync => none
  | .hideTimeout => none

/-- `forward_pointer_event`. -/
def forwardPointerEvent (ev : PointerEvent) (term : Terminal κ) : Terminal κ :=
  match pointerReport conf term.pointer ev with
  | none => term
  | some report => term.vte tsm env (tsm.handleMouse term.console report)

/-- `handle_pointer_button`. -/
def handlePointerButton (button : ℕ) (pressed doubleClick : Bool) (term : Terminal κ) :
    Terminal κ :=
  let pos := (term.pointer.posx, term.pointer.posy)
  match button with
  | 0 =>
    if pressed then
      if doubleClick then
        let term := term.onConsole (tsm.selectionWord · pos.1 pos.2)
        let term := term.copySelection tsm
        { term with pointer := { term.pointer with select := false } }
      else
        let term := { term with pointer := { term.pointer with select := true } }
        term.onConsole fun con => tsm.selectionStart (tsm.selectionReset con) pos.1 pos.2
    else
      let term := if term.pointer.select then term.copySelection tsm else term
      { term with pointer := { term.pointer with select := false } }
  | 1 =>
    if pressed then
      let term :=
        if term.pointer.copy.isEmpty then term
        else term.vte tsm env (tsm.paste term.console term.pointer.copy)
      term.onConsole tsm.selectionReset
    else term
  | 2 =>
    { term.onConsole tsm.selectionReset with
      pointer := { term.pointer with select := false } }
  | _ => term

/-- The start of `pointer_event`: where the pointer is now. -/
def movePointer (ev : PointerEvent) (term : Terminal κ) : Terminal κ :=
  match ev with
  | .moved x y _ _ =>
    { term with pointer := { term.pointer with
        visible := true
        x := x
        y := y
        posx := coordToCell x term.font.width (tsm.getWidth term.console)
        posy := coordToCell y term.font.height (tsm.getHeight term.console) } }
  | _ => term

/-- The switch of `pointer_event`. -/
def actPointer (ev : PointerEvent) (term : Terminal κ) : Terminal κ :=
  match ev with
  | .moved _ _ _ _ =>
    if term.pointer.select then
      term.onConsole (tsm.selectionTarget · term.pointer.posx term.pointer.posy)
    else term
  | .button button pressed doubleClick =>
    term.handlePointerButton tsm env button pressed doubleClick
  | .wheel wheel _ =>
    if env.mods.testBit inputControlMask then
      if 0 < wheel then term.zoomIn tsm conf env else term.zoomOut tsm conf env
    else if conf.naturalScrolling != decide (0 < wheel) then
      term.onConsole (tsm.sbUp · 3)
    else term.onConsole (tsm.sbDown · 3)
  | .sync => term.redrawAll env
  | .hideTimeout =>
    { term.onConsole tsm.selectionReset with
      pointer := { term.pointer with visible := false } }

/-- `pointer_event`. -/
def pointerEvent (ev : PointerEvent) (term : Terminal κ) : Terminal κ :=
  let term := term.movePointer tsm ev
  if term.eventsFeedActive then if ev = .sync then term.redrawAll env else term
  else if tsm.mouseTracking term.console && ev != .sync then
    term.forwardPointerEvent tsm conf env ev
  else term.actPointer tsm conf env ev

end Faceplate.Terminal
