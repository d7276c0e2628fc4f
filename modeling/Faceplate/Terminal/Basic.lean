import Faceplate.Feed.Sources
import Faceplate.Pty.Basic
import Faceplate.Terminal.Screen

/-!
# The terminal object

`struct kmscon_terminal`: screens, a console with its vte, a login PTY and the
context of the last refresh. The console belongs to libtsm, which is not part of
this repository, so it is a parameter; so are the answers of the kernel and of the
display, one for each question a handler asks.
-/

namespace Faceplate

namespace Terminal

open Render Video

/-- What a vte calls back while it works: `write_event`, `mouse_event`, and
`osc_event` with one of the strings it knows. -/
inductive VteCall where
  | write (u8 : List UInt8)
  | mouse
  | foreground (on : Bool)
  deriving DecidableEq, Repr

/-- `struct input_key_event`. -/
structure KeyEvent where
  handled : Bool
  mods : ℕ
  numSyms : ℕ
  keysyms : ℕ → ℕ
  ascii : ℕ
  codepoints : ℕ → ℕ

/-- `TSM_MOUSE_EVENT_*`. -/
inductive MouseAction where
  | moved
  | pressed
  | released
  deriving DecidableEq, Repr

/-- The arguments of `tsm_vte_handle_mouse`. -/
structure MouseReport where
  posx : ℕ
  posy : ℕ
  x : ℤ
  y : ℤ
  button : ℕ
  event : MouseAction
  deriving DecidableEq, Repr

/-- What the terminal uses of libtsm: a screen together with its vte has the state
`κ`. A vte function also returns what it called back meanwhile. -/
structure Tsm (κ : Type*) where
  getWidth : κ → ℕ
  getHeight : κ → ℕ
  resize : κ → ℕ → ℕ → κ
  setMaxSb : κ → ℕ → κ
  sbReset : κ → κ
  sbUp : κ → ℕ → κ
  sbDown : κ → ℕ → κ
  sbPageUp : κ → ℕ → κ
  sbPageDown : κ → ℕ → κ
  selectionReset : κ → κ
  selectionStart : κ → ℕ → ℕ → κ
  selectionTarget : κ → ℕ → ℕ → κ
  selectionWord : κ → ℕ → ℕ → κ
  selectionCopy : κ → List UInt8
  /-- `tsm_vte_get_mouse_mode` is not `TSM_MOUSE_TRACK_DISABLE`. -/
  mouseTracking : κ → Bool
  hardReset : κ → κ × List VteCall
  input : κ → List UInt8 → κ × List VteCall
  handleKeyboard : κ → KeyEvent → Bool × κ × List VteCall
  handleMouse : κ → MouseReport → κ × List VteCall
  paste : κ → List UInt8 → κ × List VteCall

/-- The key combinations that `input_event` looks for. -/
inductive Grab where
  | scrollUp
  | scrollDown
  | pageUp
  | pageDown
  | zoomIn
  | zoomOut
  | rotateCw
  | rotateCcw
  deriving DecidableEq, Repr

/-- The configuration as far as the handlers read it. -/
structure Conf where
  /-- `multi_monitor` is "largest". -/
  largest : Bool
  sbSize : ℕ
  mouse : Bool
  softCursor : Bool
  naturalScrolling : Bool
  issue : Bool
  rotate : Orientation
  /-- `conf_grab_matches` for the grab of this name. -/
  grabMatches : Grab → KeyEvent → Bool

/-- What is outside during one handler. Answers that may be asked for repeatedly
are numbered; those about a display are by display. -/
structure Env where
  swap : ℕ → SwapAnswers
  write : ℕ → WriteResult
  mem : ℕ → ℕ
  /-- `kmscon_pty_open` succeeds with this master and child, or fails with `err`. -/
  spawned : Option (ℕ × ℕ)
  err : ℤ
  /-- The text of `kmscon_issue_get_buffer`. -/
  issue : List UInt8
  /-- `kmscon_font_find` for a font of this height. -/
  font : ℕ → Option Font
  /-- The renderer of this display can be set up. -/
  textSet : ℕ → Text.SetResult
  /-- `display_setup_cursor` works on this display. -/
  cursor : ℕ → Bool
  /-- Memory and a text renderer for a new screen are there. -/
  alloc : Bool
  /-- `input_get_mods`. -/
  mods : ℕ

/-- `struct kmscon_pointer`; without a copy `copy` is empty. -/
structure Pointer where
  visible : Bool
  select : Bool
  x : ℤ
  y : ℤ
  posx : ℕ
  posy : ℕ
  copy : List UInt8
  deriving DecidableEq, Repr

end Terminal

open Terminal Render Feed Video

/-- `struct kmscon_terminal`. The flags `awake` and foreground of the session are
in the panel. `written` lists the arguments of all calls of `kmscon_pty_write`,
and `asked` counts the answers used up. -/
structure Terminal (κ : Type*) where
  panel : Panel
  opened : Bool
  minCols : ℕ
  minRows : ℕ
  console : κ
  pty : Pty UInt8
  written : List (List UInt8)
  fontHeight : ℕ
  font : Font
  pointer : Pointer
  blinking : Bool
  cursorBlinking : Bool
  statusSources : Option (List Source)
  statusContext : Context
  statusLine : List UInt8
  statusContextValid : Bool
  eventsFeedActive : Bool
  eventsFeedStamp : ℕ
  /-- `ev_eloop_exit` was called. -/
  exited : Bool
  asked : ℕ

namespace Terminal

variable {κ : Type*}

/-- `terminal_new`, behind the calls that may fail. -/
def new (tsm : Tsm κ) (conf : Conf) (console : κ) (fontHeight : ℕ) (font : Font)
    (oneshot : Bool) (now : ℤ) (sources : Option (List Source)) (displays : ℕ → Display) :
    Terminal κ where
  panel := Panel.init displays
  opened := false
  minCols := 0
  minRows := 0
  console := tsm.setMaxSb console conf.sbSize
  pty := Pty.new oneshot now
  written := []
  fontHeight := fontHeight
  font := font
  pointer := ⟨false, false, 0, 0, 0, 0, []⟩
  blinking := false
  cursorBlinking := false
  statusSources := sources
  statusContext := Context.cleared
  statusLine := []
  statusContextValid := false
  eventsFeedActive := false
  eventsFeedStamp := 0
  exited := false
  asked := 0

/-- The displays of the screens, in the order of the list. -/
def screenDisplays (term : Terminal κ) : List ℕ := term.panel.screens.map (·.disp)

/-- Change the console. -/
def onConsole (f : κ → κ) (term : Terminal κ) : Terminal κ :=
  { term with console := f term.console }

/-- An event of the panel. -/
def draw (event : Panel.Event) (term : Terminal κ) : Terminal κ :=
  { term with panel := term.panel.step event }

/-- An event of the panel that swaps a display. -/
def drawSwap (env : Env) (event : SwapAnswers → Panel.Event) (term : Terminal κ) : Terminal κ :=
  { term with
    panel := term.panel.step (event (env.swap term.asked))
    asked := term.asked + 1 }

/-- `redraw_all`. -/
def redrawAll (env : Env) (term : Terminal κ) : Terminal κ :=
  if !term.panel.awake then term
  else term.screenDisplays.foldl (fun term d => term.drawSwap env (.redraw d)) term

/-- `redraw_all_text`. -/
def redrawAllText (env : Env) (term : Terminal κ) : Terminal κ :=
  if !term.panel.awake then term
  else term.screenDisplays.foldl (fun term d => term.drawSwap env (.redrawText d)) term

/-- Change the renderer of the screen on a display. -/
def onText (d : ℕ) (f : Text → Display → Text) (term : Terminal κ) : Terminal κ :=
  match term.panel.find d with
  | none => term
  | some scr => term.draw (.setText d (f scr.txt (term.panel.displays d)))

/-- `setup_hw_cursor`. -/
def setupHwCursor (env : Env) (d : ℕ) (term : Terminal κ) : Terminal κ :=
  term.draw (.setCursor d (env.cursor d))

/-- `refresh_hw_cursor`. -/
def refreshHwCursor (env : Env) (d : ℕ) (term : Terminal κ) : Terminal κ :=
  match term.panel.find d with
  | none => term
  | some scr => if scr.hwCursor then term.setupHwCursor env d else term

/-- `UINT_MAX`. -/
def uintMax : ℕ := 2 ^ 32 - 1

/-- `terminal_update_size_clone`. -/
def updateSizeClone (term : Terminal κ) : Bool × Terminal κ :=
  let smaller (least : ℕ) (size : ℕ) := if size ≠ 0 ∧ size < least then size else least
  let minCols := (term.panel.screens.map (·.txt.maxCols)).foldl smaller uintMax
  let minRows := (term.panel.screens.map (·.txt.maxRows)).foldl smaller uintMax
  if minCols = uintMax ∨ minRows = uintMax then (false, term)
  else if minCols = term.minCols ∧ minRows = term.minRows then (false, term)
  else (true, { term with minCols := minCols, minRows := minRows })

/-- `cells` in `terminal_update_size_largest`, an `unsigned int`, for columns and rows. -/
def cellsOf (size : ℕ × ℕ) : ℕ := size.2 * size.1 % 2 ^ 32

/-- One round of the first loop of `terminal_update_size_largest`; the first
component is `max_cells`. -/
def largerScreen (largest : ℕ × ℕ × ℕ) (scr : Screen) : ℕ × ℕ × ℕ :=
  let size := (scr.txt.maxCols, scr.txt.maxRows)
  if largest.1 < cellsOf size then (cellsOf size, size) else largest

/-- One round of its second loop. -/
def enableLargest (env : Env) (term : Terminal κ) (scr : Screen) : Terminal κ :=
  if scr.txt.maxRows ≠ term.minRows ∨ scr.txt.maxCols ≠ term.minCols then
    term.drawSwap env (.disable scr.disp)
  else term.draw (.enable scr.disp)

/-- `terminal_update_size_largest`. -/
def updateSizeLargest (env : Env) (term : Terminal κ) : Bool × Terminal κ :=
  let (maxCells, minCols, minRows) :=
    term.panel.screens.foldl largerScreen (0, term.minCols, term.minRows)
  (decide (0 < maxCells),
    term.panel.screens.foldl (enableLargest env)
      { term with minCols := minCols, minRows := minRows })

/-- The choice of the common size in `terminal_update_size`. -/
def updateMin (conf : Conf) (env : Env) (term : Terminal κ) : Bool × Terminal κ :=
  if conf.largest then term.updateSizeLargest env else term.updateSizeClone

/-- The loop of `terminal_update_size`. -/
def resizeScreens (term : Terminal κ) : Terminal κ :=
  (term.panel.screens.filter (·.enabled)).foldl
    (fun term scr => term.onText scr.disp fun txt _ => txt.resize term.minCols term.minRows) term

/-- `terminal_update_size`. -/
def updateSize (conf : Conf) (env : Env) (term : Terminal κ) : Bool × Terminal κ :=
  let (changed, term) := term.updateMin conf env
  (changed, if changed then term.resizeScreens else term)

/-- `terminal_update_size_notify`; the new size of the PTY is the child's business. -/
def updateSizeNotify (tsm : Tsm κ) (conf : Conf) (env : Env) (term : Terminal κ) : Terminal κ :=
  let (changed, term) := term.updateSize conf env
  if changed then
    (term.onConsole (tsm.resize · term.minCols term.minRows)).redrawAll env
  else term

end Terminal

end Faceplate
