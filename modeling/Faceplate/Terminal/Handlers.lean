import Faceplate.Terminal.Input

/-!
# The handlers of a terminal

Everything that happens to a terminal from outside, as one step function: timers,
the session, the child of the PTY, displays that come and go, and input.
-/

namespace Faceplate.Terminal

open Render Video Feed

variable {κ : Type*} (tsm : Tsm κ) (conf : Conf) (env : Env)

/-- `terminal_refresh_displays`. -/
def terminalRefreshDisplays (term : Terminal κ) : Terminal κ := term.redrawAllText env

/-- What `terminal_activate` shows: a login if it may, or what was there before. -/
def showConsole (term : Terminal κ) : Terminal κ :=
  if !term.opened && term.consoleLoginAllowed then term.terminalOpen tsm conf env
  else if term.opened then term
  else if term.eventsFeedActive then term.renderEventsFeed tsm env
  else term

/-- `terminal_activate`. -/
def terminalActivate (term : Terminal κ) : Terminal κ :=
  if term.panel.screens.isEmpty then term
  else ((term.draw (.awake true)).showConsole tsm conf env).terminalRefreshDisplays env

/-- `terminal_deactivate`. -/
def terminalDeactivate (term : Terminal κ) : Terminal κ := term.draw (.awake false)

/-- `pty_input`, the callback for output of the child. -/
def ptyInputCb (u8 : List UInt8) (term : Terminal κ) : Terminal κ :=
  if u8.isEmpty then term else (term.vteInput tsm env u8).redrawAll env

/-- `pty_exit`. -/
def ptyExit (restart : Bool) (term : Terminal κ) : Terminal κ :=
  let term := term.terminalClose
  if restart then
    if term.consoleLoginAllowed then term.terminalOpen tsm conf env else term
  else { term with exited := true }

/-- `asciinema_write`. -/
def asciinemaWrite (u8 : List UInt8) (term : Terminal κ) : Terminal κ :=
  if !term.opened || !term.panel.awake || !term.panel.foreground then term
  else (term.vteInput tsm env u8).redrawAll env

/-- `blink_event`. -/
def blinkEvent (term : Terminal κ) : Terminal κ :=
  if !term.panel.awake then term else { term with blinking := !term.blinking }.redrawAll env

/-- `cursor_blink_event`. -/
def cursorBlinkEvent (term : Terminal κ) : Terminal κ :=
  if !term.panel.awake then term
  else { term with cursorBlinking := !term.cursorBlinking }.redrawAll env

/-- The renderer of a new screen: `kmscon_text_new` and `kmscon_text_set`. -/
def newText (d : ℕ) (term : Terminal κ) : Bool × Text :=
  let disp := term.panel.displays d
  Text.set ⟨conf.rotate, 0, 0, 0, 0⟩ term.font disp.width disp.height (hasOpengl disp)
    (env.textSet d)

/-- `terminal_add_display`. -/
def terminalAddDisplay (d : ℕ) (term : Terminal κ) : Terminal κ :=
  match term.panel.find d with
  | some _ => term
  | none =>
    if !env.alloc then term
    else
      let (ok, txt) := term.newText conf env d
      if !ok then term
      else
        let term := term.draw (.addScreen d txt)
        let term := if conf.mouse && !conf.softCursor then term.setupHwCursor env d else term
        let term := term.updateSizeNotify tsm conf env
        let term := term.onText d fun txt _ => txt.resize term.minCols term.minRows
        term.drawSwap env (.doRedraw d)

/-- `terminal_rm_display`, with `free_screen`. -/
def terminalRmDisplay (d : ℕ) (term : Terminal κ) : Terminal κ :=
  match term.panel.find d with
  | none => term
  | some _ => (term.draw (.rmScreen d)).updateSizeNotify tsm conf env

/-- What happens to a terminal. `ptyWriteable` is the PTY becoming writable,
`flip` the page flip of a display, `session` its session moving to the foreground
or out of it, and `device` any other change of a display. -/
inductive Event where
  | status (around : Surroundings) (now : ℕ)
  | activate
  | deactivate
  | refreshDisplays
  | ptyExit (restart : Bool)
  | ptyInput (u8 : List UInt8)
  | ptyWriteable (results : List WriteResult)
  | addDisplay (d : ℕ)
  | rmDisplay (d : ℕ)
  | key (ev : KeyEvent)
  | pointer (ev : PointerEvent)
  | blink
  | cursorBlink
  | asciinema (u8 : List UInt8)
  | flip (d : ℕ)
  | session (foreground : Bool)
  | device (d : ℕ) (disp : Display)

/-- One event, with what is outside meanwhile. -/
def step (term : Terminal κ) : Env × Event → Terminal κ
  | (env, .status around now) => term.statusEvent tsm conf env around now
  | (env, .activate) => term.terminalActivate tsm conf env
  | (_, .deactivate) => term.terminalDeactivate
  | (env, .refreshDisplays) => term.terminalRefreshDisplays env
  | (env, .ptyExit restart) => term.ptyExit tsm conf env restart
  | (env, .ptyInput u8) => term.ptyInputCb tsm env u8
  | (_, .ptyWriteable results) => { term with pty := (term.pty.sendBuf results).1 }
  | (env, .addDisplay d) => term.terminalAddDisplay tsm conf env d
  | (env, .rmDisplay d) => term.terminalRmDisplay tsm conf env d
  | (env, .key ev) => (term.inputEvent tsm conf env ev).2
  | (env, .pointer ev) => term.pointerEvent tsm conf env ev
  | (env, .blink) => term.blinkEvent env
  | (env, .cursorBlink) => term.cursorBlinkEvent env
  | (env, .asciinema u8) => term.asciinemaWrite tsm env u8
  | (env, .flip d) => term.drawSwap env (.flip d)
  | (_, .session foreground) => term.draw (.foreground foreground)
  | (_, .device d disp) => term.draw (.device d disp)

end Faceplate.Terminal
