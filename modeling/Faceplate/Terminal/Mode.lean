import Faceplate.Terminal.Basic

/-!
# Login and events feed

A terminal shows either a login or a passive feed of events. Which of the two is
decided by the context of the last refresh: `status_event` takes a new one and
reconciles the terminal with it, and whoever wants to open the login asks first.
-/

namespace Faceplate.Terminal

open Render Video Feed CString

variable {κ : Type*} (tsm : Tsm κ) (conf : Conf) (env : Env)

/-- `write_event`. -/
def writeEvent (term : Terminal κ) (u8 : List UInt8) : Terminal κ :=
  { term with
    pty := (term.pty.kmsconPtyWrite ⟨u8, env.write term.asked, env.mem term.asked⟩).2.1
    written := term.written ++ [u8]
    asked := term.asked + 1 }

/-- `mouse_event`. -/
def mouseEvent (term : Terminal κ) : Terminal κ :=
  { term with
    pointer := { term.pointer with select := false }
    console := tsm.selectionReset term.console }

/-- A call from the vte. Through `osc_event` a program may move its session to the
foreground or the background. -/
def vteCall (term : Terminal κ) : VteCall → Terminal κ
  | .write u8 => term.writeEvent env u8
  | .mouse => term.mouseEvent tsm
  | .foreground on => term.draw (.foreground on)

/-- The effect of a vte function: the new console, then the calls it made. -/
def vte (term : Terminal κ) (out : κ × List VteCall) : Terminal κ :=
  out.2.foldl (vteCall tsm env) { term with console := out.1 }

/-- `tsm_vte_input`. -/
def vteInput (u8 : List UInt8) (term : Terminal κ) : Terminal κ :=
  term.vte tsm env (tsm.input term.console u8)

/-- `tsm_vte_hard_reset`. -/
def vteHardReset (term : Terminal κ) : Terminal κ := term.vte tsm env (tsm.hardReset term.console)

/-- `console_login_allowed`. -/
def consoleLoginAllowed (term : Terminal κ) : Bool :=
  if !term.statusContextValid || !term.statusContext.eventsValid then true
  else !term.statusContext.consoleLocked

/-- The end of a line for the vte. -/
def crlf : List UInt8 := [0x0d, 0x0a]

/-- The lines that `render_events_feed` writes: as many of the last events as fit
below each other, each cut to the width and to its buffer. -/
def feedLines (events : Events.Snapshot) (cols rows : ℕ) : List (List UInt8) :=
  let cols := if cols = 0 then 80 else cols
  let rows := if rows = 0 then 24 else rows
  let capacity := if 1 < rows then rows - 1 else rows
  if events.count = 0 then [lit "Waiting for device activity..." ++ crlf]
  else
    ((events.lines.take events.count).drop (events.count - capacity)).map fun line =>
      (line.text.take cols).take 255 ++ crlf

/-- The stamp that `render_events_feed` leaves. -/
def stampFeed (term : Terminal κ) : Terminal κ :=
  { term with eventsFeedStamp := term.statusContext.events.updatedBoottimeMs }

/-- `render_events_feed`. -/
def renderEventsFeed (term : Terminal κ) : Terminal κ :=
  let lines := feedLines term.statusContext.events (tsm.getWidth term.console)
    (tsm.getHeight term.console)
  let term := term.vteHardReset tsm env
  let term := term.onConsole fun con => tsm.sbReset (tsm.setMaxSb con 0)
  let term := lines.foldl (fun term line => term.vteInput tsm env line) term
  term.stampFeed.redrawAll env

/-- `terminal_open`. -/
def terminalOpen (term : Terminal κ) : Terminal κ :=
  if !term.consoleLoginAllowed then term
  else if term.opened then term
  else
    let term := term.vteHardReset tsm env
    let (ret, pty) := term.pty.kmsconPtyOpen env.spawned env.err
    let term := { term with pty := pty }
    if ret ≠ 0 then term
    else
      let term := { term with opened := true }
      let term := if conf.issue then term.vteInput tsm env env.issue else term
      term.redrawAll env

/-- `terminal_close`. -/
def terminalClose (term : Terminal κ) : Terminal κ :=
  { term with pty := term.pty.kmsconPtyClose, opened := false }

/-- `want_feed` of `reconcile_console_mode`. -/
def wantFeed (term : Terminal κ) : Bool :=
  term.statusContextValid && term.statusContext.eventsValid && term.statusContext.consoleLocked

/-- The branch of `reconcile_console_mode` for a locked console. -/
def enterFeed (term : Terminal κ) : Terminal κ :=
  let term := if term.opened then term.terminalClose else term
  let term :=
    if !term.eventsFeedActive ||
        term.eventsFeedStamp != term.statusContext.events.updatedBoottimeMs then
      term.renderEventsFeed tsm env
    else term
  { term with eventsFeedActive := true }

/-- The branch of `reconcile_console_mode` for a feed that is no longer wanted. -/
def leaveFeed (term : Terminal κ) : Terminal κ :=
  let term := { term with eventsFeedActive := false }
  let term := (term.onConsole (tsm.setMaxSb · conf.sbSize)).vteHardReset tsm env
  if term.panel.awake && !term.opened then term.terminalOpen tsm conf env else term.redrawAll env

/-- `reconcile_console_mode`. -/
def reconcileConsoleMode (term : Terminal κ) : Terminal κ :=
  if term.wantFeed then term.enterFeed tsm env
  else if term.eventsFeedActive then term.leaveFeed tsm conf env
  else if term.panel.awake && !term.opened && term.consoleLoginAllowed then
    term.terminalOpen tsm conf env
  else term

/-- The start of `status_event`: the context is refreshed and the status line
taken from it. -/
def refreshStatus (around : Surroundings) (now : ℕ) (term : Terminal κ) : Terminal κ :=
  let (sources, ctx) := faceplateSourcesRefresh around now term.statusSources
  { term with
    statusSources := sources
    statusContext := ctx
    statusContextValid := true
    statusLine :=
      fit 160 (if !ctx.compactLine.isEmpty then ctx.compactLine else ctx.supportingLine) }

/-- `status_event`. -/
def statusEvent (around : Surroundings) (now : ℕ) (term : Terminal κ) : Terminal κ :=
  ((term.refreshStatus around now).reconcileConsoleMode tsm conf env).redrawAll env

end Faceplate.Terminal
