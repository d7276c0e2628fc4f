import Mathlib.Data.List.Nodup
import Faceplate.Lib.Runs
import Faceplate.Render.Text
import Faceplate.Video.Display

/-!
# The screens of a terminal

A terminal draws on several displays. For each it keeps a `screen` with flags that
pace the drawing: nothing is drawn while a swap is in flight, a request made in
the meantime stays pending until the page flip. The functions of `terminal.c` that
draw on one screen act on that screen and its display only; a panel holds them all.
-/

namespace Faceplate.Terminal

open Render Video

/-- `struct screen`; the display is named by a number. -/
structure Screen where
  disp : ℕ
  txt : Text
  swapping : Bool
  pending : Bool
  hwCursor : Bool
  enabled : Bool
  deriving DecidableEq, Repr

namespace Screen

/-- `disable_screen`, behind `display_clear`, which changes pixels only. -/
def disableScreen (scr : Screen) (disp : Display) (ans : SwapAnswers) : Screen × Display :=
  if scr.swapping then ({ scr with pending := true, enabled := false }, disp)
  else
    let (ret, disp) := disp.displaySwap ans
    ({ scr with pending := ret == ebusy, swapping := true, enabled := false }, disp)

/-- `do_redraw_screen` of a terminal that is awake and in the foreground or not. -/
def doRedrawScreen (awake foreground : Bool) (scr : Screen) (disp : Display)
    (ans : SwapAnswers) : Screen × Display :=
  if !awake || !foreground then (scr, disp)
  else if !scr.enabled then
    if scr.pending then scr.disableScreen disp ans else (scr, disp)
  else
    let (ret, disp) := disp.displaySwap ans
    if ret ≠ 0 then ({ scr with pending := false }, disp)
    else ({ scr with pending := false, swapping := true }, disp)

/-- `redraw_screen`. -/
def redrawScreen (awake foreground : Bool) (scr : Screen) (disp : Display)
    (ans : SwapAnswers) : Screen × Display :=
  if !awake || !scr.enabled then (scr, disp)
  else if scr.swapping then ({ scr with pending := true }, disp)
  else scr.doRedrawScreen awake foreground disp ans

/-- One round of the loop of `redraw_all_text`. -/
def redrawTextScreen (awake foreground : Bool) (scr : Screen) (disp : Display)
    (ans : SwapAnswers) : Screen × Display :=
  if !awake then (scr, disp)
  else if disp.displayIsSwapping then
    { scr with swapping := true }.redrawScreen awake foreground disp ans
  else scr.redrawScreen awake foreground disp ans

/-- `display_pageflip`, the callback of a screen. -/
def displayPageflip (awake foreground : Bool) (scr : Screen) (disp : Display)
    (ans : SwapAnswers) : Screen × Display :=
  let scr := { scr with swapping := false }
  if scr.pending then scr.doRedrawScreen awake foreground disp ans else (scr, disp)

end Screen

/-- The screens of one terminal with all displays of the machine, and the two
flags of the terminal that drawing depends on. -/
structure Panel where
  awake : Bool
  foreground : Bool
  screens : List Screen
  displays : ℕ → Display

namespace Panel

/-- The panel of a new terminal, which is asleep and has no screens. -/
def init (displays : ℕ → Display) : Panel := ⟨false, true, [], displays⟩

/-- The screen on a display. -/
def find (panel : Panel) (d : ℕ) : Option Screen := panel.screens.find? (·.disp == d)

/-- Put back a screen and its display. -/
def put (panel : Panel) (d : ℕ) (out : Screen × Display) : Panel :=
  { panel with
    screens := panel.screens.map fun scr => if scr.disp = d then out.1 else scr
    displays := fun e => if e = d then out.2 else panel.displays e }

/-- Apply a function to the screen on a display. -/
def onScreen (panel : Panel) (d : ℕ) (f : Screen → Display → Screen × Display) : Panel :=
  match panel.find d with
  | none => panel
  | some scr => panel.put d (f scr (panel.displays d))

/-- The page-flip event of a display, with the callback of its screen. -/
def flipEvent (panel : Panel) (d : ℕ) (ans : SwapAnswers) : Panel :=
  let disp := (panel.displays d).completeFlip
  match panel.find d with
  | none => { panel with displays := fun e => if e = d then disp else panel.displays e }
  | some scr => panel.put d (scr.displayPageflip panel.awake panel.foreground disp ans)

/-- A fresh screen of `terminal_add_display`. -/
def newScreen (d : ℕ) (txt : Text) : Screen := ⟨d, txt, false, false, false, true⟩

/-- What happens to a panel, one screen at a time. `device` is everything else
that happens to a display: it goes offline or comes back, sleeps or wakes, is set
to a mode or swapped by someone else. -/
inductive Event where
  | redraw (d : ℕ) (ans : SwapAnswers)
  | redrawText (d : ℕ) (ans : SwapAnswers)
  | doRedraw (d : ℕ) (ans : SwapAnswers)
  | disable (d : ℕ) (ans : SwapAnswers)
  | enable (d : ℕ)
  | flip (d : ℕ) (ans : SwapAnswers)
  | setText (d : ℕ) (txt : Text)
  | setCursor (d : ℕ) (hwCursor : Bool)
  | awake (on : Bool)
  | foreground (on : Bool)
  | addScreen (d : ℕ) (txt : Text)
  | rmScreen (d : ℕ)
  | device (d : ℕ) (disp : Display)

/-- One event. A flip event comes only if one is outstanding, and nothing but the
event takes an outstanding flip back. -/
def step (panel : Panel) : Event → Panel
  | .redraw d ans =>
    panel.onScreen d fun scr disp => scr.redrawScreen panel.awake panel.foreground disp ans
  | .redrawText d ans =>
    panel.onScreen d fun scr disp => scr.redrawTextScreen panel.awake panel.foreground disp ans
  | .doRedraw d ans =>
    panel.onScreen d fun scr disp => scr.doRedrawScreen panel.awake panel.foreground disp ans
  | .disable d ans => panel.onScreen d fun scr disp => scr.disableScreen disp ans
  | .enable d => panel.onScreen d fun scr disp => ({ scr with enabled := true }, disp)
  | .flip d ans => if (panel.displays d).FlipOutstanding then panel.flipEvent d ans else panel
  | .setText d txt => panel.onScreen d fun scr disp => ({ scr with txt := txt }, disp)
  | .setCursor d hwCursor =>
    panel.onScreen d fun scr disp => ({ scr with hwCursor := hwCursor }, disp)
  | .awake on => { panel with awake := on }
  | .foreground on => { panel with foreground := on }
  | .addScreen d txt =>
    match panel.find d with
    | some _ => panel
    | none => { panel with screens := newScreen d txt :: panel.screens }
  | .rmScreen d => { panel with screens := panel.screens.filter (·.disp != d) }
  | .device d disp =>
    if (panel.displays d).FlipOutstanding → disp.FlipOutstanding then
      { panel with displays := fun e => if e = d then disp else panel.displays e }
    else panel

end Panel

end Faceplate.Terminal
