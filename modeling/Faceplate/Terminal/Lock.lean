import Faceplate.Terminal.Frame

/-!
# A locked console has no login

The context of the last refresh may say that the console is locked. Then no
handler leaves the login open, and while the terminal shows the feed no input
reaches the child or the console. Every handler is followed through its effect on
the mode.
-/

namespace Faceplate.Terminal

open Render Video Feed

variable {κ : Type*} (tsm : Tsm κ) (conf : Conf) (env : Env)

/-- The last refresh says that the console is locked. -/
def Locked (term : Terminal κ) : Prop :=
  term.statusContextValid = true ∧ term.statusContext.eventsValid = true ∧
    term.statusContext.consoleLocked = true

/-- Neither the console nor the PTY was touched. -/
def Untouched (term term' : Terminal κ) : Prop :=
  term'.console = term.console ∧ term'.pty = term.pty ∧ term'.written = term.written

/-- Lock safety between two handlers. -/
structure LockSafe (term : Terminal κ) : Prop where
  closed : term.Locked → term.opened = false
  exclusive : ¬ (term.opened = true ∧ term.eventsFeedActive = true)
  key : term.eventsFeedActive = true → ∀ env ev, term.Untouched (term.inputEvent tsm conf env ev).2
  pointer : term.eventsFeedActive = true →
    ∀ env ev, term.Untouched (term.pointerEvent tsm conf env ev)

namespace Mode

/-- `console_login_allowed` on a mode. -/
def loginAllowed (mode : Mode) : Bool :=
  !mode.statusContextValid || !mode.statusContext.eventsValid || !mode.statusContext.consoleLocked

/-- The invariant: what is opened is allowed, and the feed is shown only where a
login is not. -/
structure Safe (mode : Mode) : Prop where
  opened : mode.opened = true → mode.loginAllowed = true
  feed : mode.eventsFeedActive = true → mode.loginAllowed = false

/-- Where a login is allowed and no feed is shown, anything is safe. -/
theorem safe_of_allowed {mode : Mode} (hallowed : mode.loginAllowed = true)
    (hfeed : mode.eventsFeedActive = false) : mode.Safe :=
  ⟨fun _ => hallowed, fun h => by simp [hfeed] at h⟩

theorem Safe.close {mode : Mode} (h : mode.Safe) : Safe { mode with opened := false } :=
  ⟨fun hopened => by simp at hopened, h.feed⟩

end Mode

theorem consoleLoginAllowed_eq (term : Terminal κ) :
    term.consoleLoginAllowed = term.mode.loginAllowed := by
  simp only [consoleLoginAllowed, Mode.loginAllowed, mode]
  split_ifs with h <;> simp_all

theorem wantFeed_eq (term : Terminal κ) : term.wantFeed = !term.mode.loginAllowed := by
  simp [wantFeed, Mode.loginAllowed, mode]

/-- `terminal_open` can only open, and only if that is allowed. -/
theorem mode_terminalOpen (term : Terminal κ) :
    (term.terminalOpen tsm conf env).mode = term.mode ∨
      term.mode.loginAllowed = true ∧
        (term.terminalOpen tsm conf env).mode = { term.mode with opened := true } := by
  unfold terminalOpen
  rw [consoleLoginAllowed_eq]
  by_cases hallowed : term.mode.loginAllowed = true
  · have hreset := (quiet_vteHardReset tsm env term).mode
    simp only [hallowed, Bool.not_true, Bool.false_eq_true, if_false, true_and]
    split_ifs with hopened hret hissue
    · exact .inl rfl
    · exact .inl hreset
    · right
      rw [(quiet_redrawAll env _).mode, (quiet_vteInput tsm env _ _).mode, ← hreset]
      rfl
    · right
      rw [(quiet_redrawAll env _).mode, ← hreset]
      rfl
  · simp [hallowed]

theorem safe_terminalOpen {term : Terminal κ} (h : term.mode.Safe) :
    (term.terminalOpen tsm conf env).mode.Safe := by
  rcases mode_terminalOpen tsm conf env term with hsame | ⟨hallowed, hopen⟩
  · rwa [hsame]
  · rw [hopen]
    exact ⟨fun _ => hallowed, h.feed⟩

/-- Entering the feed closes the login. -/
theorem mode_enterFeed (term : Terminal κ) : (term.enterFeed tsm env).mode =
    { term.mode with opened := false, eventsFeedActive := true } := by
  have hclose : (if term.opened then term.terminalClose else term).mode =
      { term.mode with opened := false } := by
    split_ifs with hopened
    · rfl
    · simp [mode, hopened]
  unfold enterFeed
  dsimp only
  generalize (if term.opened then term.terminalClose else term) = closed at hclose ⊢
  have hrender : (if !closed.eventsFeedActive ||
      closed.eventsFeedStamp != closed.statusContext.events.updatedBoottimeMs then
        closed.renderEventsFeed tsm env else closed).mode = closed.mode :=
    (Quiet.ite (quiet_renderEventsFeed tsm env closed) (.refl closed)).mode
  generalize (if !closed.eventsFeedActive || _ then _ else closed) = shown at hrender ⊢
  have hmode := hrender.trans hclose
  simp only [mode, Mode.mk.injEq] at hmode ⊢
  simp [hmode]

/-- Whatever the mode was, `reconcile_console_mode` leaves a safe one. -/
theorem safe_reconcileConsoleMode (term : Terminal κ) :
    (term.reconcileConsoleMode tsm conf env).mode.Safe := by
  unfold reconcileConsoleMode
  rw [wantFeed_eq]
  cases hallowed : term.mode.loginAllowed with
  | false =>
    simp only [Bool.not_false, if_true, mode_enterFeed]
    exact ⟨fun hopened => by simp at hopened, fun _ => hallowed⟩
  | true =>
    simp only [Bool.not_true, Bool.false_eq_true, if_false]
    split_ifs with hfeed hopen
    · unfold leaveFeed
      have hreset := (quiet_vteHardReset tsm env
        (onConsole (tsm.setMaxSb · conf.sbSize) { term with eventsFeedActive := false })).mode
      have hsafe : (vteHardReset tsm env (onConsole (tsm.setMaxSb · conf.sbSize)
          { term with eventsFeedActive := false })).mode.Safe := by
        rw [hreset]
        exact Mode.safe_of_allowed hallowed rfl
      dsimp only
      split_ifs
      · exact safe_terminalOpen tsm conf env hsafe
      · rwa [(quiet_redrawAll env _).mode]
    · exact safe_terminalOpen tsm conf env
        (Mode.safe_of_allowed hallowed (by simpa [mode] using hfeed))
    · exact Mode.safe_of_allowed hallowed (by simpa [mode] using hfeed)

theorem safe_statusEvent (around : Surroundings) (now : ℕ) (term : Terminal κ) :
    (term.statusEvent tsm conf env around now).mode.Safe := by
  unfold statusEvent
  rw [(quiet_redrawAll env _).mode]
  exact safe_reconcileConsoleMode tsm conf env _

theorem safe_showConsole {term : Terminal κ} (h : term.mode.Safe) :
    (term.showConsole tsm conf env).mode.Safe := by
  unfold showConsole
  split_ifs
  · exact safe_terminalOpen tsm conf env h
  · exact h
  · rwa [(quiet_renderEventsFeed tsm env term).mode]
  · exact h

theorem safe_terminalActivate {term : Terminal κ} (h : term.mode.Safe) :
    (term.terminalActivate tsm conf env).mode.Safe := by
  have hawake : (term.draw (.awake true)).mode.Safe := h
  unfold terminalActivate terminalRefreshDisplays
  split_ifs
  · exact h
  · rw [(quiet_redrawAllText env _).mode]
    exact safe_showConsole tsm conf env hawake

theorem safe_ptyExit {term : Terminal κ} (restart : Bool) (h : term.mode.Safe) :
    (term.ptyExit tsm conf env restart).mode.Safe := by
  have hclose : term.terminalClose.mode.Safe := h.close
  unfold ptyExit
  dsimp only
  split_ifs
  · exact safe_terminalOpen tsm conf env hclose
  · exact hclose
  · exact hclose

/-- Every handler keeps the mode safe. -/
theorem safe_step (term : Terminal κ) (e : Env × Event) (h : term.mode.Safe) :
    (term.step tsm conf e).mode.Safe := by
  obtain ⟨env, event⟩ := e
  cases event with
  | status around now => exact safe_statusEvent tsm conf env around now term
  | activate => exact safe_terminalActivate tsm conf env h
  | deactivate => exact h
  | refreshDisplays => exact (quiet_redrawAllText env term).mode ▸ h
  | ptyExit restart => exact safe_ptyExit tsm conf env restart h
  | ptyInput u8 => exact (quiet_ptyInputCb tsm env u8 term).mode ▸ h
  | ptyWriteable results => exact h
  | addDisplay d => exact (quiet_terminalAddDisplay tsm conf env d term).mode ▸ h
  | rmDisplay d => exact (quiet_terminalRmDisplay tsm conf env d term).mode ▸ h
  | key ev => exact (quiet_inputEvent tsm conf env ev term).mode ▸ h
  | pointer ev => exact (quiet_pointerEvent tsm conf env ev term).mode ▸ h
  | blink => exact (quiet_blinkEvent env term).mode ▸ h
  | cursorBlink => exact (quiet_cursorBlinkEvent env term).mode ▸ h
  | asciinema u8 => exact (quiet_asciinemaWrite tsm env u8 term).mode ▸ h
  | flip d => exact h
  | session foreground => exact h
  | device d disp => exact h

/-- Drawing touches neither console nor PTY. -/
theorem untouched_redrawAll (term : Terminal κ) : Untouched term (term.redrawAll env) := by
  unfold redrawAll
  split_ifs with hasleep
  · exact ⟨rfl, rfl, rfl⟩
  clear hasleep
  generalize term.screenDisplays = displays
  induction displays generalizing term with
  | nil => exact ⟨rfl, rfl, rfl⟩
  | cons d displays ih => exact ih (term.drawSwap env (.redraw d))

theorem untouched_inputEvent {term : Terminal κ} (hclosed : term.opened = false) (ev : KeyEvent) :
    Untouched term (term.inputEvent tsm conf env ev).2 := by
  simp [inputEvent, hclosed, Untouched]

theorem untouched_movePointer (ev : PointerEvent) (term : Terminal κ) :
    Untouched term (term.movePointer tsm ev) := by
  cases ev <;> exact ⟨rfl, rfl, rfl⟩

theorem untouched_pointerEvent {term : Terminal κ} (hfeed : term.eventsFeedActive = true)
    (ev : PointerEvent) : Untouched term (term.pointerEvent tsm conf env ev) := by
  have hmove := untouched_movePointer tsm ev term
  have hstill : (term.movePointer tsm ev).eventsFeedActive = true := by
    cases ev <;> exact hfeed
  unfold pointerEvent
  dsimp only
  rw [if_pos hstill]
  split_ifs
  · obtain ⟨hconsole, hpty, hwritten⟩ := untouched_redrawAll env (term.movePointer tsm ev)
    exact ⟨hconsole.trans hmove.1, hpty.trans hmove.2.1, hwritten.trans hmove.2.2⟩
  · exact hmove

/-- A safe mode makes the terminal lock safe. -/
theorem lockSafe_of_safe {term : Terminal κ} (h : term.mode.Safe) : term.LockSafe tsm conf := by
  have hexclusive (hopened : term.opened = true) : term.eventsFeedActive = false := by
    by_contra hfeed
    have hdenied := h.feed (by simpa [mode] using hfeed)
    simp [h.opened hopened] at hdenied
  have hclosed (hfeed : term.eventsFeedActive = true) : term.opened = false := by
    by_contra hopened
    simp [hexclusive (by simpa using hopened)] at hfeed
  constructor
  · rintro ⟨hvalid, hevents, hlocked⟩
    by_contra hopened
    have hallowed := h.opened (by simpa [mode] using hopened)
    simp [Mode.loginAllowed, mode, hvalid, hevents, hlocked] at hallowed
  · rintro ⟨hopened, hfeed⟩
    simp [hexclusive hopened] at hfeed
  · exact fun hfeed env ev => untouched_inputEvent tsm conf env (hclosed hfeed) ev
  · exact fun hfeed env ev => untouched_pointerEvent tsm conf env hfeed ev

theorem safe_new (console : κ) (fontHeight : ℕ) (font : Font) (oneshot : Bool) (now : ℤ)
    (sources : Option (List Source)) (displays : ℕ → Display) :
    (new tsm conf console fontHeight font oneshot now sources displays).mode.Safe :=
  ⟨fun h => by simp [new, mode] at h, fun h => by simp [new, mode] at h⟩

/-- In every state that a new terminal passes through, whatever its handlers are
called with and in whatever order, a locked console has no login. -/
theorem lockSafe_always (console : κ) (fontHeight : ℕ) (font : Font) (oneshot : Bool) (now : ℤ)
    (sources : Option (List Source)) (displays : ℕ → Display) (events : List (Env × Event)) :
    Runs.Always (step tsm conf) (LockSafe tsm conf)
      (new tsm conf console fontHeight font oneshot now sources displays) events :=
  Runs.always_iff_prefix.mpr fun pre _ => lockSafe_of_safe tsm conf
    (Runs.invariant_run (J := fun term : Terminal κ => term.mode.Safe) (safe_step tsm conf)
      (safe_new tsm conf console fontHeight font oneshot now sources displays) pre)

end Faceplate.Terminal
