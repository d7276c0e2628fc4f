import Faceplate.Feed.Refresh
import Faceplate.Terminal.Lock
import Faceplate.Terminal.Redraw

/-!
# A lock that a bad feed lifts

The reader answers every feed it rejects with a hidden snapshot that is locked, but
`refresh_events` drops hidden snapshots, and a context without events allows a
login. This file watches a terminal with one events source: the lock that its feed
last asked for, and whether the last refresh rejected the feed.
-/

namespace Faceplate.Terminal

open Render Video Feed CString

variable {κ : Type*} (tsm : Tsm κ) (conf : Conf) (env : Env)

namespace Mode

/-- A mode without what the handlers decide by themselves. -/
def known (mode : Mode) : Mode := { mode with opened := false, eventsFeedActive := false }

end Mode

theorem known_terminalOpen (term : Terminal κ) :
    (term.terminalOpen tsm conf env).mode.known = term.mode.known := by
  rcases mode_terminalOpen tsm conf env term with hsame | ⟨-, hopen⟩
  · rw [hsame]
  · rw [hopen]
    rfl

theorem known_reconcileConsoleMode (term : Terminal κ) :
    (term.reconcileConsoleMode tsm conf env).mode.known = term.mode.known := by
  unfold reconcileConsoleMode leaveFeed
  dsimp only
  split_ifs
  · rw [mode_enterFeed]
    rfl
  · rw [known_terminalOpen, (quiet_vteHardReset tsm env _).mode]
    rfl
  · rw [(quiet_redrawAll env _).mode, (quiet_vteHardReset tsm env _).mode]
    rfl
  · exact known_terminalOpen tsm conf env term
  · rfl

/-- The context and the sources after a status event are those of the refresh. -/
theorem known_statusEvent (around : Surroundings) (now : ℕ) (term : Terminal κ) :
    (term.statusEvent tsm conf env around now).mode.known =
      (term.refreshStatus around now).mode.known := by
  unfold statusEvent
  rw [(quiet_redrawAll env _).mode, known_reconcileConsoleMode]

theorem known_terminalActivate (term : Terminal κ) :
    (term.terminalActivate tsm conf env).mode.known = term.mode.known := by
  unfold terminalActivate terminalRefreshDisplays showConsole
  split_ifs
  · rfl
  · rw [(quiet_redrawAllText env _).mode, known_terminalOpen]
    rfl
  · rw [(quiet_redrawAllText env _).mode]
    rfl
  · rw [(quiet_redrawAllText env _).mode, (quiet_renderEventsFeed tsm env _).mode]
    rfl
  · rw [(quiet_redrawAllText env _).mode]
    rfl

theorem known_ptyExit (restart : Bool) (term : Terminal κ) :
    (term.ptyExit tsm conf env restart).mode.known = term.mode.known := by
  unfold ptyExit
  dsimp only
  split_ifs
  · rw [known_terminalOpen]
    rfl
  · rfl
  · rfl

/-- Only a status event changes what is known. -/
theorem known_step (term : Terminal κ) (env : Env) {event : Event}
    (hstatus : ∀ around now, event ≠ .status around now) :
    (term.step tsm conf (env, event)).mode.known = term.mode.known := by
  cases event with
  | status around now => exact absurd rfl (hstatus around now)
  | activate => exact known_terminalActivate tsm conf env term
  | deactivate => rfl
  | refreshDisplays => exact congrArg Mode.known (quiet_redrawAllText env term).mode
  | ptyExit restart => exact known_ptyExit tsm conf env restart term
  | ptyInput u8 => exact congrArg Mode.known (quiet_ptyInputCb tsm env u8 term).mode
  | ptyWriteable results => rfl
  | addDisplay d => exact congrArg Mode.known (quiet_terminalAddDisplay tsm conf env d term).mode
  | rmDisplay d => exact congrArg Mode.known (quiet_terminalRmDisplay tsm conf env d term).mode
  | key ev => exact congrArg Mode.known (quiet_inputEvent tsm conf env ev term).mode
  | pointer ev => exact congrArg Mode.known (quiet_pointerEvent tsm conf env ev term).mode
  | blink => exact congrArg Mode.known (quiet_blinkEvent env term).mode
  | cursorBlink => exact congrArg Mode.known (quiet_cursorBlinkEvent env term).mode
  | asciinema u8 => exact congrArg Mode.known (quiet_asciinemaWrite tsm env u8 term).mode
  | flip d => rfl
  | session foreground => rfl
  | device d disp => rfl

/-- A terminal with the lock that its events source last asked for, and whether the
last refresh rejected the feed. -/
structure Watch (κ : Type*) where
  term : Terminal κ
  held : Bool
  rejected : Bool

namespace Watch

/-- One event of the terminal. A refresh is judged by the source as it is then. -/
def step (watch : Watch κ) (e : Env × Event) : Watch κ :=
  let term := watch.term.step tsm conf e
  match e.2, eventsSource watch.term.statusSources with
  | .status around now, some source =>
    ⟨term, feedHeld around now source watch.held, feedRejected around now source⟩
  | _, _ => { watch with term := term }

/-- While a held lock meets a rejected feed, no login is allowed and none is open. -/
def FailsClosed (watch : Watch κ) : Prop :=
  watch.held = true → watch.rejected = true →
    watch.term.consoleLoginAllowed = false ∧ watch.term.opened = false

instance : DecidablePred (FailsClosed : Watch κ → Prop) := fun watch =>
  inferInstanceAs (Decidable (watch.held = true → _))

/-- The condition on an event: a refresh does not reject the feed while a lock is held. -/
def FeedAccepted (watch : Watch κ) : Env × Event → Prop
  | (_, .status around now) => ∀ source, eventsSource watch.term.statusSources = some source →
      watch.held = true → feedRejected around now source = false
  | _ => True

/-- What holds of a watch as long as the condition is met. -/
structure Sound (watch : Watch κ) : Prop where
  sources : ∃ sources, watch.term.statusSources = some sources ∧
    (sources.map (·.kind)).count .events = 1
  apart : watch.held = true → watch.rejected = false

theorem Sound.failsClosed {watch : Watch κ} (h : watch.Sound) : watch.FailsClosed := by
  intro hheld hrejected
  simp [h.apart hheld] at hrejected

/-- One events source is found. -/
theorem Sound.eventsSource {watch : Watch κ} (h : watch.Sound) :
    ∃ source, Feed.eventsSource watch.term.statusSources = some source := by
  obtain ⟨sources, hsources, hone⟩ := h.sources
  have hmem : SourceKind.events ∈ sources.map (·.kind) := by
    rw [← List.count_pos_iff, hone]
    exact Nat.one_pos
  obtain ⟨source, hsource, hkind⟩ := List.mem_map.mp hmem
  rw [← Option.isSome_iff_exists, hsources]
  simpa [Feed.eventsSource] using ⟨source, hsource, hkind⟩

/-- A step that is no status event keeps the sources, the lock and the verdict. -/
theorem Sound.step_of_known {watch : Watch κ} (h : watch.Sound) {term : Terminal κ}
    (hknown : term.mode.known = watch.term.mode.known) : Sound { watch with term := term } := by
  have hsame : term.statusSources = watch.term.statusSources :=
    congrArg Mode.statusSources hknown
  exact ⟨by simpa only [hsame] using h.sources, h.apart⟩

theorem sources_statusEvent {term : Terminal κ} {sources : List Source}
    (hsources : term.statusSources = some sources) (around : Surroundings) (now : ℕ) :
    (term.statusEvent tsm conf env around now).statusSources =
      some (refreshAll around now [] sources Context.cleared).1 := by
  have hknown := congrArg Mode.statusSources (known_statusEvent tsm conf env around now term)
  refine Eq.trans hknown ?_
  simp [Mode.known, mode, refreshStatus, faceplateSourcesRefresh, hsources]

/-- After a rejected refresh a login is allowed. -/
theorem loginAllowed_statusEvent {term : Terminal κ} {sources : List Source} {source : Source}
    (hsources : term.statusSources = some sources)
    (hone : (sources.map (·.kind)).count .events = 1)
    (hsource : Feed.eventsSource (some sources) = some source) {around : Surroundings} {now : ℕ}
    (h : feedRejected around now source = true) :
    (term.statusEvent tsm conf env around now).consoleLoginAllowed = true := by
  have hknown := congrArg Mode.loginAllowed (known_statusEvent tsm conf env around now term)
  have hvalid := eventsValid_of_rejected hone hsource h
  rw [consoleLoginAllowed_eq]
  refine Eq.trans hknown ?_
  simp [Mode.known, Mode.loginAllowed, mode, refreshStatus, hsources, hvalid]

/-- A step that meets the condition keeps the watch sound. -/
theorem sound_step (watch : Watch κ) (e : Env × Event) (h : watch.Sound)
    (hmeets : watch.FeedAccepted e) : (watch.step tsm conf e).Sound := by
  obtain ⟨env, event⟩ := e
  by_cases hstatus : ∃ around now, event = .status around now
  · obtain ⟨around, now, rfl⟩ := hstatus
    obtain ⟨source, hsource⟩ := h.eventsSource
    obtain ⟨sources, hsources, hone⟩ := h.sources
    simp only [step, hsource]
    refine ⟨⟨_, sources_statusEvent tsm conf env hsources around now, ?_⟩, fun hheld => ?_⟩
    · rwa [kinds_refreshAll]
    · by_contra hrejected
      simp only [Bool.not_eq_false] at hrejected
      rw [feedHeld_of_rejected hrejected] at hheld
      simp [hmeets source hsource hheld] at hrejected
  · have hother : ∀ around now, event ≠ .status around now := by
      intro around now heq
      exact hstatus ⟨around, now, heq⟩
    have hkeep := h.step_of_known (known_step tsm conf watch.term env hother)
    cases event with
    | status around now => exact absurd rfl (hother around now)
    | _ => exact hkeep

/-- A step that fails the condition lifts the lock. -/
theorem feedAccepted_of_failsClosed (watch : Watch κ) (e : Env × Event) (h : watch.Sound)
    (hclosed : (watch.step tsm conf e).FailsClosed) : watch.FeedAccepted e := by
  obtain ⟨env, event⟩ := e
  cases event with
  | status around now =>
    intro source hsource hheld
    obtain ⟨sources, hsources, hone⟩ := h.sources
    by_contra hrejected
    simp only [Bool.not_eq_false] at hrejected
    simp only [FailsClosed, step, hsource, feedHeld_of_rejected hrejected] at hclosed
    rw [hsources] at hsource
    have hdenied := (hclosed hheld hrejected).1
    have hallowed := loginAllowed_statusEvent tsm conf env hsources hone hsource hrejected
    simp only [Terminal.step] at hdenied
    simp [hallowed] at hdenied
  | _ => trivial

/-- A new terminal with these sources. -/
def init (console : κ) (fontHeight : ℕ) (font : Font) (oneshot : Bool) (now : ℤ)
    (sources : EventsSources) (displays : ℕ → Display) : Watch κ :=
  ⟨new tsm conf console fontHeight font oneshot now (some sources.list) displays, false, false⟩

/-- A terminal fails closed in every state of a run exactly if no refresh on the way
rejects the feed while a lock is held. -/
theorem failsClosed_iff_feedAccepted (console : κ) (fontHeight : ℕ) (font : Font)
    (oneshot : Bool) (now : ℤ) (sources : EventsSources) (displays : ℕ → Display)
    (events : List (Env × Event)) :
    Runs.Always (step tsm conf) FailsClosed
        (init tsm conf console fontHeight font oneshot now sources displays) events ↔
      Runs.Along (step tsm conf) FeedAccepted
        (init tsm conf console fontHeight font oneshot now sources displays) events :=
  Runs.always_iff_along (J := Sound) (fun _ => Sound.failsClosed) (sound_step tsm conf)
    (feedAccepted_of_failsClosed tsm conf) ⟨⟨sources.list, rfl, sources.one⟩, fun h => by
      simp [init] at h⟩

/-- A console without any state. -/
def plainTsm : Tsm Unit where
  getWidth _ := 80
  getHeight _ := 24
  resize _ _ _ := ()
  setMaxSb _ _ := ()
  sbReset _ := ()
  sbUp _ _ := ()
  sbDown _ _ := ()
  sbPageUp _ _ := ()
  sbPageDown _ _ := ()
  selectionReset _ := ()
  selectionStart _ _ _ := ()
  selectionTarget _ _ _ := ()
  selectionWord _ _ _ := ()
  selectionCopy _ := []
  mouseTracking _ := false
  hardReset _ := ((), [])
  input _ _ := ((), [])
  handleKeyboard _ _ := (false, (), [])
  handleMouse _ _ := ((), [])
  paste _ _ := ((), [])

/-- A configuration without mouse and grabs. -/
def plainConf : Conf := ⟨false, 1000, false, false, false, false, .normal, fun _ _ => false⟩

/-- Surroundings in which every call works. -/
def plainEnv : Env where
  swap _ := ⟨0, true, true, true, 0⟩
  write _ := .wouldBlock
  mem _ := 0
  spawned := some (3, 100)
  err := 0
  issue := []
  font _ := none
  textSet _ := .done
  cursor _ := false
  alloc := true
  mods := 0

/-- One events source of the user with id 7. -/
def oneFeed : EventsSources where
  list := [⟨.events, lit "/run/agent/faceplate.events", lit "agent", 0, 60000, false⟩]
  one := rfl

/-- A feed that asks for the lock. -/
def lockedFeed : List UInt8 :=
  lit "FACEPLATE_EVENTS_V1\nupdated_boottime_ms=1000\nconsole=locked\ncount=0\n"

/-- The feed as a file of its user with these permissions. -/
def feedFile (mode : ℕ) : Surroundings where
  fs _ := some fun _ => .opened ⟨some ⟨true, 1, 7, mode, lockedFeed.length⟩, lockedFeed, true⟩
  getpwnam _ := some 7
  alloc := true
  stack _ := []

/-- The feed is accepted, and then made writable by everyone. -/
def unsafeMode : List (Env × Event) :=
  [(plainEnv, .status (feedFile 0o640) 2000), (plainEnv, .status (feedFile 0o666) 7000)]

theorem unsafeMode_not_failsClosed :
    ¬ Runs.Always (step plainTsm plainConf) FailsClosed
      (init plainTsm plainConf () 16 ⟨8, 16, 16⟩ false 0 oneFeed fun _ => Panel.idleDisplay)
      unsafeMode := by
  decide +kernel

end Watch

end Faceplate.Terminal
