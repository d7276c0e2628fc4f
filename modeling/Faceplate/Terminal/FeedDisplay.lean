import Faceplate.Feed.EventTexts
import Faceplate.Terminal.Console
import Faceplate.Terminal.FailClosed

/-!
# What the events feed shows

The console should show the last events of the snapshot in the context. A tick that finds
the feed active draws it only if the stamp of the snapshot is another one than that of the
last drawing, while the events and the size of the grid may have changed with it or
without it. The run below remembers what was drawn.
-/

namespace Faceplate.Terminal

open Render Video Feed CString

variable {κ : Type*} (tsm : Tsm κ) (conf : Conf)

/-- What a feed without events shows. -/
def waiting : List UInt8 := lit "Waiting for device activity..."

/-- The rows of a feed in so many columns and rows: the last events, one row each, cut to
the columns. The last row stays free for the cursor. -/
def feedRows (events : Events.Snapshot) (size : ℕ × ℕ) : List (List UInt8) :=
  if events.count = 0 then (wrapped size.1 waiting).rtake (size.2 - 1)
  else
    ((events.lines.take events.count).rtake (min events.count (size.2 - 1))).map
      (·.text.take size.1)

/-- Where the feed is active on an awake terminal with at least two rows, the console shows
the events in the context. -/
def FeedShown {tsm : Tsm κ} (v : Vte tsm) (term : Terminal κ) : Prop :=
  term.eventsFeedActive = true → term.panel.awake = true → 2 ≤ tsm.getHeight term.console →
    v.Shows term.console (feedRows term.statusContext.events (tsm.size term.console))

/-- A tick of the status timer, an operation that chooses a size, or the session. -/
inductive FeedEvent where
  | tick (around : Surroundings) (now : ℕ)
  | size (op : Op)
  | activate
  | deactivate

/-- One of these, with what is outside meanwhile. -/
def feedStep (term : Terminal κ) : Env × FeedEvent → Terminal κ
  | (env, .tick around now) => term.statusEvent tsm conf env around now
  | (env, .size op) => opStep tsm conf term (env, op)
  | (env, .activate) => term.terminalActivate tsm conf env
  | (_, .deactivate) => term.terminalDeactivate

/-- A refreshed terminal keeps the feed that it shows. -/
def keepsFeed (term : Terminal κ) : Bool :=
  term.eventsFeedActive && term.eventsFeedStamp == term.statusContext.events.updatedBoottimeMs

/-- A terminal and the rows with which the feed was last drawn, unless the size of the
console has changed since. -/
structure Drawn (κ : Type*) where
  term : Terminal κ
  rows : Option (List (List UInt8))

namespace Drawn

/-- What has been drawn after an event. -/
def rowsAfter (s : Drawn κ) (term : Terminal κ) : FeedEvent → Option (List (List UInt8))
  | .tick around now =>
    let fresh := s.term.refreshStatus around now
    if fresh.wantFeed && !fresh.keepsFeed then
      some (feedRows fresh.statusContext.events (tsm.size s.term.console))
    else s.rows
  | .size _ => if tsm.size term.console = tsm.size s.term.console then s.rows else none
  | .activate =>
    if s.term.eventsFeedActive && !s.term.panel.screens.isEmpty then
      some (feedRows s.term.statusContext.events (tsm.size s.term.console))
    else s.rows
  | .deactivate => s.rows

/-- One event. -/
def step (s : Drawn κ) (e : Env × FeedEvent) : Drawn κ :=
  ⟨feedStep tsm conf s.term e, s.rowsAfter tsm (feedStep tsm conf s.term e) e.2⟩

/-- The condition on an event: a tick that keeps the feed finds the rows it should show
just as they were drawn. -/
def Current (s : Drawn κ) : Env × FeedEvent → Prop
  | (_, .tick around now) =>
    let fresh := s.term.refreshStatus around now
    fresh.wantFeed = true → fresh.keepsFeed = true →
      s.rows = some (feedRows fresh.statusContext.events (tsm.size s.term.console))
  | _ => True

instance (s : Drawn κ) : ∀ e, Decidable (s.Current tsm e)
  | (_, .tick _ _) => inferInstanceAs (Decidable (_ → _ → _))
  | (_, .size _) => inferInstanceAs (Decidable True)
  | (_, .activate) => inferInstanceAs (Decidable True)
  | (_, .deactivate) => inferInstanceAs (Decidable True)

end Drawn

section Drawing

variable {tsm} {conf} {v : Vte tsm} {env : Env} {term : Terminal κ}

theorem feedLines_waiting {events : Events.Snapshot} (hcount : events.count = 0) (cols rows : ℕ) :
    feedLines events cols rows = [waiting ++ crlf] := by
  simp only [feedLines, if_pos hcount, waiting]

/-- The lines that are written for the events. -/
theorem feedLines_eq {events : Events.Snapshot} (hsound : events.Sound) (hcount : events.count ≠ 0)
    {cols rows : ℕ} (hcols : 0 < cols) (hrows : 2 ≤ rows) :
    feedLines events cols rows = (feedRows events (cols, rows)).map (· ++ crlf) := by
  have hlen : (events.lines.take events.count).length = events.count := by
    rw [List.length_take, Nat.min_eq_left hsound.count_le]
  have hdrop : (events.lines.take events.count).rtake (min events.count (rows - 1)) =
      (events.lines.take events.count).drop (events.count - (rows - 1)) := by
    rw [List.rtake, hlen]
    congr 1
    omega
  have hsome : rows ≠ 0 := by omega
  have hmore : 1 < rows := by omega
  simp only [feedLines, feedRows, if_neg hcount, if_neg (Nat.ne_of_gt hcols), if_neg hsome,
    if_pos hmore, hdrop, List.map_map]
  apply List.map_congr_left
  intro line hline
  have hshort := (Events.text_of_tokenValid (hsound.texts line (List.mem_of_mem_drop hline))).1
  have hcut : (line.text.take cols).take 255 = line.text.take cols := by
    apply List.take_of_length_le
    rw [List.length_take]
    omega
  rw [hcut]
  rfl

theorem printable_waiting : ∀ c ∈ waiting, Printable c := by decide +kernel

/-- The rows of a feed with events are short enough for the console. -/
theorem feedRows_fit {events : Events.Snapshot} (hsound : events.Sound) (hcount : events.count ≠ 0)
    (size : ℕ × ℕ) : (feedRows events size).length ≤ size.2 - 1 ∧
      ∀ row ∈ feedRows events size, row.length ≤ size.1 ∧ ∀ c ∈ row, Printable c := by
  rw [feedRows, if_neg hcount]
  constructor
  · simp only [List.length_map, List.rtake, List.length_drop]
    omega
  · intro row hrow
    obtain ⟨line, hline, rfl⟩ := List.mem_map.mp hrow
    have hchars := (Events.text_of_tokenValid
      (hsound.texts line (List.mem_of_mem_drop hline))).2
    exact ⟨List.length_take_le _ _, fun c hc => hchars c (List.mem_of_mem_take hc)⟩

/-- Drawing the feed puts its rows on the console. -/
theorem holds_renderEventsFeed (v : Vte tsm) (hsound : term.statusContext.events.Sound)
    (hrows : 2 ≤ tsm.getHeight term.console) :
    v.Holds (term.renderEventsFeed tsm env).console (tsm.size term.console)
      (feedRows term.statusContext.events (tsm.size term.console)) := by
  have hclear : v.Holds ((term.vteHardReset tsm env).onConsole fun con =>
      tsm.sbReset (tsm.setMaxSb con 0)).console (tsm.size term.console) [] := by
    have hreset := @Vte.holds_reset κ tsm v env term
    refine ⟨v.sbReset _ _ (v.setMaxSb _ _ _ hreset.written), ?_⟩
    exact (v.size_sbReset _).trans ((v.size_setMaxSb _ _).trans hreset.size)
  unfold renderEventsFeed
  dsimp only
  rw [console_redrawAll]
  by_cases hcount : term.statusContext.events.count = 0
  · have hline := @Vte.Holds.line _ _ _ _ _ env _ hclear _ printable_waiting
    rw [List.nil_append] at hline
    rw [feedLines_waiting hcount, feedRows, if_pos hcount, List.foldl_cons, List.foldl_nil]
    exact ⟨hline.written, hline.size⟩
  · obtain ⟨hlength, hfit⟩ := feedRows_fit hsound hcount (tsm.size term.console)
    rw [feedLines_eq hsound hcount (v.width_pos _) hrows]
    exact hclear.lines (fun row hrow => (hfit row hrow).2) (fun row hrow => (hfit row hrow).1)
      (by rw [List.length_nil, Nat.zero_add]; exact hlength)

/-- Drawing the feed keeps the size. -/
theorem size_renderEventsFeed (v : Vte tsm) (term : Terminal κ) :
    tsm.size (term.renderEventsFeed tsm env).console = tsm.size term.console := by
  have hloop : ∀ (lines : List (List UInt8)) (term : Terminal κ),
      tsm.size (lines.foldl (fun term line => term.vteInput tsm env line) term).console =
        tsm.size term.console := by
    intro lines
    induction lines with
    | nil => exact fun _ => rfl
    | cons line lines ih => exact fun term => (ih _).trans (v.size_vteInput line term)
  unfold renderEventsFeed
  dsimp only
  rw [console_redrawAll]
  refine (hloop _ _).trans ?_
  exact (v.size_sbReset _).trans ((v.size_setMaxSb _ _).trans (v.size_vteHardReset term))

/-- Entering the feed draws it or leaves the console as it is. -/
theorem console_enterFeed (term : Terminal κ) : (term.enterFeed tsm env).console =
    if term.keepsFeed then term.console else
      ((if term.opened then term.terminalClose else term).renderEventsFeed tsm env).console := by
  have hkeeps : ∀ closed : Terminal κ, closed.console = term.console →
      closed.keepsFeed = term.keepsFeed →
      (if !closed.eventsFeedActive ||
          closed.eventsFeedStamp != closed.statusContext.events.updatedBoottimeMs then
        closed.renderEventsFeed tsm env else closed).console =
      if term.keepsFeed then term.console else (closed.renderEventsFeed tsm env).console := by
    intro closed hconsole hsame
    have hdraws : (!closed.eventsFeedActive ||
        closed.eventsFeedStamp != closed.statusContext.events.updatedBoottimeMs) =
          !term.keepsFeed := by
      rw [← hsame, keepsFeed, Bool.not_and]
      rfl
    rw [hdraws]
    cases term.keepsFeed with
    | true => exact hconsole
    | false => rfl
  have hclose : (if term.opened then term.terminalClose else term).console = term.console ∧
      (if term.opened then term.terminalClose else term).keepsFeed = term.keepsFeed := by
    split_ifs <;> exact ⟨rfl, rfl⟩
  exact hkeeps _ hclose.1 hclose.2

/-- What entering the feed leaves on the console. -/
theorem holds_enterFeed (v : Vte tsm) (hsound : term.statusContext.events.Sound)
    (hkept : term.keepsFeed = true → 2 ≤ tsm.getHeight term.console → v.Written term.console
      (feedRows term.statusContext.events (tsm.size term.console))) :
    tsm.size (term.enterFeed tsm env).console = tsm.size term.console ∧
      (2 ≤ tsm.getHeight term.console → v.Written (term.enterFeed tsm env).console
        (feedRows term.statusContext.events (tsm.size term.console))) := by
  rw [console_enterFeed]
  split_ifs with hkeeps hopened
  · exact ⟨rfl, hkept hkeeps⟩
  · exact ⟨size_renderEventsFeed v term.terminalClose, fun hrows =>
      (@holds_renderEventsFeed κ tsm env term.terminalClose v hsound hrows).written⟩
  · exact ⟨size_renderEventsFeed v term, fun hrows =>
      (holds_renderEventsFeed v hsound hrows).written⟩

/-- Operations that choose a size have nothing to do with the feed. -/
theorem quiet_opStep (term : Terminal κ) (e : Env × Op) :
    Quiet term (opStep tsm conf term e) := by
  obtain ⟨env, op⟩ := e
  cases op with
  | addDisplay d => exact quiet_terminalAddDisplay tsm conf env d term
  | rmDisplay d => exact quiet_terminalRmDisplay tsm conf env d term
  | rotateCw => exact quiet_rotateAll tsm conf env _ term
  | rotateCcw => exact quiet_rotateAll tsm conf env _ term
  | zoomIn => exact quiet_zoomIn tsm conf env term
  | zoomOut => exact quiet_zoomOut tsm conf env term
  | device d disp => exact quiet_draw _ term

/-- The session draws a feed that is active, unless there is no screen. -/
theorem terminalActivate_of_active (hsafe : term.mode.Safe) (hactive : term.eventsFeedActive = true)
    (hscreens : term.panel.screens.isEmpty = false) : term.terminalActivate tsm conf env =
      ((term.draw (.awake true)).renderEventsFeed tsm env).terminalRefreshDisplays env := by
  have hdenied : term.mode.loginAllowed = false := hsafe.feed hactive
  have hallowed : (term.draw (.awake true)).consoleLoginAllowed = false :=
    (consoleLoginAllowed_eq _).trans hdenied
  have hclosed : (term.draw (.awake true)).opened = false := by
    cases hopened : (term.draw (.awake true)).opened with
    | false => rfl
    | true => exact absurd (hsafe.opened hopened) (by rw [hdenied]; exact Bool.false_ne_true)
  have hactive' : (term.draw (.awake true)).eventsFeedActive = true := hactive
  rw [terminalActivate, hscreens, showConsole, hallowed, hclosed, hactive']
  rfl

/-- The session does not start the feed. -/
theorem feed_terminalActivate (hinactive : term.eventsFeedActive = false) :
    (term.terminalActivate tsm conf env).eventsFeedActive = false := by
  have hdraw : (term.draw (.awake true)).eventsFeedActive = false := hinactive
  have hshow : ((term.draw (.awake true)).showConsole tsm conf env).eventsFeedActive = false := by
    unfold showConsole
    split_ifs with hopen hopened hactive
    · rcases mode_terminalOpen tsm conf env (term.draw (.awake true)) with hsame | ⟨-, hmode⟩
      · exact (congrArg Mode.eventsFeedActive hsame).trans hdraw
      · exact (congrArg Mode.eventsFeedActive hmode).trans hdraw
    · exact hdraw
    · rw [hdraw] at hactive
      exact Bool.noConfusion hactive
    · exact hdraw
  unfold terminalActivate terminalRefreshDisplays
  split_ifs with hscreens
  · exact hinactive
  · exact (congrArg Mode.eventsFeedActive (quiet_redrawAllText env _).mode).trans hshow

end Drawing

namespace Drawn

/-- What was drawn is on the console: the rows are those of the last drawing while the feed
is active. -/
structure Sound {tsm : Tsm κ} (v : Vte tsm) (s : Drawn κ) : Prop where
  safe : s.term.mode.Safe
  events : s.term.statusContext.events.Sound
  written : s.term.eventsFeedActive = true → 2 ≤ tsm.getHeight s.term.console →
    ∀ rows ∈ s.rows, v.Written s.term.console rows

variable {tsm} {conf} {v : Vte tsm} {s : Drawn κ}

theorem height_eq {con con' : κ} (h : tsm.size con' = tsm.size con) :
    tsm.getHeight con' = tsm.getHeight con := congrArg Prod.snd h

/-- After a tick, the context is that of the refresh, and the feed is active only if it is
wanted. -/
theorem tick_context (env : Env) (around : Surroundings) (now : ℕ) (term : Terminal κ) :
    (term.statusEvent tsm conf env around now).statusContext =
        (term.refreshStatus around now).statusContext ∧
      ((term.statusEvent tsm conf env around now).eventsFeedActive = true →
        (term.refreshStatus around now).wantFeed = true) := by
  have hknown := known_statusEvent tsm conf env around now term
  refine ⟨congrArg Mode.statusContext hknown, fun hactive => ?_⟩
  have hdenied := (safe_statusEvent tsm conf env around now term).feed hactive
  have hsame := congrArg Mode.loginAllowed hknown
  rw [wantFeed_eq, Bool.not_eq_true']
  exact hsame.symm.trans hdenied

theorem events_refreshStatus (around : Surroundings) (now : ℕ) (term : Terminal κ) :
    (term.refreshStatus around now).statusContext.events.Sound :=
  events_faceplateSourcesRefresh around now term.statusSources

/-- The console after a tick that wants the feed. -/
theorem console_statusEvent (env : Env) (around : Surroundings) (now : ℕ) {term : Terminal κ}
    (hwant : (term.refreshStatus around now).wantFeed = true) :
    (term.statusEvent tsm conf env around now).console =
      ((term.refreshStatus around now).enterFeed tsm env).console := by
  rw [statusEvent, console_redrawAll, reconcileConsoleMode, if_pos hwant]

/-- After a tick that meets the condition, the rows that should be shown are written. -/
theorem written_tick (h : s.Sound v) {env : Env} {around : Surroundings} {now : ℕ}
    (hmeets : s.Current tsm (env, .tick around now))
    (hwant : (s.term.refreshStatus around now).wantFeed = true) :
    tsm.size (s.term.statusEvent tsm conf env around now).console = tsm.size s.term.console ∧
      (2 ≤ tsm.getHeight s.term.console →
        v.Written (s.term.statusEvent tsm conf env around now).console
          (feedRows (s.term.refreshStatus around now).statusContext.events
            (tsm.size s.term.console))) := by
  have hkept : (s.term.refreshStatus around now).keepsFeed = true →
      2 ≤ tsm.getHeight s.term.console → v.Written s.term.console
        (feedRows (s.term.refreshStatus around now).statusContext.events
          (tsm.size s.term.console)) := by
    intro hkeeps hrows
    have hactive : s.term.eventsFeedActive = true := by
      simp only [keepsFeed, Bool.and_eq_true] at hkeeps
      exact hkeeps.1
    exact h.written hactive hrows _ (hmeets hwant hkeeps)
  rw [console_statusEvent env around now hwant]
  exact @holds_enterFeed κ tsm env (s.term.refreshStatus around now) v
    (events_refreshStatus around now s.term) hkept

/-- After a tick that meets the condition, the feed is shown. -/
theorem feedShown_tick (h : s.Sound v) {env : Env} {around : Surroundings} {now : ℕ}
    (hmeets : s.Current tsm (env, .tick around now)) :
    FeedShown v (s.step tsm conf (env, .tick around now)).term := by
  intro hactive _ hrows
  obtain ⟨hcontext, hwants⟩ := @tick_context κ tsm conf env around now s.term
  obtain ⟨hsize, hwritten⟩ := @written_tick κ tsm conf v s h env around now hmeets (hwants hactive)
  have hrows' : 2 ≤ tsm.getHeight s.term.console := by
    rw [← height_eq hsize]
    exact hrows
  simp only [step, feedStep, hcontext, hsize]
  exact v.shown _ _ (hwritten hrows')

/-- What a tick that meets the condition leaves as drawn. -/
theorem rowsAfter_tick {env : Env} {around : Surroundings} {now : ℕ} (term : Terminal κ)
    (hmeets : s.Current tsm (env, .tick around now))
    (hwant : (s.term.refreshStatus around now).wantFeed = true) :
    s.rowsAfter tsm term (.tick around now) =
      some (feedRows (s.term.refreshStatus around now).statusContext.events
        (tsm.size s.term.console)) := by
  simp only [rowsAfter, hwant, Bool.true_and]
  cases hkeeps : (s.term.refreshStatus around now).keepsFeed with
  | false => rfl
  | true => exact hmeets hwant hkeeps

theorem sound_tick (h : s.Sound v) {env : Env} {around : Surroundings} {now : ℕ}
    (hmeets : s.Current tsm (env, .tick around now)) :
    (s.step tsm conf (env, .tick around now)).Sound v := by
  obtain ⟨hcontext, hwants⟩ := @tick_context κ tsm conf env around now s.term
  refine ⟨safe_statusEvent tsm conf env around now s.term, ?_, fun hactive hrows => ?_⟩
  · simp only [step, feedStep, hcontext]
    exact events_refreshStatus around now s.term
  · have hwant := hwants hactive
    obtain ⟨hsize, hwritten⟩ := @written_tick κ tsm conf v s h env around now hmeets hwant
    have hrows' : 2 ≤ tsm.getHeight s.term.console := by
      rw [← height_eq hsize]
      exact hrows
    intro rows hdrawn
    simp only [step, rowsAfter_tick _ hmeets hwant, Option.mem_some_iff] at hdrawn
    rw [← hdrawn]
    exact hwritten hrows'

theorem mem_rowsAfter_size {term : Terminal κ} (op : Op) {rows : List (List UInt8)}
    (h : rows ∈ s.rowsAfter tsm term (.size op)) :
    tsm.size term.console = tsm.size s.term.console ∧ rows ∈ s.rows := by
  rw [rowsAfter] at h
  by_cases hsize : tsm.size term.console = tsm.size s.term.console
  · rw [if_pos hsize] at h
    exact ⟨hsize, h⟩
  · rw [if_neg hsize] at h
    exact absurd h (by simp)

theorem sound_size (h : s.Sound v) (env : Env) (op : Op) :
    (s.step tsm conf (env, .size op)).Sound v := by
  have hmode := (@quiet_opStep κ tsm conf s.term (env, op)).mode
  refine ⟨?_, ?_, fun hactive hrows rows hdrawn => ?_⟩
  · simp only [step, feedStep, hmode]
    exact h.safe
  · have hcontext := congrArg Mode.statusContext hmode
    simp only [mode] at hcontext
    simp only [step, feedStep, hcontext]
    exact h.events
  · obtain ⟨hsize, hbefore⟩ := mem_rowsAfter_size op hdrawn
    simp only [step, feedStep] at hrows hsize ⊢
    rw [height_eq hsize] at hrows
    have hwritten := h.written ((congrArg Mode.eventsFeedActive hmode).symm.trans hactive) hrows
      rows hbefore
    rcases @resized_opStep κ tsm conf s.term (env, op) with hsame | ⟨cols, height, hresize⟩
    · rwa [hsame]
    · rw [hresize] at hsize ⊢
      exact v.resize _ cols height rows hsize hwritten

theorem sound_activate (h : s.Sound v) (env : Env) :
    (s.step tsm conf (env, .activate)).Sound v := by
  have hknown := known_terminalActivate tsm conf env s.term
  have hcontext : (s.term.terminalActivate tsm conf env).statusContext = s.term.statusContext :=
    congrArg Mode.statusContext hknown
  refine ⟨safe_terminalActivate tsm conf env h.safe, ?_, fun hactive hrows rows hdrawn => ?_⟩
  · simp only [step, feedStep, hcontext]
    exact h.events
  · simp only [step, feedStep, rowsAfter] at hactive hrows hdrawn ⊢
    cases hbefore : s.term.eventsFeedActive with
    | false =>
      rw [feed_terminalActivate hbefore] at hactive
      exact Bool.noConfusion hactive
    | true =>
      cases hscreens : s.term.panel.screens.isEmpty with
      | true =>
        have hsame : s.term.terminalActivate tsm conf env = s.term := by
          rw [terminalActivate, if_pos hscreens]
        rw [hsame] at hrows ⊢
        simp only [hbefore, hscreens, Bool.not_true, Bool.and_false, Bool.false_eq_true,
          if_false] at hdrawn
        exact h.written hbefore hrows rows hdrawn
      | false =>
        have hconsole : (s.term.terminalActivate tsm conf env).console =
            ((s.term.draw (.awake true)).renderEventsFeed tsm env).console := by
          rw [terminalActivate_of_active h.safe hbefore hscreens, terminalRefreshDisplays,
            console_redrawAllText]
        rw [hconsole] at hrows ⊢
        rw [height_eq (size_renderEventsFeed v _)] at hrows
        simp only [hbefore, hscreens, Bool.not_false, Bool.and_self, if_true,
          Option.mem_some_iff] at hdrawn
        rw [← hdrawn]
        exact (@holds_renderEventsFeed κ tsm env (s.term.draw (.awake true)) v h.events
          hrows).written

/-- An event that meets the condition keeps what was drawn on the console. -/
theorem sound_step (s : Drawn κ) (e : Env × FeedEvent) (h : s.Sound v)
    (hmeets : s.Current tsm e) : (s.step tsm conf e).Sound v := by
  obtain ⟨env, event⟩ := e
  cases event with
  | tick around now => exact sound_tick h hmeets
  | size op => exact sound_size h env op
  | activate => exact sound_activate h env
  | deactivate => exact ⟨h.safe, h.events, h.written⟩

/-- A new terminal, with nothing drawn. -/
def init (tsm : Tsm κ) (conf : Conf) (console : κ) (fontHeight : ℕ) (font : Font)
    (oneshot : Bool) (now : ℤ) (sources : Option (List Source)) (displays : ℕ → Display) :
    Drawn κ :=
  ⟨new tsm conf console fontHeight font oneshot now sources displays, none⟩

theorem sound_init (v : Vte tsm) (conf : Conf) (console : κ) (fontHeight : ℕ) (font : Font)
    (oneshot : Bool) (now : ℤ) (sources : Option (List Source)) (displays : ℕ → Display) :
    (init tsm conf console fontHeight font oneshot now sources displays).Sound v := by
  refine ⟨safe_new _ _ _ _ _ _ _ _ _, ?_, fun _ _ rows hrows => ?_⟩
  · exact ⟨Nat.zero_le _, fun _ h => by simp [init, new, Context.cleared, Events.hide] at h⟩
  · exact absurd hrows (by simp [init])

/-- Paper for 30 columns and 3 rows. -/
def smallPaper : Paper := ⟨30, 3, by decide, [], [], 0⟩

/-- A feed file of the user with id 7. -/
def feedWith (content : List UInt8) : Surroundings where
  fs _ := some fun _ => .opened ⟨some ⟨true, 1, 7, 0o640, content.length⟩, content, true⟩
  getpwnam _ := some 7
  alloc := true
  stack _ := []

/-- A locked feed with one event and this stamp. -/
def oneEvent (stamp text : String) : List UInt8 :=
  lit "FACEPLATE_EVENTS_V1\nupdated_boottime_ms=" ++ lit stamp ++
    lit "\nconsole=locked\ncount=1\ne0_boottime_ms=900\ne0_code=a\ne0_text=" ++ lit text ++
    lit "\n"

/-- A terminal wakes on a display and shows an event. -/
def shownOnce : List (Env × FeedEvent) :=
  [(roomyEnv, .size (.addDisplay 0)), (roomyEnv, .activate),
    (roomyEnv, .tick (feedWith (oneEvent "1000" "link-up")) 2000)]

/-- A new terminal on paper with one source of events. -/
def paperInit : Drawn Paper :=
  init typewriter cloneConf smallPaper 16 ⟨8, 16, 2⟩ false 0 (some Watch.oneFeed.list) fun _ =>
    sizedDisplay 240 48

/-- In every run whose ticks redraw a feed that is no longer what it was drawn as, the feed
is shown after every tick. -/
theorem feedShown_of_current (v : Vte tsm) (conf : Conf) (console : κ) (fontHeight : ℕ)
    (font : Font) (oneshot : Bool) (start : ℤ) (sources : Option (List Source))
    (displays : ℕ → Display) (events : List (Env × FeedEvent)) (env : Env)
    (around : Surroundings) (now : ℕ)
    (hmeets : Runs.Along (step tsm conf) (Current tsm)
      (init tsm conf console fontHeight font oneshot start sources displays)
      (events ++ [(env, .tick around now)])) :
    FeedShown v (Runs.run (step tsm conf)
      (init tsm conf console fontHeight font oneshot start sources displays)
      (events ++ [(env, .tick around now)])).term := by
  obtain ⟨hbefore, htick, -⟩ := Runs.along_append.mp hmeets
  have hsound := hbefore.invariant (J := Sound v) sound_step
    (sound_init v conf console fontHeight font oneshot start sources displays)
  rw [Runs.run_append]
  exact feedShown_tick hsound htick

/-- The grid changes, the session is left and entered, and the next tick finds the stamp of
before. -/
theorem feedShown_of_current_zoomed :
    FeedShown typewriterVte (Runs.run (step typewriter cloneConf) paperInit
      ((shownOnce ++ [(roomyEnv, .size .zoomIn), (roomyEnv, .deactivate), (roomyEnv, .activate)]) ++
        [(roomyEnv, .tick (feedWith (oneEvent "1000" "link-up")) 7000)])).term :=
  feedShown_of_current typewriterVte cloneConf smallPaper 16 ⟨8, 16, 2⟩ false 0 _ _ _ _ _ _
    (by decide +kernel)

/-- Another event with the stamp of before. -/
def sameStamp : Terminal Paper :=
  (Runs.run (step typewriter cloneConf) paperInit
    (shownOnce ++ [(roomyEnv, .tick (feedWith (oneEvent "1000" "link-down")) 7000)])).term

/-- It is not drawn. -/
theorem sameStamp_not_feedShown : ¬ FeedShown typewriterVte sameStamp := by
  have hfacts : sameStamp.eventsFeedActive = true ∧ sameStamp.panel.awake = true ∧
      2 ≤ typewriter.getHeight sameStamp.console ∧ 5 < typewriter.getWidth sameStamp.console ∧
      0 < typewriter.getHeight sameStamp.console ∧
      typewriterVte.cell sameStamp.console 5 0 ≠
        charAt (feedRows sameStamp.statusContext.events (typewriter.size sameStamp.console))
          5 0 := by
    decide +kernel
  obtain ⟨hactive, hawake, hrows, hcols, hrow, hcell⟩ := hfacts
  intro h
  exact hcell (h hactive hawake hrows 5 hcols 0 hrow)

end Drawn

end Faceplate.Terminal
