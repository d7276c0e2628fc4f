import Faceplate.Terminal.Frame

/-!
# The screens of a terminal are a panel

Every handler acts on screens and displays by events of the panel alone. So the
screens of a terminal, wherever a run has brought it, are in a state that the
panel reaches on its own, and what holds along the runs of a panel holds there.
-/

namespace Faceplate.Terminal

open Render Video Feed

variable {κ : Type*} (tsm : Tsm κ) (conf : Conf) (env : Env)

theorem panelRuns_terminalOpen (term : Terminal κ) :
    PanelRuns term (term.terminalOpen tsm conf env) := by
  have hreset := (quiet_vteHardReset tsm env term).panel
  unfold terminalOpen
  dsimp only
  split_ifs
  · exact .of_eq rfl
  · exact .of_eq rfl
  · exact hreset
  · have hissue (term : Terminal κ) := (quiet_vteInput tsm env env.issue term).trans
      (quiet_redrawAll env _)
    exact hreset.trans ((hissue _).after rfl rfl).panel
  · exact hreset.trans ((quiet_redrawAll env _).after rfl rfl).panel

theorem panelRuns_enterFeed (term : Terminal κ) : PanelRuns term (term.enterFeed tsm env) := by
  have hclose : PanelRuns term (if term.opened then term.terminalClose else term) := by
    split_ifs <;> exact .of_eq rfl
  unfold enterFeed
  dsimp only
  generalize (if term.opened then term.terminalClose else term) = closed at hclose ⊢
  refine hclose.trans ?_
  split_ifs
  · exact (quiet_renderEventsFeed tsm env closed).panel
  · exact .of_eq rfl

theorem panelRuns_leaveFeed (term : Terminal κ) :
    PanelRuns term (term.leaveFeed tsm conf env) := by
  have hreset := ((quiet_vteHardReset tsm env (onConsole (tsm.setMaxSb · conf.sbSize)
    { term with eventsFeedActive := false })).panel)
  unfold leaveFeed
  dsimp only
  split_ifs
  · exact hreset.trans (panelRuns_terminalOpen tsm conf env _)
  · exact hreset.trans (quiet_redrawAll env _).panel

theorem panelRuns_reconcileConsoleMode (term : Terminal κ) :
    PanelRuns term (term.reconcileConsoleMode tsm conf env) := by
  unfold reconcileConsoleMode
  split_ifs
  · exact panelRuns_enterFeed tsm env term
  · exact panelRuns_leaveFeed tsm conf env term
  · exact panelRuns_terminalOpen tsm conf env term
  · exact .of_eq rfl

theorem panelRuns_statusEvent (around : Surroundings) (now : ℕ) (term : Terminal κ) :
    PanelRuns term (term.statusEvent tsm conf env around now) := by
  have hrefresh : PanelRuns term (term.refreshStatus around now) := .of_eq rfl
  exact (hrefresh.trans (panelRuns_reconcileConsoleMode tsm conf env _)).trans
    (quiet_redrawAll env _).panel

theorem panelRuns_terminalActivate (term : Terminal κ) :
    PanelRuns term (term.terminalActivate tsm conf env) := by
  have hshow (term : Terminal κ) : PanelRuns term (term.showConsole tsm conf env) := by
    unfold showConsole
    split_ifs
    · exact panelRuns_terminalOpen tsm conf env term
    · exact .of_eq rfl
    · exact (quiet_renderEventsFeed tsm env term).panel
    · exact .of_eq rfl
  unfold terminalActivate
  split_ifs
  · exact .of_eq rfl
  · exact ((quiet_draw _ term).panel.trans (hshow _)).trans (quiet_redrawAllText env _).panel

theorem panelRuns_ptyExit (restart : Bool) (term : Terminal κ) :
    PanelRuns term (term.ptyExit tsm conf env restart) := by
  have hclose : PanelRuns term term.terminalClose := .of_eq rfl
  unfold ptyExit
  dsimp only
  split_ifs
  · exact hclose.trans (panelRuns_terminalOpen tsm conf env _)
  · exact hclose
  · exact .of_eq rfl

/-- A step of the terminal is a run of its panel. -/
theorem panelRuns_step (term : Terminal κ) (e : Env × Event) :
    PanelRuns term (term.step tsm conf e) := by
  obtain ⟨env, event⟩ := e
  cases event with
  | status around now => exact panelRuns_statusEvent tsm conf env around now term
  | activate => exact panelRuns_terminalActivate tsm conf env term
  | deactivate => exact (quiet_draw _ term).panel
  | refreshDisplays => exact (quiet_redrawAllText env term).panel
  | ptyExit restart => exact panelRuns_ptyExit tsm conf env restart term
  | ptyInput u8 => exact (quiet_ptyInputCb tsm env u8 term).panel
  | ptyWriteable results => exact .of_eq rfl
  | addDisplay d => exact (quiet_terminalAddDisplay tsm conf env d term).panel
  | rmDisplay d => exact (quiet_terminalRmDisplay tsm conf env d term).panel
  | key ev => exact (quiet_inputEvent tsm conf env ev term).panel
  | pointer ev => exact (quiet_pointerEvent tsm conf env ev term).panel
  | blink => exact (quiet_blinkEvent env term).panel
  | cursorBlink => exact (quiet_cursorBlinkEvent env term).panel
  | asciinema u8 => exact (quiet_asciinemaWrite tsm env u8 term).panel
  | flip d => exact (quiet_drawSwap env _ term).panel
  | session foreground => exact (quiet_draw _ term).panel
  | device d disp => exact (quiet_draw _ term).panel

/-- Every run of a terminal is, on its panel, a run of the panel. -/
theorem panelRuns_run (term : Terminal κ) (events : List (Env × Event)) :
    PanelRuns term (Runs.run (step tsm conf) term events) :=
  Runs.invariant_run (J := PanelRuns term)
    (fun reached e h => h.trans (panelRuns_step tsm conf reached e)) (.of_eq rfl) events

end Faceplate.Terminal
