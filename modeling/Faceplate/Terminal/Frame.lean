import Faceplate.Terminal.Handlers

/-!
# What the helpers of the handlers leave alone

Drawing, resizing, zooming and feeding the vte change neither whether the terminal
is opened or shows the feed nor the context that decides about it, and they act on
the screens through events of the panel only. `Quiet` says both at once.
-/

namespace Faceplate.Terminal

open Render Video Feed

variable {κ : Type*} {term term' term'' : Terminal κ}

/-- The part of a terminal that login and feed depend on. -/
structure Mode where
  opened : Bool
  eventsFeedActive : Bool
  statusContextValid : Bool
  statusContext : Context
  statusSources : Option (List Source)
  deriving DecidableEq

/-- The mode of a terminal. -/
def mode (term : Terminal κ) : Mode :=
  ⟨term.opened, term.eventsFeedActive, term.statusContextValid, term.statusContext,
    term.statusSources⟩

/-- Only events of the panel happened to the screens and displays. -/
def PanelRuns (term term' : Terminal κ) : Prop :=
  ∃ events, term'.panel = Runs.run Panel.step term.panel events

theorem PanelRuns.of_eq (h : term'.panel = term.panel) : PanelRuns term term' := ⟨[], h⟩

theorem PanelRuns.trans (h : PanelRuns term term') (h' : PanelRuns term' term'') :
    PanelRuns term term'' := by
  obtain ⟨events, heq⟩ := h
  obtain ⟨events', heq'⟩ := h'
  exact ⟨events ++ events', by rw [heq', heq, Runs.run_append]⟩

/-- The mode stays, and the panel runs. -/
structure Quiet (term term' : Terminal κ) : Prop where
  mode : term'.mode = term.mode
  panel : PanelRuns term term'

namespace Quiet

theorem of_eq (hmode : term'.mode = term.mode) (hpanel : term'.panel = term.panel) :
    Quiet term term' := ⟨hmode, .of_eq hpanel⟩

theorem refl (term : Terminal κ) : Quiet term term := .of_eq rfl rfl

theorem trans (h : Quiet term term') (h' : Quiet term' term'') : Quiet term term'' :=
  ⟨h'.mode.trans h.mode, h.panel.trans h'.panel⟩

/-- Other fields may change before something quiet happens. -/
theorem after (h : Quiet term' term'') (hmode : term'.mode = term.mode)
    (hpanel : term'.panel = term.panel) : Quiet term term'' :=
  (Quiet.of_eq hmode hpanel).trans h

/-- A loop of quiet rounds is quiet. -/
theorem foldl {α : Type*} {f : Terminal κ → α → Terminal κ} (h : ∀ term a, Quiet term (f term a))
    (term : Terminal κ) (as : List α) : Quiet term (as.foldl f term) := by
  induction as generalizing term with
  | nil => exact .refl term
  | cons a as ih => exact (h term a).trans (ih (f term a))

theorem ite {b : Prop} [Decidable b] (h : Quiet term term') (h' : Quiet term term'') :
    Quiet term (if b then term' else term'') := by
  split_ifs
  · exact h
  · exact h'

end Quiet

variable (tsm : Tsm κ) (conf : Conf) (env : Env)

theorem quiet_draw (event : Panel.Event) (term : Terminal κ) : Quiet term (term.draw event) :=
  ⟨rfl, [event], rfl⟩

theorem quiet_drawSwap (event : SwapAnswers → Panel.Event) (term : Terminal κ) :
    Quiet term (term.drawSwap env event) :=
  ⟨rfl, [event (env.swap term.asked)], rfl⟩

theorem quiet_redrawAll (term : Terminal κ) : Quiet term (term.redrawAll env) :=
  .ite (.refl term) (.foldl (fun term d => quiet_drawSwap env (.redraw d) term) term _)

theorem quiet_redrawAllText (term : Terminal κ) : Quiet term (term.redrawAllText env) :=
  .ite (.refl term) (.foldl (fun term d => quiet_drawSwap env (.redrawText d) term) term _)

theorem quiet_onText (d : ℕ) (f : Text → Display → Text) (term : Terminal κ) :
    Quiet term (term.onText d f) := by
  unfold onText
  cases term.panel.find d with
  | none => exact .refl term
  | some scr => exact quiet_draw _ term

theorem quiet_refreshHwCursor (d : ℕ) (term : Terminal κ) :
    Quiet term (term.refreshHwCursor env d) := by
  unfold refreshHwCursor
  cases term.panel.find d with
  | none => exact .refl term
  | some scr => exact .ite (quiet_draw _ term) (.refl term)

theorem quiet_updateSizeLargest (term : Terminal κ) :
    Quiet term (term.updateSizeLargest env).2 := by
  have hloop (term : Terminal κ) (scr : Screen) : Quiet term (term.enableLargest env scr) :=
    .ite (quiet_drawSwap env _ term) (quiet_draw _ term)
  unfold updateSizeLargest
  exact (Quiet.foldl hloop _ _).after rfl rfl

theorem quiet_updateSizeClone (term : Terminal κ) : Quiet term term.updateSizeClone.2 := by
  unfold updateSizeClone
  dsimp only
  split_ifs
  · exact .refl term
  · exact .refl term
  · exact .of_eq rfl rfl

theorem quiet_updateMin (term : Terminal κ) : Quiet term (term.updateMin conf env).2 := by
  unfold updateMin
  split_ifs
  · exact quiet_updateSizeLargest env term
  · exact quiet_updateSizeClone term

theorem quiet_resizeScreens (term : Terminal κ) : Quiet term term.resizeScreens :=
  .foldl (fun term (scr : Screen) => quiet_onText scr.disp
    (fun txt _ => txt.resize term.minCols term.minRows) term) term _

theorem quiet_updateSize (term : Terminal κ) : Quiet term (term.updateSize conf env).2 :=
  (quiet_updateMin conf env term).trans (.ite (quiet_resizeScreens _) (.refl _))

theorem quiet_updateSizeNotify (term : Terminal κ) :
    Quiet term (term.updateSizeNotify tsm conf env) := by
  have hsize := quiet_updateSize conf env term
  unfold updateSizeNotify
  dsimp only
  split_ifs
  · exact hsize.trans ((quiet_redrawAll env _).after rfl rfl)
  · exact hsize

theorem quiet_vteCall (term : Terminal κ) (call : VteCall) :
    Quiet term (term.vteCall tsm env call) := by
  cases call with
  | write u8 => exact .of_eq rfl rfl
  | mouse => exact .of_eq rfl rfl
  | foreground on => exact quiet_draw _ term

theorem quiet_vte (term : Terminal κ) (out : κ × List VteCall) :
    Quiet term (term.vte tsm env out) :=
  (Quiet.foldl (quiet_vteCall tsm env) _ _).after rfl rfl

theorem quiet_vteInput (u8 : List UInt8) (term : Terminal κ) :
    Quiet term (term.vteInput tsm env u8) := quiet_vte ..

theorem quiet_vteHardReset (term : Terminal κ) : Quiet term (term.vteHardReset tsm env) :=
  quiet_vte ..

theorem quiet_stampFeed (term : Terminal κ) : Quiet term term.stampFeed := .of_eq rfl rfl

theorem quiet_renderEventsFeed (term : Terminal κ) :
    Quiet term (term.renderEventsFeed tsm env) := by
  refine Quiet.trans ?_ (quiet_redrawAll env _)
  refine Quiet.trans ?_ (quiet_stampFeed _)
  refine (quiet_vteHardReset tsm env term).trans ?_
  exact (Quiet.foldl (fun term line => quiet_vteInput tsm env line term) _ _).after rfl rfl

theorem quiet_fontSet (term : Terminal κ) : Quiet term (term.fontSet tsm conf env).2 := by
  unfold fontSet
  cases env.font term.fontHeight with
  | none => exact .refl term
  | some font =>
    refine Quiet.trans ?_ (quiet_updateSizeNotify tsm conf env _)
    refine (Quiet.foldl (fun term d => ?_) _ _).after rfl rfl
    exact (quiet_onText d _ term).trans (quiet_refreshHwCursor env d _)

theorem quiet_zoomIn (term : Terminal κ) : Quiet term (term.zoomIn tsm conf env) := by
  unfold zoomIn
  refine .ite (.refl term) (.ite ?_ (.refl term))
  exact (quiet_fontSet tsm conf env _).after rfl rfl

theorem quiet_zoomOut (term : Terminal κ) : Quiet term (term.zoomOut tsm conf env) := by
  unfold zoomOut
  refine .ite (.refl term) (.ite ?_ (.refl term))
  exact (quiet_fontSet tsm conf env _).after rfl rfl

theorem quiet_rotateAll (turn : Orientation → Orientation) (term : Terminal κ) :
    Quiet term (term.rotateAll tsm conf env turn) := by
  unfold rotateAll
  refine Quiet.trans (.foldl (fun term d => ?_) _ _) (quiet_updateSizeNotify tsm conf env _)
  exact (quiet_onText d _ term).trans (quiet_refreshHwCursor env d _)

theorem quiet_grabAction (term : Terminal κ) (grab : Grab) :
    Quiet term (term.grabAction tsm conf env grab) := by
  cases grab with
  | scrollUp => exact (quiet_redrawAll env _).after rfl rfl
  | scrollDown => exact (quiet_redrawAll env _).after rfl rfl
  | pageUp => exact (quiet_redrawAll env _).after rfl rfl
  | pageDown => exact (quiet_redrawAll env _).after rfl rfl
  | zoomIn => exact quiet_zoomIn tsm conf env term
  | zoomOut => exact quiet_zoomOut tsm conf env term
  | rotateCw => exact quiet_rotateAll tsm conf env _ term
  | rotateCcw => exact quiet_rotateAll tsm conf env _ term

theorem quiet_handleKey (ev : KeyEvent) (term : Terminal κ) :
    Quiet term (term.handleKey tsm conf env ev).2 := by
  unfold handleKey
  cases grabs.find? (conf.grabMatches · ev) with
  | some grab => exact quiet_grabAction tsm conf env term grab
  | none =>
    have hkey := quiet_vte tsm env term (tsm.handleKeyboard term.console ev).2
    dsimp only
    split_ifs
    · exact .refl term
    · exact hkey.trans ((quiet_redrawAll env _).after rfl rfl)
    · exact hkey

theorem quiet_inputEvent (ev : KeyEvent) (term : Terminal κ) :
    Quiet term (term.inputEvent tsm conf env ev).2 := by
  unfold inputEvent
  split_ifs
  · exact .refl term
  · exact (quiet_handleKey tsm conf env ev _).after rfl rfl

theorem quiet_handlePointerButton (button : ℕ) (pressed doubleClick : Bool) (term : Terminal κ) :
    Quiet term (term.handlePointerButton tsm env button pressed doubleClick) := by
  unfold handlePointerButton
  dsimp only
  split
  · split_ifs <;> exact .of_eq rfl rfl
  · split_ifs
    · exact .of_eq rfl rfl
    · exact (quiet_vte tsm env term _).trans (.of_eq rfl rfl)
    · exact .refl term
  · exact .of_eq rfl rfl
  · exact .refl term

theorem quiet_movePointer (ev : PointerEvent) (term : Terminal κ) :
    Quiet term (term.movePointer tsm ev) := by
  cases ev <;> exact .of_eq rfl rfl

theorem quiet_actPointer (ev : PointerEvent) (term : Terminal κ) :
    Quiet term (term.actPointer tsm conf env ev) := by
  cases ev with
  | moved x y button pressed => exact .ite (.of_eq rfl rfl) (.refl term)
  | button button pressed doubleClick => exact quiet_handlePointerButton ..
  | wheel wheel button =>
    unfold actPointer
    dsimp only
    split_ifs
    · exact quiet_zoomIn tsm conf env term
    · exact quiet_zoomOut tsm conf env term
    · exact .of_eq rfl rfl
    · exact .of_eq rfl rfl
  | sync => exact quiet_redrawAll env term
  | hideTimeout => exact .of_eq rfl rfl

theorem quiet_pointerEvent (ev : PointerEvent) (term : Terminal κ) :
    Quiet term (term.pointerEvent tsm conf env ev) := by
  refine (quiet_movePointer tsm ev term).trans ?_
  unfold pointerEvent forwardPointerEvent
  dsimp only
  split_ifs
  · exact quiet_redrawAll env _
  · exact .refl _
  · cases pointerReport conf (term.movePointer tsm ev).pointer ev with
    | none => exact .refl _
    | some report => exact quiet_vte tsm env _ _
  · exact quiet_actPointer tsm conf env ev _

theorem quiet_terminalAddDisplay (d : ℕ) (term : Terminal κ) :
    Quiet term (term.terminalAddDisplay tsm conf env d) := by
  unfold terminalAddDisplay
  cases term.panel.find d with
  | some scr => exact .refl term
  | none =>
    dsimp only
    split_ifs
    · exact .refl term
    · exact .refl term
    · refine Quiet.trans ?_ (quiet_drawSwap env _ _)
      refine Quiet.trans ?_ (quiet_onText d _ _)
      refine Quiet.trans ?_ (quiet_updateSizeNotify tsm conf env _)
      exact (quiet_draw _ term).trans (quiet_draw _ _)
    · refine Quiet.trans ?_ (quiet_drawSwap env _ _)
      refine Quiet.trans ?_ (quiet_onText d _ _)
      exact (quiet_draw _ term).trans (quiet_updateSizeNotify tsm conf env _)

theorem quiet_terminalRmDisplay (d : ℕ) (term : Terminal κ) :
    Quiet term (term.terminalRmDisplay tsm conf env d) := by
  unfold terminalRmDisplay
  cases term.panel.find d with
  | none => exact .refl term
  | some scr => exact (quiet_draw _ term).trans (quiet_updateSizeNotify tsm conf env _)

theorem quiet_ptyInputCb (u8 : List UInt8) (term : Terminal κ) :
    Quiet term (term.ptyInputCb tsm env u8) :=
  .ite (.refl term) ((quiet_vteInput tsm env u8 term).trans (quiet_redrawAll env _))

theorem quiet_asciinemaWrite (u8 : List UInt8) (term : Terminal κ) :
    Quiet term (term.asciinemaWrite tsm env u8) :=
  .ite (.refl term) ((quiet_vteInput tsm env u8 term).trans (quiet_redrawAll env _))

theorem quiet_blinkEvent (term : Terminal κ) : Quiet term (term.blinkEvent env) :=
  .ite (.refl term) ((quiet_redrawAll env _).after rfl rfl)

theorem quiet_cursorBlinkEvent (term : Terminal κ) : Quiet term (term.cursorBlinkEvent env) :=
  .ite (.refl term) ((quiet_redrawAll env _).after rfl rfl)

end Faceplate.Terminal
