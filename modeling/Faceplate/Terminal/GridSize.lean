import Faceplate.Terminal.View

/-!
# One grid for all screens

Adding or removing a display, turning the screens and zooming choose the common size
of a terminal anew. Afterwards all enabled screens should have this size, and with it
the console they draw from. A rotation gives each screen its own largest grid back
without forgetting the common size, so in clone mode a size that comes out as before
is told to nobody. This file finds the conditions under which the grids agree.
-/

namespace Faceplate.Terminal

open Render Video

/-- The size in cells of a display that is turned this way. -/
def ownSize (orientation : Orientation) (font : Font) (disp : Display) : ℕ × ℕ :=
  let txt := Text.measure ⟨orientation, 0, 0, 0, 0⟩ font disp.width disp.height
  (txt.maxCols, txt.maxRows)

/-- The renderer of a display can be set up: nothing fails, and the bulk renderer
finds a display with a size. -/
def SetsUp (env : Env) (d : ℕ) (disp : Display) : Prop :=
  env.textSet d = .done ∧ (hasOpengl disp = true ∨ disp.width ≠ 0 ∧ disp.height ≠ 0)

theorem opsSet_done (txt : Text) (font : Font) {disp : Display}
    (hsize : hasOpengl disp = true ∨ disp.width ≠ 0 ∧ disp.height ≠ 0) :
    txt.opsSet font disp.width disp.height (hasOpengl disp) .done =
      (true, txt.measure font disp.width disp.height) := by
  unfold Text.opsSet
  rcases hsize with hopengl | ⟨hwidth, hheight⟩
  · simp [hopengl]
  · simp [hwidth, hheight]

/-- The operations that choose a size, and any change of a display between them. -/
inductive Op where
  | addDisplay (d : ℕ)
  | rmDisplay (d : ℕ)
  | rotateCw
  | rotateCcw
  | zoomIn
  | zoomOut
  | device (d : ℕ) (disp : Display)

section Ops

variable {κ : Type*} (tsm : Tsm κ) (conf : Conf)

/-- One operation, with what is outside meanwhile. -/
def opStep (term : Terminal κ) : Env × Op → Terminal κ
  | (env, .addDisplay d) => term.terminalAddDisplay tsm conf env d
  | (env, .rmDisplay d) => term.terminalRmDisplay tsm conf env d
  | (env, .rotateCw) => term.rotateAll tsm conf env Orientation.cw
  | (env, .rotateCcw) => term.rotateAll tsm conf env Orientation.ccw
  | (env, .zoomIn) => term.zoomIn tsm conf env
  | (env, .zoomOut) => term.zoomOut tsm conf env
  | (_, .device d disp) => term.draw (.device d disp)

/-- The grid of every enabled screen is that of the console and fits the screen, and
the cells that are looked at while drawing are in the array of the renderer and in
the console. -/
def GridsAgree (term : Terminal κ) : Prop :=
  ∀ scr ∈ term.panel.screens, scr.enabled = true →
    (scr.txt.cols, scr.txt.rows) = (term.minCols, term.minRows) ∧
      (term.minCols, term.minRows) = (tsm.getWidth term.console, tsm.getHeight term.console) ∧
      scr.txt.cols ≤ scr.txt.maxCols ∧ scr.txt.rows ≤ scr.txt.maxRows ∧
      (∀ posx < scr.txt.cols, ∀ posy < scr.txt.rows + 2,
        posx + posy * scr.txt.cols < scr.txt.maxCols * (scr.txt.maxRows + 2)) ∧
      ∀ posx < scr.txt.cols, ∀ posy < scr.txt.rows,
        posx + posy * scr.txt.cols < tsm.getWidth term.console * tsm.getHeight term.console

/-- The sizes that the screens would have, turned and with this font. -/
def sizesWith (turn : Orientation → Orientation) (font : Font) (term : Terminal κ) :
    List (ℕ × ℕ) :=
  term.panel.screens.map fun scr =>
    ownSize (turn scr.txt.orientation) font (term.panel.displays scr.disp)

/-- The condition on measuring all screens anew: each can be set up, their sizes
allow a common one, and where in clone mode that is `min` as before, all have it. -/
def RenewMeets (env : Env) (min : ℕ × ℕ) (turn : Orientation → Orientation) (font : Font)
    (term : Terminal κ) : Prop :=
  (∀ scr ∈ term.panel.screens, SetsUp env scr.disp (term.panel.displays scr.disp)) ∧
    Panes.Fits conf min (term.sizesWith turn font) ∧
    (conf.largest = false → Panes.smallest (term.sizesWith turn font) = min →
      ∀ size ∈ term.sizesWith turn font, size = min)

/-- The condition on a new display: if a screen is made for it, its renderer is really
set up, and its size fits in with those of the others. -/
def AddMeets (env : Env) (d : ℕ) (term : Terminal κ) : Prop :=
  term.panel.find d = none → env.alloc = true → (term.newText conf env d).1 = true →
    SetsUp env d (term.panel.displays d) ∧
      Panes.Fits conf (term.minCols, term.minRows)
        (ownSize conf.rotate term.font (term.panel.displays d) ::
          term.panel.screens.map fun scr => (scr.txt.maxCols, scr.txt.maxRows))

/-- The condition on an operation. -/
def OpMeets (term : Terminal κ) : Env × Op → Prop
  | (env, .addDisplay d) => term.AddMeets conf env d
  | (env, .rotateCw) =>
    term.RenewMeets conf env (term.minCols, term.minRows) Orientation.cw term.font
  | (env, .rotateCcw) =>
    term.RenewMeets conf env (term.minCols, term.minRows) Orientation.ccw term.font
  | (env, .zoomIn) => term.fontHeight ≤ 150 →
      ∀ font ∈ env.font (term.fontHeight + term.font.increaseStep),
        term.RenewMeets conf env (0, 0) id font
  | (env, .zoomOut) =>
      term.font.increaseStep < term.fontHeight → 10 ≤ term.fontHeight - term.font.increaseStep →
      ∀ font ∈ env.font (term.fontHeight - term.font.increaseStep),
        term.RenewMeets conf env (0, 0) id font
  | _ => True

end Ops

section Decide

variable {κ : Type*} (tsm : Tsm κ) (conf : Conf) (env : Env)

instance (d : ℕ) (disp : Display) : Decidable (SetsUp env d disp) :=
  inferInstanceAs (Decidable (_ ∧ _))

instance (min : ℕ × ℕ) (turn : Orientation → Orientation) (font : Font) (term : Terminal κ) :
    Decidable (RenewMeets conf env min turn font term) :=
  inferInstanceAs (Decidable ((∀ scr ∈ term.panel.screens, _) ∧ _ ∧ (_ → _ → ∀ size ∈ _, _)))

instance (d : ℕ) (term : Terminal κ) : Decidable (AddMeets conf env d term) :=
  inferInstanceAs (Decidable (_ → _ → _ → _))

instance (term : Terminal κ) : ∀ e, Decidable (OpMeets conf term e)
  | (env, .addDisplay d) => inferInstanceAs (Decidable (term.AddMeets conf env d))
  | (env, .rotateCw) => inferInstanceAs (Decidable (term.RenewMeets conf env _ _ _))
  | (env, .rotateCcw) => inferInstanceAs (Decidable (term.RenewMeets conf env _ _ _))
  | (env, .zoomIn) => inferInstanceAs (Decidable (_ → ∀ font ∈ env.font _, _))
  | (env, .zoomOut) => inferInstanceAs (Decidable (_ → _ → ∀ font ∈ env.font _, _))
  | (_, .rmDisplay _) => inferInstanceAs (Decidable True)
  | (_, .device _ _) => inferInstanceAs (Decidable True)

end Decide

section Proofs

variable {κ : Type*} {tsm : Tsm κ} {conf : Conf} {env : Env} {term : Terminal κ}

theorem index_lt {posx posy cols n : ℕ} (hx : posx < cols) (hy : posy < n) :
    posx + posy * cols < cols * n := by
  calc posx + posy * cols < cols + posy * cols := Nat.add_lt_add_right hx _
    _ = cols * (posy + 1) := by rw [Nat.mul_add, Nat.mul_one, Nat.add_comm, Nat.mul_comm]
    _ ≤ cols * n := Nat.mul_le_mul_left cols hy

/-- When the panes agree, so do the grids, and no index leaves the two arrays. -/
theorem gridsAgree_of_agrees (h : (term.view tsm).Agrees) : GridsAgree tsm term := by
  intro scr hscr henabled
  have hpane : scr.pane ∈ (term.view tsm).panes := List.mem_map_of_mem hscr
  obtain ⟨hgrid, hconsole, hcols, hrows⟩ := h scr.pane hpane henabled
  simp only [Pane.grid, Pane.size, Screen.pane] at hgrid hcols hrows
  refine ⟨hgrid, hconsole, hcols, hrows, ?_, ?_⟩
  · intro posx hx posy hy
    calc posx + posy * scr.txt.cols < scr.txt.cols * (scr.txt.rows + 2) := index_lt hx hy
      _ ≤ scr.txt.maxCols * (scr.txt.maxRows + 2) :=
        Nat.mul_le_mul hcols (Nat.add_le_add_right hrows 2)
  · intro posx hx posy hy
    have hsize := hgrid.trans hconsole
    simp only [view, Prod.mk.injEq] at hsize
    rw [← hsize.1, ← hsize.2]
    exact index_lt hx hy

theorem sound_new (conf' : Conf) (console : κ) (fontHeight : ℕ) (font : Font) (oneshot : Bool)
    (now : ℤ) (sources : Option (List Feed.Source)) (displays : ℕ → Display) :
    ((new tsm conf' console fontHeight font oneshot now sources displays).view tsm).Sound conf := by
  refine ⟨List.nodup_nil, ?_, .inl rfl, ?_, ?_⟩
  · intro pane hpane
    cases hpane
  · intro _ size hsize
    cases hsize
  · exact fun _ => .inr ⟨rfl, fun size hsize => nomatch hsize⟩

/-- All screens measured anew, by a function that ends in the computation of the
sizes. -/
theorem sound_measured (h : (term.view tsm).Sound conf) {min : ℕ × ℕ}
    (hmin : min = (term.view tsm).min ∨ min = (0, 0)) {turn : Orientation → Orientation}
    {font : Font} {r : Pane → Text} (hmeets : term.RenewMeets conf env min turn font)
    (hr : ∀ scr ∈ term.panel.screens, ∃ txt : Text, txt.orientation = turn scr.txt.orientation ∧
      r scr.pane = txt.measure font (term.panel.displays scr.disp).width
        (term.panel.displays scr.disp).height) :
    (Panes.update conf ⟨(term.view tsm).panes.map fun pane => { pane with txt := r pane }, min,
      (term.view tsm).console⟩).Sound conf := by
  obtain ⟨-, hfits, hsame⟩ := hmeets
  have hmeasured : ∀ scr ∈ term.panel.screens,
      ({ scr.pane with txt := r scr.pane } : Pane).size =
          ownSize (turn scr.txt.orientation) font (term.panel.displays scr.disp) ∧
        ({ scr.pane with txt := r scr.pane } : Pane).grid =
          ({ scr.pane with txt := r scr.pane } : Pane).size := by
    intro scr hscr
    obtain ⟨txt, horientation, htxt⟩ := hr scr hscr
    rw [htxt, ← horientation]
    exact ⟨rfl, rfl⟩
  have hsizes : (⟨(term.view tsm).panes.map fun pane => { pane with txt := r pane }, min,
      (term.view tsm).console⟩ : Panes).sizes = term.sizesWith turn font := by
    simp only [Panes.sizes, view, Panel.panes, sizesWith, List.map_map]
    exact List.map_congr_left fun scr hscr => (hmeasured scr hscr).1
  apply Panes.sound_renew
  · apply distinct_panes h.distinct
    exact fun _ => rfl
  · rcases hmin with rfl | rfl
    · exact h.synced
    · exact .inl rfl
  · intro hlargest
    rcases hmin with rfl | rfl
    · exact (h.chosen hlargest).imp_right And.left
    · exact .inr rfl
  · intro pane hpane
    obtain ⟨old, hold, rfl⟩ := List.mem_map.mp hpane
    obtain ⟨scr, hscr, rfl⟩ := List.mem_map.mp hold
    exact (hmeasured scr hscr).2
  · rw [hsizes]
    exact hfits
  · rw [hsizes]
    exact hsame

theorem sound_rotateAll (htsm : tsm.Resizes) (h : (term.view tsm).Sound conf)
    {turn : Orientation → Orientation}
    (hmeets : term.RenewMeets conf env (term.minCols, term.minRows) turn term.font) :
    ((term.rotateAll tsm conf env turn).view tsm).Sound conf := by
  rw [view_rotateAll htsm conf h.distinct]
  apply sound_measured h (.inl rfl) hmeets
  intro scr hscr
  obtain ⟨hdone, hsize⟩ := hmeets.1 scr hscr
  have htext := opsSet_done { scr.txt with orientation := turn scr.txt.orientation } term.font hsize
  refine ⟨{ scr.txt with orientation := turn scr.txt.orientation }, rfl, ?_⟩
  simp only [Screen.pane, Text.rotate, hdone, htext]

theorem sound_fontSet (htsm : tsm.Resizes) (h : (term.view tsm).Sound conf) {font : Font}
    (hfont : env.font term.fontHeight = some font)
    (hmeets : term.RenewMeets conf env (0, 0) id font) :
    (term.fontSet tsm conf env).1 = true ∧
      ((term.fontSet tsm conf env).2.view tsm).Sound conf := by
  obtain ⟨hret, hview⟩ := view_fontSet htsm conf h.distinct hfont
  refine ⟨hret, ?_⟩
  rw [hview]
  apply sound_measured h (.inr rfl) hmeets
  intro scr hscr
  obtain ⟨hdone, hsize⟩ := hmeets.1 scr hscr
  have htext := opsSet_done { scr.txt with cols := 0, rows := 0 } font hsize
  refine ⟨{ scr.txt with cols := 0, rows := 0 }, rfl, ?_⟩
  simp only [Screen.pane, Text.set, hdone, htext]

/-- Zooming, by either function: the font is looked for at another height. -/
theorem sound_zoom (htsm : tsm.Resizes) (h : (term.view tsm).Sound conf) (height : ℕ)
    (hmeets : ∀ font, env.font height = some font → term.RenewMeets conf env (0, 0) id font) :
    ((if ({ term with fontHeight := height }.fontSet tsm conf env).1 then
      ({ term with fontHeight := height }.fontSet tsm conf env).2 else term).view tsm).Sound
        conf := by
  cases hfont : env.font height with
  | none =>
    have hret : ({ term with fontHeight := height }.fontSet tsm conf env).1 = false := by
      simp [fontSet, hfont]
    simp only [hret, Bool.false_eq_true, if_false]
    exact h
  | some font =>
    obtain ⟨hret, hsound⟩ := @sound_fontSet _ tsm conf env { term with fontHeight := height } htsm h
      font hfont (hmeets font hfont)
    rw [if_pos hret]
    exact hsound

theorem sound_terminalAddDisplay (htsm : tsm.Resizes) (h : (term.view tsm).Sound conf) (d : ℕ)
    (hmeets : term.AddMeets conf env d) :
    ((term.terminalAddDisplay tsm conf env d).view tsm).Sound conf := by
  cases hfind : term.panel.find d with
  | some scr => simpa [terminalAddDisplay, hfind] using h
  | none =>
    cases halloc : env.alloc with
    | false => simpa [terminalAddDisplay, hfind, halloc] using h
    | true =>
      cases hnew : term.newText conf env d with
      | mk ok txt =>
        cases ok with
        | false => simpa [terminalAddDisplay, hfind, halloc, hnew] using h
        | true =>
          obtain ⟨⟨hdone, hsize⟩, hfits⟩ := hmeets hfind halloc (by rw [hnew])
          have htext := opsSet_done ⟨conf.rotate, 0, 0, 0, 0⟩ term.font hsize
          have htxt : txt = Text.measure ⟨conf.rotate, 0, 0, 0, 0⟩ term.font
              (term.panel.displays d).width (term.panel.displays d).height := by
            simp only [newText, Text.set, hdone, htext, Prod.mk.injEq, true_and] at hnew
            exact hnew.symm
          rw [view_terminalAddDisplay htsm conf h.distinct hfind halloc hnew]
          apply h.add ⟨d, txt, true⟩ (not_mem_of_find_none hfind)
          have hsizes : (term.view tsm).sizes =
              term.panel.screens.map fun scr => (scr.txt.maxCols, scr.txt.maxRows) := by
            simp [Panes.sizes, view, Panel.panes, Screen.pane, Pane.size]
          rw [hsizes, htxt]
          exact hfits

/-- An operation that meets the condition keeps the panes in order. -/
theorem sound_opStep (htsm : tsm.Resizes) (h : (term.view tsm).Sound conf) (e : Env × Op)
    (hmeets : OpMeets conf term e) : ((opStep tsm conf term e).view tsm).Sound conf := by
  obtain ⟨env, op⟩ := e
  cases op with
  | addDisplay d => exact sound_terminalAddDisplay htsm h d hmeets
  | rmDisplay d =>
    cases hfind : term.panel.find d with
    | none => simpa [opStep, terminalRmDisplay, hfind] using h
    | some scr =>
      simp only [opStep]
      rw [view_terminalRmDisplay htsm conf h.distinct hfind]
      exact h.remove d
  | rotateCw => exact sound_rotateAll htsm h hmeets
  | rotateCcw => exact sound_rotateAll htsm h hmeets
  | zoomIn =>
    simp only [opStep, zoomIn]
    by_cases hlimit : 150 < term.fontHeight
    · rw [if_pos hlimit]
      exact h
    · rw [if_neg hlimit]
      exact sound_zoom htsm h _ (hmeets (by omega))
  | zoomOut =>
    simp only [opStep, zoomOut]
    by_cases hlimit : term.fontHeight ≤ term.font.increaseStep ∨
        term.fontHeight - term.font.increaseStep < 10
    · rw [if_pos hlimit]
      exact h
    · rw [if_neg hlimit]
      exact sound_zoom htsm h _ (hmeets (by omega) (by omega))
  | device d disp =>
    have hview : (term.draw (.device d disp)).view tsm = term.view tsm := by
      simp only [draw, Panel.step]
      split_ifs <;> rfl
    simp only [opStep, hview]
    exact h

/-- After every sequence of operations that meet the condition, all enabled screens
have the grid of the console, and it fits them. -/
theorem gridsAgree_of_opMeets (htsm : tsm.Resizes) (console : κ) (fontHeight : ℕ) (font : Font)
    (oneshot : Bool) (now : ℤ) (sources : Option (List Feed.Source)) (displays : ℕ → Display)
    (ops : List (Env × Op))
    (hmeets : Runs.Along (opStep tsm conf) (OpMeets conf)
      (new tsm conf console fontHeight font oneshot now sources displays) ops) :
    Runs.Always (opStep tsm conf) (GridsAgree tsm)
      (new tsm conf console fontHeight font oneshot now sources displays) ops :=
  hmeets.always (J := fun term => (term.view tsm).Sound conf)
    (fun _ h => gridsAgree_of_agrees h.agrees) (fun _ e h hmeets => sound_opStep htsm h e hmeets)
    (sound_new conf console fontHeight font oneshot now sources displays)

end Proofs

/-- A console that is only a size. -/
def sizedTsm : Tsm (ℕ × ℕ) where
  getWidth := Prod.fst
  getHeight := Prod.snd
  resize console cols rows := if cols = 0 ∨ rows = 0 then console else (cols, rows)
  setMaxSb console _ := console
  sbReset console := console
  sbUp console _ := console
  sbDown console _ := console
  sbPageUp console _ := console
  sbPageDown console _ := console
  selectionReset console := console
  selectionStart console _ _ := console
  selectionTarget console _ _ := console
  selectionWord console _ _ := console
  selectionCopy _ := []
  mouseTracking _ := false
  hardReset console := (console, [])
  input console _ := (console, [])
  handleKeyboard console _ := (false, console, [])
  handleMouse console _ := (console, [])
  paste console _ := (console, [])

theorem sizedTsm_resizes : sizedTsm.Resizes where
  width console cols rows hcols hrows := by
    simp [sizedTsm, Nat.ne_of_gt hcols, Nat.ne_of_gt hrows]
  height console cols rows hcols hrows := by
    simp [sizedTsm, Nat.ne_of_gt hcols, Nat.ne_of_gt hrows]

/-- A configuration in clone mode. -/
def cloneConf : Conf := ⟨false, 1000, false, false, false, false, .normal, fun _ _ => false⟩

/-- Surroundings in which every call works; fonts are half as wide as high. -/
def roomyEnv : Env where
  swap _ := ⟨0, true, true, true, 0⟩
  write _ := .wouldBlock
  mem _ := 0
  spawned := some (3, 100)
  err := 0
  issue := []
  font height := some ⟨height / 2, height, 2⟩
  textSet _ := .done
  cursor _ := false
  alloc := true
  mods := 0

/-- A display of this size. -/
def sizedDisplay (width height : ℕ) : Display :=
  ⟨.drm2d, width, height, true, true, .on, false, false, false, true, false⟩

/-- Two displays of different size are added, turned and zoomed. -/
theorem gridsAgree_of_opMeets_zoomed :
    Runs.Always (opStep sizedTsm cloneConf) (GridsAgree sizedTsm)
      (new sizedTsm cloneConf (80, 24) 16 ⟨8, 16, 2⟩ false 0 none fun d =>
        if d = 0 then sizedDisplay 1920 1080 else sizedDisplay 1280 720)
      [(roomyEnv, .addDisplay 0), (roomyEnv, .addDisplay 1), (roomyEnv, .rotateCw),
        (roomyEnv, .zoomIn), (roomyEnv, .rmDisplay 1)] :=
  gridsAgree_of_opMeets sizedTsm_resizes _ _ _ _ _ _ _ _ (by decide +kernel)

/-- A new terminal beside two square displays. -/
def squares : Terminal (ℕ × ℕ) :=
  new sizedTsm cloneConf (80, 24) 16 ⟨8, 16, 2⟩ false 0 none fun d =>
    if d = 0 then sizedDisplay 800 800 else sizedDisplay 1600 1600

/-- The turned screens have the common size of before, so the larger one is left with
its own grid. -/
theorem rotatedSquares_not_gridsAgree :
    ¬ Runs.Always (opStep sizedTsm cloneConf) (GridsAgree sizedTsm) squares
      [(roomyEnv, .addDisplay 0), (roomyEnv, .addDisplay 1), (roomyEnv, .rotateCw)] := by
  intro h
  have hcols : ¬ ∀ scr ∈ (Runs.run (opStep sizedTsm cloneConf) squares
      [(roomyEnv, .addDisplay 0), (roomyEnv, .addDisplay 1),
        (roomyEnv, .rotateCw)]).panel.screens,
      scr.enabled = true → (scr.txt.cols, scr.txt.rows) = (82, 33) := by
    decide +kernel
  apply hcols
  intro scr hscr henabled
  exact (h.last scr hscr henabled).1

end Faceplate.Terminal
