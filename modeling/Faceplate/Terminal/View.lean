import Faceplate.Terminal.Handlers
import Faceplate.Terminal.Panes
import Faceplate.Terminal.Redraw

/-!
# A terminal seen through its grids

The functions of `terminal.c` act on the grids of a terminal as the operations on
panes do: drawing does not touch them, a loop over the screens changes each of them
once, and an update of the size is the update of the panes. For the console this
rests on what libtsm promises about resizing.
-/

namespace Faceplate.Terminal

open Render Video

/-- The grid of a screen. -/
def Screen.pane (scr : Screen) : Pane := ⟨scr.disp, scr.txt, scr.enabled⟩

namespace Panel

/-- The grids of a panel. -/
def panes (panel : Panel) : List Pane := panel.screens.map Screen.pane

/-- What a function does to the screen on a display, seen on the grids. -/
theorem panes_onScreen {panel : Panel} {d : ℕ} {f : Screen → Display → Screen × Display}
    {g : Pane → Display → Pane} (hnodup : (panel.panes.map (·.disp)).Nodup)
    (hf : ∀ scr disp, (f scr disp).1.pane = g scr.pane disp) :
    (panel.onScreen d f).panes =
      panel.panes.map fun pane => if pane.disp = d then g pane (panel.displays d) else pane := by
  unfold onScreen
  cases hfind : panel.find d with
  | none =>
    have hne := disp_ne_of_find_none hfind
    simp only [panes, List.map_map]
    refine List.map_congr_left fun scr hscr => ?_
    simp [Screen.pane, hne scr hscr]
  | some scr =>
    have hmem := List.mem_of_find?_eq_some hfind
    have hscr := disp_of_find hfind
    rw [panes, List.map_map] at hnodup
    simp only [panes, put, List.map_map]
    refine List.map_congr_left fun other hother => ?_
    by_cases hd : other.disp = d
    · obtain rfl : other = scr := List.inj_on_of_nodup_map hnodup hother hmem (hd.trans hscr.symm)
      have hpane : other.pane.disp = d := hd
      simp only [Function.comp_apply, if_pos hd, if_pos hpane, hf]
    · have hpane : ¬ other.pane.disp = d := hd
      simp only [Function.comp_apply, if_neg hd, if_neg hpane]

end Panel

namespace Screen

theorem pane_disableScreen (scr : Screen) (disp : Display) (ans : SwapAnswers) :
    (scr.disableScreen disp ans).1.pane = { scr.pane with enabled := false } := by
  unfold disableScreen
  split_ifs <;> rfl

theorem pane_doRedrawScreen (awake foreground : Bool) (scr : Screen) (disp : Display)
    (ans : SwapAnswers) : (scr.doRedrawScreen awake foreground disp ans).1.pane = scr.pane := by
  unfold doRedrawScreen
  dsimp only
  split_ifs with hidle henabled
  · rfl
  · rw [pane_disableScreen]
    simp only [Bool.not_eq_true'] at henabled
    simp [pane, henabled]
  · rfl
  · rfl
  · rfl

theorem pane_redrawScreen (awake foreground : Bool) (scr : Screen) (disp : Display)
    (ans : SwapAnswers) : (scr.redrawScreen awake foreground disp ans).1.pane = scr.pane := by
  unfold redrawScreen
  split_ifs
  · rfl
  · rfl
  · exact pane_doRedrawScreen awake foreground scr disp ans

/-- Change the renderer of a screen. -/
def mapText (f : Text → Display → Text) (scr : Screen) (disp : Display) : Screen × Display :=
  ({ scr with txt := f scr.txt disp }, disp)

end Screen

/-- The grid part of a terminal. -/
def view {κ : Type*} (tsm : Tsm κ) (term : Terminal κ) : Panes :=
  ⟨term.panel.panes, (term.minCols, term.minRows),
    (tsm.getWidth term.console, tsm.getHeight term.console)⟩

namespace Panel

/-- Displays that a function leaves as they are. -/
theorem displays_onScreen {panel : Panel} {d : ℕ} {f : Screen → Display → Screen × Display}
    (hf : ∀ scr disp, (f scr disp).2 = disp) : (panel.onScreen d f).displays = panel.displays := by
  unfold onScreen
  cases panel.find d with
  | none => rfl
  | some scr =>
    funext e
    simp only [put, hf]
    split_ifs with he
    · rw [he]
    · rfl

end Panel

section View

variable {κ : Type*} {tsm : Tsm κ} {env : Env} {term : Terminal κ}

/-- What an event of the panel that concerns one screen does to the grids. -/
theorem view_onScreen {term' : Terminal κ} {d : ℕ} {f : Screen → Display → Screen × Display}
    {h : Pane → Display → Pane} (hd : (term.view tsm).Distinct)
    (hf : ∀ scr disp, (f scr disp).1.pane = h scr.pane disp)
    (hterm : ∃ asked, term' = { term with panel := term.panel.onScreen d f, asked := asked }) :
    term'.view tsm = (term.view tsm).mapAt d fun pane => h pane (term.panel.displays d) := by
  obtain ⟨asked, rfl⟩ := hterm
  simp only [view, Panes.mapAt, Panel.panes_onScreen hd hf]

theorem view_redraw (hd : (term.view tsm).Distinct) (d : ℕ) :
    (term.drawSwap env (.redraw d)).view tsm = term.view tsm :=
  (view_onScreen (h := fun pane _ => pane) hd (fun _ _ => Screen.pane_redrawScreen ..)
    ⟨_, rfl⟩).trans (Panes.mapAt_id _ d)

theorem view_doRedraw (hd : (term.view tsm).Distinct) (d : ℕ) :
    (term.drawSwap env (.doRedraw d)).view tsm = term.view tsm :=
  (view_onScreen (h := fun pane _ => pane) hd (fun _ _ => Screen.pane_doRedrawScreen ..)
    ⟨_, rfl⟩).trans (Panes.mapAt_id _ d)

theorem view_setupHwCursor (hd : (term.view tsm).Distinct) (d : ℕ) :
    (term.setupHwCursor env d).view tsm = term.view tsm :=
  (view_onScreen (h := fun pane _ => pane) hd (fun _ _ => rfl) ⟨_, rfl⟩).trans (Panes.mapAt_id _ d)

theorem view_disable (hd : (term.view tsm).Distinct) (d : ℕ) :
    (term.drawSwap env (.disable d)).view tsm =
      (term.view tsm).mapAt d fun pane => { pane with enabled := false } :=
  view_onScreen (h := fun pane _ => { pane with enabled := false }) hd
    (fun _ _ => Screen.pane_disableScreen ..) ⟨_, rfl⟩

theorem view_enable (hd : (term.view tsm).Distinct) (d : ℕ) :
    (term.draw (.enable d)).view tsm =
      (term.view tsm).mapAt d fun pane => { pane with enabled := true } :=
  view_onScreen (h := fun pane _ => { pane with enabled := true }) hd (fun _ _ => rfl) ⟨_, rfl⟩

theorem onText_eq (d : ℕ) (f : Text → Display → Text) (term : Terminal κ) :
    term.onText d f = { term with panel := term.panel.onScreen d (Screen.mapText f) } := by
  unfold onText
  cases hfind : term.panel.find d with
  | none => simp [Panel.onScreen, hfind]
  | some scr => simp [draw, Panel.step, Panel.onScreen, Screen.mapText, hfind]

theorem view_onText (hd : (term.view tsm).Distinct) (d : ℕ) (f : Text → Display → Text) :
    (term.onText d f).view tsm = (term.view tsm).mapAt d fun pane =>
      { pane with txt := f pane.txt (term.panel.displays d) } :=
  view_onScreen (h := fun pane disp => { pane with txt := f pane.txt disp }) hd (fun _ _ => rfl)
    ⟨_, onText_eq d f term⟩

theorem view_refreshHwCursor (hd : (term.view tsm).Distinct) (d : ℕ) :
    (term.refreshHwCursor env d).view tsm = term.view tsm := by
  unfold refreshHwCursor
  cases term.panel.find d with
  | none => rfl
  | some scr =>
    dsimp only
    split_ifs
    · exact view_setupHwCursor hd d
    · rfl

/-- A loop over the screens that changes each of them once. Its rounds may rely on
what they all keep. -/
theorem view_foldl {f : Terminal κ → Screen → Terminal κ} {h : Pane → Pane → Pane}
    {K : Terminal κ → Prop} (hdisp : ∀ p q, (h p q).disp = q.disp)
    (hK : ∀ term scr, K term → K (f term scr))
    (hstep : ∀ term scr, K term → (term.view tsm).Distinct →
      (f term scr).view tsm = (term.view tsm).mapAt scr.disp (h scr.pane))
    (hd : (term.view tsm).Distinct) (hterm : K term) :
    (term.panel.screens.foldl f term).view tsm =
      { term.view tsm with panes := (term.view tsm).panes.map fun p => h p p } := by
  rw [← Panes.foldl_mapAt hd hdisp]
  have hpanes : (term.view tsm).panes = term.panel.screens.map Screen.pane := rfl
  rw [hpanes, List.foldl_map]
  clear hpanes
  suffices hloop : ∀ (screens : List Screen) (term : Terminal κ), K term →
      (term.view tsm).Distinct → (screens.foldl f term).view tsm =
        screens.foldl (fun g scr => g.mapAt scr.pane.disp (h scr.pane)) (term.view tsm) by
    exact hloop _ term hterm hd
  intro screens
  induction screens with
  | nil => exact fun _ _ _ => rfl
  | cons scr screens ih =>
    intro term hterm hd
    have hview := hstep term scr hterm hd
    have hnext : ((f term scr).view tsm).Distinct := by
      rw [hview]
      exact hd.mapAt scr.disp (hdisp scr.pane)
    rw [List.foldl_cons, List.foldl_cons, ih _ (hK term scr hterm) hnext, hview]
    rfl

theorem view_redrawAll (hd : (term.view tsm).Distinct) :
    (term.redrawAll env).view tsm = term.view tsm := by
  unfold redrawAll screenDisplays
  split_ifs
  · rfl
  · rw [List.foldl_map, view_foldl (h := fun _ q => q) (K := fun _ => True)]
    · simp
    · simp
    · simp
    · intro term scr _ hd
      rw [view_redraw hd]
      exact (Panes.mapAt_id _ _).symm
    · exact hd
    · trivial

theorem updateSizeClone_eq (tsm : Tsm κ) (term : Terminal κ) :
    term.updateSizeClone =
      let size := Panes.smallest (term.view tsm).sizes
      if size.1 = uintMax ∨ size.2 = uintMax ∨ size = (term.view tsm).min then (false, term)
      else (true, { term with minCols := size.1, minRows := size.2 }) := by
  have hcols : (term.view tsm).sizes.map (·.1) = term.panel.screens.map (·.txt.maxCols) := by
    simp [view, Panes.sizes, Panel.panes, Screen.pane, Pane.size]
  have hrows : (term.view tsm).sizes.map (·.2) = term.panel.screens.map (·.txt.maxRows) := by
    simp [view, Panes.sizes, Panel.panes, Screen.pane, Pane.size]
  have hsize : Panes.smallest (term.view tsm).sizes =
      ((term.panel.screens.map (·.txt.maxCols)).foldl Panes.smaller uintMax,
        (term.panel.screens.map (·.txt.maxRows)).foldl Panes.smaller uintMax) := by
    rw [Panes.smallest, hcols, hrows]
  have htests : ∀ cols rows : ℕ,
      (if cols = uintMax ∨ rows = uintMax then (false, term)
        else if cols = term.minCols ∧ rows = term.minRows then (false, term)
        else (true, { term with minCols := cols, minRows := rows })) =
      if cols = uintMax ∨ rows = uintMax ∨ (cols, rows) = (term.view tsm).min then (false, term)
        else (true, { term with minCols := cols, minRows := rows }) := by
    intro cols rows
    simp only [view, Prod.mk.injEq, ← or_assoc]
    by_cases hnone : cols = uintMax ∨ rows = uintMax
    · simp [hnone]
    · simp [hnone]
  rw [hsize]
  exact htests _ _

theorem view_enableLargest (hd : (term.view tsm).Distinct) (scr : Screen) :
    (enableLargest env term scr).view tsm = (term.view tsm).mapAt scr.disp fun pane =>
      { pane with enabled := decide (scr.pane.size = (term.view tsm).min) } := by
  unfold enableLargest
  split_ifs with hother
  · have hsize : ¬ scr.pane.size = (term.view tsm).min := by
      simp only [Screen.pane, Pane.size, view, Prod.mk.injEq]
      omega
    rw [view_disable hd, decide_eq_false hsize]
  · have hsize : scr.pane.size = (term.view tsm).min := by
      simp only [Screen.pane, Pane.size, view, Prod.mk.injEq]
      omega
    rw [view_enable hd, decide_eq_true hsize]

/-- The loops of `terminal_update_size_largest`. -/
theorem view_updateSizeLargest (hd : (term.view tsm).Distinct) :
    let best := Panes.largest (term.view tsm).min (term.view tsm).panes
    (term.updateSizeLargest env).1 = decide (0 < best.1) ∧
      (term.updateSizeLargest env).2.view tsm =
        ⟨(term.view tsm).panes.map (Pane.enableFor best.2), best.2, (term.view tsm).console⟩ := by
  intro best
  have hbest : term.panel.screens.foldl largerScreen (0, term.minCols, term.minRows) = best := by
    simp only [best, Panes.largest, view, Panel.panes, List.foldl_map]
    rfl
  unfold updateSizeLargest
  rw [hbest]
  refine ⟨rfl, ?_⟩
  dsimp only
  have hloop : (term.panel.screens.foldl (enableLargest env)
      { term with minCols := best.2.1, minRows := best.2.2 }).view tsm = _ :=
    view_foldl (h := fun p q => { q with enabled := decide (p.size = best.2) })
      (K := fun term => (term.minCols, term.minRows) = best.2) (fun _ _ => rfl) ?_ ?_ hd rfl
  · rw [hloop]
    rfl
  · intro term scr hmin
    unfold enableLargest
    split_ifs
    · exact hmin
    · exact hmin
  · intro term scr hmin hd
    rw [view_enableLargest hd, ← hmin]
    rfl

/-- The loop of `terminal_update_size`. -/
theorem view_resizeScreens (hd : (term.view tsm).Distinct) :
    (term.resizeScreens).view tsm = { term.view tsm with
      panes := (term.view tsm).panes.map (Pane.resizeEnabled (term.view tsm).min) } := by
  unfold resizeScreens
  rw [List.foldl_filter]
  have hloop : (term.panel.screens.foldl (fun term scr => if scr.enabled then
      term.onText scr.disp fun txt _ => txt.resize term.minCols term.minRows else term)
        term).view tsm = _ :=
    view_foldl (h := fun p q => if p.enabled then q.resize (term.view tsm).min else q)
      (K := fun other => (other.minCols, other.minRows) = (term.view tsm).min) ?_ ?_ ?_ hd rfl
  · rw [hloop]
    rfl
  · intro p q
    split_ifs <;> rfl
  · intro other scr hmin
    split_ifs
    · rw [onText_eq]
      exact hmin
    · exact hmin
  · intro other scr hmin hd
    by_cases henabled : scr.enabled = true
    · have hpane : scr.pane.enabled = true := henabled
      simp only [if_pos henabled, if_pos hpane, ← hmin]
      exact view_onText hd scr.disp _
    · have hpane : ¬ scr.pane.enabled = true := henabled
      simp only [if_neg henabled, if_neg hpane]
      exact (Panes.mapAt_id _ _).symm

/-- What libtsm promises about `tsm_screen_resize`: a size with rows and columns is
taken. -/
structure Tsm.Resizes (tsm : Tsm κ) : Prop where
  width : ∀ console cols rows, 0 < cols → 0 < rows →
    tsm.getWidth (tsm.resize console cols rows) = cols
  height : ∀ console cols rows, 0 < cols → 0 < rows →
    tsm.getHeight (tsm.resize console cols rows) = rows

theorem distinct_panes {g : Panes} (hd : g.Distinct) {h : Pane → Pane}
    (hdisp : ∀ pane, (h pane).disp = pane.disp) (min console : ℕ × ℕ) :
    (⟨g.panes.map h, min, console⟩ : Panes).Distinct := by
  have heq : (g.panes.map h).map (·.disp) = g.panes.map (·.disp) := by
    rw [List.map_map]
    exact List.map_congr_left fun pane _ => hdisp pane
  unfold Panes.Distinct
  rwa [heq]

/-- The part of `terminal_update_size_notify` that follows a change of the size. -/
theorem view_notify (htsm : tsm.Resizes) (hd : (term.view tsm).Distinct)
    (hpos : 0 < (term.view tsm).min.1 ∧ 0 < (term.view tsm).min.2) :
    ((term.resizeScreens.onConsole
      (tsm.resize · term.resizeScreens.minCols term.resizeScreens.minRows)).redrawAll env).view
        tsm = (term.view tsm).push (term.view tsm).min := by
  have hview := view_resizeScreens hd
  have hmin : (term.resizeScreens.minCols, term.resizeScreens.minRows) = (term.view tsm).min :=
    congrArg Panes.min hview
  have hpanes : term.resizeScreens.panel.panes =
      (term.view tsm).panes.map (Pane.resizeEnabled (term.view tsm).min) :=
    congrArg Panes.panes hview
  obtain ⟨hcols, hrows⟩ := Prod.mk.inj hmin
  have hconsole : (term.resizeScreens.onConsole
      (tsm.resize · term.resizeScreens.minCols term.resizeScreens.minRows)).view tsm =
        (term.view tsm).push (term.view tsm).min := by
    simp only [onConsole, view, Panes.push, hpanes, hcols, hrows]
    congr 2
    · exact htsm.width _ _ _ hpos.1 hpos.2
    · exact htsm.height _ _ _ hpos.1 hpos.2
  rw [view_redrawAll, hconsole]
  rw [hconsole]
  exact distinct_panes hd (fun pane => Pane.resizeEnabled_disp pane _) _ _

theorem updateSizeNotify_of_same {conf : Conf} {out : Terminal κ}
    (hmin : term.updateMin conf env = (false, out)) : term.updateSizeNotify tsm conf env = out := by
  simp [updateSizeNotify, updateSize, hmin]

theorem updateSizeNotify_of_changed {conf : Conf} {out : Terminal κ}
    (hmin : term.updateMin conf env = (true, out)) : term.updateSizeNotify tsm conf env =
      (out.resizeScreens.onConsole
        (tsm.resize · out.resizeScreens.minCols out.resizeScreens.minRows)).redrawAll env := by
  simp [updateSizeNotify, updateSize, hmin]

/-- `terminal_update_size_notify` is the update of the panes. -/
theorem view_updateSizeNotify (htsm : tsm.Resizes) (conf : Conf) (hd : (term.view tsm).Distinct) :
    (term.updateSizeNotify tsm conf env).view tsm = (term.view tsm).update conf := by
  cases hlargest : conf.largest with
  | false =>
    have hmin : term.updateMin conf env = term.updateSizeClone := by simp [updateMin, hlargest]
    have hclone := updateSizeClone_eq tsm term
    simp only [Panes.update, hlargest, Bool.false_eq_true, if_false, Panes.updateClone]
    dsimp only at hclone
    by_cases hstay : (Panes.smallest (term.view tsm).sizes).1 = uintMax ∨
        (Panes.smallest (term.view tsm).sizes).2 = uintMax ∨
          Panes.smallest (term.view tsm).sizes = (term.view tsm).min
    · rw [if_pos hstay] at hclone ⊢
      rw [updateSizeNotify_of_same (hmin.trans hclone)]
    · rw [if_neg hstay] at hclone ⊢
      rw [updateSizeNotify_of_changed (hmin.trans hclone)]
      simp only [not_or] at hstay
      exact view_notify htsm hd (Panes.smallest_pos hstay.1 hstay.2.1)
  | true =>
    obtain ⟨hret, hview⟩ := @view_updateSizeLargest _ tsm env term hd
    have hmin : term.updateMin conf env = term.updateSizeLargest env := by
      simp [updateMin, hlargest]
    simp only [Panes.update, hlargest, if_true, Panes.updateLargest]
    rcases Panes.largest_cases (term.view tsm).min (term.view tsm).panes with
      ⟨hnone, -⟩ | ⟨hsome, hcells⟩
    · rw [hnone] at hret hview ⊢
      rw [updateSizeNotify_of_same (hmin.trans (Prod.ext hret rfl)), hview]
      rfl
    · rw [if_pos hsome]
      rw [decide_eq_true hsome] at hret
      rw [updateSizeNotify_of_changed (hmin.trans (Prod.ext hret rfl)), view_notify htsm, hview]
      · rw [hview]
        exact distinct_panes hd (fun pane => Pane.enableFor_disp pane _) _ _
      · rw [hview]
        exact hcells.pos

theorem view_addScreen {d : ℕ} (hfind : term.panel.find d = none) (txt : Text) :
    (term.draw (.addScreen d txt)).view tsm = (term.view tsm).add ⟨d, txt, true⟩ := by
  simp [draw, Panel.step, hfind, view, Panes.add, Panel.panes, Screen.pane, Panel.newScreen]

theorem not_mem_of_find_none {d : ℕ} (hfind : term.panel.find d = none) :
    d ∉ (term.view tsm).panes.map (·.disp) := by
  have hne := Panel.disp_ne_of_find_none hfind
  intro hmem
  obtain ⟨pane, hpane, hd⟩ := List.mem_map.mp hmem
  obtain ⟨scr, hscr, rfl⟩ := List.mem_map.mp hpane
  exact hne scr hscr hd

/-- The end of `terminal_add_display`. -/
theorem view_resizeAt (hd : (term.view tsm).Distinct) (d : ℕ) :
    ((term.onText d fun txt _ => txt.resize term.minCols term.minRows).drawSwap env
      (.doRedraw d)).view tsm =
        (term.view tsm).mapAt d fun pane => pane.resize (term.view tsm).min := by
  have htext := view_onText hd d fun txt _ => txt.resize term.minCols term.minRows
  have hdistinct := hd.mapAt d (h := fun pane => pane.resize (term.view tsm).min) fun _ => rfl
  rw [view_doRedraw (htext ▸ hdistinct), htext]
  rfl

/-- A display whose screen is set up adds a pane, which is resized in any case. -/
theorem view_terminalAddDisplay (htsm : tsm.Resizes) (conf : Conf)
    (hd : (term.view tsm).Distinct) {d : ℕ} (hfind : term.panel.find d = none)
    (halloc : env.alloc = true) {txt : Text} (hnew : term.newText conf env d = (true, txt)) :
    (term.terminalAddDisplay tsm conf env d).view tsm =
      (((term.view tsm).add ⟨d, txt, true⟩).update conf).mapAt d fun pane =>
        pane.resize (((term.view tsm).add ⟨d, txt, true⟩).update conf).min := by
  have hadd : (term.draw (.addScreen d txt)).view tsm = (term.view tsm).add ⟨d, txt, true⟩ :=
    view_addScreen hfind txt
  have hdistinct : ((term.draw (.addScreen d txt)).view tsm).Distinct := by
    rw [hadd]
    exact List.nodup_cons.mpr ⟨not_mem_of_find_none hfind, hd⟩
  simp only [terminalAddDisplay, hfind, halloc, hnew, Bool.not_true, Bool.false_eq_true, if_false]
  have hcursor : ∀ mouse : Bool, (if mouse = true then (term.draw (.addScreen d txt)).setupHwCursor
      env d else term.draw (.addScreen d txt)).view tsm = (term.view tsm).add ⟨d, txt, true⟩ := by
    intro mouse
    split_ifs
    · rw [view_setupHwCursor hdistinct, hadd]
    · exact hadd
  have hcursor := hcursor (conf.mouse && !conf.softCursor)
  have hupdate := @view_updateSizeNotify _ tsm env _ htsm conf (hcursor ▸ hadd ▸ hdistinct)
  rw [hcursor] at hupdate
  have hdistinct' : (((term.view tsm).add ⟨d, txt, true⟩).update conf).Distinct := by
    unfold Panes.Distinct
    rw [Panes.disps_update]
    exact hadd ▸ hdistinct
  rw [view_resizeAt (hupdate ▸ hdistinct') d, hupdate]

theorem view_terminalRmDisplay (htsm : tsm.Resizes) (conf : Conf)
    (hd : (term.view tsm).Distinct) {d : ℕ} {scr : Screen} (hfind : term.panel.find d = some scr) :
    (term.terminalRmDisplay tsm conf env d).view tsm = ((term.view tsm).remove d).update conf := by
  have hremove : (term.draw (.rmScreen d)).view tsm = (term.view tsm).remove d := by
    simp [draw, Panel.step, view, Panes.remove, Panel.panes, List.filter_map, Function.comp_def,
      Screen.pane]
  have hdistinct : ((term.draw (.rmScreen d)).view tsm).Distinct := by
    rw [hremove]
    exact hd.sublist (List.filter_sublist.map _)
  simp only [terminalRmDisplay, hfind]
  rw [view_updateSizeNotify htsm conf hdistinct, hremove]

theorem refreshHwCursor_keeps (d : ℕ) (term : Terminal κ) :
    (term.refreshHwCursor env d).panel.displays = term.panel.displays ∧
      (term.refreshHwCursor env d).font = term.font := by
  unfold refreshHwCursor
  cases term.panel.find d with
  | none => exact ⟨rfl, rfl⟩
  | some scr =>
    dsimp only
    split_ifs
    · exact ⟨Panel.displays_onScreen fun _ _ => rfl, rfl⟩
    · exact ⟨rfl, rfl⟩

/-- The loops that measure all screens anew, for another font or orientation. -/
theorem view_measureAll {f : Font → ℕ → Text → Display → Text} (hd : (term.view tsm).Distinct) :
    (term.screenDisplays.foldl (fun term d =>
      (term.onText d (f term.font d)).refreshHwCursor env d) term).view tsm =
      { term.view tsm with panes := (term.view tsm).panes.map fun pane => { pane with
          txt := f term.font pane.disp pane.txt (term.panel.displays pane.disp) } } := by
  unfold screenDisplays
  rw [List.foldl_map]
  apply view_foldl (K := fun other =>
    other.panel.displays = term.panel.displays ∧ other.font = term.font)
    (h := fun p q => { q with txt := f term.font p.disp q.txt (term.panel.displays p.disp) })
  · exact fun _ _ => rfl
  · intro other scr hkeep
    obtain ⟨hdisplays, hfont⟩ := @refreshHwCursor_keeps _ env scr.disp
      (other.onText scr.disp (f other.font scr.disp))
    rw [hdisplays, hfont, onText_eq]
    exact ⟨(Panel.displays_onScreen fun _ _ => rfl).trans hkeep.1, hkeep.2⟩
  · intro other scr hkeep hd
    have htext := view_onText hd scr.disp (f other.font scr.disp)
    have hdistinct := hd.mapAt scr.disp (h := fun pane =>
      { pane with txt := f other.font scr.disp pane.txt (other.panel.displays scr.disp) })
      fun _ => rfl
    rw [view_refreshHwCursor (htext ▸ hdistinct), htext, hkeep.1, hkeep.2]
    rfl
  · exact hd
  · exact ⟨rfl, rfl⟩

/-- A rotation turns all screens and updates the size. -/
theorem view_rotateAll (htsm : tsm.Resizes) (conf : Conf) (hd : (term.view tsm).Distinct)
    (turn : Orientation → Orientation) :
    (term.rotateAll tsm conf env turn).view tsm = Panes.update conf { term.view tsm with
      panes := (term.view tsm).panes.map fun pane => { pane with
        txt := pane.txt.rotate (turn pane.txt.orientation) term.font
          (term.panel.displays pane.disp).width (term.panel.displays pane.disp).height
          (hasOpengl (term.panel.displays pane.disp)) (env.textSet pane.disp) } } := by
  have hloop := @view_measureAll _ tsm env term (fun font d txt disp =>
    txt.rotate (turn txt.orientation) font disp.width disp.height (hasOpengl disp)
      (env.textSet d)) hd
  unfold rotateAll
  dsimp only
  rw [view_updateSizeNotify htsm conf, hloop]
  rw [hloop]
  apply distinct_panes hd
  exact fun _ => rfl

/-- A new font is set on all screens, the common size is forgotten, and updated. -/
theorem view_fontSet (htsm : tsm.Resizes) (conf : Conf) (hd : (term.view tsm).Distinct)
    {font : Font} (hfont : env.font term.fontHeight = some font) :
    (term.fontSet tsm conf env).1 = true ∧
      (term.fontSet tsm conf env).2.view tsm = Panes.update conf { term.view tsm with
        panes := (term.view tsm).panes.map fun pane => { pane with
          txt := (pane.txt.set font (term.panel.displays pane.disp).width
            (term.panel.displays pane.disp).height (hasOpengl (term.panel.displays pane.disp))
            (env.textSet pane.disp)).2 }
        min := (0, 0) } := by
  have hloop := @view_measureAll _ tsm env { term with font := font, minCols := 0, minRows := 0 }
    (fun _ d txt disp =>
      (txt.set font disp.width disp.height (hasOpengl disp) (env.textSet d)).2) hd
  unfold fontSet
  simp only [hfont]
  refine ⟨trivial, ?_⟩
  rw [view_updateSizeNotify htsm conf]
  · exact congrArg (Panes.update conf) hloop
  · rw [hloop]
    apply distinct_panes hd
    exact fun _ => rfl

end View

end Faceplate.Terminal
