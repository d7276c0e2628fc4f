import Faceplate.Terminal.Screen

/-!
# Redraws and page flips

A screen with its swapping flag set draws nothing until a page flip clears the
flag, so the flag must stand for a flip that is really coming. `do_redraw_screen`
sets it when `display_swap` reports success, which it does whatever the backend
said; `disable_screen` sets it in any case. This file finds the steps that leave
the flag without a flip.
-/

namespace Faceplate.Terminal

open Render Video

/-- A set swapping flag stands for an outstanding page flip. -/
def Settled (scr : Screen) (disp : Display) : Prop :=
  scr.swapping = true → disp.FlipOutstanding

instance (scr : Screen) (disp : Display) : Decidable (Settled scr disp) :=
  inferInstanceAs (Decidable (_ → _))

namespace Screen

@[simp] theorem disableScreen_disp (scr : Screen) (disp : Display) (ans : SwapAnswers) :
    (scr.disableScreen disp ans).1.disp = scr.disp := by
  unfold disableScreen
  split_ifs <;> rfl

@[simp] theorem doRedrawScreen_disp (awake foreground : Bool) (scr : Screen) (disp : Display)
    (ans : SwapAnswers) : (scr.doRedrawScreen awake foreground disp ans).1.disp = scr.disp := by
  unfold doRedrawScreen
  dsimp only
  split_ifs <;> simp

@[simp] theorem redrawScreen_disp (awake foreground : Bool) (scr : Screen) (disp : Display)
    (ans : SwapAnswers) : (scr.redrawScreen awake foreground disp ans).1.disp = scr.disp := by
  unfold redrawScreen
  split_ifs <;> simp

@[simp] theorem redrawTextScreen_disp (awake foreground : Bool) (scr : Screen) (disp : Display)
    (ans : SwapAnswers) : (scr.redrawTextScreen awake foreground disp ans).1.disp = scr.disp := by
  unfold redrawTextScreen
  split_ifs <;> simp

@[simp] theorem displayPageflip_disp (awake foreground : Bool) (scr : Screen) (disp : Display)
    (ans : SwapAnswers) : (scr.displayPageflip awake foreground disp ans).1.disp = scr.disp := by
  unfold displayPageflip
  dsimp only
  split_ifs <;> simp

/-- The condition on `disable_screen`: unless the screen waits already, a flip is
outstanding or the swap reaches a backend that accepts it. -/
def DisableMeets (scr : Screen) (disp : Display) (ans : SwapAnswers) : Prop :=
  scr.swapping = false → disp.FlipOutstanding ∨ disp.usable = true ∧ disp.AcceptsSwap ans

/-- The condition on `do_redraw_screen`: a swap that reaches the backend is
accepted or finds a flip outstanding. -/
def DoRedrawMeets (awake foreground : Bool) (scr : Screen) (disp : Display)
    (ans : SwapAnswers) : Prop :=
  awake = true → foreground = true →
    (scr.enabled = true → disp.usable = true → disp.FlipOutstanding ∨ disp.AcceptsSwap ans) ∧
    (scr.enabled = false → scr.pending = true → scr.DisableMeets disp ans)

/-- The condition on `redraw_screen`. -/
def RedrawMeets (awake foreground : Bool) (scr : Screen) (disp : Display)
    (ans : SwapAnswers) : Prop :=
  scr.enabled = true → scr.swapping = false → scr.DoRedrawMeets awake foreground disp ans

/-- The condition on a round of `redraw_all_text`. -/
def RedrawTextMeets (awake foreground : Bool) (scr : Screen) (disp : Display)
    (ans : SwapAnswers) : Prop :=
  ¬ disp.FlipOutstanding → scr.RedrawMeets awake foreground disp ans

/-- The condition on `display_pageflip`. -/
def PageflipMeets (awake foreground : Bool) (scr : Screen) (disp : Display)
    (ans : SwapAnswers) : Prop :=
  scr.pending = true →
    { scr with swapping := false }.DoRedrawMeets awake foreground disp ans

theorem settled_displaySwap {scr : Screen} {disp : Display} (ans : SwapAnswers)
    (h : Settled scr disp) : Settled scr (disp.displaySwap ans).2 := fun hswapping =>
  (Display.flipOutstanding_displaySwap disp ans).mpr (.inl (h hswapping))

theorem settled_disableScreen {scr : Screen} {disp : Display} (ans : SwapAnswers)
    (h : Settled scr disp) :
    Settled (scr.disableScreen disp ans).1 (scr.disableScreen disp ans).2 ↔
      scr.DisableMeets disp ans := by
  unfold disableScreen DisableMeets
  cases hswapping : scr.swapping with
  | true => simpa [Settled, hswapping] using h hswapping
  | false =>
    have hswap := Display.flipOutstanding_displaySwap disp ans
    simpa [Settled, hswapping] using hswap

theorem settled_doRedrawScreen (awake foreground : Bool) {scr : Screen} {disp : Display}
    (ans : SwapAnswers) (h : Settled scr disp) :
    Settled (scr.doRedrawScreen awake foreground disp ans).1
        (scr.doRedrawScreen awake foreground disp ans).2 ↔
      scr.DoRedrawMeets awake foreground disp ans := by
  unfold doRedrawScreen DoRedrawMeets
  by_cases hidle : (!awake || !foreground) = true
  · rw [if_pos hidle]
    refine iff_of_true h fun hawake hforeground => ?_
    simp [hawake, hforeground] at hidle
  obtain ⟨rfl, rfl⟩ : awake = true ∧ foreground = true := by simpa using hidle
  cases henabled : scr.enabled with
  | false =>
    cases hpending : scr.pending with
    | false => simpa [henabled, hpending] using h
    | true => simpa [henabled, hpending] using settled_disableScreen ans h
  | true =>
    have hswap := Display.flipOutstanding_displaySwap disp ans
    have hret := Display.displaySwap_ret disp ans
    cases husable : disp.usable with
    | false =>
      have hne : (disp.displaySwap ans).1 ≠ 0 := by simp [hret, husable]
      simpa [Settled, henabled, husable, hne] using settled_displaySwap ans h
    | true =>
      have heq : (disp.displaySwap ans).1 = 0 := by simp [hret, husable]
      simpa [henabled, husable, heq, Settled] using hswap

theorem settled_redrawScreen (awake foreground : Bool) {scr : Screen} {disp : Display}
    (ans : SwapAnswers) (h : Settled scr disp) :
    Settled (scr.redrawScreen awake foreground disp ans).1
        (scr.redrawScreen awake foreground disp ans).2 ↔
      scr.RedrawMeets awake foreground disp ans := by
  unfold redrawScreen RedrawMeets
  by_cases hidle : (!awake || !scr.enabled) = true
  · rw [if_pos hidle]
    refine iff_of_true h fun henabled _ hawake => ?_
    simp [hawake, henabled] at hidle
  obtain ⟨rfl, henabled⟩ : awake = true ∧ scr.enabled = true := by simpa using hidle
  cases hswapping : scr.swapping with
  | true => simpa [henabled, hswapping, Settled] using h hswapping
  | false => simpa [henabled, hswapping] using settled_doRedrawScreen true foreground ans h

theorem settled_redrawTextScreen (awake foreground : Bool) {scr : Screen} {disp : Display}
    (ans : SwapAnswers) (h : Settled scr disp) :
    Settled (scr.redrawTextScreen awake foreground disp ans).1
        (scr.redrawTextScreen awake foreground disp ans).2 ↔
      scr.RedrawTextMeets awake foreground disp ans := by
  unfold redrawTextScreen RedrawTextMeets
  cases awake with
  | false => simpa [RedrawMeets, DoRedrawMeets] using h
  | true =>
    by_cases hout : disp.FlipOutstanding
    · have hswapping : disp.displayIsSwapping = true := hout
      have hset : Settled { scr with swapping := true } disp := fun _ => hout
      have hredraw := settled_redrawScreen true foreground ans hset
      simpa [hswapping, hout, RedrawMeets] using hredraw
    · have hswapping : disp.displayIsSwapping = false := by
        simpa [Display.FlipOutstanding] using hout
      simpa [hswapping, hout] using settled_redrawScreen true foreground ans h

theorem settled_displayPageflip (awake foreground : Bool) {scr : Screen} {disp : Display}
    (ans : SwapAnswers) :
    Settled (scr.displayPageflip awake foreground disp ans).1
        (scr.displayPageflip awake foreground disp ans).2 ↔
      scr.PageflipMeets awake foreground disp ans := by
  have hclear : Settled { scr with swapping := false } disp := by simp [Settled]
  unfold displayPageflip PageflipMeets
  cases hpending : scr.pending with
  | false => simp [Settled]
  | true => simpa [hpending] using settled_doRedrawScreen awake foreground ans hclear

end Screen
namespace Panel

/-- Every screen whose swapping flag is set waits for a flip of its display. -/
def AllSettled (panel : Panel) : Prop :=
  ∀ scr ∈ panel.screens, Settled scr (panel.displays scr.disp)

instance : DecidablePred AllSettled := fun panel =>
  inferInstanceAs (Decidable (∀ scr ∈ panel.screens, _))

/-- The condition on an event: each swap it makes for a screen is accepted, or
finds a flip outstanding. A flip event swaps after the old flip is complete. -/
def SwapsMeet (panel : Panel) : Event → Prop
  | .redraw d ans => ∀ scr, panel.find d = some scr →
      scr.RedrawMeets panel.awake panel.foreground (panel.displays d) ans
  | .redrawText d ans => ∀ scr, panel.find d = some scr →
      scr.RedrawTextMeets panel.awake panel.foreground (panel.displays d) ans
  | .doRedraw d ans => ∀ scr, panel.find d = some scr →
      scr.DoRedrawMeets panel.awake panel.foreground (panel.displays d) ans
  | .disable d ans => ∀ scr, panel.find d = some scr →
      scr.DisableMeets (panel.displays d) ans
  | .flip d ans => (panel.displays d).FlipOutstanding → ∀ scr, panel.find d = some scr →
      scr.PageflipMeets panel.awake panel.foreground (panel.displays d).completeFlip ans
  | _ => True

theorem disp_of_find {panel : Panel} {d : ℕ} {scr : Screen} (h : panel.find d = some scr) :
    scr.disp = d := by
  simpa using List.find?_some h

theorem disp_ne_of_find_none {panel : Panel} {d : ℕ} (h : panel.find d = none) :
    ∀ scr ∈ panel.screens, scr.disp ≠ d := by
  simpa [find] using h

/-- Putting back a screen and its display settles the panel if it settles the two. -/
theorem allSettled_put {panel : Panel} {d : ℕ} {scr : Screen} {out : Screen × Display}
    (h : panel.AllSettled) (hfind : panel.find d = some scr) (hdisp : out.1.disp = scr.disp) :
    (panel.put d out).AllSettled ↔ Settled out.1 out.2 := by
  have hd := disp_of_find hfind
  have hmem := List.mem_of_find?_eq_some hfind
  constructor
  · intro hput
    have hout : out.1 ∈ (panel.put d out).screens :=
      List.mem_map.mpr ⟨scr, hmem, by rw [if_pos hd]⟩
    simpa [put, hdisp, hd] using hput out.1 hout
  · intro hout other hother
    obtain ⟨old, hold, rfl⟩ := List.mem_map.mp hother
    by_cases hsame : old.disp = d
    · simpa [put, hsame, hdisp, hd] using hout
    · simpa [put, hsame] using h old hold

/-- A function of a screen and its display settles the panel if it settles the
screen it is applied to. -/
theorem allSettled_onScreen {panel : Panel} {d : ℕ} {f : Screen → Display → Screen × Display}
    (h : panel.AllSettled) (hf : ∀ scr disp, (f scr disp).1.disp = scr.disp) :
    (panel.onScreen d f).AllSettled ↔ ∀ scr, panel.find d = some scr →
      Settled (f scr (panel.displays d)).1 (f scr (panel.displays d)).2 := by
  unfold onScreen
  cases hfind : panel.find d with
  | none => simpa using h
  | some scr => simpa using allSettled_put h hfind (hf scr _)

/-- The screen found on a display is settled. -/
theorem AllSettled.find {panel : Panel} (h : panel.AllSettled) {d : ℕ} {scr : Screen}
    (hfind : panel.find d = some scr) : Settled scr (panel.displays d) := by
  have := h scr (List.mem_of_find?_eq_some hfind)
  rwa [disp_of_find hfind] at this

theorem allSettled_device {panel : Panel} {d : ℕ} {disp : Display} (h : panel.AllSettled)
    (hkeep : (panel.displays d).FlipOutstanding → disp.FlipOutstanding) :
    AllSettled { panel with displays := fun e => if e = d then disp else panel.displays e } := by
  intro scr hscr hswapping
  have hold := h scr hscr hswapping
  by_cases hd : scr.disp = d
  · simpa [hd] using hkeep (hd ▸ hold)
  · simpa [hd] using hold

theorem allSettled_flipEvent {panel : Panel} {d : ℕ} {ans : SwapAnswers} (h : panel.AllSettled) :
    (panel.flipEvent d ans).AllSettled ↔ ∀ scr, panel.find d = some scr →
      scr.PageflipMeets panel.awake panel.foreground (panel.displays d).completeFlip ans := by
  unfold flipEvent
  cases hfind : panel.find d with
  | none =>
    have hne := disp_ne_of_find_none hfind
    simp only [reduceCtorEq, false_implies, implies_true, iff_true]
    intro scr hscr
    simpa [hne scr hscr] using h scr hscr
  | some scr =>
    rw [allSettled_put h hfind (Screen.displayPageflip_disp ..)]
    simpa using Screen.settled_displayPageflip panel.awake panel.foreground ans

/-- A step settles the panel exactly if its swaps meet the condition. -/
theorem allSettled_step {panel : Panel} (e : Event) (h : panel.AllSettled) :
    (panel.step e).AllSettled ↔ panel.SwapsMeet e := by
  cases e with
  | redraw d ans =>
    refine (allSettled_onScreen h fun _ _ => by simp).trans ?_
    exact forall₂_congr fun scr hfind => Screen.settled_redrawScreen _ _ ans (h.find hfind)
  | redrawText d ans =>
    refine (allSettled_onScreen h fun _ _ => by simp).trans ?_
    exact forall₂_congr fun scr hfind => Screen.settled_redrawTextScreen _ _ ans (h.find hfind)
  | doRedraw d ans =>
    refine (allSettled_onScreen h fun _ _ => by simp).trans ?_
    exact forall₂_congr fun scr hfind => Screen.settled_doRedrawScreen _ _ ans (h.find hfind)
  | disable d ans =>
    refine (allSettled_onScreen h fun _ _ => by simp).trans ?_
    exact forall₂_congr fun scr hfind => Screen.settled_disableScreen ans (h.find hfind)
  | enable d =>
    refine (allSettled_onScreen h fun _ _ => rfl).trans ?_
    exact iff_of_true (fun scr hfind hswapping => h.find hfind hswapping) trivial
  | setText d txt =>
    refine (allSettled_onScreen h fun _ _ => rfl).trans ?_
    exact iff_of_true (fun scr hfind hswapping => h.find hfind hswapping) trivial
  | setCursor d hwCursor =>
    refine (allSettled_onScreen h fun _ _ => rfl).trans ?_
    exact iff_of_true (fun scr hfind hswapping => h.find hfind hswapping) trivial
  | flip d ans =>
    simp only [step, SwapsMeet]
    by_cases hout : (panel.displays d).FlipOutstanding
    · simpa [hout] using allSettled_flipEvent h
    · simpa [hout] using h
  | awake on => exact iff_of_true h trivial
  | foreground on => exact iff_of_true h trivial
  | addScreen d txt =>
    refine iff_of_true ?_ trivial
    simp only [step]
    cases panel.find d with
    | some _ => exact h
    | none =>
      intro scr hscr
      rcases List.mem_cons.mp hscr with rfl | hold
      · simp [Settled, newScreen]
      · exact h scr hold
  | rmScreen d =>
    refine iff_of_true ?_ trivial
    exact fun scr hscr => h scr (List.mem_of_mem_filter hscr)
  | device d disp =>
    refine iff_of_true ?_ trivial
    simp only [step]
    split_ifs with hkeep
    · exact allSettled_device h hkeep
    · exact h

theorem allSettled_init (displays : ℕ → Display) : (init displays).AllSettled := by
  simp [AllSettled, init]

/-- In every state of a run the swapping flags stand for outstanding flips, exactly
if each swap made on the way is accepted by its backend or finds a flip outstanding. -/
theorem allSettled_iff_swapsMeet (displays : ℕ → Display) (events : List Event) :
    Runs.Always step AllSettled (init displays) events ↔
      Runs.Along step SwapsMeet (init displays) events :=
  Runs.always_iff_along (J := AllSettled) (fun _ h => h)
    (fun _ e h => (allSettled_step e h).mpr) (fun _ e h => (allSettled_step e h).mp)
    (allSettled_init displays)

/-- A screen that waits on a settled panel is cleared by the flip to come. -/
theorem flip_of_allSettled {panel : Panel} {d : ℕ} {scr : Screen} (ans : SwapAnswers)
    (h : panel.AllSettled) (hfind : panel.find d = some scr) (hswapping : scr.swapping = true) :
    panel.step (.flip d ans) = panel.put d
      (scr.displayPageflip panel.awake panel.foreground (panel.displays d).completeFlip ans) := by
  have hout := h.find hfind hswapping
  simp [step, hout, flipEvent, hfind]

/-- A display of the 2D backend that is shown and idle. -/
def idleDisplay : Display :=
  ⟨.drm2d, 1280, 720, true, true, .on, false, false, false, true, false⟩

/-- The grid of a screen on this display. -/
def idleText : Text := ⟨.normal, 64, 18, 64, 18⟩

/-- The commit of the first redraw is refused as busy, and nothing else happens. -/
def busyCommit : List Event :=
  [.awake true, .addScreen 0 idleText, .redraw 0 ⟨ebusy, true, true, true, 0⟩]

theorem busyCommit_not_allSettled :
    ¬ Runs.Always step AllSettled (init fun _ => idleDisplay) busyCommit := by
  decide

end Panel

end Faceplate.Terminal
