import Faceplate.Terminal.GridSize
import Faceplate.Terminal.Lock
import Faceplate.Terminal.Vte

/-!
# What changes the console

Drawing leaves the console alone, and choosing the common size resizes it at most once.
Feeding the vte keeps its size.
-/

namespace Faceplate.Terminal

open Render Video

variable {κ : Type*} {tsm : Tsm κ} {conf : Conf} {env : Env}

section Drawing

theorem console_foldl {α : Type*} {f : Terminal κ → α → Terminal κ}
    (h : ∀ term a, (f term a).console = term.console) (term : Terminal κ) (as : List α) :
    (as.foldl f term).console = term.console := by
  induction as generalizing term with
  | nil => rfl
  | cons a as ih => exact (ih (f term a)).trans (h term a)

theorem console_redrawAll (term : Terminal κ) : (term.redrawAll env).console = term.console :=
  (untouched_redrawAll env term).1

theorem console_redrawAllText (term : Terminal κ) :
    (term.redrawAllText env).console = term.console := by
  unfold redrawAllText
  split_ifs
  · rfl
  · refine console_foldl ?_ term _
    intro _ _
    rfl

theorem console_onText (d : ℕ) (f : Text → Display → Text) (term : Terminal κ) :
    (term.onText d f).console = term.console := by
  unfold onText
  cases term.panel.find d <;> rfl

theorem console_refreshHwCursor (d : ℕ) (term : Terminal κ) :
    (term.refreshHwCursor env d).console = term.console := by
  unfold refreshHwCursor
  cases term.panel.find d with
  | none => rfl
  | some scr =>
    dsimp only
    split_ifs <;> rfl

theorem console_updateMin (term : Terminal κ) :
    (term.updateMin conf env).2.console = term.console := by
  unfold updateMin updateSizeLargest updateSizeClone
  dsimp only
  split_ifs
  · refine console_foldl (fun term scr => ?_) _ _
    unfold enableLargest
    split_ifs <;> rfl
  · rfl
  · rfl
  · rfl

theorem console_updateSize (term : Terminal κ) :
    (term.updateSize conf env).2.console = term.console := by
  unfold updateSize resizeScreens
  dsimp only
  split_ifs
  · exact (console_foldl (fun term scr => console_onText _ _ term) _ _).trans
      (console_updateMin term)
  · exact console_updateMin term

end Drawing

/-- A console is another one, at most resized. -/
def Resized (tsm : Tsm κ) (con con' : κ) : Prop :=
  con' = con ∨ ∃ cols rows, con' = tsm.resize con cols rows

theorem resized_updateSizeNotify (term : Terminal κ) :
    Resized tsm term.console (term.updateSizeNotify tsm conf env).console := by
  have hsize := @console_updateSize _ conf env term
  unfold updateSizeNotify
  dsimp only
  split_ifs
  · right
    rw [console_redrawAll, onConsole]
    exact ⟨_, _, by rw [hsize]⟩
  · exact Or.inl hsize

theorem resized_notify_of {term term' : Terminal κ} (h : term'.console = term.console) :
    Resized tsm term.console (term'.updateSizeNotify tsm conf env).console :=
  h ▸ resized_updateSizeNotify term'

theorem resized_fontSet (term : Terminal κ) :
    Resized tsm term.console (term.fontSet tsm conf env).2.console := by
  unfold fontSet
  cases env.font term.fontHeight with
  | none => exact Or.inl rfl
  | some font =>
    apply resized_notify_of
    refine (console_foldl ?_ _ _).trans rfl
    intro term d
    exact (console_refreshHwCursor d _).trans (console_onText d _ term)

theorem resized_rotateAll (turn : Orientation → Orientation) (term : Terminal κ) :
    Resized tsm term.console (term.rotateAll tsm conf env turn).console := by
  unfold rotateAll
  apply resized_notify_of
  refine console_foldl ?_ _ _
  intro term d
  exact (console_refreshHwCursor d _).trans (console_onText d _ term)

theorem resized_terminalAddDisplay (d : ℕ) (term : Terminal κ) :
    Resized tsm term.console (term.terminalAddDisplay tsm conf env d).console := by
  unfold terminalAddDisplay
  cases term.panel.find d with
  | some scr => exact Or.inl rfl
  | none =>
    have hrest : ∀ term' : Terminal κ, Resized tsm term.console term'.console →
        Resized tsm term.console ((term'.onText d fun txt _ =>
          txt.resize term'.minCols term'.minRows).drawSwap env (.doRedraw d)).console := by
      intro term' h
      have hsame : ((term'.onText d fun txt _ => txt.resize term'.minCols term'.minRows).drawSwap
          env (.doRedraw d)).console = term'.console := console_onText d _ term'
      rwa [hsame]
    dsimp only
    split_ifs
    · exact Or.inl rfl
    · exact Or.inl rfl
    · exact hrest _ (resized_notify_of rfl)
    · exact hrest _ (resized_notify_of rfl)

/-- An operation that chooses a size resizes the console at most once. -/
theorem resized_opStep (term : Terminal κ) (e : Env × Op) :
    Resized tsm term.console (opStep tsm conf term e).console := by
  obtain ⟨env, op⟩ := e
  have hzoom : ∀ height, Resized tsm term.console
      (if ({ term with fontHeight := height }.fontSet tsm conf env).1 then
        ({ term with fontHeight := height }.fontSet tsm conf env).2 else term).console := by
    intro height
    split_ifs
    · exact resized_fontSet { term with fontHeight := height }
    · exact Or.inl rfl
  cases op with
  | addDisplay d => exact resized_terminalAddDisplay d term
  | rmDisplay d =>
    simp only [opStep, terminalRmDisplay]
    cases term.panel.find d with
    | none => exact Or.inl rfl
    | some scr => exact resized_notify_of rfl
  | rotateCw => exact resized_rotateAll _ term
  | rotateCcw => exact resized_rotateAll _ term
  | zoomIn =>
    simp only [opStep, zoomIn]
    by_cases hlimit : 150 < term.fontHeight
    · rw [if_pos hlimit]
      exact Or.inl rfl
    · rw [if_neg hlimit]
      exact hzoom _
  | zoomOut =>
    simp only [opStep, zoomOut]
    by_cases hlimit : term.fontHeight ≤ term.font.increaseStep ∨
        term.fontHeight - term.font.increaseStep < 10
    · rw [if_pos hlimit]
      exact Or.inl rfl
    · rw [if_neg hlimit]
      exact hzoom _
  | device d disp => exact Or.inl rfl

end Faceplate.Terminal
