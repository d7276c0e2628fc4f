import Faceplate.Input.Keyboard
import Faceplate.Lib.Runs
import Mathlib.Logic.Function.Basic
import Mathlib.Tactic.SplitIfs

/-!
# A repeating key is held

While a device repeats, the key it repeats should be held down. A release stops the
repetition at the end of `uxkb_dev_process`, but the function looks up the keysyms of
the released key under the modifiers of the moment and leaves early when there are
none, or when they do not fit. This file finds the releases that are lost in this way.
-/

namespace Faceplate.Input

/-- A keyboard with the keys that are held down, whether it is open or not. -/
structure Keyboard (σ γ : Type*) where
  dev : Dev σ γ
  held : ℕ → Bool

/-- What happens to a keyboard. A key comes with the answers about memory. -/
inductive Event where
  | key (keyState : KeyState) (code : ℕ) (mem memRepeat : Bool)
  | sleep
  | wakeUp (ok : Bool)
  deriving DecidableEq, Repr

section Steps

variable {σ γ : Type*} (xkb : Xkb σ γ)

/-- The keys that are held after an event of a key. -/
def holds (held : ℕ → Bool) (code : ℕ) : KeyState → ℕ → Bool
  | .released => Function.update held (code + evdevKeycodeOffset) false
  | .pressed => Function.update held (code + evdevKeycodeOffset) true
  | .repeated => held

/-- One event. A key is held or not whoever looks at it, and processed by a device
that is open. -/
def step (kb : Keyboard σ γ) : Event → Keyboard σ γ
  | .key keyState code mem memRepeat =>
    { dev := if kb.dev.opened then
        (kb.dev.uxkbDevProcess xkb mem memRepeat keyState code).2 else kb.dev
      held := holds kb.held code keyState }
  | .sleep => { kb with dev := kb.dev.inputSleepDev }
  | .wakeUp ok => { kb with dev := kb.dev.inputWakeUpDev xkb ok }

/-- The repeat timer is armed only while the device repeats, and it repeats only a key
that is held. -/
def Tied (kb : Keyboard σ γ) : Prop :=
  (kb.dev.timer = true → kb.dev.repeating = true) ∧
    (kb.dev.repeating = true → kb.held kb.dev.repeatEvent.keycode = true)

instance : DecidablePred (@Tied σ γ) := fun _ =>
  inferInstanceAs (Decidable ((_ → _) ∧ (_ → _)))

/-- The condition on an event: the release of the key that repeats finds keysyms, as
many as there is room for. -/
def ReleaseMeets (kb : Keyboard σ γ) : Event → Prop
  | .key .released code mem _ =>
    kb.dev.opened = true → kb.dev.repeating = true →
      kb.dev.repeatEvent.keycode = code + evdevKeycodeOffset →
      xkb.keyGetSyms kb.dev.state (code + evdevKeycodeOffset) ≠ [] ∧
        ((xkb.keyGetSyms kb.dev.state (code + evdevKeycodeOffset)).length ≤ kb.dev.numSyms ∨
          mem = true)
  | _ => True

end Steps

/-- The part of a device that tells whether and what it repeats. -/
structure Repetition where
  opened : Bool
  repeating : Bool
  timer : Bool
  keycode : ℕ

section Proofs

variable {σ γ : Type*} {xkb : Xkb σ γ}

namespace Dev

/-- What a device repeats. -/
def repetition (dev : Dev σ γ) : Repetition :=
  ⟨dev.opened, dev.repeating, dev.timer, dev.repeatEvent.keycode⟩

theorem repetition_resizeEvent (mem : Bool) (s : ℕ) (dev : Dev σ γ) :
    (dev.resizeEvent mem s).2.repetition = dev.repetition ∧
      (dev.resizeEvent mem s).2.event = dev.event ∧
      ((dev.resizeEvent mem s).1 = true ↔ s ≤ dev.numSyms ∨ mem = true) := by
  unfold resizeEvent
  split_ifs with hsize hmem
  · simp [repetition, hmem]
  · simp [repetition, hmem, hsize]
  · refine ⟨rfl, rfl, iff_of_true rfl (.inl (by omega))⟩

/-- `uxkb_dev_repeat` as a function of what is repeated: it starts to repeat a key on a
press, and stops the repeated key on its release. -/
def afterRepeat (xkb : Xkb σ γ) (keyState : KeyState) (keycode : ℕ) (rep : Repetition) :
    Repetition :=
  if rep.repeating = true ∧ rep.keycode = keycode then
    if keyState = .released then { rep with repeating := false, timer := false } else rep
  else if keyState = .pressed ∧ xkb.keyRepeats keycode = true then
    { rep with repeating := true, timer := true, keycode := keycode }
  else rep

theorem repetition_uxkbDevRepeat (mem : Bool) (keyState : KeyState) (dev : Dev σ γ) :
    (dev.uxkbDevRepeat xkb mem keyState).repetition =
      afterRepeat xkb keyState dev.event.keycode dev.repetition := by
  unfold uxkbDevRepeat afterRepeat
  simp only [Bool.and_eq_true, beq_iff_eq, decide_eq_true_eq]
  by_cases hsame : dev.repeating = true ∧ dev.repeatEvent.keycode = dev.event.keycode
  · have hrep : dev.repetition.repeating = true ∧
        dev.repetition.keycode = dev.event.keycode := hsame
    rw [if_pos hsame, if_pos hrep]
    split_ifs <;> rfl
  have hrep : ¬ (dev.repetition.repeating = true ∧
      dev.repetition.keycode = dev.event.keycode) := hsame
  rw [if_neg hsame, if_neg hrep]
  by_cases hstart : keyState = .pressed ∧ xkb.keyRepeats dev.event.keycode = true
  · rw [if_pos hstart, if_pos hstart]
    rfl
  rw [if_neg hstart, if_neg hstart]
  split_ifs with hother hnone hok
  · rfl
  · exact (repetition_resizeEvent ..).1
  · exact (repetition_resizeEvent ..).1
  · rfl

theorem length_lookup (keyState : KeyState) (keycode : ℕ) (dev : Dev σ γ) :
    (dev.lookup xkb keyState keycode).2.2.length = (xkb.keyGetSyms dev.state keycode).length := by
  unfold lookup
  dsimp only
  split
  all_goals
    dsimp only
    split_ifs with hone
    · simp [hone]
    · rfl

/-- Nothing is composed by a release. -/
theorem lookup_released (keycode : ℕ) (dev : Dev σ γ) :
    (dev.lookup xkb .released keycode).1 = .nothing := by
  unfold lookup
  cases dev.composeState <;> rfl

/-- A key gets as far as `uxkb_dev_repeat`. -/
def Reaches (xkb : Xkb σ γ) (mem : Bool) (keyState : KeyState) (keycode : ℕ) (dev : Dev σ γ) :
    Prop :=
  (dev.lookup xkb keyState keycode).2.2 ≠ [] ∧
    (dev.lookup xkb keyState keycode).1 ≠ .composing ∧
    (dev.lookup xkb keyState keycode).1 ≠ .cancelled ∧
    ((dev.lookup xkb keyState keycode).2.2.length ≤ dev.numSyms ∨ mem = true)

instance (mem : Bool) (keyState : KeyState) (keycode : ℕ) (dev : Dev σ γ) :
    Decidable (dev.Reaches xkb mem keyState keycode) :=
  inferInstanceAs (Decidable (_ ∧ _ ∧ _ ∧ _))

/-- A key changes the repetition only if it gets as far as `uxkb_dev_repeat`. -/
theorem repetition_uxkbDevProcess (mem memRepeat : Bool) {keyState : KeyState}
    (hkey : keyState ≠ .repeated) (code : ℕ) (dev : Dev σ γ) :
    (dev.uxkbDevProcess xkb mem memRepeat keyState code).2.repetition =
      if dev.Reaches xkb mem keyState (code + evdevKeycodeOffset) then
        afterRepeat xkb keyState (code + evdevKeycodeOffset) dev.repetition
      else dev.repetition := by
  unfold uxkbDevProcess
  rw [if_neg hkey]
  dsimp only
  by_cases hempty : (dev.lookup xkb keyState (code + evdevKeycodeOffset)).2.2 = []
  · rw [if_pos (by rw [hempty]; rfl), if_neg fun h => h.1 hempty]
    rfl
  rw [if_neg (by simpa using hempty)]
  by_cases hstatus : (dev.lookup xkb keyState (code + evdevKeycodeOffset)).1 = .composing ∨
      (dev.lookup xkb keyState (code + evdevKeycodeOffset)).1 = .cancelled
  · rw [if_pos hstatus, if_neg fun h => hstatus.elim h.2.1 h.2.2.1]
    rfl
  rw [if_neg hstatus]
  simp only [not_or] at hstatus
  generalize hkeysyms : (dev.lookup xkb keyState (code + evdevKeycodeOffset)).2.2 = keysyms
  have hresize := repetition_resizeEvent mem keysyms.length
    { dev with
      state := xkb.updateKey dev.state (code + evdevKeycodeOffset) (keyState = .pressed)
      composeState := (dev.lookup xkb keyState (code + evdevKeycodeOffset)).2.1 }
  revert hresize
  generalize resizeEvent mem keysyms.length _ = out
  rintro ⟨hsame, -, hok⟩
  obtain ⟨ok, dev'⟩ := out
  dsimp only at hsame hok ⊢
  rw [hkeysyms] at hempty
  cases ok with
  | false =>
    have hroom : ¬ (keysyms.length ≤ dev.numSyms ∨ mem = true) := fun h => nomatch hok.mpr h
    rw [if_pos (by simp), if_neg fun h => hroom (hkeysyms ▸ h.2.2.2)]
    exact hsame
  | true =>
    have hreaches : dev.Reaches xkb mem keyState (code + evdevKeycodeOffset) :=
      ⟨hkeysyms ▸ hempty, hstatus.1, hstatus.2, hkeysyms ▸ hok.mp rfl⟩
    rw [if_pos hreaches]
    have hrepeat := @repetition_uxkbDevRepeat _ _ xkb memRepeat keyState
      { dev' with event := dev'.filled xkb dev'.event (code + evdevKeycodeOffset) keysyms }
    have hrep : ({ dev' with
        event := dev'.filled xkb dev'.event (code + evdevKeycodeOffset) keysyms } :
          Dev σ γ).repetition = dev.repetition := hsame
    rw [hrep] at hrepeat
    simp only [Bool.not_true, Bool.false_eq_true, if_false]
    split_ifs
    · exact hrepeat
    · exact hrepeat

/-- The release of a key gets there if the key has keysyms and they find room. -/
theorem reaches_released (mem : Bool) (keycode : ℕ) (dev : Dev σ γ) :
    dev.Reaches xkb mem .released keycode ↔ xkb.keyGetSyms dev.state keycode ≠ [] ∧
      ((xkb.keyGetSyms dev.state keycode).length ≤ dev.numSyms ∨ mem = true) := by
  have hlength := @length_lookup _ _ xkb .released keycode dev
  unfold Reaches
  rw [← List.length_pos_iff, hlength, List.length_pos_iff, lookup_released]
  simp

end Dev

/-- What holds between events: the timer belongs to a repetition, this to a key that is
held, and a device that is not open does not repeat. -/
structure Kept (rep : Repetition) (held : ℕ → Bool) : Prop where
  timer : rep.timer = true → rep.repeating = true
  held : rep.repeating = true → held rep.keycode = true
  opened : rep.opened = false → rep.repeating = false

theorem Kept.tied {kb : Keyboard σ γ} (h : Kept kb.dev.repetition kb.held) : Tied kb :=
  ⟨h.timer, h.held⟩

/-- A key that is pressed does not end the repetition of another one. -/
theorem Kept.press {rep : Repetition} {held : ℕ → Bool} (h : Kept rep held) (code : ℕ) :
    Kept rep (holds held code .pressed) := by
  refine ⟨h.timer, fun hrepeating => ?_, h.opened⟩
  simp only [holds, Function.update_apply]
  split_ifs
  · rfl
  · exact h.held hrepeating

/-- Nor does the release of a key that does not repeat. -/
theorem Kept.release {rep : Repetition} {held : ℕ → Bool} (h : Kept rep held) {code : ℕ}
    (hother : rep.repeating = true → rep.keycode ≠ code + evdevKeycodeOffset) :
    Kept rep (holds held code .released) := by
  refine ⟨h.timer, fun hrepeating => ?_, h.opened⟩
  simp only [holds, Function.update_of_ne (hother hrepeating)]
  exact h.held hrepeating

/-- A key that is looked at changes the repetition in the right way. -/
theorem Kept.afterRepeat {rep : Repetition} {held : ℕ → Bool} (h : Kept rep held)
    (hopened : rep.opened = true) {keyState : KeyState} (hkey : keyState ≠ .repeated) (code : ℕ) :
    Kept (Dev.afterRepeat xkb keyState (code + evdevKeycodeOffset) rep)
      (holds held code keyState) := by
  unfold Dev.afterRepeat
  cases keyState with
  | repeated => exact absurd rfl hkey
  | released =>
    by_cases hsame : rep.repeating = true ∧ rep.keycode = code + evdevKeycodeOffset
    · rw [if_pos hsame, if_pos rfl]
      exact ⟨nofun, nofun, fun _ => rfl⟩
    · rw [if_neg hsame, if_neg (by simp)]
      exact h.release fun hrepeating hcode => hsame ⟨hrepeating, hcode⟩
  | pressed =>
    by_cases hsame : rep.repeating = true ∧ rep.keycode = code + evdevKeycodeOffset
    · rw [if_pos hsame, if_neg (by simp)]
      exact h.press code
    rw [if_neg hsame]
    split_ifs
    · refine ⟨fun _ => rfl, fun _ => ?_, fun hclosed => ?_⟩
      · simp [holds]
      · simp [hopened] at hclosed
    · exact h.press code

/-- An event that meets the condition keeps the repetition tied to a held key. -/
theorem kept_step {kb : Keyboard σ γ} (e : Event) (h : Kept kb.dev.repetition kb.held)
    (hmeets : ReleaseMeets xkb kb e) :
    Kept (step xkb kb e).dev.repetition (step xkb kb e).held := by
  cases e with
  | sleep =>
    simp only [step, Dev.inputSleepDev]
    split_ifs
    · exact h
    · exact ⟨nofun, nofun, fun _ => rfl⟩
  | wakeUp ok =>
    simp only [step, Dev.inputWakeUpDev]
    split_ifs
    · exact h
    · exact ⟨h.timer, h.held, nofun⟩
  | key keyState code mem memRepeat =>
    simp only [step]
    by_cases hkey : keyState = .repeated
    · subst hkey
      simp only [Dev.uxkbDevProcess, if_true, ite_self]
      exact h
    by_cases hopened : kb.dev.opened = true
    · rw [if_pos hopened, Dev.repetition_uxkbDevProcess mem memRepeat hkey]
      split_ifs with hreaches
      · exact h.afterRepeat hopened hkey code
      · cases keyState with
        | repeated => exact absurd rfl hkey
        | pressed => exact h.press code
        | released =>
          apply h.release
          intro hrepeating hcode
          exact hreaches ((Dev.reaches_released ..).mpr (hmeets hopened hrepeating hcode))
    · rw [if_neg hopened]
      have hidle : kb.dev.repeating = false := h.opened (Bool.eq_false_iff.mpr hopened)
      exact ⟨h.timer, fun hrepeating => by simp [Dev.repetition, hidle] at hrepeating, h.opened⟩

/-- An event after which the repetition is tied has met the condition. -/
theorem releaseMeets_of_tied {kb : Keyboard σ γ} (e : Event) (h : Tied (step xkb kb e)) :
    ReleaseMeets xkb kb e := by
  unfold ReleaseMeets
  split
  · rename_i code mem memRepeat
    intro hopened hrepeating hcode
    by_contra hlost
    rw [← Dev.reaches_released] at hlost
    have hsame := @Dev.repetition_uxkbDevProcess _ _ xkb mem memRepeat .released (by simp) code
      kb.dev
    rw [if_neg hlost] at hsame
    simp only [Tied, step, if_pos hopened] at h
    have hstill := h.2 ((congrArg Repetition.repeating hsame).trans hrepeating)
    have hkeycode := (congrArg Repetition.keycode hsame).trans hcode
    simp only [Dev.repetition] at hkeycode
    simp [hkeycode, holds] at hstill
  · trivial

/-- A device that has just been opened. -/
def start (state : σ) (composeState : Option γ) : Keyboard σ γ where
  dev := ⟨true, true, state, composeState, 1, ⟨false, 0, 0, 0, [], []⟩, ⟨false, 0, 0, 0, [], []⟩,
    false, false⟩
  held _ := false

/-- In every state of a run the device repeats only a key that is held, exactly if the
release of a repeating key always finds the keysyms of the key and room for them. -/
theorem tied_iff_releaseMeets (xkb : Xkb σ γ) (state : σ) (composeState : Option γ)
    (events : List Event) :
    Runs.Always (step xkb) Tied (start state composeState) events ↔
      Runs.Along (step xkb) (ReleaseMeets xkb) (start state composeState) events :=
  Runs.always_iff_along (J := fun kb : Keyboard σ γ => Kept kb.dev.repetition kb.held)
    (fun _ h => h.tied) (fun _ e h hmeets => kept_step e h hmeets)
    (fun _ e _ h => releaseMeets_of_tied e h)
    ⟨fun h => Bool.noConfusion h, fun h => Bool.noConfusion h, fun _ => rfl⟩

end Proofs

/-- A keymap with one letter, key 38, and a level without letters behind key 108. -/
def levelXkb : Xkb Bool Unit where
  keyGetSyms level3 keycode :=
    if keycode = 108 then [0xfe03] else if keycode = 38 ∧ level3 = false then [97] else []
  keyGetOneSym _ keycode := if keycode = 108 then 0xfe03 else 97
  updateKey level3 keycode down := if keycode = 108 then down else level3
  relock _ := false
  modActive _ _ := false
  keyGetLevel level3 _ _ := if level3 then 2 else 0
  keyRepeats keycode := keycode ≠ 108
  numLayouts _ := 1
  symsByLevel keycode _ level := if keycode = 38 ∧ level = 0 then [97] else []
  keysymToUtf32 sym := if sym < 128 then sym else 0
  feed _ _ := ()
  getStatus _ := .nothing
  composeGetOneSym _ := noSymbol
  reset _ := ()

/-- The letter is released while the third level is on. -/
theorem releasedOnLevel3_not_tied :
    ¬ Runs.Always (step levelXkb) Tied (start false none)
      [.key .pressed 30 true true, .key .pressed 100 true true, .key .released 30 true true] := by
  decide +kernel

end Faceplate.Input
