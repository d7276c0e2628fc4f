import Mathlib.Data.List.Nodup
import Faceplate.Seat.Displays

/-!
# The awake terminal of a seat

The terminal of the current session is the only one that should be awake. Every
path wakes whatever `current_sess` is at that moment, and `seat_switch` sets it
last: a display that comes up while the switch brings the seat to the foreground
wakes the terminal that was just put to sleep.
-/

namespace Faceplate.Seat

variable (adds : ℕ → ℕ → Bool) (env : SeatEnv)

/-- Only the terminal of the current session may be awake. -/
def OnlyCurrent (seat : Seat) : Prop :=
  ∀ s ∈ seat.sessions, s.term.awake = true → seat.current = some s.id

/-- At most one terminal is awake, and it is that of the current session. -/
def OneAwake (seat : Seat) : Prop :=
  (seat.sessions.filter (·.term.awake)).length ≤ 1 ∧ seat.OnlyCurrent

instance : DecidablePred OnlyCurrent := fun seat =>
  inferInstanceAs (Decidable (∀ s ∈ seat.sessions, _))

instance : DecidablePred OneAwake := fun _ => inferInstanceAs (Decidable (_ ∧ _))

/-- The terminal of the current session sleeps. -/
def Dark (seat : Seat) : Prop :=
  ∀ s ∈ seat.sessions, seat.current = some s.id → s.term.awake = false

/-- The terminal of the current session has no screen, and this display gives it none. -/
def NoScreen (d : ℕ) (seat : Seat) : Prop :=
  ∀ s ∈ seat.sessions, seat.current = some s.id → s.term.screens = [] ∧ adds s.id d = false

/-- A display that comes up finds and leaves the current terminal without a screen. -/
def ShowDark (seat : Seat) (d : ℕ) : Prop := seat.ComesUp d → seat.NoScreen adds d

/-- The same for a display that arrives. -/
def ActDark (seat : Seat) : VideoAct → Prop
  | .newDisplay d _ active => active = true → seat.known d = false → seat.NoScreen adds d
  | _ => True

/-- The condition on bringing a seat to the foreground: no display that arrives or
is activated on the way wakes the current terminal. -/
def ComesDark (seat : Seat) : Prop :=
  Runs.Along (videoAct adds) (ActDark adds) (seat.raise env) env.acts ∧
    let seat := env.acts.foldl (videoAct adds) (seat.raise env)
    Runs.Along (activateDisplay adds) (ShowDark adds) seat (seat.displays.map (·.disp))

/-- The condition on a switch: if it brings the seat to the foreground, this happens
without waking the terminal it has just put to sleep. -/
def SwitchDark (seat : Seat) (new : Option ℕ) : Prop :=
  ∀ id, new = some id → seat.current ≠ new → seat.sessionForeground id = true →
    seat.foreground = false → seat.awake = true →
      (seat.onCurrent Term.deactivate).ComesDark adds env

theorem dark_comeUp {seat : Seat} (d : ℕ) (h : seat.Dark) :
    (seat.comeUp adds d).Dark ↔ seat.NoScreen adds d := by
  simp only [Dark, NoScreen, comeUp, markActivated, List.forall_mem_map]
  refine forall₃_congr fun s hs hcurrent => ?_
  have hadd : (s.term.addDisplay d (adds s.id d)).awake = false := by simpa using h s hs hcurrent
  rw [← Term.screens_addDisplay_eq_nil d (adds s.id d), ← Bool.not_eq_true]
  simp only [Term.comeUp, hcurrent, decide_true, if_true]
  rw [Term.awake_activate, hadd]
  simp

theorem dark_activateDisplay {seat : Seat} (d : ℕ) (hlive : seat.Live) (h : seat.Dark) :
    (seat.activateDisplay adds d).Dark ↔ seat.ShowDark adds d := by
  by_cases hup : seat.ComesUp d
  · rw [activateDisplay_of_comesUp adds hlive hup, dark_comeUp adds d h]
    simp [ShowDark, hup]
  · rw [activateDisplay_of_not adds fun hboth => hup hboth.2]
    simp [ShowDark, hup, h]

theorem comesUp_link (seat : Seat) (d video : ℕ) (active : Bool) :
    ((seat.setActive d active).linkDisplay ⟨d, video, false⟩).ComesUp d ↔ active = true := by
  simp [ComesUp, linkDisplay, setActive]

theorem dark_seatNewDisplay {seat : Seat} (d video : ℕ) (active : Bool) (hlive : seat.Live)
    (h : seat.Dark) : (seat.seatNewDisplay adds d video active).Dark ↔
      (active = true → seat.known d = false → seat.NoScreen adds d) := by
  unfold seatNewDisplay
  cases hknown : seat.known d with
  | true => simpa using h
  | false =>
    have hlink : ((seat.setActive d active).linkDisplay ⟨d, video, false⟩).Live := hlive
    have hup := dark_activateDisplay adds d hlink h
    simp only [ShowDark, comesUp_link] at hup
    simp only [Bool.false_eq_true, if_false, true_implies]
    exact hup

theorem dark_removeShown {seat : Seat} (shown : Shown) (h : seat.Dark) :
    (seat.removeShown shown).Dark := by
  unfold removeShown
  dsimp only
  split_ifs
  · simp only [Dark, onTerms, List.forall_mem_map]
    exact fun s hs hcurrent => h s hs hcurrent
  · exact h

theorem dark_videoAct {seat : Seat} (act : VideoAct) (hlive : seat.Live) (h : seat.Dark) :
    (seat.videoAct adds act).Dark ↔ seat.ActDark adds act := by
  cases act with
  | newDisplay d video active => exact dark_seatNewDisplay adds d video active hlive h
  | removeDisplay d =>
    refine iff_of_true ?_ trivial
    unfold videoAct seatRemoveDisplay
    dsimp only
    cases seat.displays.find? (·.disp = d) with
    | none => exact h
    | some shown => exact dark_removeShown shown h
  | state d active => exact iff_of_true h trivial

/-- A terminal that sleeps in the end has slept all the time. -/
theorem Moves.dark {seat seat' : Seat} (h : Moves seat seat') (hdark : seat'.Dark) : seat.Dark := by
  intro s hs hcurrent
  by_contra hawake
  obtain ⟨s', hs', hid, hawake'⟩ := h.lasting s hs (by simpa using hawake)
  have hasleep := hdark s' hs' (by rw [h.current, hcurrent, hid])
  simp [hasleep] at hawake'

theorem dark_videoActs {seat : Seat} (acts : List VideoAct) (hlive : seat.Live) (h : seat.Dark) :
    (acts.foldl (videoAct adds) seat).Dark ↔
      Runs.Along (videoAct adds) (ActDark adds) seat acts := by
  refine (Runs.run_iff_always (P := Dark) fun seat act =>
    (stays_videoAct adds seat act).toMoves.dark).trans ?_
  refine Runs.always_iff_along (J := fun seat : Seat => seat.Live ∧ seat.Dark) (fun _ h => h.2)
    ?_ ?_ ⟨hlive, h⟩
  · intro seat act hJ hmeets
    exact ⟨(stays_videoAct adds seat act).live hJ.1, (dark_videoAct adds act hJ.1 hJ.2).mpr hmeets⟩
  · exact fun seat act hJ => (dark_videoAct adds act hJ.1 hJ.2).mp

theorem dark_activateDisplays {seat : Seat} (hlive : seat.Live) (h : seat.Dark) :
    (seat.activateDisplays adds).Dark ↔
      Runs.Along (activateDisplay adds) (ShowDark adds) seat (seat.displays.map (·.disp)) := by
  refine (Runs.run_iff_always (P := Dark) fun seat d =>
    (stays_activateDisplay adds seat d).toMoves.dark).trans ?_
  refine Runs.always_iff_along (J := fun seat : Seat => seat.Live ∧ seat.Dark) (fun _ h => h.2)
    ?_ ?_ ⟨hlive, h⟩
  · intro seat d hJ hmeets
    exact ⟨(stays_activateDisplay adds seat d).live hJ.1,
      (dark_activateDisplay adds d hJ.1 hJ.2).mpr hmeets⟩
  · exact fun seat d hJ => (dark_activateDisplay adds d hJ.1 hJ.2).mp

/-- Bringing a seat to the foreground leaves its current terminal asleep exactly if
the condition is met. -/
theorem dark_seatGoForeground {seat : Seat} (hback : seat.foreground = false)
    (hawake : seat.awake = true) (h : seat.Dark) :
    (seat.seatGoForeground adds env).2.Dark ↔ seat.ComesDark adds env := by
  have hlive : (seat.raise env).Live := ⟨hawake, rfl⟩
  have hdark : (seat.raise env).Dark := h
  have hlast := (stays_videoActs adds (seat.raise env) env.acts).live hlive
  have hacts := dark_videoActs adds env.acts hlive hdark
  rw [seatGoForeground_of_back adds env hback hawake]
  constructor
  · intro hend
    have hmid := (stays_activateDisplays adds _).toMoves.dark hend
    exact ⟨hacts.mp hmid, (dark_activateDisplays adds hlast hmid).mp hend⟩
  · rintro ⟨hmeets, hloop⟩
    exact (dark_activateDisplays adds hlast (hacts.mpr hmeets)).mpr hloop

theorem Keeps.onlyCurrent {seat seat' : Seat} (h : Keeps seat seat')
    (honly : seat.OnlyCurrent) : seat'.OnlyCurrent := by
  obtain ⟨g, hsessions, hg⟩ := h.sessions
  intro s' hs' hawake
  rw [hsessions] at hs'
  obtain ⟨s, hs, rfl⟩ := List.mem_map.mp hs'
  rw [h.current, (hg s).1]
  rcases (hg s).2 hawake with hold | hcurrent
  · exact honly s hs hold
  · exact hcurrent

/-- Once its current terminal is put to sleep, nobody is awake. -/
theorem asleep_of_onlyCurrent {seat : Seat} (h : seat.OnlyCurrent) :
    ∀ s ∈ (seat.onCurrent Term.deactivate).sessions, s.term.awake = false := by
  simp only [onCurrent, List.forall_mem_map]
  intro s hs
  split_ifs with hcurrent
  · rfl
  · by_contra hawake
    exact hcurrent (h s hs (by simpa using hawake))

theorem sessionForeground_onCurrent (seat : Seat) (f : Term → Term) (id : ℕ) :
    (seat.onCurrent f).sessionForeground id = seat.sessionForeground id := by
  simp only [sessionForeground, onCurrent, List.any_map, Function.comp_def]
  congr 1
  funext s
  split_ifs <;> rfl

/-- Nobody is awake on the way to another ground but the terminal of `current_sess`. -/
theorem awake_followSession {seat : Seat} (id : ℕ)
    (h : ∀ s ∈ seat.sessions, s.term.awake = false) :
    ∀ s ∈ (seat.followSession adds env id).sessions, s.term.awake = true →
      seat.current = some s.id := by
  obtain ⟨g, hsessions, hg⟩ := (moves_followSession adds env seat id).sessions
  intro s' hs' hawake
  rw [hsessions] at hs'
  obtain ⟨s, hs, rfl⟩ := List.mem_map.mp hs'
  rcases (hg s).2 hawake with hold | hcurrent
  · simp [h s hs] at hold
  · rw [hcurrent, (hg s).1]

theorem dark_followSession {seat : Seat} (id : ℕ) (h : seat.Dark) :
    (seat.followSession adds env id).Dark ↔
      (seat.sessionForeground id = true → seat.foreground = false → seat.awake = true →
        seat.ComesDark adds env) := by
  unfold followSession
  cases hfg : seat.sessionForeground id with
  | false =>
    refine iff_of_true ?_ fun htrue => by simp at htrue
    simp only [Bool.false_and, Bool.false_eq_true, if_false, seatGoBackground]
    split_ifs <;> exact h
  | true =>
    cases hback : seat.foreground with
    | true => simpa using h
    | false =>
      cases hawake : seat.awake with
      | true => simpa using dark_seatGoForeground adds env hback hawake h
      | false =>
        have hsame : (seat.seatGoForeground adds env).2 = seat := by
          simp [seatGoForeground, hback, hawake]
        simpa [hsame] using h

/-- A switch leaves only the terminal of the new session awake, exactly if the old
one is not woken on the way to the foreground. -/
theorem onlyCurrent_seatSwitch {seat : Seat} (new : Option ℕ) (h : seat.OnlyCurrent) :
    (seat.seatSwitch adds env new).OnlyCurrent ↔ seat.SwitchDark adds env new := by
  have hasleep := asleep_of_onlyCurrent h
  have hdark : (seat.onCurrent Term.deactivate).Dark := fun s hs _ => hasleep s hs
  unfold seatSwitch SwitchDark
  by_cases hsame : seat.current = new
  · rw [if_pos hsame]
    exact iff_of_true h fun _ _ hne => absurd hsame hne
  rw [if_neg hsame]
  cases new with
  | none =>
    refine iff_of_true ?_ fun id hid => by simp at hid
    have hsessions : (seat.onCurrent Term.deactivate).seatGoBackground.2.sessions =
        (seat.onCurrent Term.deactivate).sessions := by
      unfold seatGoBackground
      split_ifs <;> rfl
    intro s hs hawake
    rw [hsessions] at hs
    simp [hasleep s hs] at hawake
  | some id =>
    have hawake := awake_followSession adds env id hasleep
    have hcurrent := (moves_followSession adds env (seat.onCurrent Term.deactivate) id).current
    have hfollow := dark_followSession adds env id hdark
    rw [sessionForeground_onCurrent] at hfollow
    simp only [Option.some.injEq, forall_eq', ne_eq, hsame, not_false_eq_true, true_implies]
    refine Iff.trans ?_ hfollow
    simp only [OnlyCurrent, onTerm, List.forall_mem_map]
    constructor
    · intro honly s hs hold
      by_contra hnot
      have hne : s.id ≠ id := by
        rintro rfl
        exact hsame (hcurrent.symm.trans hold)
      have := honly s hs
      simp only [hne, if_false] at this
      exact hne (Option.some.inj (this (by simpa using hnot))).symm
    · intro hold s hs hlast
      split_ifs at hlast ⊢ with hid
      · rw [← hid]
      · have := hold s hs (hcurrent.trans (hawake s hs hlast))
        simp [this] at hlast

end Faceplate.Seat
