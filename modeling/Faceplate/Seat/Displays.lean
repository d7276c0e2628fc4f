import Mathlib.Tactic.SplitIfs
import Faceplate.Seat.Basic

/-!
# Displays that come up

`activate_display` is where displays reach terminals. This file says once what it
does, and what the loops around it leave alone: the sessions there are, and which
of them is the current one.
-/

namespace Faceplate

namespace Term

/-- What a display that comes up does to the terminal of a session. -/
def comeUp (d : ℕ) (ok current : Bool) (term : Term) : Term :=
  if current then (term.addDisplay d ok).activate else term.addDisplay d ok

@[simp] theorem screens_activate (term : Term) : term.activate.screens = term.screens := by
  unfold activate
  split_ifs <;> rfl

theorem awake_activate (term : Term) :
    term.activate.awake = true ↔ term.awake = true ∨ term.screens ≠ [] := by
  unfold activate
  split_ifs with hempty <;> simp_all

@[simp] theorem awake_addDisplay (d : ℕ) (ok : Bool) (term : Term) :
    (term.addDisplay d ok).awake = term.awake := by
  unfold addDisplay
  split_ifs <;> rfl

@[simp] theorem screens_comeUp (d : ℕ) (ok current : Bool) (term : Term) :
    (term.comeUp d ok current).screens = (term.addDisplay d ok).screens := by
  unfold comeUp
  split_ifs <;> simp

/-- Only the absence of any screen keeps a terminal from being woken. -/
theorem screens_addDisplay_eq_nil (d : ℕ) (ok : Bool) (term : Term) :
    (term.addDisplay d ok).screens = [] ↔ term.screens = [] ∧ ok = false := by
  unfold addDisplay
  split_ifs with hmem hok
  · simp [List.ne_nil_of_mem hmem]
  · simp [hok]
  · simp [hok]

/-- Waking a terminal before a display is added to it makes no difference. -/
theorem activate_addDisplay_activate (d : ℕ) (ok : Bool) (term : Term) :
    (term.activate.addDisplay d ok).activate = (term.addDisplay d ok).activate := by
  by_cases hempty : term.screens = []
  · simp [activate, hempty]
  · have hne : (term.addDisplay d ok).screens ≠ [] := fun h =>
      hempty ((screens_addDisplay_eq_nil d ok term).mp h).1
    unfold activate addDisplay at *
    split_ifs at * <;> simp_all

end Term

namespace Seat

variable (adds : ℕ → ℕ → Bool) (env : SeatEnv)

/-- The display is known, has not come up yet, and is active. -/
def ComesUp (seat : Seat) (d : ℕ) : Prop :=
  (seat.displays.find? (·.disp = d)).any (!·.activated) = true ∧ seat.active d = true

instance (seat : Seat) (d : ℕ) : Decidable (seat.ComesUp d) :=
  inferInstanceAs (Decidable (_ ∧ _))

/-- The seat shows its sessions. -/
def Live (seat : Seat) : Prop := seat.awake = true ∧ seat.foreground = true

/-- The seat after a display has come up. -/
def comeUp (d : ℕ) (seat : Seat) : Seat :=
  { seat.markActivated d with
    sessions := seat.sessions.map fun s =>
      { s with term := s.term.comeUp d (adds s.id d) (decide (seat.current = some s.id)) }
    dpmsBlanked := seat.dpmsBlanked && !seat.conf.dpms }

theorem activateDisplay_of_not {seat : Seat} {d : ℕ} (h : ¬ (seat.Live ∧ seat.ComesUp d)) :
    seat.activateDisplay adds d = seat := by
  unfold activateDisplay
  cases hfind : seat.displays.find? (·.disp = d) with
  | none => rfl
  | some shown =>
    dsimp only
    split_ifs with hstill hactive
    · rfl
    · simp only [Bool.or_eq_true, Bool.not_eq_true', not_or, Bool.not_eq_true,
        Bool.not_eq_false] at hstill
      refine absurd ⟨⟨hstill.1.2, hstill.2⟩, ?_, hactive⟩ h
      simp [hfind, hstill.1.1]
    · rfl

/-- A display that comes up is marked, added to all terminals, and wakes that of
the current session. -/
theorem activateDisplay_of_comesUp {seat : Seat} {d : ℕ} (hlive : seat.Live)
    (hup : seat.ComesUp d) : seat.activateDisplay adds d = seat.comeUp adds d := by
  obtain ⟨hknown, hactive⟩ := hup
  unfold activateDisplay
  cases hfind : seat.displays.find? (·.disp = d) with
  | none => simp [hfind] at hknown
  | some shown =>
    have hnot : shown.activated = false := by simpa [hfind] using hknown
    simp only [hnot, hlive.1, hlive.2, hactive, Bool.not_true, Bool.or_self, Bool.false_eq_true,
      if_false, if_true, dpmsResetTimer]
    have hsessions (s : Session) :
        (if seat.current = some s.id then
          { s with term := (s.term.addDisplay d (adds s.id d)).activate }
        else { s with term := s.term.addDisplay d (adds s.id d) }) =
          { s with term := s.term.comeUp d (adds s.id d) (decide (seat.current = some s.id)) } := by
      by_cases hcurrent : seat.current = some s.id <;> simp [Term.comeUp, hcurrent]
    split_ifs with hoff hblank
    · have hconf : seat.conf.dpms = false := by simpa [markActivated] using hoff
      simp only [onTerms, onCurrent, comeUp, markActivated, hconf, Bool.not_false, Bool.and_true,
        List.map_map, mk.injEq, List.map_inj_left, Function.comp_apply, and_true, true_and]
      exact fun s _ => hsessions s
    · have hconf : seat.conf.dpms = true := by simpa [markActivated] using hoff
      simp only [onTerms, onCurrent, comeUp, markActivated, hconf, List.map_map, mk.injEq]
      simp only [List.map_inj_left, Function.comp_apply, true_and, and_true]
      refine ⟨fun s _ => ?_, by simp⟩
      by_cases hcurrent : seat.current = some s.id
      · simp [hcurrent, Term.comeUp, Term.activate_addDisplay_activate]
      · simp [hcurrent, Term.comeUp]
    · have hblanked : seat.dpmsBlanked = false := by simpa [markActivated] using hblank
      simp only [onTerms, onCurrent, comeUp, markActivated, hblanked, Bool.false_and, List.map_map,
        mk.injEq, List.map_inj_left, Function.comp_apply, and_true, true_and]
      exact fun s _ => hsessions s

/-- Most handlers keep the sessions in their order and the same one current, and wake
no terminal but its own. -/
structure Keeps (seat seat' : Seat) : Prop where
  current : seat'.current = seat.current
  nextId : seat'.nextId = seat.nextId
  sessions : ∃ g : Session → Session, seat'.sessions = seat.sessions.map g ∧
    ∀ s, (g s).id = s.id ∧
      ((g s).term.awake = true → s.term.awake = true ∨ seat.current = some s.id)

/-- Changes of displays and ground put no terminal to sleep either. -/
structure Moves (seat seat' : Seat) : Prop extends Keeps seat seat' where
  lasting : ∀ s ∈ seat.sessions, s.term.awake = true →
    ∃ s' ∈ seat'.sessions, s'.id = s.id ∧ s'.term.awake = true

variable {seat seat' seat'' : Seat}

theorem Keeps.of_sessions_eq (hcurrent : seat'.current = seat.current)
    (hnext : seat'.nextId = seat.nextId) (hsessions : seat'.sessions = seat.sessions) :
    Keeps seat seat' :=
  ⟨hcurrent, hnext, id, by simpa using hsessions, fun _ => ⟨rfl, .inl⟩⟩

theorem Keeps.trans (h : Keeps seat seat') (h' : Keeps seat' seat'') : Keeps seat seat'' := by
  obtain ⟨g, hsessions, hg⟩ := h.sessions
  obtain ⟨g', hsessions', hg'⟩ := h'.sessions
  refine ⟨h'.current.trans h.current, h'.nextId.trans h.nextId, g' ∘ g,
    by rw [hsessions', hsessions, List.map_map], fun s => ?_⟩
  refine ⟨(hg' (g s)).1.trans (hg s).1, fun hs => ?_⟩
  rcases (hg' (g s)).2 hs with hs | hs
  · exact (hg s).2 hs
  · exact .inr (by rw [← h.current, hs, (hg s).1])

/-- The list of sessions stays the same. -/
theorem Keeps.ids (h : Keeps seat seat') : seat'.ids = seat.ids := by
  obtain ⟨g, hsessions, hg⟩ := h.sessions
  simp only [Seat.ids, hsessions, List.map_map]
  exact List.map_congr_left fun s _ => (hg s).1

theorem keeps_onCurrent (f : Term → Term) (seat : Seat) : Keeps seat (seat.onCurrent f) := by
  refine ⟨rfl, rfl, _, rfl, fun s => ?_⟩
  split_ifs with hcurrent
  · exact ⟨rfl, fun _ => .inr hcurrent⟩
  · exact ⟨rfl, .inl⟩

namespace Moves

theorem of_sessions_eq (hcurrent : seat'.current = seat.current)
    (hnext : seat'.nextId = seat.nextId) (hsessions : seat'.sessions = seat.sessions) :
    Moves seat seat' :=
  ⟨.of_sessions_eq hcurrent hnext hsessions, fun s hs hawake => ⟨s, hsessions ▸ hs, rfl, hawake⟩⟩

theorem refl (seat : Seat) : Moves seat seat := of_sessions_eq rfl rfl rfl

theorem trans (h : Moves seat seat') (h' : Moves seat' seat'') : Moves seat seat'' := by
  refine ⟨h.toKeeps.trans h'.toKeeps, fun s hs hawake => ?_⟩
  obtain ⟨s', hs', hid, hawake'⟩ := h.lasting s hs hawake
  obtain ⟨s'', hs'', hid', hawake''⟩ := h'.lasting s' hs' hawake'
  exact ⟨s'', hs'', hid'.trans hid, hawake''⟩

/-- One function on the sessions that wakes the current terminal at most. -/
theorem of_map {g : Session → Session} (hcurrent : seat'.current = seat.current)
    (hnext : seat'.nextId = seat.nextId) (hsessions : seat'.sessions = seat.sessions.map g)
    (hid : ∀ s, (g s).id = s.id)
    (hawake : ∀ s, s.term.awake = true → (g s).term.awake = true)
    (hwake : ∀ s, (g s).term.awake = true → s.term.awake = true ∨ seat.current = some s.id) :
    Moves seat seat' := by
  refine ⟨⟨hcurrent, hnext, g, hsessions, fun s => ⟨hid s, hwake s⟩⟩, fun s hs hold => ?_⟩
  exact ⟨g s, by rw [hsessions]; exact List.mem_map_of_mem hs, hid s, hawake s hold⟩

end Moves

/-- The ground of a seat does not change either. -/
structure Stays (seat seat' : Seat) : Prop extends Moves seat seat' where
  awake : seat'.awake = seat.awake
  foreground : seat'.foreground = seat.foreground

namespace Stays

theorem refl (seat : Seat) : Stays seat seat := ⟨.refl seat, rfl, rfl⟩

theorem trans (h : Stays seat seat') (h' : Stays seat' seat'') : Stays seat seat'' :=
  ⟨h.toMoves.trans h'.toMoves, h'.awake.trans h.awake, h'.foreground.trans h.foreground⟩

theorem foldl {α : Type*} {f : Seat → α → Seat} (h : ∀ seat a, Stays seat (f seat a))
    (seat : Seat) (as : List α) : Stays seat (as.foldl f seat) := by
  induction as generalizing seat with
  | nil => exact refl seat
  | cons a as ih => exact (h seat a).trans (ih (f seat a))

theorem live (h : Stays seat seat') (hlive : seat.Live) : seat'.Live :=
  ⟨h.awake.trans hlive.1, h.foreground.trans hlive.2⟩

end Stays

theorem stays_comeUp (seat : Seat) (d : ℕ) : Stays seat (seat.comeUp adds d) := by
  refine ⟨.of_map rfl rfl rfl (fun _ => rfl) (fun s hs => ?_) (fun s hs => ?_), rfl, rfl⟩
  · simp only [Term.comeUp]
    split_ifs
    · rw [Term.awake_activate]
      exact .inl (by simpa using hs)
    · simpa using hs
  · by_cases hcurrent : seat.current = some s.id
    · exact .inr hcurrent
    · simpa [Term.comeUp, hcurrent] using hs

theorem stays_activateDisplay (seat : Seat) (d : ℕ) : Stays seat (seat.activateDisplay adds d) := by
  by_cases h : seat.Live ∧ seat.ComesUp d
  · rw [activateDisplay_of_comesUp adds h.1 h.2]
    exact stays_comeUp adds seat d
  · rw [activateDisplay_of_not adds h]
    exact .refl seat

theorem stays_onTerms_rmDisplay (seat : Seat) (d : ℕ) :
    Stays seat (seat.onTerms fun _ term => term.rmDisplay d) :=
  ⟨.of_map rfl rfl rfl (fun _ => rfl) (fun _ h => h) (fun _ h => .inl h), rfl, rfl⟩

theorem stays_unlinkDisplay (seat : Seat) (d : ℕ) : Stays seat (seat.unlinkDisplay d) :=
  ⟨.of_sessions_eq rfl rfl rfl, rfl, rfl⟩

theorem stays_link (seat : Seat) (d : ℕ) (active : Bool) (shown : Shown) :
    Stays seat ((seat.setActive d active).linkDisplay shown) :=
  ⟨.of_sessions_eq rfl rfl rfl, rfl, rfl⟩

theorem stays_removeShown (seat : Seat) (shown : Shown) : Stays seat (seat.removeShown shown) := by
  have hunlink := stays_unlinkDisplay seat shown.disp
  unfold removeShown
  dsimp only
  split_ifs
  · exact hunlink.trans (stays_onTerms_rmDisplay _ _)
  · exact hunlink

theorem stays_videoAct (seat : Seat) (act : VideoAct) : Stays seat (seat.videoAct adds act) := by
  cases act with
  | newDisplay d video active =>
    unfold videoAct seatNewDisplay
    dsimp only
    split_ifs
    · exact .refl seat
    · exact (stays_link seat d active _).trans (stays_activateDisplay adds _ d)
  | removeDisplay d =>
    unfold videoAct seatRemoveDisplay
    dsimp only
    cases seat.displays.find? (·.disp = d) with
    | none => exact .refl seat
    | some shown => exact stays_removeShown seat shown
  | state d active => exact ⟨.of_sessions_eq rfl rfl rfl, rfl, rfl⟩

theorem stays_videoActs (seat : Seat) (acts : List VideoAct) :
    Stays seat (acts.foldl (videoAct adds) seat) :=
  .foldl (stays_videoAct adds) seat acts

theorem stays_activateDisplays (seat : Seat) : Stays seat (seat.activateDisplays adds) :=
  .foldl (stays_activateDisplay adds) seat _

theorem seatGoForeground_of_back {seat : Seat} (hback : seat.foreground = false)
    (hawake : seat.awake = true) : seat.seatGoForeground adds env =
      (true, (env.acts.foldl (videoAct adds) (seat.raise env)).activateDisplays adds) := by
  simp only [seatGoForeground, hback, hawake, Bool.not_true, Bool.false_eq_true, if_false]

theorem moves_raise (seat : Seat) : Moves seat (seat.raise env) := .of_sessions_eq rfl rfl rfl

theorem moves_seatGoForeground (seat : Seat) : Moves seat (seat.seatGoForeground adds env).2 := by
  unfold seatGoForeground
  split_ifs
  · exact .refl seat
  · exact .refl seat
  · have hacts := (stays_videoActs adds (seat.raise env) env.acts).trans
      (stays_activateDisplays adds _)
    exact (moves_raise env seat).trans hacts.toMoves

theorem moves_seatGoBackground (seat : Seat) : Moves seat seat.seatGoBackground.2 := by
  unfold seatGoBackground
  split_ifs
  · exact .refl seat
  · exact .refl seat
  · exact .of_sessions_eq rfl rfl rfl

theorem moves_followSession (seat : Seat) (id : ℕ) :
    Moves seat (seat.followSession adds env id) := by
  unfold followSession
  split_ifs
  · exact moves_seatGoForeground adds env seat
  · exact moves_seatGoBackground seat
  · exact .refl seat

end Seat

end Faceplate
