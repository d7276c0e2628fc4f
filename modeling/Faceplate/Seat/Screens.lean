import Faceplate.Seat.Handlers

/-!
# Screens and activated displays

A display gets its screens when it is activated and loses them with it, while the
terminal of a new session gets a screen on every display of the seat. This file
follows the screens that are on displays not activated through the acts of the
video layer and the loop that activates displays.
-/

namespace Faceplate.Seat

variable (env : SeatEnv) {seat seat' : Seat} {extra extra' : ℕ → ℕ → Prop}

/-- The seat has marked the display activated. -/
def Marked (seat : Seat) (d : ℕ) : Prop :=
  ∃ shown ∈ seat.displays, shown.disp = d ∧ shown.activated = true

/-- The terminal of every session holds screens on exactly the activated displays. -/
def Consistent (seat : Seat) : Prop :=
  ∀ s ∈ seat.sessions, ∀ d, d ∈ s.term.screens ↔ seat.Marked d

/-- The displays of the seat. -/
def shownIds (seat : Seat) : List ℕ := seat.displays.map (·.disp)

/-- Every terminal can set up every screen. -/
def allAdd : ℕ → ℕ → Bool := fun _ _ => true

/-- Apart from the screens on activated displays, a terminal holds the `extra` ones. -/
structure Shows (extra : ℕ → ℕ → Prop) (seat : Seat) : Prop where
  nodup : seat.shownIds.Nodup
  screens : ∀ s ∈ seat.sessions, ∀ d, d ∈ s.term.screens ↔ seat.Marked d ∨ extra s.id d
  apart : ∀ id d, extra id d → ¬ seat.Marked d
  here : ∀ id d, extra id d → id ∈ seat.ids

/-- The extra screens are what keeps a seat from being consistent. -/
theorem Shows.consistent_iff (h : seat.Shows extra) :
    seat.Consistent ↔ ∀ id d, ¬ extra id d := by
  constructor
  · intro hall id d hextra
    obtain ⟨s, hs, rfl⟩ := List.mem_map.mp (h.here id d hextra)
    exact h.apart _ d hextra ((hall s hs d).mp ((h.screens s hs d).mpr (.inr hextra)))
  · intro hnone s hs d
    simpa [hnone] using h.screens s hs d

theorem Shows.congr (h : seat.Shows extra) (hextra : ∀ id d, extra' id d ↔ extra id d) :
    seat.Shows extra' := by
  obtain rfl : extra' = extra := by
    funext id d
    exact propext (hextra id d)
  exact h

/-- The displays and the screens of the sessions are the same. -/
structure SameScreens (seat seat' : Seat) : Prop where
  displays : seat'.displays = seat.displays
  holdings : seat'.sessions.map (fun s => (s.id, s.term.screens)) =
    seat.sessions.map fun s => (s.id, s.term.screens)

namespace SameScreens

variable {seat'' : Seat}

theorem refl (seat : Seat) : SameScreens seat seat := ⟨rfl, rfl⟩

theorem trans (h : SameScreens seat seat') (h' : SameScreens seat' seat'') :
    SameScreens seat seat'' :=
  ⟨h'.displays.trans h.displays, h'.holdings.trans h.holdings⟩

theorem shows (h : SameScreens seat seat') (hshows : seat.Shows extra) : seat'.Shows extra := by
  obtain ⟨hdisplays, hholdings⟩ := h
  have hmarked (d : ℕ) : seat'.Marked d ↔ seat.Marked d := by simp only [Marked, hdisplays]
  have hids : seat'.ids = seat.ids := by
    simpa only [ids, List.map_map, Function.comp_def] using congrArg (List.map Prod.fst) hholdings
  refine ⟨?_, fun s hs d => ?_, fun id d => ?_, fun id d => hids ▸ hshows.here id d⟩
  · simpa only [shownIds, hdisplays] using hshows.nodup
  · have hmem := List.mem_map_of_mem (f := fun s : Session => (s.id, s.term.screens)) hs
    rw [hholdings] at hmem
    obtain ⟨old, hold, heq⟩ := List.mem_map.mp hmem
    simp only [Prod.mk.injEq] at heq
    rw [hmarked, ← heq.1, ← heq.2]
    exact hshows.screens old hold d
  · rw [hmarked]
    exact hshows.apart id d

end SameScreens

/-- Other fields of a seat do not matter. -/
theorem Shows.of_eq (h : seat.Shows extra) (hdisplays : seat'.displays = seat.displays)
    (hsessions : seat'.sessions = seat.sessions) : seat'.Shows extra :=
  SameScreens.shows ⟨hdisplays, by rw [hsessions]⟩ h

theorem sameScreens_onCurrent {f : Term → Term} (hf : ∀ term, (f term).screens = term.screens)
    (seat : Seat) : SameScreens seat (seat.onCurrent f) := by
  refine ⟨rfl, ?_⟩
  simp only [onCurrent, List.map_map]
  refine List.map_congr_left fun s _ => ?_
  simp only [Function.comp_apply]
  split_ifs <;> simp [hf]

theorem sameScreens_activate (seat : Seat) : SameScreens seat (seat.onCurrent Term.activate) :=
  sameScreens_onCurrent Term.screens_activate seat

theorem sameScreens_deactivate (seat : Seat) : SameScreens seat (seat.onCurrent Term.deactivate) :=
  sameScreens_onCurrent (f := Term.deactivate) (fun _ => rfl) seat

theorem sameScreens_onTerm_activate (id : ℕ) (seat : Seat) :
    SameScreens seat (seat.onTerm id Term.activate) := by
  refine ⟨rfl, ?_⟩
  simp only [onTerm, List.map_map]
  refine List.map_congr_left fun s _ => ?_
  simp only [Function.comp_apply]
  split_ifs <;> simp

theorem sameScreens_dpmsResetTimer (seat : Seat) : SameScreens seat seat.dpmsResetTimer := by
  unfold dpmsResetTimer
  split_ifs
  · exact .refl seat
  · exact (sameScreens_activate seat).trans ⟨rfl, rfl⟩
  · exact .refl seat

theorem sameScreens_seatGoBackground (seat : Seat) : SameScreens seat seat.seatGoBackground.2 := by
  unfold seatGoBackground
  split_ifs <;> exact ⟨rfl, rfl⟩

theorem sameScreens_raise (seat : Seat) : SameScreens seat (seat.raise env) := ⟨rfl, rfl⟩

theorem sameScreens_setSessionForeground (id : ℕ) (foreground : Bool) (seat : Seat) :
    SameScreens seat (seat.setSessionForeground id foreground) := by
  refine ⟨rfl, ?_⟩
  simp only [setSessionForeground, List.map_map]
  refine List.map_congr_left fun s _ => ?_
  simp only [Function.comp_apply]
  split_ifs <;> rfl

/-! ## One display -/

theorem mem_screens_addDisplay (d e : ℕ) (term : Term) :
    e ∈ (term.addDisplay d true).screens ↔ e = d ∨ e ∈ term.screens := by
  unfold Term.addDisplay
  split_ifs with hmem
  · exact ⟨.inr, fun h => h.elim (fun he => he ▸ hmem) id⟩
  · simp
  · simp_all

theorem marked_comeUp (d e : ℕ) (seat : Seat) : (seat.comeUp allAdd d).Marked e ↔
    seat.Marked e ∨ e = d ∧ d ∈ seat.shownIds := by
  simp only [Marked, comeUp, markActivated, shownIds, List.mem_map]
  constructor
  · rintro ⟨-, ⟨shown, hshown, rfl⟩, hdisp, hact⟩
    split_ifs at hdisp hact with hd
    · exact .inr ⟨hdisp.symm.trans hd, shown, hshown, hd⟩
    · exact .inl ⟨shown, hshown, hdisp, hact⟩
  · rintro (⟨shown, hshown, hdisp, hact⟩ | ⟨rfl, shown, hshown, hd⟩)
    · refine ⟨_, ⟨shown, hshown, rfl⟩, ?_⟩
      split_ifs <;> exact ⟨hdisp, by simp [hact]⟩
    · exact ⟨_, ⟨shown, hshown, rfl⟩, by simp [hd]⟩

theorem shownIds_comeUp (d : ℕ) (seat : Seat) :
    (seat.comeUp allAdd d).shownIds = seat.shownIds := by
  simp only [shownIds, comeUp, markActivated, List.map_map]
  refine List.map_congr_left fun shown _ => ?_
  simp only [Function.comp_apply]
  split_ifs <;> rfl

/-- A display that comes up is no longer extra anywhere. -/
theorem Shows.comeUp (h : seat.Shows extra) {d : ℕ} (hd : d ∈ seat.shownIds) :
    (seat.comeUp allAdd d).Shows fun id e => extra id e ∧ e ≠ d := by
  refine ⟨by rw [shownIds_comeUp]; exact h.nodup, ?_, ?_, ?_⟩
  · simp only [Seat.comeUp, List.forall_mem_map]
    intro s hs e
    have hmarked := marked_comeUp d e seat
    simp only [Seat.comeUp] at hmarked
    simp only [Term.screens_comeUp, allAdd] at hmarked ⊢
    rw [mem_screens_addDisplay, h.screens s hs e, hmarked]
    tauto
  · rintro id e ⟨hextra, hne⟩ hmarked
    rcases (marked_comeUp d e seat).mp hmarked with hold | ⟨rfl, -⟩
    · exact h.apart id e hextra hold
    · exact hne rfl
  · rintro id e ⟨hextra, -⟩
    have hids : (seat.comeUp allAdd d).ids = seat.ids := (stays_comeUp allAdd seat d).ids
    exact hids ▸ h.here id e hextra

theorem comesUp_mem {d : ℕ} (h : seat.ComesUp d) : d ∈ seat.shownIds := by
  cases hfind : seat.displays.find? (·.disp = d) with
  | none => simp [ComesUp, hfind] at h
  | some shown =>
    exact List.mem_map.mpr ⟨shown, List.mem_of_find?_eq_some hfind,
      by simpa using List.find?_some hfind⟩

/-- An active display of the seat that is not marked comes up. -/
theorem comesUp_of_not_marked {d : ℕ} (hd : d ∈ seat.shownIds) (hactive : seat.active d = true)
    (hnot : ¬ seat.Marked d) : seat.ComesUp d := by
  cases hfind : seat.displays.find? (·.disp = d) with
  | none =>
    obtain ⟨shown, hshown, hdisp⟩ := List.mem_map.mp hd
    simpa [hdisp] using List.find?_eq_none.mp hfind shown hshown
  | some shown =>
    have hmem := List.mem_of_find?_eq_some hfind
    have hdisp : shown.disp = d := by simpa using List.find?_some hfind
    refine ⟨?_, hactive⟩
    cases hact : shown.activated with
    | false => simp [hfind, hact]
    | true => exact absurd ⟨shown, hmem, hdisp, hact⟩ hnot

theorem shows_activateDisplay (d : ℕ) (hlive : seat.Live) (h : seat.Shows extra) :
    (seat.activateDisplay allAdd d).Shows fun id e =>
      extra id e ∧ ¬ (e = d ∧ e ∈ seat.shownIds ∧ seat.active e = true) := by
  by_cases hup : seat.ComesUp d
  · rw [activateDisplay_of_comesUp allAdd hlive hup]
    have hd := comesUp_mem hup
    refine (h.comeUp hd).congr fun id e => and_congr_right fun _ => not_congr ⟨And.left, ?_⟩
    rintro rfl
    exact ⟨rfl, hd, hup.2⟩
  · rw [activateDisplay_of_not allAdd fun hboth => hup hboth.2]
    refine h.congr fun id e => and_iff_left_of_imp ?_
    rintro hextra ⟨rfl, hd, hactive⟩
    exact hup (comesUp_of_not_marked hd hactive (h.apart id e hextra))

theorem shownIds_activateDisplay (d : ℕ) (seat : Seat) :
    (seat.activateDisplay allAdd d).shownIds = seat.shownIds := by
  by_cases h : seat.Live ∧ seat.ComesUp d
  · rw [activateDisplay_of_comesUp allAdd h.1 h.2, shownIds_comeUp]
  · rw [activateDisplay_of_not allAdd h]

theorem active_activateDisplay (d : ℕ) (seat : Seat) :
    (seat.activateDisplay allAdd d).active = seat.active := by
  by_cases h : seat.Live ∧ seat.ComesUp d
  · rw [activateDisplay_of_comesUp allAdd h.1 h.2]
    rfl
  · rw [activateDisplay_of_not allAdd h]

/-- The loop over displays leaves extra screens on those that are gone or not active. -/
theorem shows_activateDisplay_foldl (ds : List ℕ) (hlive : seat.Live) (h : seat.Shows extra) :
    (ds.foldl (activateDisplay allAdd) seat).Shows fun id e =>
      extra id e ∧ ¬ (e ∈ ds ∧ e ∈ seat.shownIds ∧ seat.active e = true) := by
  induction ds generalizing seat extra with
  | nil => exact h.congr fun id e => by simp
  | cons d ds ih =>
    have hnext := ih ((stays_activateDisplay allAdd seat d).live hlive)
      (shows_activateDisplay d hlive h)
    rw [shownIds_activateDisplay, active_activateDisplay] at hnext
    refine hnext.congr fun id e => ?_
    rw [List.mem_cons]
    tauto

theorem shows_activateDisplays (hlive : seat.Live) (h : seat.Shows extra) :
    (seat.activateDisplays allAdd).Shows fun id e =>
      extra id e ∧ ¬ (e ∈ seat.shownIds ∧ seat.active e = true) :=
  (shows_activateDisplay_foldl seat.shownIds hlive h).congr fun id e => by tauto

/-! ## The acts of the video layer -/

/-- An extra screen keeps its display from being taken for a new one. -/
theorem Shows.known (h : seat.Shows extra) {id d : ℕ} (hextra : extra id d) :
    seat.known d = true := by
  obtain ⟨s, hs, rfl⟩ := List.mem_map.mp (h.here id d hextra)
  have hscreen := (h.screens s hs d).mpr (.inr hextra)
  simp only [Seat.known, held, Bool.or_eq_true, List.any_eq_true, decide_eq_true_eq]
  exact .inr ⟨s, hs, hscreen⟩

theorem not_mem_shownIds {d : ℕ} (h : seat.known d = false) : d ∉ seat.shownIds := by
  intro hd
  obtain ⟨shown, hshown, hdisp⟩ := List.mem_map.mp hd
  have hno := h
  simp only [Seat.known, Bool.or_eq_false_iff, List.any_eq_false] at hno
  exact hno.1 shown hshown (by simpa using hdisp)

theorem Shows.linkDisplay (h : seat.Shows extra) {d : ℕ} (hnew : seat.known d = false)
    (video : ℕ) (active : Bool) :
    ((seat.setActive d active).linkDisplay ⟨d, video, false⟩).Shows extra := by
  have hmarked (e : ℕ) : ((seat.setActive d active).linkDisplay ⟨d, video, false⟩).Marked e ↔
      seat.Marked e := by
    simp [Marked, Seat.linkDisplay, setActive]
  refine ⟨List.nodup_cons.mpr ⟨not_mem_shownIds hnew, h.nodup⟩, fun s hs e => ?_, fun id e => ?_,
    h.here⟩
  · rw [hmarked]
    exact h.screens s hs e
  · rw [hmarked]
    exact h.apart id e

theorem shows_seatNewDisplay (d video : ℕ) (active : Bool) (h : seat.Shows extra) :
    (seat.seatNewDisplay allAdd d video active).Shows extra := by
  unfold seatNewDisplay
  cases hknown : seat.known d with
  | true => simpa using h
  | false =>
    have hlink := h.linkDisplay hknown video active
    simp only [Bool.false_eq_true, if_false]
    by_cases hlive : ((seat.setActive d active).linkDisplay ⟨d, video, false⟩).Live
    · refine (shows_activateDisplay d hlive hlink).congr fun id e => (and_iff_left_of_imp ?_).symm
      rintro hextra ⟨rfl, -⟩
      simp [h.known hextra] at hknown
    · rw [activateDisplay_of_not allAdd fun hboth => hlive hboth.1]
      exact hlink

theorem shows_removeShown {shown : Shown} (hshown : shown ∈ seat.displays)
    (h : seat.Shows extra) : (seat.removeShown shown).Shows extra := by
  have honly : ∀ other ∈ seat.displays, other.disp = shown.disp → other = shown :=
    fun other hother => List.inj_on_of_nodup_map h.nodup hother hshown
  have hmarked (e : ℕ) : (seat.unlinkDisplay shown.disp).Marked e ↔
      seat.Marked e ∧ e ≠ shown.disp := by
    simp only [Marked, unlinkDisplay, List.mem_filter, decide_eq_true_eq]
    constructor
    · rintro ⟨other, ⟨hother, hne⟩, rfl, hact⟩
      exact ⟨⟨other, hother, rfl, hact⟩, hne⟩
    · rintro ⟨⟨other, hother, rfl, hact⟩, hne⟩
      exact ⟨other, ⟨hother, hne⟩, rfl, hact⟩
  have hnodup : (seat.unlinkDisplay shown.disp).shownIds.Nodup :=
    h.nodup.sublist (List.filter_sublist.map _)
  unfold removeShown
  dsimp only
  cases hact : shown.activated with
  | true =>
    have hmark : seat.Marked shown.disp := ⟨shown, hshown, rfl, hact⟩
    refine ⟨hnodup, ?_, fun id e hextra hm => h.apart id e hextra ((hmarked e).mp hm).1, ?_⟩
    · simp only [if_true, onTerms, List.forall_mem_map]
      intro s hs e
      have hnot : extra s.id e → e ≠ shown.disp := by
        rintro hextra rfl
        exact h.apart _ _ hextra hmark
      refine Iff.trans ?_ (or_congr_left (hmarked e)).symm
      simp only [Term.rmDisplay, List.mem_filter, decide_eq_true_eq]
      rw [h.screens s hs e]
      tauto
    · have hids := (stays_onTerms_rmDisplay (seat.unlinkDisplay shown.disp) shown.disp).ids
      exact fun id e hextra => hids ▸ h.here id e hextra
  | false =>
    have hnot : ¬ seat.Marked shown.disp := by
      rintro ⟨other, hother, hdisp, hother'⟩
      rw [honly other hother hdisp, hact] at hother'
      simp at hother'
    simp only [Bool.false_eq_true, if_false]
    have hsame (e : ℕ) : (seat.unlinkDisplay shown.disp).Marked e ↔ seat.Marked e := by
      rw [hmarked]
      refine and_iff_left_of_imp ?_
      rintro hm rfl
      exact hnot hm
    refine ⟨hnodup, fun s hs e => ?_, fun id e => ?_, h.here⟩
    · rw [hsame]
      exact h.screens s hs e
    · rw [hsame]
      exact h.apart id e

theorem shows_videoAct (act : VideoAct) (h : seat.Shows extra) :
    (seat.videoAct allAdd act).Shows extra := by
  cases act with
  | newDisplay d video active => exact shows_seatNewDisplay d video active h
  | removeDisplay d =>
    unfold videoAct seatRemoveDisplay
    dsimp only
    cases hfind : seat.displays.find? (·.disp = d) with
    | none => exact h
    | some shown => exact shows_removeShown (List.mem_of_find?_eq_some hfind) h
  | state d active => exact h.of_eq rfl rfl

theorem shows_videoActs (acts : List VideoAct) (h : seat.Shows extra) :
    (acts.foldl (videoAct allAdd) seat).Shows extra :=
  Runs.invariant_run (fun _ act h => shows_videoAct act h) h acts

/-- The state of a display after an act of the video layer. -/
def lastState (d : ℕ) (active : Bool) : VideoAct → Bool
  | .state e new => if e = d then new else active
  | _ => active

/-- What an act does to a display that has an extra screen: it can only remove it or
change its state. -/
theorem extra_videoAct (act : VideoAct) (h : seat.Shows extra) {id d : ℕ}
    (hextra : extra id d) :
    (d ∈ (seat.videoAct allAdd act).shownIds ↔ d ∈ seat.shownIds ∧ act ≠ .removeDisplay d) ∧
      (seat.videoAct allAdd act).active d = lastState d (seat.active d) act := by
  cases act with
  | newDisplay e video active =>
    unfold videoAct seatNewDisplay
    dsimp only
    split_ifs with hknown
    · simp [lastState]
    · have hne : d ≠ e := by
        rintro rfl
        exact hknown (h.known hextra)
      rw [shownIds_activateDisplay, active_activateDisplay]
      simp [shownIds, Seat.linkDisplay, setActive, lastState, hne]
  | removeDisplay e =>
    unfold videoAct seatRemoveDisplay
    dsimp only
    cases hfind : seat.displays.find? (·.disp = e) with
    | none =>
      have hgone : e ∉ seat.shownIds := by
        intro he
        obtain ⟨shown, hshown, hdisp⟩ := List.mem_map.mp he
        simpa [hdisp] using List.find?_eq_none.mp hfind shown hshown
      refine ⟨(and_iff_left_of_imp fun hd heq => ?_).symm, rfl⟩
      obtain rfl := VideoAct.removeDisplay.inj heq
      exact hgone hd
    | some shown =>
      have hdisp : shown.disp = e := by simpa using List.find?_some hfind
      have hids : (seat.removeShown shown).shownIds = seat.shownIds.filter (· ≠ e) := by
        unfold removeShown
        dsimp only
        rw [apply_ite shownIds, hdisp]
        simp only [onTerms, shownIds, unlinkDisplay, ite_self, List.filter_map]
        rfl
      have hactive : (seat.removeShown shown).active = seat.active := by
        unfold removeShown
        dsimp only
        split_ifs <;> rfl
      dsimp only
      rw [hids, hactive]
      simp only [List.mem_filter, decide_eq_true_eq, lastState, ne_eq, and_true,
        VideoAct.removeDisplay.injEq, @eq_comm _ d e]
  | state e active =>
    simp only [videoAct, shownIds, setActive, lastState, ne_eq, reduceCtorEq, not_false_eq_true,
      and_true, @eq_comm _ d e]

theorem extra_videoActs (acts : List VideoAct) (h : seat.Shows extra) {id d : ℕ}
    (hextra : extra id d) :
    (d ∈ (acts.foldl (videoAct allAdd) seat).shownIds ↔
      d ∈ seat.shownIds ∧ ∀ act ∈ acts, act ≠ .removeDisplay d) ∧
      (acts.foldl (videoAct allAdd) seat).active d = acts.foldl (lastState d) (seat.active d) := by
  induction acts generalizing seat with
  | nil => simp
  | cons act acts ih =>
    obtain ⟨hmem, hactive⟩ := ih (shows_videoAct act h)
    obtain ⟨hfirst, hstate⟩ := extra_videoAct act h hextra
    rw [List.foldl_cons, hmem, hactive, hfirst, hstate]
    simp [and_assoc]

end Faceplate.Seat
