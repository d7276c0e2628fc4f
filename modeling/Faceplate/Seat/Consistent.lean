import Faceplate.Seat.Screens
import Faceplate.Seat.OneAwake

/-!
# Displays and sessions agree

Runs of a seat whose terminals can set up every screen. Every handler keeps the
screens of all terminals on the activated displays, except that a new session gets
a screen on every display of the seat.
-/

namespace Faceplate.Seat

variable (env : SeatEnv) {seat : Seat} {extra : ℕ → ℕ → Prop}

/-- No terminal holds a screen that it should not have. -/
def noExtra : ℕ → ℕ → Prop := fun _ _ => False

/-- A display comes up when the seat does: it stays, and is active in the end. -/
def ComesBack (seat : Seat) (d : ℕ) : Prop :=
  (∀ act ∈ env.acts, act ≠ .removeDisplay d) ∧
    env.acts.foldl (lastState d) (seat.active d) = true

/-- The condition on opening a session: every display that is not activated yet is
activated while the new session brings the seat to the foreground. -/
def OpensShown (seat : Seat) : Prop :=
  seat.HasRoom env → ∀ shown ∈ seat.displays, shown.activated = false →
    seat.foreground = false ∧ seat.ComesBack env shown.disp

/-- The condition on an event. -/
def ScreensMeet (seat : Seat) : SeatEnv × Event → Prop
  | (env, .key (some .terminalNew)) => seat.awake = true → seat.conf.sessionControl = true →
      seat.OpensShown env
  | _ => True

/-! ## Changes of ground -/

/-- On the way to the foreground, an extra screen stays only where its display goes
away or is not active. -/
theorem shows_comeForeground (hback : seat.foreground = false) (hawake : seat.awake = true)
    (h : seat.Shows extra) : (seat.seatGoForeground allAdd env).2.Shows fun id d =>
      extra id d ∧ ¬ (d ∈ seat.shownIds ∧ seat.ComesBack env d) := by
  rw [seatGoForeground_of_back allAdd env hback hawake]
  have hraise := (sameScreens_raise env seat).shows h
  have hlive := (stays_videoActs allAdd (seat.raise env) env.acts).live ⟨hawake, rfl⟩
  refine (shows_activateDisplays hlive (shows_videoActs env.acts hraise)).congr fun id d => ?_
  refine and_congr_right fun hextra => not_congr ?_
  obtain ⟨hmem, hactive⟩ := extra_videoActs env.acts hraise hextra
  rw [hmem, hactive]
  exact and_assoc.symm

theorem shows_seatGoForeground (h : seat.Shows noExtra) :
    (seat.seatGoForeground allAdd env).2.Shows noExtra := by
  by_cases hback : seat.foreground = false ∧ seat.awake = true
  · exact (shows_comeForeground env hback.1 hback.2 h).congr fun id d => by simp [noExtra]
  · have hsame : (seat.seatGoForeground allAdd env).2 = seat := by
      unfold seatGoForeground
      split_ifs <;> simp_all
    rw [hsame]
    exact h

theorem shows_followSession (id : ℕ) (h : seat.Shows noExtra) :
    (seat.followSession allAdd env id).Shows noExtra := by
  unfold followSession
  split_ifs
  · exact shows_seatGoForeground env h
  · exact (sameScreens_seatGoBackground seat).shows h
  · exact h

/-- A switch to a session shows what the change of ground before it shows. -/
theorem shows_seatSwitch_some {id : ℕ} (hother : seat.current ≠ some id)
    (h : ((seat.onCurrent Term.deactivate).followSession allAdd env id).Shows extra) :
    (seat.seatSwitch allAdd env (some id)).Shows extra := by
  unfold seatSwitch
  rw [if_neg hother]
  exact ((sameScreens_onTerm_activate id _).shows h).of_eq rfl rfl

theorem shows_seatSwitch (new : Option ℕ) (h : seat.Shows noExtra) :
    (seat.seatSwitch allAdd env new).Shows noExtra := by
  have hsleep := (sameScreens_deactivate seat).shows h
  by_cases hsame : seat.current = new
  · rwa [seatSwitch, if_pos hsame]
  cases new with
  | none =>
    rw [seatSwitch, if_neg hsame]
    exact ((sameScreens_seatGoBackground _).shows hsleep).of_eq rfl rfl
  | some id => exact shows_seatSwitch_some env hsame (shows_followSession env id hsleep)

/-! ## Handlers that keep the sessions -/

theorem shows_seatVtActivate (h : seat.Shows noExtra) :
    (seat.seatVtActivate allAdd env).Shows noExtra := by
  have hwake : (seat.seatGoAwake env).2.Shows noExtra := by
    unfold seatGoAwake
    split_ifs <;> exact h.of_eq rfl rfl
  have hground := shows_seatGoForeground env hwake
  unfold seatVtActivate
  dsimp only
  split_ifs
  · exact hwake
  · exact hground
  · exact (sameScreens_activate _).shows hground

theorem sameScreens_seatVtDeactivate (seat : Seat) : SameScreens seat seat.seatVtDeactivate := by
  have hground := (sameScreens_deactivate seat).trans (sameScreens_seatGoBackground _)
  unfold seatVtDeactivate
  dsimp only
  split_ifs
  · exact hground
  · exact hground.trans ⟨rfl, rfl⟩

theorem sameScreens_seatDpmsTimeout (seat : Seat) : SameScreens seat seat.seatDpmsTimeout := by
  unfold seatDpmsTimeout
  split_ifs
  · exact .refl seat
  · exact (sameScreens_deactivate seat).trans ⟨rfl, rfl⟩

theorem shows_kmsconSeatAddVideo (id : ℕ) (h : seat.Shows noExtra) :
    (seat.kmsconSeatAddVideo allAdd env id).Shows noExtra := by
  have hacts := shows_videoActs env.acts h
  unfold kmsconSeatAddVideo
  dsimp only
  split_ifs
  · exact h.of_eq rfl rfl
  · exact hacts.of_eq rfl rfl
  · exact hacts

theorem mem_removeShown {shown other : Shown} (hother : other ∈ seat.displays)
    (hne : other.disp ≠ shown.disp) : other ∈ (seat.removeShown shown).displays := by
  have hkept : other ∈ (seat.unlinkDisplay shown.disp).displays :=
    List.mem_filter.mpr ⟨hother, by simpa using hne⟩
  unfold removeShown
  dsimp only
  split_ifs <;> exact hkept

/-- The loop over the displays of a device finds each of them still linked. -/
theorem shows_removeDisplaysOf (id : ℕ) (h : seat.Shows noExtra) :
    (seat.removeDisplaysOf id).Shows noExtra := by
  unfold removeDisplaysOf
  suffices hloop : ∀ (gone : List Shown) (seat : Seat), (gone.map (·.disp)).Nodup →
      (∀ shown ∈ gone, shown ∈ seat.displays) → seat.Shows noExtra →
      (gone.foldl (fun seat shown => seat.removeShown shown) seat).Shows noExtra from
    hloop _ seat (h.nodup.sublist (List.filter_sublist.map _))
      (fun shown hshown => (List.mem_filter.mp hshown).1) h
  intro gone
  induction gone with
  | nil => exact fun seat _ _ h => h
  | cons shown gone ih =>
    intro seat hnodup hlinked h
    obtain ⟨hfirst, hrest⟩ := List.nodup_cons.mp hnodup
    refine ih _ hrest (fun other hother => ?_) (shows_removeShown (hlinked _ List.mem_cons_self) h)
    refine mem_removeShown (hlinked _ (List.mem_cons_of_mem _ hother)) fun heq => hfirst ?_
    exact List.mem_map.mpr ⟨other, hother, heq⟩

theorem shows_kmsconSeatRemoveVideo (id : ℕ) (h : seat.Shows noExtra) :
    (seat.kmsconSeatRemoveVideo id).Shows noExtra := by
  have hunlink : (seat.unlinkVideo id).Shows noExtra := h.of_eq rfl rfl
  unfold kmsconSeatRemoveVideo
  split_ifs
  · exact shows_removeDisplaysOf id hunlink
  · exact hunlink

theorem shows_kmsconSessionSetForeground (id : ℕ) (h : seat.Shows noExtra) :
    (seat.kmsconSessionSetForeground allAdd env id).Shows noExtra := by
  have hground := shows_seatGoForeground env h
  unfold kmsconSessionSetForeground
  dsimp only
  split_ifs
  · exact h
  · exact h
  · exact hground
  · exact (sameScreens_setSessionForeground id true _).shows hground
  · exact (sameScreens_setSessionForeground id true seat).shows h

theorem sameScreens_kmsconSessionSetBackground (id : ℕ) (seat : Seat) :
    SameScreens seat (seat.kmsconSessionSetBackground id) := by
  have hground := sameScreens_seatGoBackground seat
  unfold kmsconSessionSetBackground
  dsimp only
  split_ifs
  · exact .refl seat
  · exact hground
  · exact hground.trans (sameScreens_setSessionForeground id false _)
  · exact sameScreens_setSessionForeground id false seat

/-! ## Sessions that come and go -/

theorem shows_unlinkSession (id : ℕ) (h : seat.Shows noExtra) :
    (seat.unlinkSession id).Shows noExtra :=
  ⟨h.nodup, fun s hs => h.screens s (List.mem_of_mem_filter hs), h.apart, fun _ _ => False.elim⟩

theorem shows_kmsconSessionUnregister (id : ℕ) (h : seat.Shows noExtra) :
    (seat.kmsconSessionUnregister allAdd env id).Shows noExtra := by
  unfold kmsconSessionUnregister
  dsimp only
  refine shows_unlinkSession id ?_
  split_ifs
  · exact shows_seatSwitch env _ ((sameScreens_deactivate seat).shows h)
  · exact h

/-- A new terminal has a screen on every display of the seat. -/
theorem mem_screens_newTerm (d : ℕ) (seat : Seat) :
    d ∈ (seat.newTerm allAdd).screens ↔ d ∈ seat.shownIds := by
  have hloop (ds : List ℕ) (term : Term) :
      d ∈ (ds.foldl (fun term e => term.addDisplay e true) term).screens ↔
        d ∈ term.screens ∨ d ∈ ds := by
    induction ds generalizing term with
    | nil => simp
    | cons e ds ih =>
      rw [List.foldl_cons, ih, mem_screens_addDisplay, List.mem_cons]
      tauto
  refine (hloop seat.shownIds Term.new).trans ?_
  simp [Term.new]

/-- A new session holds extra screens on the displays that are not activated. -/
theorem shows_linkSession (htidy : seat.Tidy) (h : seat.Shows noExtra) :
    (seat.linkSession allAdd).Shows fun id d =>
      id = seat.nextId ∧ d ∈ seat.shownIds ∧ ¬ seat.Marked d := by
  refine ⟨h.nodup, fun s hs d => ?_, fun _ _ hextra => hextra.2.2, ?_⟩
  · rcases (mem_linkSession allAdd).mp hs with rfl | hold
    · have hmarked : seat.Marked d → d ∈ seat.shownIds := fun ⟨shown, hshown, hdisp, _⟩ =>
        List.mem_map.mpr ⟨shown, hshown, hdisp⟩
      refine (mem_screens_newTerm d seat).trans ?_
      change _ ↔ seat.Marked d ∨ _
      tauto
    · have hold' : s.id ≠ seat.nextId :=
        ne_of_lt (htidy.fresh _ (List.mem_map_of_mem hold))
      refine (h.screens s hold d).trans ?_
      change _ ↔ seat.Marked d ∨ _
      simp [hold', noExtra]
  · rintro _ d ⟨rfl, -⟩
    exact List.mem_map.mpr ⟨_, (mem_linkSession allAdd).mpr (.inl rfl), rfl⟩

theorem sessionForeground_linkSession (seat : Seat) :
    (seat.linkSession allAdd).sessionForeground seat.nextId = true :=
  List.any_eq_true.mpr ⟨_, (mem_linkSession allAdd).mpr (.inl rfl), by simp⟩

/-- Of the extra screens of a new session those are left whose displays are not
activated on the way to the foreground. -/
theorem shows_openSession (htidy : seat.Tidy) (hawake : seat.awake = true)
    (hroom : seat.HasRoom env) (h : seat.Shows noExtra) :
    (seat.openSession allAdd env).Shows fun id d =>
      (id = seat.nextId ∧ d ∈ seat.shownIds ∧ ¬ seat.Marked d) ∧
        ¬ (seat.foreground = false ∧ seat.ComesBack env d) := by
  have hlink := (sameScreens_deactivate _).shows (shows_linkSession htidy h)
  have hother : (seat.linkSession allAdd).current ≠ some seat.nextId := fun hcurrent =>
    absurd (htidy.current _ hcurrent) (lt_irrefl _)
  rw [openSession_eq, if_pos hroom]
  refine shows_seatSwitch_some env hother ?_
  unfold followSession
  rw [sessionForeground_onCurrent, sessionForeground_linkSession]
  cases hback : seat.foreground with
  | true =>
    have hfront : ((seat.linkSession allAdd).onCurrent Term.deactivate).foreground = true := hback
    simpa [hfront] using hlink
  | false =>
    have hfront : ((seat.linkSession allAdd).onCurrent Term.deactivate).foreground = false := hback
    simp only [hfront, Bool.not_false, Bool.and_true, if_true]
    refine (shows_comeForeground env hfront hawake hlink).congr fun id d => ?_
    refine and_congr_right fun hextra => not_congr ?_
    simp only [true_and]
    exact (and_iff_right hextra.2.1).symm

theorem not_marked_iff (hnodup : seat.shownIds.Nodup) {shown : Shown}
    (hshown : shown ∈ seat.displays) : ¬ seat.Marked shown.disp ↔ shown.activated = false := by
  rw [← Bool.not_eq_true]
  refine not_congr ⟨?_, fun hact => ⟨shown, hshown, rfl, hact⟩⟩
  rintro ⟨other, hother, hdisp, hact⟩
  obtain rfl := List.inj_on_of_nodup_map hnodup hother hshown hdisp
  exact hact

/-- The condition is met exactly if no extra screen is left. -/
theorem shows_openSession_iff (htidy : seat.Tidy) (hawake : seat.awake = true)
    (h : seat.Shows noExtra) :
    (seat.OpensShown env → (seat.openSession allAdd env).Shows noExtra) ∧
      ((seat.openSession allAdd env).Consistent → seat.OpensShown env) := by
  by_cases hroom : seat.HasRoom env
  · have hopen := shows_openSession env htidy hawake hroom h
    constructor
    · intro hmeets
      refine hopen.congr fun id d => ⟨False.elim, ?_⟩
      rintro ⟨⟨-, hd, hnot⟩, hstays⟩
      obtain ⟨shown, hshown, rfl⟩ := List.mem_map.mp hd
      exact hstays (hmeets hroom shown hshown ((not_marked_iff h.nodup hshown).mp hnot))
    · intro hall _ shown hshown hact
      by_contra hstays
      refine hopen.consistent_iff.mp hall seat.nextId shown.disp ⟨⟨rfl, ?_, ?_⟩, hstays⟩
      · exact List.mem_map_of_mem hshown
      · exact (not_marked_iff h.nodup hshown).mpr hact
  · rw [openSession_eq, if_neg hroom]
    exact ⟨fun _ => h, fun _ hroom' => absurd hroom' hroom⟩

/-! ## Runs -/

theorem shows_grabAction (grab : Grab) (hgrab : grab ≠ .terminalNew) (h : seat.Shows noExtra) :
    (seat.grabAction allAdd env grab).Shows noExtra := by
  cases grab with
  | sessionNext =>
    unfold grabAction
    split_ifs
    · exact h
    · exact shows_seatSwitch env _ h
  | sessionPrev =>
    unfold grabAction
    split_ifs
    · exact h
    · exact shows_seatSwitch env _ h
  | sessionClose =>
    unfold grabAction closeSession
    cases seat.current with
    | none => simpa using h
    | some id =>
      dsimp only
      split_ifs
      · exact h
      · exact shows_kmsconSessionUnregister env id h
  | terminalNew => exact absurd rfl hgrab

theorem opensShown_dpmsResetTimer (seat : Seat) :
    seat.dpmsResetTimer.OpensShown env ↔ seat.OpensShown env := by
  unfold dpmsResetTimer
  split_ifs
  · exact Iff.rfl
  · simp [OpensShown, HasRoom, ComesBack, onCurrent]
  · exact Iff.rfl

theorem awake_dpmsResetTimer (seat : Seat) : seat.dpmsResetTimer.awake = seat.awake := by
  unfold dpmsResetTimer
  split_ifs <;> rfl

/-- A step keeps the screens on the activated displays exactly if it meets the condition. -/
theorem shows_step (e : SeatEnv × Event) (htidy : seat.Tidy) (h : seat.Shows noExtra) :
    (seat.ScreensMeet e → (seat.step allAdd e).Shows noExtra) ∧
      ((seat.step allAdd e).Consistent → seat.ScreensMeet e) := by
  have hkeeps {seat' : Seat} (h' : seat'.Shows noExtra) :
      (True → seat'.Shows noExtra) ∧ (seat'.Consistent → True) := ⟨fun _ => h', fun _ => trivial⟩
  have hreset := (sameScreens_dpmsResetTimer seat).shows h
  obtain ⟨env, event⟩ := e
  cases event with
  | vtActivate => exact hkeeps (shows_seatVtActivate env h)
  | vtDeactivate => exact hkeeps ((sameScreens_seatVtDeactivate seat).shows h)
  | dpmsTimeout => exact hkeeps ((sameScreens_seatDpmsTimeout seat).shows h)
  | key grab =>
    cases grab with
    | none =>
      refine hkeeps ?_
      unfold step seatInputEvent
      dsimp only
      split_ifs <;> exact hreset
    | some grab =>
      rw [step_grab]
      by_cases hnew : grab = .terminalNew
      · subst hnew
        split_ifs with hacts
        · have htidy' := (keeps_dpmsResetTimer seat).tidy htidy
          have hopen := shows_openSession_iff env htidy'
            ((awake_dpmsResetTimer seat).trans hacts.1) hreset
          rw [opensShown_dpmsResetTimer] at hopen
          simpa only [ScreensMeet, hacts.1, hacts.2, true_implies, grabAction] using hopen
        · exact ⟨fun _ => hreset, fun _ hawake hcontrol => absurd ⟨hawake, hcontrol⟩ hacts⟩
      · have hmeets : seat.ScreensMeet (env, .key (some grab)) := by
          cases grab <;> trivial
        refine ⟨fun _ => ?_, fun _ => hmeets⟩
        split_ifs
        · exact shows_grabAction env grab hnew hreset
        · exact hreset
  | pointer => exact hkeeps hreset
  | addVideo id => exact hkeeps (shows_kmsconSeatAddVideo env id h)
  | removeVideo id => exact hkeeps (shows_kmsconSeatRemoveVideo id h)
  | poll => exact hkeeps (shows_videoActs env.acts h)
  | setForeground id => exact hkeeps (shows_kmsconSessionSetForeground env id h)
  | setBackground id => exact hkeeps ((sameScreens_kmsconSessionSetBackground id seat).shows h)

theorem shows_init (conf : SeatConf) : (init conf).Shows noExtra := by
  refine ⟨by simp [init, shownIds], ?_, fun _ _ => False.elim, fun _ _ => False.elim⟩
  simp [init, Term.new, Marked, noExtra]

/-- In every state of a run of a seat the terminals of all sessions hold screens on
exactly the activated displays, exactly if every display that is not activated when a
session is opened is activated by the change to the foreground that follows. -/
theorem consistent_iff_screensMeet (conf : SeatConf) (events : List (SeatEnv × Event)) :
    Runs.Always (step allAdd) Consistent (init conf) events ↔
      Runs.Along (step allAdd) ScreensMeet (init conf) events := by
  refine Runs.always_iff_along (J := fun seat : Seat => seat.Tidy ∧ seat.Shows noExtra)
    (fun _ hJ => hJ.2.consistent_iff.mpr fun _ _ => id) ?_ ?_ ⟨tidy_init conf, shows_init conf⟩
  · exact fun seat e hJ hmeets =>
      ⟨tidy_step allAdd e hJ.1, (shows_step e hJ.1 hJ.2).1 hmeets⟩
  · exact fun seat e hJ hall => (shows_step e hJ.1 hJ.2).2 hall

/-- A monitor is plugged in that has no mode yet, a second session is opened, and the
monitor is unplugged. -/
def idleMonitor : List (SeatEnv × Event) :=
  [(calmEnv [], .vtActivate),
    (calmEnv [.newDisplay 1 0 false], .addVideo 0),
    (calmEnv [], .key (some .terminalNew)),
    (calmEnv [.removeDisplay 1], .poll)]

/-- The terminal of the second session still holds a screen for the monitor. -/
theorem idleMonitor_not_consistent :
    ¬ Runs.Always (step allAdd) Consistent (init ⟨false, true, 0⟩) idleMonitor := by
  intro hall
  let seat := Runs.run (step allAdd) (init ⟨false, true, 0⟩) idleMonitor
  have hstale : ∃ s ∈ seat.sessions, 1 ∈ s.term.screens := by decide +kernel
  have hgone : seat.displays = [] := by decide +kernel
  obtain ⟨s, hs, hscreen⟩ := hstale
  obtain ⟨shown, hshown, -⟩ := (hall.last s hs 1).mp hscreen
  rw [show (Runs.run (step allAdd) (init ⟨false, true, 0⟩) idleMonitor).displays = [] from hgone]
    at hshown
  simp at hshown

end Faceplate.Seat
