import Faceplate.Seat.Awake
import Faceplate.Seat.Handlers

/-!
# At most one awake terminal

Runs of a seat in which displays, devices, sessions and the VT change in any order.
Only a switch that brings up a display on its way to the foreground can leave a
second terminal awake.
-/

namespace Faceplate.Seat

variable (adds : ℕ → ℕ → Bool) (env : SeatEnv) {seat : Seat}

/-- Sessions of different numbers of which only the current one is awake. -/
theorem oneAwake_of_onlyCurrent (htidy : seat.Tidy) (h : seat.OnlyCurrent) : seat.OneAwake := by
  refine ⟨?_, h⟩
  by_contra hmany
  have hnodup : ((seat.sessions.filter (·.term.awake)).map (·.id)).Nodup :=
    htidy.nodup.sublist (List.filter_sublist.map _)
  match hlist : seat.sessions.filter (·.term.awake) with
  | [] => simp [hlist] at hmany
  | [s] => simp [hlist] at hmany
  | s :: s' :: rest =>
    have hs : s ∈ seat.sessions.filter (·.term.awake) := by simp [hlist]
    have hs' : s' ∈ seat.sessions.filter (·.term.awake) := by simp [hlist]
    obtain ⟨hmem, hawake⟩ := List.mem_filter.mp hs
    obtain ⟨hmem', hawake'⟩ := List.mem_filter.mp hs'
    have hid := (h s hmem hawake).symm.trans (h s' hmem' hawake')
    simp [hlist, Option.some.inj hid] at hnodup

/-- The condition on the action of a grab: its switch keeps the old terminal asleep.
A session that is closed may be woken, since its terminal is destroyed. -/
def GrabDark (seat : Seat) : Grab → Prop
  | .sessionNext => 2 ≤ seat.sessions.length → seat.SwitchDark adds env seat.nextSession
  | .sessionPrev => 2 ≤ seat.sessions.length → seat.SwitchDark adds env seat.prevSession
  | .sessionClose => True
  | .terminalNew => seat.HasRoom env →
      (seat.linkSession adds).SwitchDark adds env (some seat.nextId)

/-- The condition on an event. -/
def AwakeMeets (seat : Seat) : SeatEnv × Event → Prop
  | (env, .key (some grab)) => seat.awake = true → seat.conf.sessionControl = true →
      seat.dpmsResetTimer.GrabDark adds env grab
  | _ => True

/-- Adding displays wakes nobody. -/
theorem awake_newTerm (seat : Seat) : (seat.newTerm adds).awake = false := by
  unfold newTerm
  suffices h : ∀ (displays : List ℕ) (term : Term), term.awake = false → (displays.foldl
      (fun term d => term.addDisplay d (adds seat.nextId d)) term).awake = false from h _ _ rfl
  intro displays
  induction displays with
  | nil => exact fun term h => h
  | cons d displays ih => exact fun term h => ih _ (by simpa using h)

theorem onlyCurrent_linkSession (h : seat.OnlyCurrent) : (seat.linkSession adds).OnlyCurrent := by
  intro s hs hawake
  rcases (mem_linkSession adds).mp hs with rfl | hold
  · simp [awake_newTerm] at hawake
  · exact h s hold hawake

/-- Whatever a switch does, only the terminals of the two sessions can be awake. -/
theorem awake_seatSwitch (new : Option ℕ) (h : seat.OnlyCurrent) :
    ∀ s ∈ (seat.seatSwitch adds env new).sessions, s.term.awake = true →
      seat.current = some s.id ∨ (seat.seatSwitch adds env new).current = some s.id := by
  have hasleep := asleep_of_onlyCurrent h
  unfold seatSwitch
  split_ifs with hsame
  · exact fun s hs hawake => .inl (h s hs hawake)
  cases new with
  | none =>
    intro s hs hawake
    have hground := (keeps_onCurrent Term.deactivate seat).trans (moves_seatGoBackground _).toKeeps
    exact .inl ((hground.onlyCurrent h s hs hawake).symm ▸ hground.current ▸ rfl)
  | some id =>
    simp only [onTerm, List.forall_mem_map]
    intro s hs hawake
    split_ifs at hawake ⊢ with hid
    · exact .inr (by rw [hid])
    · exact .inl (awake_followSession adds env id hasleep s hs hawake)

/-- A session that is closed takes its awake terminal with it. -/
theorem onlyCurrent_kmsconSessionUnregister {id : ℕ} (hcurrent : seat.current = some id)
    (h : seat.OnlyCurrent) : (seat.kmsconSessionUnregister adds env id).OnlyCurrent := by
  have hsleep := keeps_onCurrent Term.deactivate seat
  unfold kmsconSessionUnregister
  rw [if_pos hcurrent]
  dsimp only
  generalize (seat.onCurrent Term.deactivate).nextSession = next
  have hawake := awake_seatSwitch adds env next (hsleep.onlyCurrent h)
  intro s hs hlast
  obtain ⟨hmem, hne⟩ := List.mem_filter.mp hs
  rcases hawake s hmem hlast with hold | hnew
  · have hid : id = s.id := Option.some.inj (hcurrent.symm.trans hold)
    simp [hid] at hne
  · exact hnew

theorem onlyCurrent_grabAction (grab : Grab) (h : seat.OnlyCurrent) :
    (seat.grabAction adds env grab).OnlyCurrent ↔ seat.GrabDark adds env grab := by
  cases grab with
  | sessionNext =>
    simp only [grabAction, GrabDark]
    split_ifs with hfew
    · exact iff_of_true h fun htwo => absurd htwo (by omega)
    · simpa [Nat.le_of_not_lt hfew] using onlyCurrent_seatSwitch adds env seat.nextSession h
  | sessionPrev =>
    simp only [grabAction, GrabDark]
    split_ifs with hfew
    · exact iff_of_true h fun htwo => absurd htwo (by omega)
    · simpa [Nat.le_of_not_lt hfew] using onlyCurrent_seatSwitch adds env seat.prevSession h
  | sessionClose =>
    simp only [grabAction, GrabDark, iff_true, closeSession]
    cases hcurrent : seat.current with
    | none => simpa using h
    | some id =>
      dsimp only
      split_ifs
      · exact h
      · exact onlyCurrent_kmsconSessionUnregister adds env hcurrent h
  | terminalNew =>
    simp only [grabAction, GrabDark, openSession_eq]
    split_ifs with hroom
    · simpa [hroom] using onlyCurrent_seatSwitch adds env _ (onlyCurrent_linkSession adds h)
    · exact iff_of_true h fun hroom' => absurd hroom' hroom

/-- A step keeps only the current terminal awake exactly if it meets the condition. -/
theorem onlyCurrent_step (e : SeatEnv × Event) (h : seat.OnlyCurrent) :
    (seat.step adds e).OnlyCurrent ↔ seat.AwakeMeets adds e := by
  by_cases hgrab : ∃ grab, e.2 = .key (some grab)
  · obtain ⟨env, event⟩ := e
    obtain ⟨grab, rfl : event = _⟩ := hgrab
    have hreset := (keeps_dpmsResetTimer seat).onlyCurrent h
    rw [step_grab]
    split_ifs with hacts
    · simpa [AwakeMeets, hacts] using onlyCurrent_grabAction adds env grab hreset
    · exact iff_of_true hreset fun hawake hcontrol => absurd ⟨hawake, hcontrol⟩ hacts
  · have hkeeps := keeps_step adds e (fun grab hevent => hgrab ⟨grab, hevent⟩) seat
    refine iff_of_true (hkeeps.onlyCurrent h) ?_
    obtain ⟨env, event⟩ := e
    unfold AwakeMeets
    split
    · rename_i heq
      exact absurd ⟨_, congrArg Prod.snd heq⟩ hgrab
    · trivial

theorem onlyCurrent_init (conf : SeatConf) : (init conf).OnlyCurrent := by
  simp [init, OnlyCurrent, Term.new]

/-- One event with the terminals that can take a screen meanwhile. -/
def stepWith (seat : Seat) (e : (ℕ → ℕ → Bool) × SeatEnv × Event) : Seat := seat.step e.1 e.2

/-- The condition on such an event. -/
def AwakeMeetsWith (seat : Seat) (e : (ℕ → ℕ → Bool) × SeatEnv × Event) : Prop :=
  seat.AwakeMeets e.1 e.2

/-- In every state of a run of a seat at most one terminal is awake, that of the
current session, exactly if no switch on the way wakes the terminal it leaves. -/
theorem oneAwake_iff_awakeMeets (conf : SeatConf)
    (events : List ((ℕ → ℕ → Bool) × SeatEnv × Event)) :
    Runs.Always stepWith OneAwake (init conf) events ↔
      Runs.Along stepWith AwakeMeetsWith (init conf) events := by
  refine Runs.always_iff_along (J := fun seat : Seat => seat.Tidy ∧ seat.OnlyCurrent)
    (fun _ hJ => oneAwake_of_onlyCurrent hJ.1 hJ.2) ?_ ?_ ⟨tidy_init conf, onlyCurrent_init conf⟩
  · intro seat e hJ hmeets
    exact ⟨tidy_step e.1 e.2 hJ.1, (onlyCurrent_step e.1 e.2 hJ.2).mpr hmeets⟩
  · exact fun seat e hJ hone => (onlyCurrent_step e.1 e.2 hJ.2).mp hone.2

/-- Surroundings in which everything works and nothing else happens. -/
def calmEnv (acts : List VideoAct) : SeatEnv := ⟨acts, fun _ => true, true, true, true⟩

/-- The first session goes to the background, a monitor is plugged in, and a second
session is opened. -/
def plugInBackground : List ((ℕ → ℕ → Bool) × SeatEnv × Event) :=
  [(fun _ _ => true, calmEnv [], .vtActivate),
    (fun _ _ => true, calmEnv [.newDisplay 1 0 true], .addVideo 0),
    (fun _ _ => true, calmEnv [], .setBackground 0),
    (fun _ _ => true, calmEnv [.state 1 true, .newDisplay 2 0 true], .key (some .terminalNew))]

theorem plugInBackground_not_oneAwake :
    ¬ Runs.Always stepWith OneAwake (init ⟨false, true, 0⟩) plugInBackground := by
  decide +kernel

end Faceplate.Seat
