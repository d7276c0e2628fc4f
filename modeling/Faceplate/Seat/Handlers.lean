import Mathlib.Data.List.Nodup
import Faceplate.Seat.Displays

/-!
# The handlers of a seat and its sessions

All handlers by what they do to the sessions: most keep them and wake no terminal
but the current one; the grabs switch between sessions, open one under a new number
or close one together with its terminal.
-/

namespace Faceplate.Seat

variable (adds : ℕ → ℕ → Bool) (env : SeatEnv) {seat seat' : Seat}

/-- Sessions have different numbers, and the next one is new. -/
structure Tidy (seat : Seat) : Prop where
  nodup : seat.ids.Nodup
  fresh : ∀ id ∈ seat.ids, id < seat.nextId
  current : ∀ id, seat.current = some id → id < seat.nextId

theorem Keeps.tidy (h : Keeps seat seat') (htidy : seat.Tidy) : seat'.Tidy :=
  ⟨h.ids ▸ htidy.nodup, by simpa only [h.ids, h.nextId] using htidy.fresh,
    by simpa only [h.current, h.nextId] using htidy.current⟩

theorem keeps_dpmsResetTimer (seat : Seat) : Keeps seat seat.dpmsResetTimer := by
  unfold dpmsResetTimer
  split_ifs
  · exact .of_sessions_eq rfl rfl rfl
  · exact (keeps_onCurrent Term.activate seat).trans (.of_sessions_eq rfl rfl rfl)
  · exact .of_sessions_eq rfl rfl rfl

theorem keeps_seatVtActivate (seat : Seat) : Keeps seat (seat.seatVtActivate adds env) := by
  have hwake : Keeps seat (seat.seatGoAwake env).2 := by
    unfold seatGoAwake
    split_ifs <;> exact .of_sessions_eq rfl rfl rfl
  have hground := hwake.trans (moves_seatGoForeground adds env _).toKeeps
  unfold seatVtActivate
  dsimp only
  split_ifs
  · exact hwake
  · exact hground
  · exact hground.trans (keeps_onCurrent Term.activate _)

theorem keeps_seatVtDeactivate (seat : Seat) : Keeps seat seat.seatVtDeactivate := by
  have hground := (keeps_onCurrent Term.deactivate seat).trans (moves_seatGoBackground _).toKeeps
  unfold seatVtDeactivate
  dsimp only
  split_ifs
  · exact hground
  · exact hground.trans (.of_sessions_eq rfl rfl rfl)

theorem keeps_seatDpmsTimeout (seat : Seat) : Keeps seat seat.seatDpmsTimeout := by
  unfold seatDpmsTimeout
  split_ifs
  · exact .of_sessions_eq rfl rfl rfl
  · exact (keeps_onCurrent Term.deactivate seat).trans (.of_sessions_eq rfl rfl rfl)

theorem keeps_kmsconSeatAddVideo (id : ℕ) (seat : Seat) :
    Keeps seat (seat.kmsconSeatAddVideo adds env id) := by
  have hacts := (stays_videoActs adds seat env.acts).toKeeps
  unfold kmsconSeatAddVideo
  dsimp only
  split_ifs
  · exact .of_sessions_eq rfl rfl rfl
  · exact hacts.trans (.of_sessions_eq rfl rfl rfl)
  · exact hacts

theorem stays_removeDisplaysOf (id : ℕ) (seat : Seat) : Stays seat (seat.removeDisplaysOf id) :=
  .foldl stays_removeShown seat _

theorem keeps_kmsconSeatRemoveVideo (id : ℕ) (seat : Seat) :
    Keeps seat (seat.kmsconSeatRemoveVideo id) := by
  have hunlink : Keeps seat (seat.unlinkVideo id) := .of_sessions_eq rfl rfl rfl
  unfold kmsconSeatRemoveVideo
  split_ifs
  · exact hunlink.trans (stays_removeDisplaysOf id _).toKeeps
  · exact hunlink

theorem keeps_setSessionForeground (id : ℕ) (foreground : Bool) (seat : Seat) :
    Keeps seat (seat.setSessionForeground id foreground) := by
  refine ⟨rfl, rfl, _, rfl, fun s => ?_⟩
  split_ifs <;> exact ⟨rfl, .inl⟩

theorem keeps_kmsconSessionSetForeground (id : ℕ) (seat : Seat) :
    Keeps seat (seat.kmsconSessionSetForeground adds env id) := by
  have hground := (moves_seatGoForeground adds env seat).toKeeps
  unfold kmsconSessionSetForeground
  dsimp only
  split_ifs
  · exact .of_sessions_eq rfl rfl rfl
  · exact .of_sessions_eq rfl rfl rfl
  · exact hground
  · exact hground.trans (keeps_setSessionForeground id true _)
  · exact keeps_setSessionForeground id true seat

theorem keeps_kmsconSessionSetBackground (id : ℕ) (seat : Seat) :
    Keeps seat (seat.kmsconSessionSetBackground id) := by
  have hground := (moves_seatGoBackground seat).toKeeps
  unfold kmsconSessionSetBackground
  dsimp only
  split_ifs
  · exact .of_sessions_eq rfl rfl rfl
  · exact hground
  · exact hground.trans (keeps_setSessionForeground id false _)
  · exact keeps_setSessionForeground id false seat

theorem ids_seatSwitch (new : Option ℕ) (seat : Seat) :
    (seat.seatSwitch adds env new).ids = seat.ids ∧
      (seat.seatSwitch adds env new).nextId = seat.nextId := by
  have hsleep := keeps_onCurrent Term.deactivate seat
  unfold seatSwitch
  split_ifs
  · exact ⟨rfl, rfl⟩
  cases new with
  | none =>
    have h := hsleep.trans (moves_seatGoBackground _).toKeeps
    exact ⟨h.ids, h.nextId⟩
  | some id =>
    have h := hsleep.trans (moves_followSession adds env _ id).toKeeps
    refine ⟨?_, h.nextId⟩
    rw [← h.ids]
    simp only [ids, onTerm, List.map_map]
    refine List.map_congr_left fun s _ => ?_
    simp only [Function.comp_apply]
    split_ifs <;> rfl

theorem current_seatSwitch (new : Option ℕ) (seat : Seat) :
    (seat.seatSwitch adds env new).current = new := by
  unfold seatSwitch
  split_ifs with hsame
  · exact hsame
  · cases new <;> rfl

theorem tidy_seatSwitch (new : Option ℕ) (hnew : ∀ id, new = some id → id ∈ seat.ids)
    (h : seat.Tidy) : (seat.seatSwitch adds env new).Tidy := by
  obtain ⟨hids, hnext⟩ := ids_seatSwitch adds env new seat
  refine ⟨hids ▸ h.nodup, by simpa only [hids, hnext] using h.fresh, fun id hid => ?_⟩
  rw [current_seatSwitch] at hid
  rw [hnext]
  exact h.fresh id (hnew id hid)

theorem mem_nextSession {id : ℕ} (h : seat.nextSession = some id) : id ∈ seat.ids := by
  unfold nextSession at h
  dsimp only at h
  split_ifs at h
  rcases Option.or_eq_some_iff.mp h with hnext | ⟨-, hfirst⟩
  · obtain ⟨cur, -, hhead⟩ := Option.bind_eq_some_iff.mp hnext
    exact (List.dropWhile_sublist _).subset (List.mem_of_mem_tail (List.mem_of_head? hhead))
  · exact List.mem_of_head? hfirst

theorem mem_prevSession {id : ℕ} (h : seat.prevSession = some id) : id ∈ seat.ids := by
  unfold prevSession at h
  dsimp only at h
  split_ifs at h
  rcases Option.or_eq_some_iff.mp h with hprev | ⟨-, hlast⟩
  · obtain ⟨cur, -, hback⟩ := Option.bind_eq_some_iff.mp hprev
    exact (List.takeWhile_sublist _).subset (List.mem_of_getLast? hback)
  · exact List.mem_of_getLast? hlast

theorem insertSession_perm (s : Session) (current : Option ℕ) (sessions : List Session) :
    (insertSession s current sessions).Perm (s :: sessions) := by
  cases current with
  | none => exact List.perm_append_singleton s sessions
  | some id =>
    let front := sessions.takeWhile (·.id ≠ id) ++ (sessions.dropWhile (·.id ≠ id)).take 1
    let back := (sessions.dropWhile (·.id ≠ id)).drop 1
    have hsplit : front ++ back = sessions := by
      simp only [front, back]
      rw [List.append_assoc, List.take_append_drop, List.takeWhile_append_dropWhile]
    have hmiddle : (front ++ s :: back).Perm (s :: (front ++ back)) := List.perm_middle
    rw [hsplit] at hmiddle
    simpa [insertSession, front, back] using hmiddle

theorem mem_insertSession {s t : Session} {current : Option ℕ} {sessions : List Session} :
    t ∈ insertSession s current sessions ↔ t = s ∨ t ∈ sessions := by
  rw [(insertSession_perm s current sessions).mem_iff, List.mem_cons]

theorem mem_linkSession {s : Session} : s ∈ (seat.linkSession adds).sessions ↔
    s = ⟨seat.nextId, true, seat.newTerm adds⟩ ∨ s ∈ seat.sessions := mem_insertSession

/-- The number of a new session is new. -/
theorem tidy_linkSession (h : seat.Tidy) : (seat.linkSession adds).Tidy := by
  have hperm := (insertSession_perm ⟨seat.nextId, true, seat.newTerm adds⟩ seat.current
    seat.sessions).map (·.id)
  refine ⟨?_, fun id hid => ?_, fun id hid => Nat.lt_succ_of_lt (h.current id hid)⟩
  · refine hperm.nodup_iff.mpr (List.nodup_cons.mpr ⟨fun hmem => ?_, h.nodup⟩)
    exact absurd (h.fresh _ hmem) (lt_irrefl _)
  · rcases List.mem_cons.mp (hperm.mem_iff.mp hid) with rfl | hold
    · exact Nat.lt_succ_self _
    · exact Nat.lt_succ_of_lt (h.fresh id hold)

/-- A session can be opened. -/
def HasRoom (seat : Seat) : Prop :=
  (seat.conf.sessionMax = 0 ∨ seat.sessions.length < seat.conf.sessionMax) ∧ env.newTerm = true

instance (seat : Seat) : Decidable (seat.HasRoom env) := inferInstanceAs (Decidable (_ ∧ _))

theorem kmsconSeatNewSession_eq (seat : Seat) : seat.kmsconSeatNewSession adds env =
    if seat.HasRoom env then (some seat.nextId, seat.linkSession adds) else (none, seat) := by
  unfold kmsconSeatNewSession HasRoom
  by_cases hroom : seat.conf.sessionMax = 0 ∨ seat.sessions.length < seat.conf.sessionMax
  · have hfull : ¬ (seat.conf.sessionMax ≠ 0 ∧ seat.conf.sessionMax ≤ seat.sessions.length) := by
      omega
    by_cases hterm : env.newTerm = true <;> simp [hroom, hterm, hfull]
  · have hfull : seat.conf.sessionMax ≠ 0 ∧ seat.conf.sessionMax ≤ seat.sessions.length := by
      omega
    simp [hfull.1, hfull.2, Nat.not_lt.mpr hfull.2]

/-- Opening a session either fails, or links it and switches to it. -/
theorem openSession_eq (seat : Seat) : seat.openSession adds env =
    if seat.HasRoom env then (seat.linkSession adds).seatSwitch adds env (some seat.nextId)
    else seat := by
  unfold openSession
  rw [kmsconSeatNewSession_eq]
  by_cases hroom : seat.HasRoom env <;> simp [hroom]

theorem tidy_openSession (h : seat.Tidy) : (seat.openSession adds env).Tidy := by
  rw [openSession_eq]
  split_ifs
  · refine tidy_seatSwitch adds env _ (fun id hid => ?_) (tidy_linkSession adds h)
    obtain rfl := Option.some.inj hid
    exact List.mem_map.mpr ⟨_, (mem_linkSession adds).mpr (.inl rfl), rfl⟩
  · exact h

theorem tidy_kmsconSessionUnregister (id : ℕ) (h : seat.Tidy) :
    (seat.kmsconSessionUnregister adds env id).Tidy := by
  have hfilter {seat : Seat} (h : seat.Tidy) : (seat.unlinkSession id).Tidy :=
    ⟨h.nodup.sublist (List.filter_sublist.map _),
      fun other hother => h.fresh other ((List.filter_sublist.map _).subset hother), h.current⟩
  unfold kmsconSessionUnregister
  dsimp only
  refine hfilter ?_
  split_ifs
  · exact tidy_seatSwitch adds env _ (fun _ => mem_nextSession)
      ((keeps_onCurrent Term.deactivate seat).tidy h)
  · exact h

theorem tidy_grabAction (grab : Grab) (h : seat.Tidy) : (seat.grabAction adds env grab).Tidy := by
  cases grab with
  | sessionNext =>
    unfold grabAction
    split_ifs
    · exact h
    · exact tidy_seatSwitch adds env _ (fun _ => mem_nextSession) h
  | sessionPrev =>
    unfold grabAction
    split_ifs
    · exact h
    · exact tidy_seatSwitch adds env _ (fun _ => mem_prevSession) h
  | sessionClose =>
    unfold grabAction closeSession
    cases seat.current with
    | none => simpa using h
    | some id =>
      dsimp only
      split_ifs
      · exact h
      · exact tidy_kmsconSessionUnregister adds env id h
  | terminalNew => exact tidy_openSession adds env h

/-- All events but the grabs keep the sessions. -/
theorem keeps_step (e : SeatEnv × Event) (h : ∀ grab, e.2 ≠ .key (some grab)) (seat : Seat) :
    Keeps seat (seat.step adds e) := by
  obtain ⟨env, event⟩ := e
  cases event with
  | vtActivate => exact keeps_seatVtActivate adds env seat
  | vtDeactivate => exact keeps_seatVtDeactivate seat
  | dpmsTimeout => exact keeps_seatDpmsTimeout seat
  | key grab =>
    cases grab with
    | none =>
      unfold step seatInputEvent
      dsimp only
      split_ifs <;> exact keeps_dpmsResetTimer seat
    | some grab => exact absurd rfl (h grab)
  | pointer => exact keeps_dpmsResetTimer seat
  | addVideo id => exact keeps_kmsconSeatAddVideo adds env id seat
  | removeVideo id => exact keeps_kmsconSeatRemoveVideo id seat
  | poll => exact (stays_videoActs adds seat env.acts).toKeeps
  | setForeground id => exact keeps_kmsconSessionSetForeground adds env id seat
  | setBackground id => exact keeps_kmsconSessionSetBackground id seat

/-- A grab acts while the seat is awake and its sessions may be controlled. -/
theorem step_grab (grab : Grab) (seat : Seat) : seat.step adds (env, .key (some grab)) =
    if seat.awake = true ∧ seat.conf.sessionControl = true then
      seat.dpmsResetTimer.grabAction adds env grab
    else seat.dpmsResetTimer := by
  have hawake : seat.dpmsResetTimer.awake = seat.awake := by
    unfold dpmsResetTimer
    split_ifs <;> rfl
  have hconf : seat.dpmsResetTimer.conf = seat.conf := by
    unfold dpmsResetTimer
    split_ifs <;> rfl
  simp only [step, seatInputEvent, hawake, hconf]
  cases seat.awake <;> cases seat.conf.sessionControl <;> simp

theorem tidy_step (e : SeatEnv × Event) (h : seat.Tidy) : (seat.step adds e).Tidy := by
  by_cases hgrab : ∃ grab, e.2 = .key (some grab)
  · obtain ⟨env, event⟩ := e
    obtain ⟨grab, rfl : event = _⟩ := hgrab
    have hreset := (keeps_dpmsResetTimer seat).tidy h
    rw [step_grab]
    split_ifs
    · exact tidy_grabAction adds env grab hreset
    · exact hreset
  · exact (keeps_step adds e (fun grab hevent => hgrab ⟨grab, hevent⟩) seat).tidy h

theorem tidy_init (conf : SeatConf) : (init conf).Tidy :=
  ⟨by simp [init, ids], by simp [init, ids], by simp [init]⟩

end Faceplate.Seat
