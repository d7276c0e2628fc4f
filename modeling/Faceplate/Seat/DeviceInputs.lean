import Faceplate.Seat.DeviceVideos

/-!
# The input devices of a seat

Where nothing fails and no device ends by itself, the seat has an input device for each that
udev reports on it, and no other. A device that ends is freed by the input layer alone, and the
monitor keeps its pointer; so this needs that none ends.
-/

namespace Faceplate.Seats

open Faceplate.Uterm Announcements

namespace DeviceSeat

variable {malloc files : Malloc} {answers : ℕ → Answer} {seat seat' : DeviceSeat}
  {devices : List (ℕ × MonitorDev)} {mon : Monitor DeviceSeat}

/-! ### Calls that work -/

/-- Nothing fails, and all input devices are of use. -/
structure Usable (answers : ℕ → Answer) : Prop extends Calm answers where
  watched : ∀ n, (answers n).watched = true
  usable : ∀ n, (answers n).usable = true

theorem inputOpenDev_works (husable : Usable answers) (hfiles : files.Succeeds)
    (seat : DeviceSeat) :
    ∃ fd seat', (seat.ask answers).2.inputOpenDev files (seat.ask answers).1 = (some fd, seat') ∧
      seat'.inputs = seat.inputs := by
  obtain ⟨fd, hfd⟩ := hfiles seat.openFds
  refine ⟨fd, { seat with asked := seat.asked + 1, openFds := fd :: seat.openFds }, ?_, rfl⟩
  simp [inputOpenDev, ask, openNode, husable.opens, hfd, husable.watched]

theorem inputInitDev_works (husable : Usable answers) (hfiles : files.Succeeds)
    (seat : DeviceSeat) :
    ∃ fd seat', seat.inputInitDev files answers = (some fd, seat') ∧
      seat'.inputs = seat.inputs := by
  obtain ⟨fd, seat', hopen, hsame⟩ := inputOpenDev_works husable hfiles seat
  refine ⟨fd, seat', ?_, hsame⟩
  unfold inputInitDev
  dsimp only
  rw [hopen]
  exact if_pos (husable.usable seat.asked)

theorem inputAddDev_works (husable : Usable answers) (hmalloc : malloc.Succeeds)
    (hfiles : files.Succeeds) (node : List UInt8) (seat : DeviceSeat) :
    ∃ a, (seat.inputAddDev malloc files answers node).1 = some a := by
  obtain ⟨a, ha⟩ := hmalloc (seat.ask answers).2.used
  obtain ⟨fd, seat', hinit, -⟩ := inputInitDev_works husable hfiles (seat.ask answers).2
  have hmemory : ¬(!(seat.ask answers).1.memory) = true := by
    rw [ask, husable.memory]
    decide
  refine ⟨a, ?_⟩
  unfold inputAddDev
  dsimp only
  rw [ha]
  dsimp only
  rw [if_neg hmemory]
  split_ifs
  · rw [hinit]
  · rfl

/-- No device is dropped in a round of `input_wake_up`. -/
theorem keys_wakeRound (husable : Usable answers) (hfiles : files.Succeeds) (seat : DeviceSeat)
    (a : ℕ) :
    (seat.wakeRound files answers a).inputs.map Prod.fst = seat.inputs.map Prod.fst := by
  unfold wakeRound
  cases Entries.lookup a seat.inputs with
  | none => rfl
  | some d =>
    obtain ⟨fd, woken, hinit, hsame⟩ := inputInitDev_works husable hfiles seat
    obtain ⟨fd', opened, hopen, hsame'⟩ := inputOpenDev_works husable hfiles seat
    dsimp only
    split_ifs
    · rw [hinit]
      dsimp only
      rw [setInput, Entries.keys_modify, hsame]
    · rfl
    · rw [hopen]
      dsimp only
      rw [setInput, Entries.keys_modify, hsame']

theorem keys_sleepRound (seat : DeviceSeat) (a : ℕ) :
    (seat.sleepRound a).inputs.map Prod.fst = seat.inputs.map Prod.fst := by
  unfold sleepRound
  cases Entries.lookup a seat.inputs with
  | none => rfl
  | some d =>
    dsimp only
    rw [setInput, Entries.keys_modify, inputs_inputSleepDev]

theorem keys_rounds {f : DeviceSeat → ℕ → DeviceSeat}
    (hround : ∀ seat a, (f seat a).inputs.map Prod.fst = seat.inputs.map Prod.fst)
    (addrs : List ℕ) (seat : DeviceSeat) :
    (addrs.foldl f seat).inputs.map Prod.fst = seat.inputs.map Prod.fst := by
  induction addrs generalizing seat with
  | nil => rfl
  | cons a addrs ih => exact (ih _).trans (hround seat a)

theorem keys_inputSleep (seat : DeviceSeat) :
    seat.inputSleep.inputs.map Prod.fst = seat.inputs.map Prod.fst := by
  unfold inputSleep
  dsimp only
  split_ifs
  · rfl
  · exact keys_rounds keys_sleepRound _ _

theorem keys_inputWakeUp (husable : Usable answers) (hfiles : files.Succeeds)
    (seat : DeviceSeat) :
    (seat.inputWakeUp files answers).inputs.map Prod.fst = seat.inputs.map Prod.fst := by
  unfold inputWakeUp
  dsimp only
  split_ifs
  · rfl
  · exact keys_rounds (keys_wakeRound husable hfiles) _ _

/-! ### Events -/

/-- Each input device of the monitor has its own in the seat. -/
def InputsThere (devices : List (ℕ × MonitorDev)) (seat : DeviceSeat) : Prop :=
  ∀ d ∈ devices, d.2.type = .input →
    ∃ i ∈ seat.inputs, d.2.data = some i.1 ∧ i.2.node = d.2.node

theorem InputsThere.congr (h : InputsThere devices seat) (hinputs : seat'.inputs = seat.inputs) :
    InputsThere devices seat' := by
  intro d hd htype
  rw [hinputs]
  exact h d hd htype

/-- What the input layer does when it wakes up or goes to sleep, where no device is dropped. -/
theorem InputsThere.kept (h : InputsThere devices seat) (hsound : seat.Sound answers)
    (hkept : InputKept seat seat')
    (hkeys : seat'.inputs.map Prod.fst = seat.inputs.map Prod.fst) :
    InputsThere devices seat' := by
  intro d hd htype
  obtain ⟨i, hi, hdata, hnode⟩ := h d hd htype
  have hmem : i.1 ∈ seat'.inputs.map Prod.fst := hkeys ▸ List.mem_map_of_mem hi
  obtain ⟨i', hi', heq⟩ := List.mem_map.mp hmem
  obtain ⟨j, hj, hj1, hjnode⟩ := hkept.inputs i' hi'
  obtain rfl := Entries.eq_of_key_eq hsound.inputs_nodup hj hi (hj1.trans heq)
  exact ⟨i', hi', hdata.trans (congrArg some heq.symm), hjnode.symm.trans hnode⟩

theorem InputsThere.monNewDev (h : InputsThere mon.devices mon.user)
    (hfollows : Follows answers mon) (husable : Usable answers) (hmalloc : malloc.Succeeds)
    (hfiles : files.Succeeds) (type : MonitorDevType) (flags : MonitorFlags)
    (node : List UInt8) (strdup : Bool) :
    let mon' := mon.monNewDev malloc (seatMonitorCb malloc files answers) type flags node strdup
    InputsThere mon'.devices mon'.user := by
  intro mon'
  cases haddr : malloc.addr (mon.devices.map Prod.fst) with
  | none =>
    have hsame : mon' = mon := by
      change Monitor.monNewDev _ _ _ _ _ _ mon = mon
      rw [Monitor.monNewDev, haddr]
    rwa [hsame]
  | some a =>
    rw [show mon' = _ from hfollows.monNewDev_eq haddr type flags node strdup]
    split_ifs
    · exact h
    · dsimp only
      have ha := malloc.addr_notMem haddr
      have hvideo : type ≠ .input → InputsThere (Monitor.setAll
          (mon.user.kmsconSeatAddVideo malloc files answers type flags node a).2
          ((a, ⟨type, flags, node, none⟩) :: mon.devices))
          (mon.user.kmsconSeatAddVideo malloc files answers type flags node a).1 := by
        intro htype
        have hrest := h.congr (kmsconSeatAddVideo_spec malloc files answers hfollows.sound type
          flags node a).2.2.1
        rcases kmsconSeatAddVideo_works husable.toCalm hmalloc hfiles type flags node a mon.user
          with ⟨-, hsets⟩ | ⟨-, x, hsets⟩
        · rw [hsets]
          exact List.forall_mem_cons.mpr ⟨fun heq => absurd heq htype, hrest⟩
        · rw [hsets, Monitor.setAll, List.foldl_cons, List.foldl_nil, withData_cons ha]
          exact List.forall_mem_cons.mpr ⟨fun heq => absurd heq htype, hrest⟩
      cases type with
      | drm => exact hvideo (by decide)
      | fbdev => exact hvideo (by decide)
      | input =>
        obtain ⟨-, -, -, hadded⟩ := inputAddDev_spec malloc files answers hfollows.sound node
        obtain ⟨b, hb⟩ := inputAddDev_works husable hmalloc hfiles node mon.user
        change InputsThere (Monitor.withData
          (a, (mon.user.inputAddDev malloc files answers node).1) _)
          (mon.user.inputAddDev malloc files answers node).2
        rw [withData_cons ha]
        cases hadded with
        | none hdata hinputs =>
          rw [hdata] at hb
          cases hb
        | new b hnew dev hnode hopen hdata hinputs =>
          refine List.forall_mem_cons.mpr ⟨fun _ => ⟨(b, dev), ?_, hdata, hnode⟩, ?_⟩
          · rw [hinputs]
            exact List.mem_cons_self
          · intro d hd htype
            obtain ⟨i, hi, hrest⟩ := h d hd htype
            rw [hinputs]
            exact ⟨i, List.mem_cons_of_mem _ hi, hrest⟩

theorem InputsThere.monFreeDev (h : InputsThere mon.devices mon.user)
    (hattached : Attached answers mon) {d : ℕ × MonitorDev} (hd : d ∈ mon.devices) :
    let mon' := mon.monFreeDev (seatMonitorCb malloc files answers) d
    InputsThere mon'.devices mon'.user := by
  intro mon'
  rw [show mon' = _ from hattached.monFreeDev_eq hd]
  dsimp only
  have hvideo : d.2.type ≠ .input →
      (mon.user.kmsconSeatRemoveVideo d.2.data).1.inputs = mon.user.inputs := by
    intro htype
    cases hdata : d.2.data with
    | none => rfl
    | some a =>
      obtain ⟨v, hv, rfl, -⟩ := hattached.linked.device d hd htype a hdata
      exact (removeVideo_spec hattached.sound hv).2.2.2.1
  intro e he hetype
  obtain ⟨i, hi, hdata, hnode⟩ := h e (List.mem_of_mem_erase he) hetype
  cases htype : d.2.type with
  | drm => exact ⟨i, hvideo (by rw [htype]; decide) ▸ hi, hdata, hnode⟩
  | fbdev => exact ⟨i, hvideo (by rw [htype]; decide) ▸ hi, hdata, hnode⟩
  | input =>
    have hleft := (inputRemoveDev_spec d.2.data hattached.sound).2.2.2
    refine ⟨i, (hleft i).mpr ⟨hi, fun hsame => ?_⟩, hdata, hnode⟩
    -- the device that goes has one of its own, which is on another node
    obtain ⟨j, hj, hjdata, hjnode⟩ := h d hd htype
    obtain rfl := Entries.eq_of_key_eq hattached.sound.inputs_nodup hj hi
      (Option.some.inj (hjdata.symm.trans hsame))
    have hnodes := hattached.orderly.nodes
    rw [Monitor.tags, List.map_map] at hnodes
    obtain rfl := List.inj_on_of_nodup_map hnodes (List.mem_of_mem_erase he) hd
      (hnode.symm.trans hjnode)
    exact hattached.addrs.of_map.not_mem_erase he

/-- An event that is not the end of an input device. -/
theorem inputsThere_step (husable : Usable answers) (hmalloc : malloc.Succeeds)
    (hfiles : files.Succeeds) (seatName : List UInt8) (e : DeviceEvent)
    (hend : ∀ a, e ≠ .inputEof a) (hfollows : Follows answers mon)
    (h : InputsThere mon.devices mon.user) :
    let mon' := step malloc files answers seatName mon e
    InputsThere mon'.devices mon'.user := by
  have hreports := step_reports malloc files answers
    (J := fun mon => Follows answers mon ∧ InputsThere mon.devices mon.user) seatName
    (fun mon report h => receive_keeps
      (K := fun mon => InputsThere mon.devices mon.user)
      (fun mon type flags node strdup hfollows h =>
        h.monNewDev hfollows husable hmalloc hfiles type flags node strdup)
      (fun mon d hfollows h hd => h.monFreeDev hfollows.toAttached hd) report h) ⟨hfollows, h⟩
  have hsleep := fun {seat : DeviceSeat} (h : InputsThere mon.devices seat)
    (hsound : seat.Sound answers) => h.kept hsound (inputSleep_spec hsound).2 (keys_inputSleep seat)
  have hwake := fun {seat : DeviceSeat} (h : InputsThere mon.devices seat)
    (hsound : seat.Sound answers) => h.kept hsound (inputWakeUp_spec files hsound).2
      (keys_inputWakeUp husable hfiles seat)
  have hback : InputsThere mon.devices mon.user.seatGoBackground.2 := by
    unfold seatGoBackground
    split_ifs <;> exact h
  have hfore : ∀ {seat : DeviceSeat}, InputsThere mon.devices seat → seat.Sound answers →
      InputsThere mon.devices (seat.seatGoForeground files answers).2.1 := by
    intro seat h hsound
    exact h.congr (seatGoForeground_keeps files hsound).2
  cases e with
  | scan found => exact (hreports.1 found).2
  | udev closed queue => exact (hreports.2 closed queue).2
  | vtActivate agrees =>
    have hsound := (seatGoAwake_spec files agrees hfollows.sound hfollows.ready hfollows.linked).1
    have hawake : InputsThere mon.devices (mon.user.seatGoAwake files answers agrees).2 := by
      unfold seatGoAwake
      split_ifs
      · exact h
      · exact h
      · exact hwake (h.congr rfl) (hfollows.sound.withGround true mon.user.foreground)
    unfold step seatVtActivate
    dsimp only
    split_ifs
    · exact hawake
    · rw [← Prod.eta (seatGoForeground _ _ _).2, seatGoForeground_works husable.toCalm hfiles]
      exact hfore hawake hsound
  | vtDeactivate =>
    have hsound := (seatGoBackground_spec hfollows.sound hfollows.ready hfollows.linked).1
    unfold step seatVtDeactivate
    dsimp only
    split_ifs
    · exact hback
    · unfold seatGoAsleep
      split_ifs
      · exact hback
      · exact hsleep (hback.congr rfl) (hsound.withGround false _)
  | session new =>
    unfold step followSession
    cases new with
    | none => exact hback
    | some foreground =>
      cases foreground with
      | false =>
        dsimp only
        split_ifs
        · exact hback
        · exact h
      | true =>
        dsimp only
        split_ifs
        · exact h
        · rw [← Prod.eta (seatGoForeground _ _ _).2, seatGoForeground_works husable.toCalm hfiles]
          exact hfore h hfollows.sound
  | inputWakeUp => exact hwake h hfollows.sound
  | inputSleep => exact hsleep h hfollows.sound
  | inputEof a => exact absurd rfl (hend a)

/-! ### The devices that are used -/

/-- The seat has one input device for a node. -/
theorem Attached.input_nodes_nodup (h : Attached answers mon) :
    (mon.user.inputs.map (·.2.node)).Nodup := by
  refine List.Nodup.map_on (fun i hi j hj heq => ?_) h.sound.inputs_nodup.of_map
  obtain ⟨d, hd, -, hdata, hnode⟩ := h.linked.input i hi
  obtain ⟨e, he, -, hdata', hnode'⟩ := h.linked.input j hj
  have hnodes := h.orderly.nodes
  rw [Monitor.tags, List.map_map] at hnodes
  obtain rfl := List.inj_on_of_nodup_map hnodes hd he (hnode.trans (heq.trans hnode'.symm))
  rw [hdata] at hdata'
  exact Entries.eq_of_key_eq h.sound.inputs_nodup hi hj (Option.some.inj hdata')

/-- In every state of a run in which nothing fails and no input device ends, the seat has one
input device for each node that the reports about it leave as an input device of this seat, and
it has no others. They are open exactly while the input layer is awake. -/
theorem inputs_exact (husable : Usable answers) (hmalloc : malloc.Succeeds)
    (hfiles : files.Succeeds) (seatName : List UInt8) (conf : DeviceConf)
    (es : List DeviceEvent) (hends : ∀ a, .inputEof a ∉ es) :
    let seat := (Runs.run (step malloc files answers seatName) (Monitor.new (new conf)) es).user
    (seat.inputs.map (·.2.node)).Nodup ∧
    (∀ node, (∃ i ∈ seat.inputs, i.2.node = node) ↔
      ∃ flags, Runs.run (Monitor.nodeStep seatName) none
        (es.flatMap (DeviceEvent.reports node)) = some (.input, flags)) ∧
    ∀ i ∈ seat.inputs, i.2.rfd.isSome = true ↔ 0 < seat.inputAwake := by
  have hrun : ∀ (es : List DeviceEvent) (mon : Monitor DeviceSeat), (∀ a, .inputEof a ∉ es) →
      Follows answers mon → InputsThere mon.devices mon.user →
      Follows answers (Runs.run (step malloc files answers seatName) mon es) ∧
        InputsThere (Runs.run (step malloc files answers seatName) mon es).devices
          (Runs.run (step malloc files answers seatName) mon es).user := by
    intro es
    induction es with
    | nil => exact fun mon _ hfollows h => ⟨hfollows, h⟩
    | cons e es ih =>
      intro mon hends hfollows h
      refine ih _ (fun a ha => hends a (List.mem_cons_of_mem e ha))
        (follows_step malloc files answers seatName e hfollows) ?_
      exact inputsThere_step husable hmalloc hfiles seatName e
        (fun a heq => hends a (heq ▸ List.mem_cons_self)) hfollows h
  obtain ⟨hfollows, hthere⟩ := hrun es (Monitor.new (new conf)) hends (follows_new answers conf)
    fun _ hd => absurd hd List.not_mem_nil
  have hknown := @known_run malloc files answers _ hmalloc seatName es (follows_new answers conf)
  refine ⟨hfollows.input_nodes_nodup, fun node => ?_, hfollows.ready.inputs⟩
  rw [show none = (Monitor.new (new conf)).known node from rfl, ← hknown node]
  constructor
  · rintro ⟨i, hi, rfl⟩
    obtain ⟨d, hd, htype, -, hnode⟩ := hfollows.linked.input i hi
    exact ⟨d.2.flags, (Monitor.known_eq_some hfollows.orderly).mpr ⟨d, hd, hnode, htype, rfl⟩⟩
  · rintro ⟨flags, hflags⟩
    obtain ⟨d, hd, hnode, htype, -⟩ := (Monitor.known_eq_some hfollows.orderly).mp hflags
    obtain ⟨i, hi, -, hsame⟩ := hthere d hd htype
    exact ⟨i, hi, hsame.trans hnode⟩

section Example

open CString

theorem inputs_exact_cardFound :
    ∃ i ∈ (Runs.run (step Malloc.bump Malloc.bump (fun _ => calmAnswer) (lit "seat0"))
        (Monitor.new (new ⟨true, true, .primary⟩)) cardFound).user.inputs,
      i.2.node = lit "/dev/input/event3" :=
  ((inputs_exact ⟨⟨fun _ => rfl, fun _ => rfl, fun _ _ _ => rfl, fun _ => rfl⟩, fun _ => rfl,
    fun _ => rfl⟩ Malloc.bump_succeeds Malloc.bump_succeeds (lit "seat0") ⟨true, true, .primary⟩
    cardFound (by simp [cardFound])).2.1 (lit "/dev/input/event3")).mpr
    ⟨⟨false, false, false⟩, by decide⟩

/-- A mouse. -/
def mouse : UdevDevice :=
  { Monitor.keyboard with
    devnode := some (lit "/dev/input/event4")
    sysname := some (lit "event4") }

/-- The keyboard ends, a mouse gets its memory, and the keyboard is removed: the pointer that the
monitor has kept takes the mouse away, which is still there. -/
example :
    let mon := Runs.run (step Malloc.bump Malloc.bump (fun _ => calmAnswer) (lit "seat0"))
      (Monitor.new (new ⟨true, true, .all⟩))
      [.vtActivate true, .scan [(Monitor.keyboard, Monitor.calmProbe)], .inputEof 0,
        .udev false [⟨some (lit "add"), mouse, Monitor.calmProbe⟩,
          ⟨some (lit "remove"), Monitor.keyboard, Monitor.calmProbe⟩]]
    mon.tags.map (·.2.1) = [lit "/dev/input/event4"] ∧ mon.user.inputs = [] := by
  decide

end Example

end DeviceSeat

end Faceplate.Seats
