import Faceplate.Seat.DeviceLinks

/-!
# Devices follow the monitor

Over all runs of reports, changes of the VT and of the session, and wake-ups of the input layer
each device of the seat is one that its monitor keeps, and what it opened is closed when it is
freed.
-/

namespace Faceplate.Seats

open Faceplate.Uterm Announcements

namespace DeviceSeat

variable {malloc files : Malloc} {answers : ℕ → Answer} {seat : DeviceSeat}
  {devices : List (ℕ × MonitorDev)}

/-! ### The monitor and its seat -/

/-- The monitor is in order and never sets data of a device that is not there, and the pointers
between it and its seat are right. -/
structure Attached (answers : ℕ → Answer) (mon : Monitor DeviceSeat) : Prop where
  orderly : mon.Orderly
  settled : mon.freeing = none
  fault : mon.fault = false
  sound : mon.user.Sound answers
  linked : Linked mon.devices mon.user

/-- What holds between the events. -/
structure Follows (answers : ℕ → Answer) (mon : Monitor DeviceSeat) : Prop
    extends Attached answers mon where
  ready : mon.user.Ready

variable {mon : Monitor DeviceSeat}

theorem Attached.addrs (h : Attached answers mon) : (mon.devices.map Prod.fst).Nodup := by
  have haddrs := h.orderly.addrs
  rwa [Monitor.tags, List.map_map] at haddrs

/-- A function of the seat is called. -/
theorem Attached.called (h : Attached answers mon) {result : DeviceSeat × DataSets}
    (hsound : result.1.Sound answers) (hlinked : LinkedBy mon.devices result) :
    Attached answers (mon.called result) ∧ (mon.called result).user = result.1 := by
  have heq : mon.called result =
      { mon with user := result.1, devices := Monitor.setAll result.2 mon.devices } := by
    apply Monitor.called_eq
    · intro a ha
      rw [h.settled] at ha
      cases ha
    · exact fun set hset => Or.inr (hlinked.there set hset)
  have horderly := h.orderly.of_eq (Monitor.tags_called mon result) (Monitor.told_called _ _)
  rw [heq] at horderly ⊢
  exact ⟨⟨horderly, h.settled, h.fault, hsound, hlinked.linked⟩, rfl⟩

theorem Follows.called (h : Follows answers mon) {result : DeviceSeat × DataSets}
    (hsound : result.1.Sound answers) (hready : result.1.Ready)
    (hlinked : LinkedBy mon.devices result) : Follows answers (mon.called result) := by
  obtain ⟨hattached, huser⟩ := h.toAttached.called hsound hlinked
  exact ⟨hattached, huser ▸ hready⟩

theorem linkedBy_nil (hlinked : Linked devices seat) : LinkedBy devices (seat, []) :=
  ⟨hlinked, fun _ hset => absurd hset List.not_mem_nil⟩

/-- A function of the seat that sets no data is called. -/
theorem Attached.called_quiet (h : Attached answers mon) (hsound : seat.Sound answers)
    (hlinked : Linked mon.devices seat) : Attached answers (mon.called (seat, [])) :=
  (h.called hsound (linkedBy_nil hlinked)).1

theorem Follows.called_quiet (h : Follows answers mon) (hsound : seat.Sound answers)
    (hready : seat.Ready) (hlinked : Linked mon.devices seat) :
    Follows answers (mon.called (seat, [])) :=
  h.called hsound hready (linkedBy_nil hlinked)

/-- Where the ground changes and nothing else. -/
theorem Sound.withGround (h : seat.Sound answers) (awake foreground : Bool) :
    { seat with awake := awake, foreground := foreground }.Sound answers := by
  obtain ⟨⟨hnodup, hperm, hfault⟩, hdistinct, hsane, hlost⟩ := h
  exact ⟨⟨hnodup, hperm, hfault⟩, hdistinct, hsane, hlost⟩

theorem seatGoForeground_spec (files : Malloc) (h : seat.Sound answers) (hready : seat.Ready)
    (haddrs : (devices.map Prod.fst).Nodup) (hlinked : Linked devices seat) :
    (seat.seatGoForeground files answers).2.1.Sound answers ∧
      (seat.seatGoForeground files answers).2.1.Ready ∧
      LinkedBy devices (seat.seatGoForeground files answers).2 := by
  unfold seatGoForeground
  split_ifs with hfore hawake
  · exact ⟨h, hready, linkedBy_nil hlinked⟩
  · exact ⟨h, hready, linkedBy_nil hlinked⟩
  · have hup : seat.awake = true := by simpa using hawake
    have hlinked' : LinkedBy devices ({ seat with foreground := true }, []) :=
      linkedBy_nil (hlinked.congr rfl fun i hi => ⟨i, hi, rfl, rfl⟩)
    obtain ⟨hsound, hground, hinputs, hlinks, hups⟩ := raiseVideos_spec files
      (seat.videos.map Prod.fst) (h.withGround seat.awake true) haddrs hlinked'
      fun v hv => Or.inl (List.mem_map_of_mem hv)
    refine ⟨hsound, ⟨fun _ => hground.awake.trans hup, fun _ => hups, fun i hi => ?_⟩, hlinks⟩
    rw [hinputs] at hi
    rw [hground.inputAwake]
    exact hready.inputs i hi

theorem seatGoBackground_spec (h : seat.Sound answers) (hready : seat.Ready)
    (hlinked : Linked devices seat) :
    seat.seatGoBackground.2.Sound answers ∧ seat.seatGoBackground.2.Ready ∧
      Linked devices seat.seatGoBackground.2 ∧
      (seat.seatGoBackground.1 = true → seat.seatGoBackground.2.foreground = false) := by
  unfold seatGoBackground
  split_ifs with hback hawake
  · exact ⟨h, hready, hlinked, fun _ => by simpa using hback⟩
  · exact ⟨h, hready, hlinked, fun hok => by cases hok⟩
  · exact ⟨h.withGround seat.awake false,
      ⟨(fun hfore => by cases hfore), (fun hfore => by cases hfore), hready.inputs⟩,
      hlinked.congr rfl fun i hi => ⟨i, hi, rfl, rfl⟩, fun _ => rfl⟩

theorem seatGoAsleep_spec (h : seat.Sound answers) (hlinked : Linked devices seat) :
    seat.seatGoAsleep.Sound answers ∧ Linked devices seat.seatGoAsleep ∧
      (seat.Ready → seat.foreground = false → seat.seatGoAsleep.Ready) := by
  unfold seatGoAsleep
  split_ifs with hasleep
  · exact ⟨h, hlinked, fun hready _ => hready⟩
  · obtain ⟨hsound, hkept⟩ := inputSleep_spec (h.withGround false seat.foreground)
    have hlinked' : Linked devices { seat with awake := false } :=
      hlinked.congr rfl fun i hi => ⟨i, hi, rfl, rfl⟩
    refine ⟨hsound, hkept.linked hlinked', fun hready hback => hkept.ready ?_⟩
    exact ⟨(fun hfore => absurd hfore (by simp [hback])),
      (fun hfore => absurd hfore (by simp [hback])), hready.inputs⟩

theorem seatGoAwake_spec (files : Malloc) (agrees : Bool) (h : seat.Sound answers)
    (hready : seat.Ready) (hlinked : Linked devices seat) :
    (seat.seatGoAwake files answers agrees).2.Sound answers ∧
      (seat.seatGoAwake files answers agrees).2.Ready ∧
      Linked devices (seat.seatGoAwake files answers agrees).2 := by
  unfold seatGoAwake
  split_ifs
  · exact ⟨h, hready, hlinked⟩
  · exact ⟨h, hready, hlinked⟩
  · obtain ⟨hsound, hkept⟩ := inputWakeUp_spec files (h.withGround true seat.foreground)
    have hlinked' : Linked devices { seat with awake := true } :=
      hlinked.congr rfl fun i hi => ⟨i, hi, rfl, rfl⟩
    exact ⟨hsound, hkept.ready ⟨fun _ => rfl, hready.up, hready.inputs⟩, hkept.linked hlinked'⟩

/-! ### Events -/

/-- A new device is put into the list, and then the seat is called. -/
theorem Follows.monNewDev_eq (h : Follows answers mon) {a : ℕ}
    (haddr : malloc.addr (mon.devices.map Prod.fst) = some a) (type : MonitorDevType)
    (flags : MonitorFlags) (node : List UInt8) (strdup : Bool) :
    mon.monNewDev malloc (seatMonitorCb malloc files answers) type flags node strdup =
      if !strdup then mon
      else { mon with
        devices := Monitor.setAll
          (mon.user.seatMonitorNewDev malloc files answers node type flags a).2
          ((a, ⟨type, flags, node, none⟩) :: mon.devices)
        user := (mon.user.seatMonitorNewDev malloc files answers node type flags a).1
        told := mon.told ++ [Told.added (a, node, type, flags)] } := by
  obtain ⟨-, -, hlinked⟩ := @seatMonitorNewDev_spec malloc files answers mon.user mon.devices node
    type flags a (malloc.addr_notMem haddr) h.sound h.ready h.linked
  rw [Monitor.monNewDev, haddr]
  dsimp only
  split_ifs
  · rfl
  · rw [Monitor.called_eq]
    · rfl
    · exact fun b hb => absurd (hb.symm.trans h.settled) (by simp)
    · exact fun set hset => Or.inr (hlinked.there set hset)

theorem Follows.monNewDev (h : Follows answers mon) (type : MonitorDevType)
    (flags : MonitorFlags) (node : List UInt8) (strdup : Bool) (hnew : mon.known node = none) :
    Follows answers
      (mon.monNewDev malloc (seatMonitorCb malloc files answers) type flags node strdup) := by
  have horderly := (Monitor.monNewDev_spec malloc (seatMonitorCb malloc files answers) type flags
    node strdup h.orderly hnew).1
  cases haddr : malloc.addr (mon.devices.map Prod.fst) with
  | none =>
    rw [Monitor.monNewDev, haddr]
    exact h
  | some a =>
    obtain ⟨hsound, hready, hlinked⟩ := @seatMonitorNewDev_spec malloc files answers mon.user
      mon.devices node type flags a (malloc.addr_notMem haddr) h.sound h.ready h.linked
    rw [h.monNewDev_eq haddr] at horderly ⊢
    split_ifs at horderly ⊢
    · exact h
    · exact ⟨⟨horderly, h.settled, h.fault, hsound, hlinked.linked⟩, hready⟩

theorem setAll_of_notMem {sets : DataSets} (h : ∀ set ∈ sets, set.1 ∉ devices.map Prod.fst) :
    Monitor.setAll sets devices = devices := by
  induction sets with
  | nil => rfl
  | cons set sets ih =>
    obtain ⟨hset, hsets⟩ := List.forall_mem_cons.mp h
    rw [Monitor.setAll, List.foldl_cons, Monitor.withData, Entries.modify_of_notMem hset]
    exact ih hsets

/-- A device is taken out of the list, and the seat sets the data of no other. -/
theorem Attached.monFreeDev_eq (h : Attached answers mon) {d : ℕ × MonitorDev}
    (hd : d ∈ mon.devices) :
    mon.monFreeDev (seatMonitorCb malloc files answers) d =
      { mon with
        devices := mon.devices.erase d
        freeing := none
        user := (mon.user.seatMonitorFreeDev d.2.type d.2.data).1
        told := mon.told ++ [Told.removed (monitorTag d)] } := by
  obtain ⟨-, -, -, hsets⟩ := seatMonitorFreeDev_spec hd h.addrs h.sound h.linked
  have hgone : d.1 ∉ (mon.devices.erase d).map Prod.fst := by
    intro hmem
    obtain ⟨e, he, heq⟩ := List.mem_map.mp hmem
    exact ((Entries.mem_erase_iff h.addrs hd).mp he).2 heq
  have hsame : Monitor.setAll (mon.user.seatMonitorFreeDev d.2.type d.2.data).2
      (mon.devices.erase d) = mon.devices.erase d :=
    setAll_of_notMem fun set hset => by rwa [hsets set hset]
  unfold Monitor.monFreeDev
  dsimp only
  rw [Monitor.called_eq]
  · dsimp only [seatMonitorCb]
    rw [hsame]
  · exact fun b hb => Option.some.inj hb ▸ hgone
  · exact fun set hset => Or.inl (congrArg some (hsets set hset)).symm

theorem Attached.monFreeDev (h : Attached answers mon) {d : ℕ × MonitorDev}
    (hd : d ∈ mon.devices) :
    Attached answers (mon.monFreeDev (seatMonitorCb malloc files answers) d) ∧
      (mon.user.Ready → (mon.monFreeDev (seatMonitorCb malloc files answers) d).user.Ready) := by
  have horderly := (Monitor.monFreeDev_spec (seatMonitorCb malloc files answers) h.orderly hd).1
  obtain ⟨hsound, hready, hlinked, -⟩ := seatMonitorFreeDev_spec hd h.addrs h.sound h.linked
  rw [h.monFreeDev_eq hd] at horderly ⊢
  exact ⟨⟨horderly, rfl, h.fault, hsound, hlinked⟩, hready⟩

theorem Follows.monFreeDev (h : Follows answers mon) {d : ℕ × MonitorDev}
    (hd : d ∈ mon.devices) :
    Follows answers (mon.monFreeDev (seatMonitorCb malloc files answers) d) :=
  ⟨(h.toAttached.monFreeDev hd).1, (h.toAttached.monFreeDev hd).2 h.ready⟩

/-- The seat finds the device that is reported to have changed. -/
theorem Attached.hotplug_eq (h : Attached answers mon) {d : ℕ × MonitorDev}
    (hd : d ∈ mon.devices) :
    (seatMonitorCb malloc files answers).hotplugDev d.2.type d.2.data mon.user =
      (mon.user, []) := by
  have hpoll : d.2.type ≠ .input → mon.user.kmsconSeatPollVideo d.2.data = mon.user := by
    intro htype
    cases hdata : d.2.data with
    | none => rfl
    | some a =>
      obtain ⟨v, hv, rfl, -⟩ := h.linked.device d hd htype a hdata
      exact if_pos (List.mem_map_of_mem hv)
  cases htype : d.2.type with
  | input => rfl
  | drm => exact congrArg (·, []) (hpoll (by rw [htype]; decide))
  | fbdev => exact congrArg (·, []) (hpoll (by rw [htype]; decide))

theorem Follows.hotplug (h : Follows answers mon) {d : ℕ × MonitorDev} (hd : d ∈ mon.devices) :
    let cb := seatMonitorCb malloc files answers
    Follows answers (mon.called (cb.hotplugDev d.2.type d.2.data mon.user)) := by
  intro cb
  rw [h.hotplug_eq hd]
  exact h.called_quiet h.sound h.ready h.linked

/-- The invariant rule for what holds beside `Follows`: it is kept by a report if it is kept when
a device comes and when one goes. -/
theorem receive_keeps {K : Monitor DeviceSeat → Prop} {seatName : List UInt8}
    (hnew : ∀ mon type flags node strdup, Follows answers mon → K mon →
      K (mon.monNewDev malloc (seatMonitorCb malloc files answers) type flags node strdup))
    (hfree : ∀ mon d, Follows answers mon → K mon → d ∈ mon.devices →
      K (mon.monFreeDev (seatMonitorCb malloc files answers) d))
    (report : Monitor.Report) (h : Follows answers mon ∧ K mon) :
    let mon' := mon.receive malloc (seatMonitorCb malloc files answers) seatName report
    Follows answers mon' ∧ K mon' := by
  refine Monitor.receive_invariant (J := fun mon => Follows answers mon ∧ K mon)
    _ _ _ ?_ ?_ ?_ _ h
  · rintro mon type flags node strdup ⟨hfollows, h⟩ hunknown
    exact ⟨hfollows.monNewDev type flags node strdup hunknown,
      hnew mon type flags node strdup hfollows h⟩
  · rintro mon d ⟨hfollows, h⟩ hd
    exact ⟨hfollows.monFreeDev hd, hfree mon d hfollows h hd⟩
  · rintro mon d ⟨hfollows, h⟩ hd
    refine ⟨hfollows.hotplug hd, ?_⟩
    rw [hfollows.hotplug_eq hd]
    exact h

variable (malloc files answers)

/-- What every report keeps is kept by a scan and by an event of the monitor. -/
theorem step_reports {J : Monitor DeviceSeat → Prop} (seatName : List UInt8)
    (hreceive : ∀ mon report, J mon →
      J (mon.receive malloc (seatMonitorCb malloc files answers) seatName report))
    (h : J mon) :
    (∀ found, J (step malloc files answers seatName mon (.scan found))) ∧
      ∀ closed queue, J (step malloc files answers seatName mon (.udev closed queue)) := by
  have hrun := fun reports => Runs.invariant_run (J := J) hreceive h reports
  constructor
  · intro found
    change J (Monitor.step malloc _ seatName mon (.scan found))
    rw [Monitor.step_eq]
    exact hrun _
  · intro closed queue
    change J (Monitor.step malloc _ seatName mon (.udev closed queue))
    rw [Monitor.step_eq]
    exact hrun _

theorem follows_step (seatName : List UInt8) (e : DeviceEvent) (h : Follows answers mon) :
    Follows answers (step malloc files answers seatName mon e) := by
  have hreports := step_reports malloc files answers (J := Follows answers) seatName
    (fun mon report h => (receive_keeps (K := fun _ => True)
      (fun _ _ _ _ _ _ _ => trivial) (fun _ _ _ _ _ => trivial) report ⟨h, trivial⟩).1) h
  cases e with
  | scan found => exact hreports.1 found
  | udev closed queue => exact hreports.2 closed queue
  | vtActivate agrees =>
    obtain ⟨hsound, hready, hlinked⟩ :=
      seatGoAwake_spec files agrees h.sound h.ready h.linked
    have hground := seatGoForeground_spec files hsound hready h.addrs hlinked
    unfold step seatVtActivate
    dsimp only
    split_ifs
    · exact h.called_quiet hsound hready hlinked
    · exact h.called hground.1 hground.2.1 hground.2.2
  | vtDeactivate =>
    obtain ⟨hsound, hready, hlinked, hback⟩ := seatGoBackground_spec h.sound h.ready h.linked
    obtain ⟨hasleep, hlinked', hready'⟩ := seatGoAsleep_spec hsound hlinked
    unfold step seatVtDeactivate
    dsimp only
    split_ifs with hok
    · exact h.called_quiet hsound hready hlinked
    · exact h.called hasleep (hready' hready (hback (by simpa using hok))) (linkedBy_nil hlinked')
  | session new =>
    obtain ⟨hsound, hready, hlinked, -⟩ := seatGoBackground_spec h.sound h.ready h.linked
    have hback := h.called_quiet hsound hready hlinked
    have hsame := h.called_quiet h.sound h.ready h.linked
    have hfore := seatGoForeground_spec files h.sound h.ready h.addrs h.linked
    unfold step followSession
    cases new with
    | none => exact hback
    | some foreground =>
      cases foreground with
      | false =>
        dsimp only
        split_ifs
        · exact hback
        · exact hsame
      | true =>
        dsimp only
        split_ifs
        · exact hsame
        · exact h.called hfore.1 hfore.2.1 hfore.2.2
  | inputWakeUp =>
    obtain ⟨hsound, hkept⟩ := inputWakeUp_spec files h.sound
    exact h.called_quiet hsound (hkept.ready h.ready) (hkept.linked h.linked)
  | inputSleep =>
    obtain ⟨hsound, hkept⟩ := inputSleep_spec h.sound
    exact h.called_quiet hsound (hkept.ready h.ready) (hkept.linked h.linked)
  | inputEof a =>
    have hsound := (inputRemoveDev_spec (some a) h.sound).1
    have hkept := inputRemoveDev_kept (some a) h.sound
    exact h.called_quiet hsound (hkept.ready h.ready) (hkept.linked h.linked)

theorem follows_new (conf : DeviceConf) : Follows answers (Monitor.new (new conf)) where
  orderly := Monitor.orderly_new _
  settled := rfl
  fault := rfl
  sound := ⟨⟨List.nodup_nil, List.Perm.refl [], rfl⟩, List.nodup_nil,
    fun _ hd => absurd hd List.not_mem_nil, fun _ => rfl⟩
  linked := ⟨fun _ hv => absurd hv List.not_mem_nil, fun _ hd => absurd hd List.not_mem_nil,
    fun _ hi => absurd hi List.not_mem_nil⟩
  ready := ⟨(fun hfore => by cases hfore), (fun hfore => by cases hfore),
    fun _ hi => absurd hi List.not_mem_nil⟩

theorem unrefs_spec (addrs : List ℕ) (h : Attached answers mon) :
    Attached answers
      (addrs.foldl (Monitor.unrefRound (seatMonitorCb malloc files answers)) mon) := by
  induction addrs generalizing mon with
  | nil => exact h
  | cons a addrs ih =>
    apply ih
    unfold Monitor.unrefRound
    cases hfind : Entries.lookup a mon.devices with
    | none => exact h
    | some d => exact (h.monFreeDev (Entries.mem_of_lookup hfind).1).1

/-- When the monitor is given up, nothing is left of the devices, and none was used after it was
freed. -/
theorem unref_spec (h : Attached answers mon) :
    let mon := mon.utermMonitorUnref (seatMonitorCb malloc files answers)
    mon.fault = false ∧ mon.user.videos = [] ∧ mon.user.inputs = [] ∧ mon.user.Sound answers := by
  intro left
  have hattached : Attached answers (mon.utermMonitorUnref (seatMonitorCb malloc files answers)) :=
    unrefs_spec malloc files answers _ h
  have htags := (Monitor.unref_spec (seatMonitorCb malloc files answers) h.orderly).2
  have hlinked := hattached.linked
  rw [List.map_eq_nil_iff.mp htags] at hlinked
  refine ⟨hattached.fault, List.eq_nil_iff_forall_not_mem.mpr fun v hv => ?_,
    List.eq_nil_iff_forall_not_mem.mpr fun i hi => ?_, hattached.sound⟩
  · obtain ⟨d, hd, -⟩ := hlinked.video v hv
    exact List.not_mem_nil hd
  · obtain ⟨d, hd, -⟩ := hlinked.input i hi
    exact List.not_mem_nil hd

section Example

open CString

/-- Every call works. -/
def calmAnswer : Answer := ⟨true, true, fun _ => true, true, true, true⟩

/-- A card that cannot be woken is lost, and its descriptor stays open. -/
example : (Runs.run (step Malloc.bump Malloc.bump (fun _ => { calmAnswer with wakes := false })
    (lit "seat0")) (Monitor.new (new ⟨true, true, .all⟩))
      [.vtActivate true, .scan [(Monitor.card none, Monitor.calmProbe)]]).user.leaked = [0] := by
  decide

end Example

end DeviceSeat

end Faceplate.Seats
