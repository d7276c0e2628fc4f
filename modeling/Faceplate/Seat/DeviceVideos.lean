import Faceplate.Seat.DeviceRuns

/-!
# The graphics cards of a seat

Where nothing fails the seat drives each graphics card that its options do not ignore, and no
other. Which cards these are follows from the reports of udev: what is known of a node depends
on the reports about this node alone.
-/

namespace Faceplate.Seats

open Faceplate.Uterm Announcements

namespace DeviceSeat

variable {malloc files : Malloc} {answers : ℕ → Answer} {seat : DeviceSeat}
  {mon : Monitor DeviceSeat} {conf : DeviceConf}

/-! ### Calls that work -/

/-- Nothing fails but the backend `be_drm3d`. -/
structure Calm (answers : ℕ → Answer) : Prop where
  memory : ∀ n, (answers n).memory = true
  opens : ∀ n, (answers n).opens = true
  makes : ∀ n backend, backend ≠ .drm3d → (answers n).makes backend = true
  wakes : ∀ n, (answers n).wakes = true

theorem exists_videoNew {makes : Backend → Bool}
    (hmakes : ∀ backend, backend ≠ .drm3d → makes backend = true) (wanted : Backend) :
    ∃ backend, videoNew makes wanted = some backend := by
  have h2d : makes .drm2d = true := hmakes .drm2d (by decide)
  unfold videoNew
  cases wanted with
  | drm3d =>
    cases makes .drm3d with
    | true => exact ⟨.drm3d, rfl⟩
    | false => exact ⟨.drm2d, by simp [h2d]⟩
  | drm2d => exact ⟨.drm2d, if_pos h2d⟩
  | fbdev => exact ⟨.fbdev, if_pos (hmakes .fbdev (by decide))⟩

theorem seatVideoInit_works (hcalm : Calm answers) (hfiles : files.Succeeds) (drm : Bool)
    (seat : DeviceSeat) : (seat.seatVideoInit files answers drm).1 = true := by
  obtain ⟨fd, hfd⟩ := hfiles seat.openFds
  obtain ⟨backend, hbackend⟩ :=
    exists_videoNew (hcalm.makes seat.asked) (wantedBackend seat.conf drm)
  simp [seatVideoInit, ask, openNode, hcalm.opens, hfd, hbackend, hcalm.wakes]

/-- A graphics card gets a video device if it is not ignored. -/
theorem kmsconSeatAddVideo_works (hcalm : Calm answers) (hmalloc : malloc.Succeeds)
    (hfiles : files.Succeeds) (type : MonitorDevType) (flags : MonitorFlags) (node : List UInt8)
    (udev : ℕ) (seat : DeviceSeat) :
    (gpuIsIgnored seat.conf type flags = true ∧
      (seat.kmsconSeatAddVideo malloc files answers type flags node udev).2 = []) ∨
    (gpuIsIgnored seat.conf type flags = false ∧
      ∃ a, (seat.kmsconSeatAddVideo malloc files answers type flags node udev).2 =
        [(udev, some a)]) := by
  unfold kmsconSeatAddVideo
  cases gpuIsIgnored seat.conf type flags with
  | true => exact .inl ⟨rfl, rfl⟩
  | false =>
    obtain ⟨a, ha⟩ := hmalloc (seat.ask answers).2.used
    have hmemory : ¬(!(seat.ask answers).1.memory) = true := by
      rw [ask, hcalm.memory]
      decide
    have hworks := seatVideoInit_works hcalm hfiles (decide (type = .drm)) (seat.ask answers).2
    refine .inr ⟨rfl, a, ?_⟩
    rw [if_neg Bool.false_ne_true]
    dsimp only
    rw [ha]
    dsimp only
    rw [if_neg hmemory]
    split_ifs
    · revert hworks
      generalize (seat.ask answers).2.seatVideoInit files answers (decide (type = .drm)) = init
      obtain ⟨ok, video, seat'⟩ := init
      rintro rfl
      rfl
    · rfl

/-- No device is dropped when the seat comes to the foreground. -/
theorem seatGoForeground_works (hcalm : Calm answers) (hfiles : files.Succeeds)
    (seat : DeviceSeat) : (seat.seatGoForeground files answers).2.2 = [] := by
  have hround : ∀ (acc : DeviceSeat × DataSets) (a : ℕ),
      (raiseVideo files answers acc a).2 = acc.2 := by
    intro acc a
    unfold raiseVideo
    cases Entries.lookup a acc.1.videos with
    | none => rfl
    | some v =>
      have hworks := seatVideoInit_works hcalm hfiles v.2.drm acc.1
      dsimp only
      split_ifs
      · rfl
      · revert hworks
        generalize acc.1.seatVideoInit files answers v.2.drm = init
        obtain ⟨ok, video, seat'⟩ := init
        rintro rfl
        rfl
  have hrounds : ∀ (addrs : List ℕ) (acc : DeviceSeat × DataSets),
      (addrs.foldl (raiseVideo files answers) acc).2 = acc.2 := by
    intro addrs
    induction addrs with
    | nil => exact fun _ => rfl
    | cons a addrs ih => exact fun acc => (ih _).trans (hround acc a)
  unfold seatGoForeground
  split_ifs
  · rfl
  · rfl
  · exact hrounds _ _

/-! ### The options stay -/

theorem seatGoForeground_keeps (files : Malloc) (h : seat.Sound answers) :
    (seat.seatGoForeground files answers).2.1.conf = seat.conf ∧
      (seat.seatGoForeground files answers).2.1.inputs = seat.inputs := by
  have hrounds : ∀ (addrs : List ℕ) (acc : DeviceSeat × DataSets), acc.1.Sound answers →
      (addrs.foldl (raiseVideo files answers) acc).1.conf = acc.1.conf ∧
        (addrs.foldl (raiseVideo files answers) acc).1.inputs = acc.1.inputs := by
    intro addrs
    induction addrs with
    | nil => exact fun _ _ => ⟨rfl, rfl⟩
    | cons a addrs ih =>
      intro acc h
      obtain ⟨hsound, hground, hinputs, -⟩ := raiseVideo_spec files answers h a
      obtain ⟨hconf, hsame⟩ := ih _ hsound
      exact ⟨hconf.trans hground.conf, hsame.trans hinputs⟩
  unfold seatGoForeground
  split_ifs
  · exact ⟨rfl, rfl⟩
  · exact ⟨rfl, rfl⟩
  · exact hrounds _ _ (h.withGround seat.awake true)

theorem conf_seatGoAwake (files : Malloc) (agrees : Bool) (h : seat.Sound answers) :
    (seat.seatGoAwake files answers agrees).2.conf = seat.conf := by
  unfold seatGoAwake
  split_ifs
  · rfl
  · rfl
  · exact (inputWakeUp_spec files (h.withGround true seat.foreground)).2.conf

theorem conf_seatGoBackground (seat : DeviceSeat) : seat.seatGoBackground.2.conf = seat.conf := by
  unfold seatGoBackground
  split_ifs <;> rfl

theorem conf_seatGoAsleep (h : seat.Sound answers) : seat.seatGoAsleep.conf = seat.conf := by
  unfold seatGoAsleep
  split_ifs
  · rfl
  · exact (inputSleep_spec (h.withGround false seat.foreground)).2.conf

theorem conf_seatMonitorNewDev (h : seat.Sound answers) (node : List UInt8)
    (type : MonitorDevType) (flags : MonitorFlags) (udev : ℕ) :
    (seat.seatMonitorNewDev malloc files answers node type flags udev).1.conf = seat.conf := by
  cases type with
  | input => exact (inputAddDev_spec malloc files answers h node).2.1.conf
  | drm => exact (kmsconSeatAddVideo_spec malloc files answers h .drm flags node udev).2.1.conf
  | fbdev => exact (kmsconSeatAddVideo_spec malloc files answers h .fbdev flags node udev).2.1.conf

theorem conf_seatMonitorFreeDev {devices : List (ℕ × MonitorDev)} (h : seat.Sound answers)
    (hlinked : Linked devices seat) {d : ℕ × MonitorDev} (hd : d ∈ devices) :
    (seat.seatMonitorFreeDev d.2.type d.2.data).1.conf = seat.conf := by
  have hvideo : d.2.type ≠ .input → (seat.kmsconSeatRemoveVideo d.2.data).1.conf = seat.conf := by
    intro htype
    cases hdata : d.2.data with
    | none => rfl
    | some a =>
      obtain ⟨v, hv, rfl, -⟩ := hlinked.device d hd htype a hdata
      exact (removeVideo_spec h hv).2.1.conf
  cases htype : d.2.type with
  | input => exact (inputRemoveDev_spec d.2.data h).2.1.conf
  | drm => exact hvideo (by rw [htype]; decide)
  | fbdev => exact hvideo (by rw [htype]; decide)

/-! ### Events -/

/-- Exactly the graphics cards that are not ignored have a video device. -/
structure Complete (conf : DeviceConf) (mon : Monitor DeviceSeat) : Prop where
  same : mon.user.conf = conf
  kept : ∀ d ∈ mon.devices, d.2.type ≠ .input →
    (d.2.data.isSome = true ↔ gpuIsIgnored conf d.2.type d.2.flags = false)

/-- A function of the seat that sets no data is called. -/
theorem Complete.called_quiet (h : Complete conf mon) (hconf : seat.conf = mon.user.conf) :
    Complete conf (mon.called (seat, [])) := ⟨hconf.trans h.same, h.kept⟩

theorem Complete.monNewDev (h : Complete conf mon) (hfollows : Follows answers mon)
    (hcalm : Calm answers) (hmalloc : malloc.Succeeds) (hfiles : files.Succeeds)
    (type : MonitorDevType) (flags : MonitorFlags) (node : List UInt8) (strdup : Bool) :
    Complete conf
      (mon.monNewDev malloc (seatMonitorCb malloc files answers) type flags node strdup) := by
  cases haddr : malloc.addr (mon.devices.map Prod.fst) with
  | none =>
    rw [Monitor.monNewDev, haddr]
    exact h
  | some a =>
    rw [hfollows.monNewDev_eq haddr]
    split_ifs
    · exact h
    · refine ⟨(conf_seatMonitorNewDev hfollows.sound node type flags a).trans h.same, ?_⟩
      dsimp only
      have ha := malloc.addr_notMem haddr
      have hvideo : type ≠ .input → ∀ d ∈ Monitor.setAll
          (mon.user.kmsconSeatAddVideo malloc files answers type flags node a).2
          ((a, ⟨type, flags, node, none⟩) :: mon.devices), d.2.type ≠ .input →
          (d.2.data.isSome = true ↔ gpuIsIgnored conf d.2.type d.2.flags = false) := by
        intro htype
        rcases kmsconSeatAddVideo_works hcalm hmalloc hfiles type flags node a mon.user with
          ⟨hignored, hsets⟩ | ⟨hignored, x, hsets⟩
        · rw [hsets]
          rw [h.same] at hignored
          exact List.forall_mem_cons.mpr ⟨fun _ => by simp [hignored], h.kept⟩
        · rw [hsets, Monitor.setAll, List.foldl_cons, List.foldl_nil, withData_cons ha]
          rw [h.same] at hignored
          exact List.forall_mem_cons.mpr ⟨fun _ => by simp [hignored], h.kept⟩
      cases type with
      | drm => exact hvideo (by decide)
      | fbdev => exact hvideo (by decide)
      | input =>
        change ∀ d ∈ Monitor.withData (a, (mon.user.inputAddDev malloc files answers node).1) _, _
        rw [withData_cons ha]
        exact List.forall_mem_cons.mpr ⟨fun hne => absurd rfl hne, h.kept⟩

theorem Complete.monFreeDev (h : Complete conf mon) (hattached : Attached answers mon)
    {d : ℕ × MonitorDev} (hd : d ∈ mon.devices) :
    Complete conf (mon.monFreeDev (seatMonitorCb malloc files answers) d) := by
  rw [hattached.monFreeDev_eq hd]
  exact ⟨(conf_seatMonitorFreeDev hattached.sound hattached.linked hd).trans h.same,
    fun e he => h.kept e (List.mem_of_mem_erase he)⟩

theorem complete_step (hcalm : Calm answers) (hmalloc : malloc.Succeeds)
    (hfiles : files.Succeeds) (seatName : List UInt8) (e : DeviceEvent)
    (hfollows : Follows answers mon) (h : Complete conf mon) :
    Complete conf (step malloc files answers seatName mon e) := by
  have hreports := step_reports malloc files answers
    (J := fun mon => Follows answers mon ∧ Complete conf mon) seatName
    (fun mon report h => receive_keeps (fun mon type flags node strdup hfollows h =>
        h.monNewDev hfollows hcalm hmalloc hfiles type flags node strdup)
      (fun mon d hfollows h hd => h.monFreeDev hfollows.toAttached hd) report h) ⟨hfollows, h⟩
  cases e with
  | scan found => exact (hreports.1 found).2
  | udev closed queue => exact (hreports.2 closed queue).2
  | vtActivate agrees =>
    have hawake := conf_seatGoAwake files agrees hfollows.sound
    have hsound := (seatGoAwake_spec files agrees hfollows.sound hfollows.ready hfollows.linked).1
    unfold step seatVtActivate
    dsimp only
    split_ifs
    · exact h.called_quiet hawake
    · rw [← Prod.eta (seatGoForeground _ _ _).2, seatGoForeground_works hcalm hfiles]
      exact h.called_quiet ((seatGoForeground_keeps files hsound).1.trans hawake)
  | vtDeactivate =>
    have hback := conf_seatGoBackground mon.user
    have hsound := (seatGoBackground_spec hfollows.sound hfollows.ready hfollows.linked).1
    unfold step seatVtDeactivate
    dsimp only
    split_ifs
    · exact h.called_quiet hback
    · exact h.called_quiet ((conf_seatGoAsleep hsound).trans hback)
  | session new =>
    have hback := conf_seatGoBackground mon.user
    have hfore := (seatGoForeground_keeps files hfollows.sound).1
    unfold step followSession
    cases new with
    | none => exact h.called_quiet hback
    | some foreground =>
      cases foreground with
      | false =>
        dsimp only
        split_ifs
        · exact h.called_quiet hback
        · exact h.called_quiet rfl
      | true =>
        dsimp only
        split_ifs
        · exact h.called_quiet rfl
        · rw [← Prod.eta (seatGoForeground _ _ _).2, seatGoForeground_works hcalm hfiles]
          exact h.called_quiet hfore
  | inputWakeUp => exact h.called_quiet (inputWakeUp_spec files hfollows.sound).2.conf
  | inputSleep => exact h.called_quiet (inputSleep_spec hfollows.sound).2.conf
  | inputEof a => exact h.called_quiet (inputRemoveDev_spec (some a) hfollows.sound).2.1.conf

/-- The reports of an event about a node; what a scan finds counts as added. -/
def DeviceEvent.reports (node : List UInt8) : DeviceEvent → List Monitor.Report
  | .scan found =>
    (found.map fun f => ⟨some (CString.lit "add"), f.1, f.2⟩).filter fun r => r.About node
  | .udev closed queue => if closed then [] else queue.filter fun r => r.About node
  | _ => []

theorem known_step (hmalloc : malloc.Succeeds) (seatName : List UInt8) (e : DeviceEvent)
    (h : mon.Orderly) (node : List UInt8) :
    (step malloc files answers seatName mon e).known node =
      Runs.run (Monitor.nodeStep seatName) (mon.known node) (e.reports node) := by
  have hreports := fun reports => (Monitor.receives_spec malloc
    (seatMonitorCb malloc files answers) seatName reports h).2 hmalloc node
  cases e with
  | scan found =>
    change (Monitor.step malloc _ seatName mon (.scan found)).known node = _
    rw [Monitor.step_eq]
    exact hreports _
  | udev closed queue =>
    change (Monitor.step malloc _ seatName mon (.udev closed queue)).known node = _
    rw [Monitor.step_eq]
    cases closed with
    | true => rfl
    | false => exact hreports queue
  | vtActivate agrees => exact Monitor.known_of_tags (Monitor.tags_called _ _) node
  | vtDeactivate => exact Monitor.known_of_tags (Monitor.tags_called _ _) node
  | session new => exact Monitor.known_of_tags (Monitor.tags_called _ _) node
  | inputWakeUp => exact Monitor.known_of_tags (Monitor.tags_called _ _) node
  | inputSleep => exact Monitor.known_of_tags (Monitor.tags_called _ _) node
  | inputEof a => exact Monitor.known_of_tags (Monitor.tags_called _ _) node

theorem known_run (hmalloc : malloc.Succeeds) (seatName : List UInt8) (es : List DeviceEvent)
    (h : Follows answers mon) (node : List UInt8) :
    (Runs.run (step malloc files answers seatName) mon es).known node =
      Runs.run (Monitor.nodeStep seatName) (mon.known node)
        (es.flatMap (DeviceEvent.reports node)) := by
  induction es generalizing mon with
  | nil => rfl
  | cons e es ih =>
    rw [Runs.run_cons, ih (follows_step malloc files answers seatName e h),
      known_step hmalloc seatName e h.orderly node, List.flatMap_cons, Runs.run_append]

/-! ### The cards that are used -/

theorem videoType_injective {drm drm' : Bool} (h : videoType drm = videoType drm') :
    drm = drm' := by
  revert h
  cases drm <;> cases drm' <;> decide

/-- The seat has one video device for a node. -/
theorem Attached.nodes_nodup (h : Attached answers mon) :
    (mon.user.videos.map (·.2.node)).Nodup := by
  refine List.Nodup.map_on (fun v hv w hw heq => ?_) h.sound.videos_nodup.of_map
  obtain ⟨d, hd, -, hdata, hnode, -⟩ := h.linked.video v hv
  obtain ⟨e, he, -, hdata', hnode', -⟩ := h.linked.video w hw
  have hnodes := h.orderly.nodes
  rw [Monitor.tags, List.map_map] at hnodes
  obtain rfl := List.inj_on_of_nodup_map hnodes hd he (hnode.trans (heq.trans hnode'.symm))
  rw [hdata] at hdata'
  exact Entries.eq_of_key_eq h.sound.videos_nodup hv hw (Option.some.inj hdata')

/-- The video devices are those graphics cards that are not ignored. -/
theorem Complete.videos_iff (h : Complete conf mon) (hfollows : Follows answers mon)
    (node : List UInt8) (drm : Bool) :
    (∃ v ∈ mon.user.videos, v.2.node = node ∧ v.2.drm = drm) ↔
      ∃ flags, mon.known node = some (videoType drm, flags) ∧
        gpuIsIgnored conf (videoType drm) flags = false := by
  constructor
  · rintro ⟨v, hv, rfl, rfl⟩
    obtain ⟨d, hd, -, hdata, hnode, htype⟩ := hfollows.linked.video v hv
    have hne : d.2.type ≠ .input := htype ▸ videoType_ne _
    have hused := (h.kept d hd hne).mp (by rw [hdata]; rfl)
    rw [htype] at hused
    exact ⟨d.2.flags, (Monitor.known_eq_some hfollows.orderly).mpr ⟨d, hd, hnode, htype, rfl⟩,
      hused⟩
  · rintro ⟨flags, hknown, hused⟩
    obtain ⟨d, hd, hnode, htype, rfl⟩ := (Monitor.known_eq_some hfollows.orderly).mp hknown
    have hne : d.2.type ≠ .input := htype ▸ videoType_ne _
    rw [← htype] at hused
    obtain ⟨a, hdata⟩ := Option.isSome_iff_exists.mp ((h.kept d hd hne).mpr hused)
    obtain ⟨v, hv, rfl, hudev⟩ := hfollows.linked.device d hd hne a hdata
    obtain ⟨e, he, he1, -, henode, hetype⟩ := hfollows.linked.video v hv
    obtain rfl := Entries.eq_of_key_eq hfollows.addrs he hd (he1.trans hudev)
    exact ⟨v, hv, henode.symm.trans hnode, videoType_injective (hetype.symm.trans htype)⟩

/-- In every state of a run in which nothing fails, the seat has one video device for each node
that the reports about it leave as a graphics card of this seat and that the options do not
ignore, and it has no others. In the foreground all of them are set up. -/
theorem videos_exact (hcalm : Calm answers) (hmalloc : malloc.Succeeds)
    (hfiles : files.Succeeds) (seatName : List UInt8) (conf : DeviceConf)
    (es : List DeviceEvent) :
    let seat := (Runs.run (step malloc files answers seatName) (Monitor.new (new conf)) es).user
    (seat.videos.map (·.2.node)).Nodup ∧
    (∀ node drm, (∃ v ∈ seat.videos, v.2.node = node ∧ v.2.drm = drm) ↔
      ∃ flags, Runs.run (Monitor.nodeStep seatName) none
          (es.flatMap (DeviceEvent.reports node)) = some (videoType drm, flags) ∧
        gpuIsIgnored conf (videoType drm) flags = false) ∧
    (seat.foreground = true → ∀ v ∈ seat.videos, v.2.video.isSome = true) := by
  have hstart : Complete conf (Monitor.new (new conf)) :=
    ⟨rfl, fun _ hd => absurd hd List.not_mem_nil⟩
  obtain ⟨hfollows, hcomplete⟩ := Runs.invariant_run
    (J := fun mon => Follows answers mon ∧ Complete conf mon)
    (fun mon e h => ⟨follows_step malloc files answers seatName e h.1,
      complete_step hcalm hmalloc hfiles seatName e h.1 h.2⟩)
    ⟨follows_new answers conf, hstart⟩ es
  refine ⟨hfollows.nodes_nodup, fun node drm => ?_, hfollows.ready.up⟩
  rw [hcomplete.videos_iff hfollows node drm,
    known_run hmalloc seatName es (follows_new answers conf) node]
  rfl

section Example

open CString

/-- The VT is entered, and a card and a keyboard are found. -/
def cardFound : List DeviceEvent :=
  [.vtActivate true,
    .scan [(Monitor.card none, Monitor.calmProbe), (Monitor.keyboard, Monitor.calmProbe)]]

theorem videos_exact_cardFound :
    ∃ v ∈ (Runs.run (step Malloc.bump Malloc.bump (fun _ => calmAnswer) (lit "seat0"))
        (Monitor.new (new ⟨true, true, .primary⟩)) cardFound).user.videos,
      v.2.node = lit "/dev/dri/card0" ∧ v.2.drm = true :=
  ((videos_exact ⟨fun _ => rfl, fun _ => rfl, fun _ _ _ => rfl, fun _ => rfl⟩
    Malloc.bump_succeeds Malloc.bump_succeeds (lit "seat0") ⟨true, true, .primary⟩
    cardFound).2.1 (lit "/dev/dri/card0") true).mpr ⟨⟨false, true, false⟩, by decide, by decide⟩

end Example

end DeviceSeat

end Faceplate.Seats
