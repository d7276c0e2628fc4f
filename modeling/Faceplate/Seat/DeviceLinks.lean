import Faceplate.Seat.DeviceHolds

/-!
# Pointers between a monitor and its seat

What the monitor keeps for a graphics card is a video device of the seat that points back to
it, or nothing, and each device of the seat is kept by the monitor under its node. Here is what
each function of the seat does to these pointers.
-/

namespace Faceplate.Seats

open Faceplate.Uterm Announcements

/-- The type of a video device in the monitor. -/
def videoType (drm : Bool) : MonitorDevType := if drm then .drm else .fbdev

namespace DeviceSeat

/-- The pointers between the devices of a monitor and those of its seat. -/
structure Linked (devices : List (ℕ × MonitorDev)) (seat : DeviceSeat) : Prop where
  video : ∀ v ∈ seat.videos, ∃ d ∈ devices, d.1 = v.2.udev ∧ d.2.data = some v.1 ∧
    d.2.node = v.2.node ∧ d.2.type = videoType v.2.drm
  device : ∀ d ∈ devices, d.2.type ≠ .input → ∀ a, d.2.data = some a →
    ∃ v ∈ seat.videos, v.1 = a ∧ v.2.udev = d.1
  input : ∀ i ∈ seat.inputs, ∃ d ∈ devices, d.2.type = .input ∧ d.2.data = some i.1 ∧
    d.2.node = i.2.node

/-- In the foreground every video device is set up, and an input device is open exactly while
the input layer is awake. -/
structure Ready (seat : DeviceSeat) : Prop where
  ground : seat.foreground = true → seat.awake = true
  up : seat.foreground = true → ∀ v ∈ seat.videos, v.2.video.isSome = true
  inputs : ∀ i ∈ seat.inputs, i.2.rfd.isSome = true ↔ 0 < seat.inputAwake

variable {malloc files : Malloc} {answers : ℕ → Answer} {seat seat' : DeviceSeat}
  {devices : List (ℕ × MonitorDev)}

/-! ### Links -/

theorem videoType_ne (drm : Bool) : videoType drm ≠ .input := by
  cases drm <;> decide

/-- The links look at the addresses, nodes and types of what the seat has. -/
theorem Linked.congr (h : Linked devices seat)
    (hvideos : seat'.videos.map (fun v => (v.1, v.2.udev, v.2.node, v.2.drm)) =
      seat.videos.map fun v => (v.1, v.2.udev, v.2.node, v.2.drm))
    (hinputs : ∀ i' ∈ seat'.inputs, ∃ i ∈ seat.inputs, i.1 = i'.1 ∧ i.2.node = i'.2.node) :
    Linked devices seat' := by
  have hmem : ∀ {one two : DeviceSeat},
      one.videos.map (fun v => (v.1, v.2.udev, v.2.node, v.2.drm)) =
        two.videos.map (fun v => (v.1, v.2.udev, v.2.node, v.2.drm)) →
      ∀ v ∈ one.videos, ∃ w ∈ two.videos, w.1 = v.1 ∧ w.2.udev = v.2.udev ∧
        w.2.node = v.2.node ∧ w.2.drm = v.2.drm := by
    intro one two heq v hv
    have himage := List.mem_map_of_mem (f := fun v : ℕ × KmsconVideo =>
      (v.1, v.2.udev, v.2.node, v.2.drm)) hv
    rw [heq] at himage
    obtain ⟨w, hw, hwv⟩ := List.mem_map.mp himage
    simp only [Prod.mk.injEq] at hwv
    exact ⟨w, hw, hwv⟩
  constructor
  · intro v hv
    obtain ⟨w, hw, haddr, hudev, hnode, hdrm⟩ := hmem hvideos v hv
    obtain ⟨d, hd, hd1, hdata, hdnode, hdtype⟩ := h.video w hw
    exact ⟨d, hd, hd1.trans hudev, hdata.trans (by rw [haddr]), hdnode.trans hnode,
      hdtype.trans (by rw [hdrm])⟩
  · intro d hd htype a hdata
    obtain ⟨v, hv, ha, hudev⟩ := h.device d hd htype a hdata
    obtain ⟨w, hw, haddr, hwudev, -, -⟩ := hmem hvideos.symm v hv
    exact ⟨w, hw, haddr.trans ha, hwudev.trans hudev⟩
  · intro i' hi'
    obtain ⟨i, hi, haddr, hnode⟩ := hinputs i' hi'
    obtain ⟨d, hd, htype, hdata, hdnode⟩ := h.input i hi
    exact ⟨d, hd, htype, hdata.trans (by rw [haddr]), hdnode.trans hnode⟩

/-- A device whose data is set is one with this data, and all others are as before. -/
theorem mem_withData {set : ℕ × Option ℕ} {d : ℕ × MonitorDev} :
    d ∈ Monitor.withData set devices ↔
      (d ∈ devices ∧ d.1 ≠ set.1) ∨
        ∃ e ∈ devices, e.1 = set.1 ∧ d = (e.1, { e.2 with data := set.2 }) := by
  rw [Monitor.withData, Entries.modify, List.mem_map]
  constructor
  · rintro ⟨e, he, rfl⟩
    split_ifs with hkey
    · exact Or.inr ⟨e, he, hkey, rfl⟩
    · exact Or.inl ⟨he, hkey⟩
  · rintro (⟨hd, hkey⟩ | ⟨e, he, hkey, rfl⟩)
    · exact ⟨d, hd, if_neg hkey⟩
    · exact ⟨e, he, if_pos hkey⟩

/-- The pointer to a video device that is dropped is taken back. -/
theorem Linked.drop (h : Linked devices seat) (hsound : seat.Sound answers)
    (haddrs : (devices.map Prod.fst).Nodup) {v : ℕ × KmsconVideo} (hv : v ∈ seat.videos)
    (hvideos : seat'.videos = seat.videos.erase v) (hinputs : seat'.inputs = seat.inputs) :
    Linked (Monitor.withData (v.2.udev, none) devices) seat' := by
  have herase : ∀ w, w ∈ seat'.videos ↔ w ∈ seat.videos ∧ w.1 ≠ v.1 := by
    intro w
    rw [hvideos]
    exact Entries.mem_erase_iff hsound.videos_nodup hv
  obtain ⟨d₀, hd₀, hd₀1, hdata₀, -, htype₀⟩ := h.video v hv
  constructor
  · intro w hw
    obtain ⟨hw, hne⟩ := (herase w).mp hw
    obtain ⟨d, hd, hd1, hdata, hrest⟩ := h.video w hw
    refine ⟨d, mem_withData.mpr (Or.inl ⟨hd, fun heq => hne ?_⟩), hd1, hdata, hrest⟩
    -- the same device would keep two pointers
    have hsame := Entries.eq_of_key_eq haddrs hd hd₀ (heq.trans hd₀1.symm)
    rw [hsame, hdata₀] at hdata
    exact (Option.some.inj hdata).symm
  · intro d hd htype a hdata
    rcases mem_withData.mp hd with ⟨hd, hne⟩ | ⟨e, he, -, rfl⟩
    · obtain ⟨w, hw, ha, hudev⟩ := h.device d hd htype a hdata
      refine ⟨w, (herase w).mpr ⟨hw, fun heq => hne ?_⟩, ha, hudev⟩
      have hsame := Entries.eq_of_key_eq hsound.videos_nodup hw hv heq
      rw [← hudev, hsame]
    · cases hdata
  · intro i hi
    rw [hinputs] at hi
    obtain ⟨d, hd, htype, hdata, hnode⟩ := h.input i hi
    refine ⟨d, mem_withData.mpr (Or.inl ⟨hd, fun heq => ?_⟩), htype, hdata, hnode⟩
    have hsame := Entries.eq_of_key_eq haddrs hd hd₀ (heq.trans hd₀1.symm)
    rw [hsame, htype₀] at htype
    exact videoType_ne _ htype

/-! ### Coming to the foreground -/

theorem map_modify_withVideo (a : ℕ) (video : Option VideoObject)
    (videos : List (ℕ × KmsconVideo)) :
    (Entries.modify a (KmsconVideo.withVideo video) videos).map
        (fun v => (v.1, v.2.udev, v.2.node, v.2.drm)) =
      videos.map fun v => (v.1, v.2.udev, v.2.node, v.2.drm) := by
  rw [Entries.modify, List.map_map]
  apply List.map_congr_left
  intro v hv
  rw [Function.comp_apply]
  split_ifs <;> rfl

/-- The links while a function of the seat runs, which has set data of devices that are
there. -/
structure LinkedBy (devices : List (ℕ × MonitorDev)) (acc : DeviceSeat × DataSets) : Prop where
  linked : Linked (Monitor.setAll acc.2 devices) acc.1
  there : ∀ set ∈ acc.2, set.1 ∈ devices.map Prod.fst

theorem LinkedBy_iff {acc : DeviceSeat × DataSets} : LinkedBy devices acc ↔
    Linked (Monitor.setAll acc.2 devices) acc.1 ∧ ∀ set ∈ acc.2, set.1 ∈ devices.map Prod.fst :=
  ⟨fun h => ⟨h.linked, h.there⟩, fun h => ⟨h.1, h.2⟩⟩

theorem raiseVideo_linked (files : Malloc) {acc : DeviceSeat × DataSets} (h : acc.1.Sound answers)
    (haddrs : (devices.map Prod.fst).Nodup) (hlinked : LinkedBy devices acc) (a : ℕ) :
    LinkedBy devices (raiseVideo files answers acc a) := by
  obtain ⟨-, -, hinputs, hraised⟩ := raiseVideo_spec files answers h a
  have hall : ∀ i' ∈ (raiseVideo files answers acc a).1.inputs,
      ∃ i ∈ acc.1.inputs, i.1 = i'.1 ∧ i.2.node = i'.2.node := by
    rw [hinputs]
    exact fun i hi => ⟨i, hi, rfl, rfl⟩
  cases hraised with
  | stays heq hup => rwa [heq]
  | up v hv ha video hvideo hvideos hsets =>
    refine ⟨?_, hsets ▸ hlinked.there⟩
    rw [hsets]
    exact hlinked.linked.congr (by rw [hvideos, map_modify_withVideo]) hall
  | dropped v hv ha hvideos hsets =>
    have haddrs' : ((Monitor.setAll acc.2 devices).map Prod.fst).Nodup := by
      rwa [Monitor.keys_setAll]
    rw [← Monitor.keys_setAll acc.2 devices] at haddrs
    constructor
    · rw [hsets, Monitor.setAll_concat]
      exact hlinked.linked.drop h haddrs' hv hvideos hinputs
    · rw [hsets]
      intro set hset
      rcases List.mem_append.mp hset with hset | hset
      · exact hlinked.there set hset
      · obtain rfl := List.mem_singleton.mp hset
        obtain ⟨d, hd, hd1, -⟩ := hlinked.linked.video v hv
        rw [← Monitor.keys_setAll acc.2 devices, ← hd1]
        exact List.mem_map_of_mem hd

/-- The first loop of `seat_go_foreground`: when all addresses have had their turn, every device
that is left is set up. -/
theorem raiseVideos_spec (files : Malloc) (addrs : List ℕ) {acc : DeviceSeat × DataSets}
    (h : acc.1.Sound answers) (haddrs : (devices.map Prod.fst).Nodup)
    (hlinked : LinkedBy devices acc)
    (hrest : ∀ v ∈ acc.1.videos, v.1 ∈ addrs ∨ v.2.video.isSome = true) :
    (addrs.foldl (raiseVideo files answers) acc).1.Sound answers ∧
      SameGround acc.1 (addrs.foldl (raiseVideo files answers) acc).1 ∧
      (addrs.foldl (raiseVideo files answers) acc).1.inputs = acc.1.inputs ∧
      LinkedBy devices (addrs.foldl (raiseVideo files answers) acc) ∧
      ∀ v ∈ (addrs.foldl (raiseVideo files answers) acc).1.videos, v.2.video.isSome = true := by
  induction addrs generalizing acc with
  | nil =>
    refine ⟨h, .refl _, rfl, hlinked, fun v hv => ?_⟩
    rcases hrest v hv with hnone | hup
    · cases hnone
    · exact hup
  | cons a addrs ih =>
    obtain ⟨hsound, hground, hinputs, hraised⟩ := raiseVideo_spec files answers h a
    have hlinked' := raiseVideo_linked files h haddrs hlinked a
    have hrest' : ∀ v ∈ (raiseVideo files answers acc a).1.videos,
        v.1 ∈ addrs ∨ v.2.video.isSome = true := by
      have hold : ∀ v ∈ acc.1.videos, v.1 ≠ a → v.1 ∈ addrs ∨ v.2.video.isSome = true := by
        intro v hv hne
        rcases hrest v hv with hmem | hup
        · exact Or.inl ((List.mem_cons.mp hmem).resolve_left hne)
        · exact Or.inr hup
      intro v hv
      cases hraised with
      | stays heq hup =>
        rw [heq] at hv
        by_cases hva : v.1 = a
        · exact Or.inr (hup v hv hva)
        · exact hold v hv hva
      | up w hw ha video hvideo hvideos hsets =>
        rw [hvideos] at hv
        obtain ⟨v₀, hv₀, rfl⟩ := Entries.mem_modify hv
        split_ifs with hkey
        · exact Or.inr hvideo
        · exact hold v₀ hv₀ hkey
      | dropped w hw ha hvideos hsets =>
        rw [hvideos] at hv
        obtain ⟨hv, hne⟩ := (Entries.mem_erase_iff h.videos_nodup hw).mp hv
        exact hold v hv (ha ▸ hne)
    obtain ⟨hlast, hgrounds, hsame, hlinks, hups⟩ := ih hsound hlinked' hrest'
    exact ⟨hlast, hground.trans hgrounds, hsame.trans hinputs, hlinks, hups⟩

/-! ### The input layer goes to sleep and wakes up -/

/-- What a round over the input devices does: each device that is there afterwards was there
before, and it has what the rounds are to bring about or is not the one of this round. -/
def InputRound (P : InputDev → Prop) (a : ℕ) (inputs inputs' : List (ℕ × InputDev)) : Prop :=
  ∀ i' ∈ inputs', (∃ i ∈ inputs, i.1 = i'.1 ∧ i.2.node = i'.2.node) ∧
    (P i'.2 ∨ i' ∈ inputs ∧ i'.1 ≠ a)

/-- Rounds over the input devices, one for each address: at the end all devices have what the
rounds are to bring about. -/
theorem inputRounds_spec {f : DeviceSeat → ℕ → DeviceSeat} {P : InputDev → Prop}
    (hround : ∀ seat a, Sound answers seat → (f seat a).Sound answers ∧ SameGround seat (f seat a) ∧
      (f seat a).videos = seat.videos ∧ InputRound P a seat.inputs (f seat a).inputs)
    (addrs : List ℕ) (h : seat.Sound answers)
    (hrest : ∀ i ∈ seat.inputs, i.1 ∈ addrs ∨ P i.2) :
    (addrs.foldl f seat).Sound answers ∧ SameGround seat (addrs.foldl f seat) ∧
      (addrs.foldl f seat).videos = seat.videos ∧
      (∀ i' ∈ (addrs.foldl f seat).inputs,
        ∃ i ∈ seat.inputs, i.1 = i'.1 ∧ i.2.node = i'.2.node) ∧
      ∀ i ∈ (addrs.foldl f seat).inputs, P i.2 := by
  induction addrs generalizing seat with
  | nil =>
    refine ⟨h, .refl _, rfl, fun i hi => ⟨i, hi, rfl, rfl⟩, fun i hi => ?_⟩
    rcases hrest i hi with hnone | hdone
    · cases hnone
    · exact hdone
  | cons a addrs ih =>
    obtain ⟨hsound, hground, hvideos, hinputs⟩ := hround seat a h
    have hrest' : ∀ i ∈ (f seat a).inputs, i.1 ∈ addrs ∨ P i.2 := by
      intro i hi
      rcases (hinputs i hi).2 with hdone | ⟨hold, hne⟩
      · exact Or.inr hdone
      · exact (hrest i hold).imp (fun hmem => (List.mem_cons.mp hmem).resolve_left hne) id
    obtain ⟨hlast, hgrounds, hsame, hfrom, hdone⟩ := ih hsound hrest'
    refine ⟨hlast, hground.trans hgrounds, hsame.trans hvideos, fun i' hi' => ?_, hdone⟩
    obtain ⟨i, hi, haddr, hnode⟩ := hfrom i' hi'
    obtain ⟨i₀, hi₀, haddr₀, hnode₀⟩ := (hinputs i hi).1
    exact ⟨i₀, hi₀, haddr₀.trans haddr, hnode₀.trans hnode⟩

theorem sleepRound_inputs (seat : DeviceSeat) (a : ℕ) (h : Sound answers seat) :
    (seat.sleepRound a).Sound answers ∧ SameGround seat (seat.sleepRound a) ∧
      (seat.sleepRound a).videos = seat.videos ∧
      InputRound (·.rfd = none) a seat.inputs (seat.sleepRound a).inputs := by
  obtain ⟨hsound, hground, hvideos, hslept⟩ := sleepRound_spec h a
  refine ⟨hsound, hground, hvideos, fun i' hi' => ?_⟩
  cases hslept with
  | stays heq hnone =>
    rw [heq] at hi'
    exact ⟨⟨i', hi', rfl, rfl⟩, Or.inr ⟨hi', fun ha => hnone (ha ▸ List.mem_map_of_mem hi')⟩⟩
  | closed d hd ha heq =>
    rw [heq] at hi'
    obtain ⟨i₀, hi₀, rfl⟩ := Entries.mem_modify hi'
    split_ifs with hkey
    · exact ⟨⟨d, hd, ha.trans hkey.symm, rfl⟩, Or.inl rfl⟩
    · exact ⟨⟨i₀, hi₀, rfl, rfl⟩, Or.inr ⟨hi₀, hkey⟩⟩

theorem wakeRound_inputs (files : Malloc) (seat : DeviceSeat) (a : ℕ) (h : Sound answers seat) :
    (seat.wakeRound files answers a).Sound answers ∧
      SameGround seat (seat.wakeRound files answers a) ∧
      (seat.wakeRound files answers a).videos = seat.videos ∧
      InputRound (·.rfd.isSome = true) a seat.inputs (seat.wakeRound files answers a).inputs := by
  obtain ⟨hsound, hground, hvideos, hwoken⟩ := wakeRound_spec files answers h a
  refine ⟨hsound, hground, hvideos, fun i' hi' => ?_⟩
  cases hwoken with
  | stays heq hopen =>
    rw [heq] at hi'
    refine ⟨⟨i', hi', rfl, rfl⟩, ?_⟩
    by_cases ha : i'.1 = a
    · exact Or.inl (hopen i' hi' ha)
    · exact Or.inr ⟨hi', ha⟩
  | opened d hd ha dev hnode hopen heq =>
    rw [heq] at hi'
    obtain ⟨i₀, hi₀, rfl⟩ := Entries.mem_modify hi'
    split_ifs with hkey
    · exact ⟨⟨d, hd, ha.trans hkey.symm, hnode.symm⟩, Or.inl hopen⟩
    · exact ⟨⟨i₀, hi₀, rfl, rfl⟩, Or.inr ⟨hi₀, hkey⟩⟩
  | dropped d hd ha heq =>
    rw [heq] at hi'
    obtain ⟨hi', hne⟩ := (Entries.mem_erase_iff h.inputs_nodup hd).mp hi'
    exact ⟨⟨i', hi', rfl, rfl⟩, Or.inr ⟨hi', ha ▸ hne⟩⟩

/-- What the input layer does when it is woken or put to sleep, or loses a device: the seat
stays as it is, no device is new, and a device is open exactly while the layer is awake. -/
structure InputKept (seat seat' : DeviceSeat) : Prop where
  conf : seat'.conf = seat.conf
  awake : seat'.awake = seat.awake
  foreground : seat'.foreground = seat.foreground
  videos : seat'.videos = seat.videos
  inputs : ∀ i' ∈ seat'.inputs, ∃ i ∈ seat.inputs, i.1 = i'.1 ∧ i.2.node = i'.2.node
  opened : (∀ i ∈ seat.inputs, i.2.rfd.isSome = true ↔ 0 < seat.inputAwake) →
    ∀ i ∈ seat'.inputs, i.2.rfd.isSome = true ↔ 0 < seat'.inputAwake

/-- The counter of the input layer does not matter to `Sound`. -/
theorem Sound.withInputAwake (h : seat.Sound answers) (n : ℤ) :
    { seat with inputAwake := n }.Sound answers := by
  obtain ⟨⟨hnodup, hperm, hfault⟩, hdistinct, hsane, hlost⟩ := h
  exact ⟨⟨hnodup, hperm, hfault⟩, hdistinct, hsane, hlost⟩

theorem inputSleep_spec (h : seat.Sound answers) :
    seat.inputSleep.Sound answers ∧ InputKept seat seat.inputSleep := by
  have hcount := h.withInputAwake (seat.inputAwake - 1)
  unfold inputSleep
  dsimp only
  split_ifs with hnot
  · refine ⟨hcount, rfl, rfl, rfl, rfl, fun i hi => ⟨i, hi, rfl, rfl⟩, fun hopen i hi => ?_⟩
    rw [hopen i hi]
    dsimp only
    omega
  · obtain ⟨hsound, hground, hvideos, hinputs, hclosed⟩ :=
      inputRounds_spec (fun seat a h => sleepRound_inputs seat a h) (seat.inputs.map Prod.fst)
        hcount fun i hi => Or.inl (List.mem_map_of_mem hi)
    refine ⟨hsound, hground.conf, hground.awake, hground.foreground, hvideos, hinputs,
      fun _ i hi => ?_⟩
    rw [hclosed i hi, hground.inputAwake]
    simp only [Option.isSome_none, Bool.false_eq_true, false_iff]
    omega

theorem inputWakeUp_spec (files : Malloc) (h : seat.Sound answers) :
    (seat.inputWakeUp files answers).Sound answers ∧
      InputKept seat (seat.inputWakeUp files answers) := by
  have hcount := h.withInputAwake (seat.inputAwake + 1)
  unfold inputWakeUp
  dsimp only
  split_ifs with hnot
  · refine ⟨hcount, rfl, rfl, rfl, rfl, fun i hi => ⟨i, hi, rfl, rfl⟩, fun hopen i hi => ?_⟩
    rw [hopen i hi]
    dsimp only
    omega
  · obtain ⟨hsound, hground, hvideos, hinputs, hopen⟩ :=
      inputRounds_spec (fun seat a h => wakeRound_inputs files seat a h)
        (seat.inputs.map Prod.fst) hcount fun i hi => Or.inl (List.mem_map_of_mem hi)
    refine ⟨hsound, hground.conf, hground.awake, hground.foreground, hvideos, hinputs,
      fun _ i hi => ?_⟩
    rw [hground.inputAwake]
    exact iff_of_true (hopen i hi) (by dsimp only; omega)

theorem inputRemoveDev_spec (data : Option ℕ) (h : seat.Sound answers) :
    (seat.inputRemoveDev data).Sound answers ∧ SameGround seat (seat.inputRemoveDev data) ∧
      (seat.inputRemoveDev data).videos = seat.videos ∧
      ∀ i, i ∈ (seat.inputRemoveDev data).inputs ↔ i ∈ seat.inputs ∧ data ≠ some i.1 := by
  unfold inputRemoveDev
  cases hfind : data.bind fun a => Entries.lookup a seat.inputs with
  | none =>
    refine ⟨h, .refl _, rfl, fun i => (and_iff_left_of_imp fun hi hdata => ?_).symm⟩
    rw [hdata, Option.bind_some] at hfind
    exact Entries.lookup_eq_none.mp hfind (List.mem_map_of_mem hi)
  | some d =>
    obtain ⟨a, rfl, hlook⟩ := Option.bind_eq_some_iff.mp hfind
    obtain ⟨hd, rfl⟩ := Entries.mem_of_lookup hlook
    obtain ⟨hsound, hground, hvideos, hinputs, -⟩ := inputFreeDev_spec h hd
    refine ⟨hsound, hground, hvideos, fun i => ?_⟩
    rw [hinputs, Entries.mem_erase_iff h.inputs_nodup hd, Ne, Ne, Option.some.injEq, eq_comm]

theorem inputRemoveDev_kept (data : Option ℕ) (h : seat.Sound answers) :
    InputKept seat (seat.inputRemoveDev data) := by
  obtain ⟨-, hground, hvideos, hinputs⟩ := inputRemoveDev_spec data h
  refine ⟨hground.conf, hground.awake, hground.foreground, hvideos, fun i hi =>
    ⟨i, ((hinputs i).mp hi).1, rfl, rfl⟩, fun hopen i hi => ?_⟩
  rw [hground.inputAwake]
  exact hopen i ((hinputs i).mp hi).1

theorem InputKept.linked (h : InputKept seat seat') (hlinked : Linked devices seat) :
    Linked devices seat' :=
  hlinked.congr (by rw [h.videos]) h.inputs

theorem InputKept.ready (h : InputKept seat seat') (hready : seat.Ready) : seat'.Ready where
  ground := by
    rw [h.foreground, h.awake]
    exact hready.ground
  up := by
    rw [h.foreground, h.videos]
    exact hready.up
  inputs := h.opened hready.inputs

/-! ### Devices that come and go -/

/-- A new device of the monitor that keeps no pointer. -/
theorem Linked.cons (h : Linked devices seat) {d : ℕ × MonitorDev} (hdata : d.2.data = none)
    (hvideos : seat'.videos = seat.videos) (hinputs : seat'.inputs = seat.inputs) :
    Linked (d :: devices) seat' := by
  constructor
  · intro v hv
    rw [hvideos] at hv
    obtain ⟨e, he, hrest⟩ := h.video v hv
    exact ⟨e, List.mem_cons_of_mem _ he, hrest⟩
  · intro e he htype a hkept
    rcases List.mem_cons.mp he with rfl | he
    · rw [hdata] at hkept
      cases hkept
    · rw [hvideos]
      exact h.device e he htype a hkept
  · intro i hi
    rw [hinputs] at hi
    obtain ⟨e, he, hrest⟩ := h.input i hi
    exact ⟨e, List.mem_cons_of_mem _ he, hrest⟩

/-- A new device of the monitor that keeps a new video device. -/
theorem Linked.consVideo (h : Linked devices seat) {d : ℕ × MonitorDev} {v : ℕ × KmsconVideo}
    (hudev : d.1 = v.2.udev) (hdata : d.2.data = some v.1) (hnode : d.2.node = v.2.node)
    (htype : d.2.type = videoType v.2.drm)
    (hvideos : seat'.videos = v :: seat.videos) (hinputs : seat'.inputs = seat.inputs) :
    Linked (d :: devices) seat' := by
  constructor
  · intro w hw
    rw [hvideos] at hw
    rcases List.mem_cons.mp hw with rfl | hw
    · exact ⟨d, List.mem_cons_self, hudev, hdata, hnode, htype⟩
    · obtain ⟨e, he, hrest⟩ := h.video w hw
      exact ⟨e, List.mem_cons_of_mem _ he, hrest⟩
  · intro e he hetype a hkept
    rw [hvideos]
    rcases List.mem_cons.mp he with rfl | he
    · rw [hdata, Option.some.injEq] at hkept
      exact ⟨v, List.mem_cons_self, hkept, hudev.symm⟩
    · obtain ⟨w, hw, hrest⟩ := h.device e he hetype a hkept
      exact ⟨w, List.mem_cons_of_mem _ hw, hrest⟩
  · intro i hi
    rw [hinputs] at hi
    obtain ⟨e, he, hrest⟩ := h.input i hi
    exact ⟨e, List.mem_cons_of_mem _ he, hrest⟩

/-- A new device of the monitor that keeps a new input device. -/
theorem Linked.consInput (h : Linked devices seat) {d : ℕ × MonitorDev} {i : ℕ × InputDev}
    (htype : d.2.type = .input) (hdata : d.2.data = some i.1) (hnode : d.2.node = i.2.node)
    (hvideos : seat'.videos = seat.videos) (hinputs : seat'.inputs = i :: seat.inputs) :
    Linked (d :: devices) seat' := by
  constructor
  · intro v hv
    rw [hvideos] at hv
    obtain ⟨e, he, hrest⟩ := h.video v hv
    exact ⟨e, List.mem_cons_of_mem _ he, hrest⟩
  · intro e he hetype a hkept
    rcases List.mem_cons.mp he with rfl | he
    · exact absurd htype hetype
    · rw [hvideos]
      exact h.device e he hetype a hkept
  · intro j hj
    rw [hinputs] at hj
    rcases List.mem_cons.mp hj with rfl | hj
    · exact ⟨d, List.mem_cons_self, htype, hdata, hnode⟩
    · obtain ⟨e, he, hrest⟩ := h.input j hj
      exact ⟨e, List.mem_cons_of_mem _ he, hrest⟩

theorem withData_cons {a : ℕ} (ha : a ∉ devices.map Prod.fst) (d : MonitorDev)
    (data : Option ℕ) :
    Monitor.withData (a, data) ((a, d) :: devices) = (a, { d with data := data }) :: devices := by
  have hrest := Entries.modify_of_notMem (f := fun d : MonitorDev => { d with data := data }) ha
  rw [Monitor.withData, Entries.modify, List.map_cons, if_pos rfl]
  exact congrArg _ hrest

/-- Data is set of the new device only. -/
theorem mem_keys_of_sets {udev : ℕ} {d : MonitorDev} {sets : DataSets}
    (hsets : ∀ set ∈ sets, set.1 = udev) :
    ∀ set ∈ sets, set.1 ∈ ((udev, d) :: devices).map Prod.fst := by
  intro set hset
  rw [hsets set hset]
  exact List.mem_cons_self

/-- What `kmscon_seat_add_video` does for a device that has just been put into the list. -/
theorem kmsconSeatAddVideo_linked (node : List UInt8) {type : MonitorDevType}
    (htype : type ≠ .input) (flags : MonitorFlags) {udev : ℕ} (hudev : udev ∉ devices.map Prod.fst)
    (h : seat.Sound answers) (hready : seat.Ready) (hlinked : Linked devices seat) :
    (seat.kmsconSeatAddVideo malloc files answers type flags node udev).1.Sound answers ∧
      (seat.kmsconSeatAddVideo malloc files answers type flags node udev).1.Ready ∧
      LinkedBy ((udev, ⟨type, flags, node, none⟩) :: devices)
        (seat.kmsconSeatAddVideo malloc files answers type flags node udev) := by
  obtain ⟨hsound, hground, hinputs, hadded⟩ :=
    kmsconSeatAddVideo_spec malloc files answers h type flags node udev
  refine ⟨hsound, ⟨?_, ?_, ?_⟩, ?_⟩
  · rw [hground.foreground, hground.awake]
    exact hready.ground
  · intro hfore v hv
    rw [hground.foreground] at hfore
    cases hadded with
    | none hvideos hsets =>
      rw [hvideos] at hv
      exact hready.up hfore v hv
    | new a hnew video hup hvideos hsets =>
      rw [hvideos] at hv
      rcases List.mem_cons.mp hv with rfl | hv
      · exact hup (hready.ground hfore)
      · exact hready.up hfore v hv
  · rw [hinputs, hground.inputAwake]
    exact hready.inputs
  · cases hadded with
    | none hvideos hsets =>
      rcases hsets with hnone | ⟨a, htwo⟩
      · rw [LinkedBy_iff, hnone]
        exact ⟨hlinked.cons rfl hvideos hinputs, mem_keys_of_sets (by simp)⟩
      · rw [LinkedBy_iff, htwo]
        refine ⟨?_, mem_keys_of_sets (by simp)⟩
        rw [Monitor.setAll, List.foldl_cons, List.foldl_cons, List.foldl_nil, withData_cons hudev,
          withData_cons hudev]
        exact hlinked.cons rfl hvideos hinputs
    | new a hnew video hup hvideos hsets =>
      rw [LinkedBy_iff, hsets]
      refine ⟨?_, mem_keys_of_sets (by simp)⟩
      rw [Monitor.setAll, List.foldl_cons, List.foldl_nil, withData_cons hudev]
      refine hlinked.consVideo rfl rfl rfl ?_ hvideos hinputs
      cases type with
      | drm => rfl
      | fbdev => rfl
      | input => exact absurd rfl htype

/-- What `seat_monitor_new_dev` does for a device that has just been put into the list. -/
theorem seatMonitorNewDev_spec (node : List UInt8) (type : MonitorDevType) (flags : MonitorFlags)
    {udev : ℕ} (hudev : udev ∉ devices.map Prod.fst) (h : seat.Sound answers)
    (hready : seat.Ready) (hlinked : Linked devices seat) :
    (seat.seatMonitorNewDev malloc files answers node type flags udev).1.Sound answers ∧
      (seat.seatMonitorNewDev malloc files answers node type flags udev).1.Ready ∧
      LinkedBy ((udev, ⟨type, flags, node, none⟩) :: devices)
        (seat.seatMonitorNewDev malloc files answers node type flags udev) := by
  cases type with
  | drm => exact kmsconSeatAddVideo_linked node (by decide) flags hudev h hready hlinked
  | fbdev => exact kmsconSeatAddVideo_linked node (by decide) flags hudev h hready hlinked
  | input =>
    obtain ⟨hsound, hground, hvideos, hadded⟩ := inputAddDev_spec malloc files answers h node
    unfold seatMonitorNewDev
    dsimp only
    refine ⟨hsound, ⟨?_, ?_, ?_⟩, ?_⟩
    · rw [hground.foreground, hground.awake]
      exact hready.ground
    · rw [hground.foreground, hvideos]
      exact hready.up
    · rw [hground.inputAwake]
      cases hadded with
      | none hdata hinputs =>
        rw [hinputs]
        exact hready.inputs
      | new a hnew dev hnode hopen hdata hinputs =>
        rw [hinputs]
        exact List.forall_mem_cons.mpr ⟨hopen, hready.inputs⟩
    · rw [LinkedBy_iff]
      refine ⟨?_, mem_keys_of_sets (by simp)⟩
      rw [Monitor.setAll, List.foldl_cons, List.foldl_nil, withData_cons hudev]
      cases hadded with
      | none hdata hinputs => exact hlinked.cons hdata hvideos hinputs
      | new a hnew dev hnode hopen hdata hinputs =>
        exact hlinked.consInput rfl hdata hnode.symm hvideos hinputs

/-- A graphics card that the seat keeps no video device for is taken out of the list. -/
theorem Linked.erase_none (hlinked : Linked devices seat) {d : ℕ × MonitorDev}
    (htype : d.2.type ≠ .input) (hdata : d.2.data = none) : Linked (devices.erase d) seat := by
  refine ⟨fun v hv => ?_, fun e he => hlinked.device e (List.mem_of_mem_erase he), fun i hi => ?_⟩
  · obtain ⟨e, he, he1, hkept, hrest⟩ := hlinked.video v hv
    refine ⟨e, (List.mem_erase_of_ne fun heq => ?_).mpr he, he1, hkept, hrest⟩
    rw [heq, hdata] at hkept
    cases hkept
  · obtain ⟨e, he, hetype, hrest⟩ := hlinked.input i hi
    exact ⟨e, (List.mem_erase_of_ne fun heq : e = d => htype (heq ▸ hetype)).mpr he, hetype, hrest⟩

/-- A graphics card is taken out of the list, and its video device out of the seat. -/
theorem Linked.erase_video (hlinked : Linked devices seat) {d : ℕ × MonitorDev} (hd : d ∈ devices)
    (haddrs : (devices.map Prod.fst).Nodup) (htype : d.2.type ≠ .input) {v : ℕ × KmsconVideo}
    (hv : v ∈ seat.videos) (hnodup : (seat.videos.map Prod.fst).Nodup)
    (hdata : d.2.data = some v.1) (hudev : v.2.udev = d.1)
    (hvideos : seat'.videos = seat.videos.erase v) (hinputs : seat'.inputs = seat.inputs) :
    Linked (devices.erase d) seat' := by
  have herase : ∀ w, w ∈ seat'.videos ↔ w ∈ seat.videos ∧ w.1 ≠ v.1 := by
    intro w
    rw [hvideos]
    exact Entries.mem_erase_iff hnodup hv
  refine ⟨fun w hw => ?_, fun e he hetype a hkept => ?_, fun i hi => ?_⟩
  · obtain ⟨hw, hne⟩ := (herase w).mp hw
    obtain ⟨e, he, he1, hkept, hrest⟩ := hlinked.video w hw
    refine ⟨e, (List.mem_erase_of_ne fun heq => hne ?_).mpr he, he1, hkept, hrest⟩
    rw [heq, hdata] at hkept
    exact (Option.some.inj hkept).symm
  · have hne : e ≠ d := fun heq => (haddrs.of_map.not_mem_erase (heq ▸ he)).elim
    obtain ⟨w, hw, ha, hwudev⟩ := hlinked.device e (List.mem_of_mem_erase he) hetype a hkept
    refine ⟨w, (herase w).mpr ⟨hw, fun heq => hne ?_⟩, ha, hwudev⟩
    have hwv := Entries.eq_of_key_eq hnodup hw hv heq
    refine Entries.eq_of_key_eq haddrs (List.mem_of_mem_erase he) hd ?_
    rw [← hwudev, hwv, hudev]
  · rw [hinputs] at hi
    obtain ⟨e, he, hetype, hrest⟩ := hlinked.input i hi
    exact ⟨e, (List.mem_erase_of_ne fun heq : e = d => htype (heq ▸ hetype)).mpr he, hetype, hrest⟩

/-- What `kmscon_seat_remove_video` does for a device that has just been taken out of the
list. -/
theorem kmsconSeatRemoveVideo_linked {d : ℕ × MonitorDev} (hd : d ∈ devices)
    (htype : d.2.type ≠ .input) (haddrs : (devices.map Prod.fst).Nodup) (h : seat.Sound answers)
    (hlinked : Linked devices seat) :
    (seat.kmsconSeatRemoveVideo d.2.data).1.Sound answers ∧
      (seat.Ready → (seat.kmsconSeatRemoveVideo d.2.data).1.Ready) ∧
      Linked (devices.erase d) (seat.kmsconSeatRemoveVideo d.2.data).1 ∧
      ∀ set ∈ (seat.kmsconSeatRemoveVideo d.2.data).2, set.1 = d.1 := by
  cases hdata : d.2.data with
  | none =>
    exact ⟨h, id, hlinked.erase_none htype hdata, fun _ hset => absurd hset List.not_mem_nil⟩
  | some a =>
    obtain ⟨v, hv, rfl, hudev⟩ := hlinked.device d hd htype a hdata
    obtain ⟨hsound, hground, hvideos, hsame, -, hsets⟩ := removeVideo_spec h hv
    refine ⟨hsound, fun hready => ⟨?_, ?_, ?_⟩, hlinked.erase_video hd haddrs htype hv
      h.videos_nodup hdata hudev hvideos hsame, ?_⟩
    · rw [kmsconSeatRemoveVideo, hground.foreground, hground.awake]
      exact hready.ground
    · rw [kmsconSeatRemoveVideo, hground.foreground, hvideos]
      exact fun hfore w hw => hready.up hfore w (List.mem_of_mem_erase hw)
    · rw [kmsconSeatRemoveVideo, hsame, hground.inputAwake]
      exact hready.inputs
    · rw [kmsconSeatRemoveVideo, hsets]
      exact fun set hset => by rw [List.mem_singleton.mp hset, hudev]

/-- What `seat_monitor_free_dev` does for a device that has just been taken out of the list. -/
theorem seatMonitorFreeDev_spec {d : ℕ × MonitorDev} (hd : d ∈ devices)
    (haddrs : (devices.map Prod.fst).Nodup) (h : seat.Sound answers)
    (hlinked : Linked devices seat) :
    (seat.seatMonitorFreeDev d.2.type d.2.data).1.Sound answers ∧
      (seat.Ready → (seat.seatMonitorFreeDev d.2.type d.2.data).1.Ready) ∧
      Linked (devices.erase d) (seat.seatMonitorFreeDev d.2.type d.2.data).1 ∧
      ∀ set ∈ (seat.seatMonitorFreeDev d.2.type d.2.data).2, set.1 = d.1 := by
  cases htype : d.2.type with
  | drm => exact kmsconSeatRemoveVideo_linked hd (by rw [htype]; decide) haddrs h hlinked
  | fbdev => exact kmsconSeatRemoveVideo_linked hd (by rw [htype]; decide) haddrs h hlinked
  | input =>
    obtain ⟨hsound, hground, hvideos, hleft⟩ := inputRemoveDev_spec d.2.data h
    refine ⟨hsound, (inputRemoveDev_kept d.2.data h).ready,
      ⟨fun v hv => ?_, fun e he hetype a hkept => ?_, fun i hi => ?_⟩,
      fun _ hset => absurd hset List.not_mem_nil⟩
    · obtain ⟨e, he, he1, hkept, hnode, hetype⟩ := hlinked.video v (hvideos ▸ hv)
      refine ⟨e, (List.mem_erase_of_ne fun heq => ?_).mpr he, he1, hkept, hnode, hetype⟩
      rw [heq, htype] at hetype
      exact videoType_ne _ hetype.symm
    · obtain ⟨w, hw, hrest⟩ := hlinked.device e (List.mem_of_mem_erase he) hetype a hkept
      exact ⟨w, hvideos ▸ hw, hrest⟩
    · obtain ⟨hi, hne⟩ := (hleft i).mp hi
      obtain ⟨e, he, hetype, hkept, hnode⟩ := hlinked.input i hi
      exact ⟨e, (List.mem_erase_of_ne fun heq : e = d => hne (heq ▸ hkept)).mpr he, hetype, hkept,
        hnode⟩

end DeviceSeat

end Faceplate.Seats
