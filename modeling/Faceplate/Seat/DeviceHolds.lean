import Mathlib.Data.List.Perm.Basic
import Faceplate.Seat.Devices

/-!
# The descriptors of a seat

Every descriptor that is open belongs to one object: a video device, an input device, or
something that was lost when a video device could not be woken. Functions that open a node
hold its descriptor until an object takes it over; each of them says what it holds at its end.
-/

namespace Faceplate.Seats

open Faceplate.Uterm

/-- The descriptor of a video device. -/
def KmsconVideo.fd (vid : KmsconVideo) : Option ℕ := vid.video.map VideoObject.fd

/-- An input device that is open has been set up. -/
def InputDev.Sane (dev : InputDev) : Prop := dev.rfd.isSome = true → dev.initialized = true

namespace DeviceSeat

/-- The descriptors of the objects. -/
def fds (seat : DeviceSeat) : List ℕ :=
  seat.videos.filterMap (·.2.fd) ++ seat.inputs.filterMap (·.2.rfd) ++ seat.leaked

/-- The open descriptors are those of the objects and some that a function holds. -/
structure Holds (held : List ℕ) (seat : DeviceSeat) : Prop where
  nodup : seat.openFds.Nodup
  perm : seat.openFds.Perm (held ++ seat.fds)
  fault : seat.fault = false

/-- Nothing but descriptors, answers and faults differs. -/
structure SameObjects (seat seat' : DeviceSeat) : Prop where
  conf : seat'.conf = seat.conf
  awake : seat'.awake = seat.awake
  foreground : seat'.foreground = seat.foreground
  inputAwake : seat'.inputAwake = seat.inputAwake
  videos : seat'.videos = seat.videos
  inputs : seat'.inputs = seat.inputs
  leaked : seat'.leaked = seat.leaked

namespace SameObjects

variable {seat seat' seat'' : DeviceSeat}

theorem refl (seat : DeviceSeat) : SameObjects seat seat := ⟨rfl, rfl, rfl, rfl, rfl, rfl, rfl⟩

theorem trans (h : SameObjects seat seat') (h' : SameObjects seat' seat'') :
    SameObjects seat seat'' where
  conf := h'.conf.trans h.conf
  awake := h'.awake.trans h.awake
  foreground := h'.foreground.trans h.foreground
  inputAwake := h'.inputAwake.trans h.inputAwake
  videos := h'.videos.trans h.videos
  inputs := h'.inputs.trans h.inputs
  leaked := h'.leaked.trans h.leaked

theorem fds (h : SameObjects seat seat') : seat'.fds = seat.fds := by
  rw [DeviceSeat.fds, DeviceSeat.fds, h.videos, h.inputs, h.leaked]

theorem used (h : SameObjects seat seat') : seat'.used = seat.used := by
  rw [DeviceSeat.used, DeviceSeat.used, h.videos, h.inputs]

end SameObjects

variable {held : List ℕ} {fd : ℕ} {seat seat' : DeviceSeat}

/-- Where the descriptors are the same and all together belong to somebody, too. -/
theorem Holds.move (h : seat.Holds held) {held' : List ℕ} (hopen : seat'.openFds = seat.openFds)
    (hfault : seat'.fault = seat.fault) (hperm : (held ++ seat.fds).Perm (held' ++ seat'.fds)) :
    seat'.Holds held' :=
  ⟨hopen ▸ h.nodup, hopen ▸ h.perm.trans hperm, hfault.trans h.fault⟩

/-! ### Opening and closing -/

theorem closeFd_spec (h : seat.Holds (fd :: held)) :
    SameObjects seat (seat.closeFd fd) ∧ (seat.closeFd fd).Holds held := by
  have hopen : fd ∈ seat.openFds := h.perm.mem_iff.mpr (by simp)
  rw [closeFd, if_pos hopen]
  refine ⟨⟨rfl, rfl, rfl, rfl, rfl, rfl, rfl⟩, h.nodup.erase fd, ?_, h.fault⟩
  have hperm := h.perm.erase fd
  rw [List.cons_append, List.erase_cons_head] at hperm
  exact hperm

section Opening

variable (malloc files : Malloc) (answers : ℕ → Answer)

theorem openNode_spec (h : seat.Holds held) {opens : Bool}
    (hopen : seat.openNode files opens = some (fd, seat')) :
    SameObjects seat seat' ∧ seat'.Holds (fd :: held) := by
  unfold openNode at hopen
  split_ifs at hopen
  obtain ⟨fd', hfd, heq⟩ := Option.map_eq_some_iff.mp hopen
  obtain ⟨rfl, rfl⟩ := Prod.mk.inj heq
  have hnew := files.addr_notMem hfd
  exact ⟨⟨rfl, rfl, rfl, rfl, rfl, rfl, rfl⟩, List.nodup_cons.mpr ⟨hnew, h.nodup⟩,
    h.perm.cons fd', h.fault⟩

theorem ask_spec (h : seat.Holds held) :
    SameObjects seat (seat.ask answers).2 ∧ (seat.ask answers).2.Holds held :=
  ⟨⟨rfl, rfl, rfl, rfl, rfl, rfl, rfl⟩, h.nodup, h.perm, h.fault⟩

/-- What `seat_video_init` holds is the descriptor of the video, if there is one. There is one
if it works, and none if it does not and no wake-up fails. -/
theorem seatVideoInit_spec (drm : Bool) (h : seat.Holds held) :
    SameObjects seat (seat.seatVideoInit files answers drm).2.2 ∧
      (seat.seatVideoInit files answers drm).2.2.Holds
        (((seat.seatVideoInit files answers drm).2.1.map VideoObject.fd).toList ++ held) ∧
      ((seat.seatVideoInit files answers drm).1 = true →
        (seat.seatVideoInit files answers drm).2.1.isSome = true) ∧
      ((∀ n, (answers n).wakes = true) → (seat.seatVideoInit files answers drm).1 = false →
        (seat.seatVideoInit files answers drm).2.1 = none) := by
  obtain ⟨hasked, hheld⟩ := ask_spec answers h
  unfold seatVideoInit
  dsimp only
  cases hopen : (seat.ask answers).2.openNode files (seat.ask answers).1.opens with
  | none => exact ⟨hasked, hheld, (fun hok => by cases hok), fun _ _ => rfl⟩
  | some opened =>
    obtain ⟨fd, seat'⟩ := opened
    obtain ⟨hsame, hopened⟩ := openNode_spec files hheld hopen
    dsimp only
    cases videoNew (seat.ask answers).1.makes (wantedBackend seat'.conf drm) with
    | none =>
      obtain ⟨hclosed, hleft⟩ := closeFd_spec hopened
      exact ⟨(hasked.trans hsame).trans hclosed, hleft, (fun hok => by cases hok), fun _ _ => rfl⟩
    | some backend =>
      refine ⟨hasked.trans hsame, hopened, fun _ => rfl, fun hwakes hfails => ?_⟩
      have hwake : (answers seat.asked).wakes = false := hfails
      rw [hwakes] at hwake
      cases hwake

theorem inputOpenDev_spec (answer : Answer) (h : seat.Holds held) :
    SameObjects seat (seat.inputOpenDev files answer).2 ∧
      (seat.inputOpenDev files answer).2.Holds
        ((seat.inputOpenDev files answer).1.toList ++ held) := by
  unfold inputOpenDev
  cases hopen : seat.openNode files answer.opens with
  | none => exact ⟨.refl seat, h⟩
  | some opened =>
    obtain ⟨fd, seat'⟩ := opened
    obtain ⟨hsame, hopened⟩ := openNode_spec files h hopen
    dsimp only
    split_ifs
    · exact ⟨hsame, hopened⟩
    · obtain ⟨hclosed, hleft⟩ := closeFd_spec hopened
      exact ⟨hsame.trans hclosed, hleft⟩

theorem inputInitDev_spec (h : seat.Holds held) :
    SameObjects seat (seat.inputInitDev files answers).2 ∧
      (seat.inputInitDev files answers).2.Holds
        ((seat.inputInitDev files answers).1.toList ++ held) := by
  obtain ⟨hasked, hheld⟩ := ask_spec answers h
  obtain ⟨hsame, hopened⟩ := inputOpenDev_spec files (seat.ask answers).1 hheld
  unfold inputInitDev
  dsimp only
  cases hres : (seat.ask answers).2.inputOpenDev files (seat.ask answers).1 with
  | mk rfd seat' =>
    rw [hres] at hsame hopened
    cases rfd with
    | none => exact ⟨hasked.trans hsame, hopened⟩
    | some fd =>
      dsimp only
      split_ifs
      · exact ⟨hasked.trans hsame, hopened⟩
      · obtain ⟨hclosed, hleft⟩ := closeFd_spec hopened
        exact ⟨(hasked.trans hsame).trans hclosed, hleft⟩

end Opening

theorem fst_inputSleepDev {dev : InputDev} (hsane : dev.Sane) :
    (seat.inputSleepDev dev).1 = dev.closed := by
  obtain ⟨node, rfd, initialized⟩ := dev
  cases rfd with
  | none => rfl
  | some fd =>
    have hinit : initialized = true := hsane rfl
    subst hinit
    rfl

/-- `input_sleep_dev` closes what the device holds. -/
theorem inputSleepDev_spec {dev : InputDev} (hsane : dev.Sane)
    (h : seat.Holds (dev.rfd.toList ++ held)) :
    SameObjects seat (seat.inputSleepDev dev).2 ∧ (seat.inputSleepDev dev).2.Holds held := by
  obtain ⟨node, rfd, initialized⟩ := dev
  cases rfd with
  | none => exact ⟨.refl seat, h⟩
  | some fd =>
    have hinit : initialized = true := hsane rfl
    subst hinit
    exact closeFd_spec h

/-! ### Objects in their lists -/

/-- The descriptors with those of one video device in front. -/
theorem fds_perm_video (seat : DeviceSeat) {before after : List (ℕ × KmsconVideo)}
    {v : ℕ × KmsconVideo} (hsplit : seat.videos = before ++ v :: after) :
    seat.fds.Perm (v.2.fd.toList ++ { seat with videos := before ++ after }.fds) := by
  rw [fds, fds, hsplit]
  simp only [List.filterMap_append, List.append_assoc]
  rw [← List.singleton_append, List.filterMap_append]
  have hone : [v].filterMap (·.2.fd) = v.2.fd.toList := by
    cases hfd : v.2.fd <;> simp [hfd]
  rw [hone, List.append_assoc]
  exact List.perm_append_comm_assoc _ _ _

/-- The descriptors with those of one input device in front. -/
theorem fds_perm_input (seat : DeviceSeat) {before after : List (ℕ × InputDev)} {d : ℕ × InputDev}
    (hsplit : seat.inputs = before ++ d :: after) :
    seat.fds.Perm (d.2.rfd.toList ++ { seat with inputs := before ++ after }.fds) := by
  rw [fds, fds, hsplit]
  have hone : [d].filterMap (·.2.rfd) = d.2.rfd.toList := by
    cases hfd : d.2.rfd <;> simp [hfd]
  have hcons : (d :: after).filterMap (·.2.rfd) = d.2.rfd.toList ++ after.filterMap (·.2.rfd) := by
    rw [← hone, ← List.filterMap_append]
    rfl
  rw [List.filterMap_append, List.filterMap_append, hcons]
  simp only [List.append_assoc]
  have hfront := List.perm_append_comm_assoc
    (seat.videos.filterMap (·.2.fd) ++ before.filterMap (·.2.rfd)) d.2.rfd.toList
    (after.filterMap (·.2.rfd) ++ seat.leaked)
  simpa only [List.append_assoc] using hfront

/-- What holds of a seat between its functions: descriptors are owned, objects have different
addresses, open input devices have been set up, and nothing is lost where no wake-up fails. -/
structure Sound (answers : ℕ → Answer) (seat : DeviceSeat) : Prop where
  holds : seat.Holds []
  distinct : seat.used.Nodup
  sane : ∀ d ∈ seat.inputs, d.2.Sane
  lost : (∀ n, (answers n).wakes = true) → seat.leaked = []

variable {answers : ℕ → Answer}

theorem Sound.videos_nodup (h : seat.Sound answers) : (seat.videos.map Prod.fst).Nodup :=
  (List.nodup_append.mp h.distinct).1

theorem Sound.inputs_nodup (h : seat.Sound answers) : (seat.inputs.map Prod.fst).Nodup :=
  (List.nodup_append.mp h.distinct).2.1

/-- The flags of a seat are the same. -/
structure SameGround (seat seat' : DeviceSeat) : Prop where
  conf : seat'.conf = seat.conf
  awake : seat'.awake = seat.awake
  foreground : seat'.foreground = seat.foreground
  inputAwake : seat'.inputAwake = seat.inputAwake

theorem SameObjects.ground (h : SameObjects seat seat') : SameGround seat seat' :=
  ⟨h.conf, h.awake, h.foreground, h.inputAwake⟩

theorem SameGround.refl (seat : DeviceSeat) : SameGround seat seat := ⟨rfl, rfl, rfl, rfl⟩

theorem SameGround.trans {seat'' : DeviceSeat} (h : SameGround seat seat')
    (h' : SameGround seat' seat'') : SameGround seat seat'' :=
  ⟨h'.conf.trans h.conf, h'.awake.trans h.awake, h'.foreground.trans h.foreground,
    h'.inputAwake.trans h.inputAwake⟩

/-- A seat with the same objects, of which nothing is held. -/
theorem Sound.of_same (h : seat.Sound answers) (hsame : SameObjects seat seat')
    (hheld : seat'.Holds []) : seat'.Sound answers :=
  ⟨hheld, hsame.used ▸ h.distinct, hsame.inputs ▸ h.sane, hsame.leaked ▸ h.lost⟩

/-- A video device is taken out of the list, and what it holds is held. -/
theorem takeVideo_spec (h : seat.Sound answers) {v : ℕ × KmsconVideo} (hv : v ∈ seat.videos) :
    { seat with videos := seat.videos.erase v }.Holds v.2.fd.toList := by
  obtain ⟨before, after, hsplit, herase, -⟩ := Entries.split h.videos_nodup hv
  rw [herase]
  exact h.holds.move rfl rfl (fds_perm_video _ hsplit)

/-- Where fewer objects are in the lists, their addresses are different still. -/
theorem used_sublist (h : seat.used.Nodup)
    (hvideos : (seat'.videos.map Prod.fst).Sublist (seat.videos.map Prod.fst))
    (hinputs : (seat'.inputs.map Prod.fst).Sublist (seat.inputs.map Prod.fst)) :
    seat'.used.Nodup := h.sublist (hvideos.append hinputs)

theorem removeVideo_spec (h : seat.Sound answers) {v : ℕ × KmsconVideo} (hv : v ∈ seat.videos) :
    (seat.removeVideo v.1).1.Sound answers ∧ SameGround seat (seat.removeVideo v.1).1 ∧
      (seat.removeVideo v.1).1.videos = seat.videos.erase v ∧
      (seat.removeVideo v.1).1.inputs = seat.inputs ∧
      (seat.removeVideo v.1).1.leaked = seat.leaked ∧
      (seat.removeVideo v.1).2 = [(v.2.udev, none)] := by
  have htaken := takeVideo_spec h hv
  have hsound : ∀ {seat' : DeviceSeat},
      SameObjects { seat with videos := seat.videos.erase v } seat' →
      seat'.Holds [] → seat'.Sound answers := by
    intro seat' hsame hheld
    refine ⟨hheld, ?_, hsame.inputs ▸ h.sane, hsame.leaked ▸ h.lost⟩
    rw [hsame.used]
    exact used_sublist h.distinct (List.erase_sublist.map _) (List.Sublist.refl _)
  unfold removeVideo
  rw [Entries.lookup_of_mem h.videos_nodup hv]
  dsimp only
  cases hvideo : v.2.video with
  | none =>
    rw [KmsconVideo.fd, hvideo] at htaken
    exact ⟨hsound (.refl _) htaken, ⟨rfl, rfl, rfl, rfl⟩, rfl, rfl, rfl, rfl⟩
  | some video =>
    rw [KmsconVideo.fd, hvideo] at htaken
    have hheld : { seat with videos := seat.videos.erase v }.Holds [video.fd] := htaken
    obtain ⟨hsame, hclosed⟩ := closeFd_spec hheld
    exact ⟨hsound hsame hclosed, ⟨hsame.conf, hsame.awake, hsame.foreground, hsame.inputAwake⟩,
      hsame.videos, hsame.inputs, hsame.leaked, rfl⟩

/-- What is forgotten is lost. -/
theorem forget_spec {video : Option VideoObject}
    (h : seat.Holds ((video.map VideoObject.fd).toList ++ held)) :
    (seat.forget video).Holds held := by
  refine h.move rfl rfl ?_
  have hfds : (seat.forget video).fds = seat.videos.filterMap (·.2.fd) ++
      seat.inputs.filterMap (·.2.rfd) ++ ((video.map VideoObject.fd).toList ++ seat.leaked) := rfl
  rw [hfds, fds, List.append_assoc]
  calc (video.map VideoObject.fd).toList ++ (held ++ _)
      |>.Perm (held ++ ((video.map VideoObject.fd).toList ++ _)) :=
        List.perm_append_comm_assoc _ _ _
    _ |>.Perm _ := (List.perm_append_comm_assoc _ _ _).append_left held

/-- A device is put into the list that takes over what is held. -/
theorem Sound.consVideo (h : seat.Sound answers) {a : ℕ} (ha : a ∉ seat.used) (vid : KmsconVideo)
    (hsame : SameObjects seat seat') (hheld : seat'.Holds vid.fd.toList) :
    { seat' with videos := (a, vid) :: seat'.videos }.Sound answers := by
  refine ⟨?_, ?_, hsame.inputs ▸ h.sane, hsame.leaked ▸ h.lost⟩
  · refine hheld.move rfl rfl ?_
    exact (fds_perm_video { seat' with videos := (a, vid) :: seat'.videos }
      (show _ = [] ++ (a, vid) :: seat'.videos from rfl)).symm
  · have hused := h.distinct
    rw [← hsame.used] at ha hused
    exact List.nodup_cons.mpr ⟨ha, hused⟩

/-! ### Input devices -/

/-- A device is put into the list of the input layer that takes over what is held. -/
theorem Sound.consInput (h : seat.Sound answers) {a : ℕ} (ha : a ∉ seat.used) (dev : InputDev)
    (hsane : dev.Sane) (hsame : SameObjects seat seat') (hheld : seat'.Holds dev.rfd.toList) :
    { seat' with inputs := (a, dev) :: seat'.inputs }.Sound answers := by
  refine ⟨?_, ?_, ?_, hsame.leaked ▸ h.lost⟩
  · refine hheld.move rfl rfl ?_
    exact (fds_perm_input { seat' with inputs := (a, dev) :: seat'.inputs }
      (show _ = [] ++ (a, dev) :: seat'.inputs from rfl)).symm
  · have hused := h.distinct
    rw [← hsame.used] at ha hused
    have hperm : { seat' with inputs := (a, dev) :: seat'.inputs }.used.Perm (a :: seat'.used) :=
      List.perm_middle
    exact hperm.nodup_iff.mpr (List.nodup_cons.mpr ⟨ha, hused⟩)
  · rw [hsame.inputs]
    exact List.forall_mem_cons.mpr ⟨hsane, h.sane⟩

/-- An input device is taken out of the list, and what it holds is held. -/
theorem takeInput_spec (h : seat.Sound answers) {d : ℕ × InputDev} (hd : d ∈ seat.inputs) :
    { seat with inputs := seat.inputs.erase d }.Holds d.2.rfd.toList := by
  obtain ⟨before, after, hsplit, herase, -⟩ := Entries.split h.inputs_nodup hd
  rw [herase]
  exact h.holds.move rfl rfl (fds_perm_input _ hsplit)

/-- A seat without one of its input devices. -/
theorem Sound.eraseInput (h : seat.Sound answers) {d : ℕ × InputDev}
    (hsame : SameObjects { seat with inputs := seat.inputs.erase d } seat')
    (hheld : seat'.Holds []) : seat'.Sound answers := by
  refine ⟨hheld, ?_, ?_, hsame.leaked ▸ h.lost⟩
  · rw [hsame.used]
    exact used_sublist h.distinct (List.Sublist.refl _) (List.erase_sublist.map _)
  · rw [hsame.inputs]
    exact fun e he => h.sane e (List.mem_of_mem_erase he)

theorem inputs_inputSleepDev (dev : InputDev) :
    (seat.inputSleepDev dev).2.inputs = seat.inputs := by
  unfold inputSleepDev closeFd
  cases dev.rfd with
  | none => rfl
  | some fd =>
    dsimp only
    split_ifs <;> rfl

/-- Closing a descriptor does not look at the input devices. -/
theorem inputSleepDev_setInputs (dev : InputDev) (inputs : List (ℕ × InputDev)) :
    { (seat.inputSleepDev dev).2 with inputs := inputs } =
      ({ seat with inputs := inputs }.inputSleepDev dev).2 := by
  unfold inputSleepDev closeFd
  cases dev.rfd with
  | none => rfl
  | some fd =>
    dsimp only
    split_ifs <;> rfl

theorem inputFreeDev_spec (h : seat.Sound answers) {d : ℕ × InputDev} (hd : d ∈ seat.inputs) :
    (seat.inputFreeDev d).Sound answers ∧ SameGround seat (seat.inputFreeDev d) ∧
      (seat.inputFreeDev d).videos = seat.videos ∧
      (seat.inputFreeDev d).inputs = seat.inputs.erase d ∧
      (seat.inputFreeDev d).leaked = seat.leaked := by
  have hheld : { seat with inputs := seat.inputs.erase d }.Holds (d.2.rfd.toList ++ []) := by
    rw [List.append_nil]
    exact takeInput_spec h hd
  have heq : seat.inputFreeDev d =
      ({ seat with inputs := seat.inputs.erase d }.inputSleepDev d.2).2 := by
    rw [← inputSleepDev_setInputs, ← inputs_inputSleepDev d.2]
    rfl
  obtain ⟨hsame, hclosed⟩ := inputSleepDev_spec (h.sane d hd) hheld
  rw [heq]
  exact ⟨h.eraseInput hsame hclosed, ⟨hsame.conf, hsame.awake, hsame.foreground,
    hsame.inputAwake⟩, hsame.videos, hsame.inputs, hsame.leaked⟩

/-- An input device gets another state under its address. -/
theorem Sound.modifyInput (h : seat.Sound answers) {d : ℕ × InputDev}
    {dev : InputDev} (hsane : dev.Sane) {inputs : List (ℕ × InputDev)}
    (hinputs : inputs = Entries.modify d.1 (fun _ => dev) seat.inputs)
    (hsame : SameObjects { seat with inputs := inputs } seat') (hheld : seat'.Holds []) :
    seat'.Sound answers := by
  refine ⟨hheld, ?_, ?_, hsame.leaked ▸ h.lost⟩
  · rw [hsame.used]
    refine used_sublist h.distinct (List.Sublist.refl _) ?_
    rw [hinputs, Entries.keys_modify]
  · rw [hsame.inputs]
    dsimp only
    rw [hinputs]
    intro e he
    obtain ⟨e₀, he₀, rfl⟩ := Entries.mem_modify he
    split_ifs
    · exact hsane
    · exact h.sane e₀ he₀

/-- What a round of `input_sleep` can do: nothing if the device is not there or not open, or
close it. -/
inductive Slept (a : ℕ) (inputs inputs' : List (ℕ × InputDev)) : Prop where
  | stays (heq : inputs' = inputs) (hnone : a ∉ inputs.map Prod.fst)
  | closed (d : ℕ × InputDev) (hd : d ∈ inputs) (ha : d.1 = a)
      (heq : inputs' = Entries.modify a (fun _ => d.2.closed) inputs)

theorem sleepRound_spec (h : seat.Sound answers) (a : ℕ) :
    (seat.sleepRound a).Sound answers ∧ SameGround seat (seat.sleepRound a) ∧
      (seat.sleepRound a).videos = seat.videos ∧
      Slept a seat.inputs (seat.sleepRound a).inputs := by
  unfold sleepRound
  cases hfind : Entries.lookup a seat.inputs with
  | none => exact ⟨h, .refl seat, rfl, .stays rfl (Entries.lookup_eq_none.mp hfind)⟩
  | some d =>
    obtain ⟨hd, rfl⟩ := Entries.mem_of_lookup hfind
    obtain ⟨before, after, hsplit, herase, hmodify⟩ := Entries.split h.inputs_nodup hd
    have hmod := hmodify fun _ => d.2.closed
    have hheld : { seat with inputs := before ++ (d.1, d.2.closed) :: after }.Holds
        (d.2.rfd.toList ++ []) := by
      rw [List.append_nil]
      refine h.holds.move rfl rfl ((fds_perm_input _ hsplit).trans (List.Perm.append_left _ ?_))
      exact (fds_perm_input { seat with
        inputs := before ++ (d.1, d.2.closed) :: after } rfl).symm
    obtain ⟨hsame, hclosed⟩ := inputSleepDev_spec (h.sane d hd) hheld
    have heq : (seat.inputSleepDev d.2).2.setInput d.1 d.2.closed =
        ({ seat with inputs := before ++ (d.1, d.2.closed) :: after }.inputSleepDev d.2).2 := by
      rw [setInput, inputs_inputSleepDev, hmod, inputSleepDev_setInputs]
    dsimp only
    rw [fst_inputSleepDev (h.sane d hd), heq]
    exact ⟨h.modifyInput (fun hc => by cases hc) hmod.symm hsame hclosed,
      ⟨hsame.conf, hsame.awake, hsame.foreground, hsame.inputAwake⟩, hsame.videos,
      .closed d hd rfl (hsame.inputs.trans hmod.symm)⟩

/-- A device that was not open takes over the descriptor that is held. -/
theorem Sound.openInput (h : seat.Sound answers) {d : ℕ × InputDev} (hd : d ∈ seat.inputs)
    (hclosed : d.2.rfd = none) {dev : InputDev} (hsane : dev.Sane)
    (hsame : SameObjects seat seat') (hheld : seat'.Holds dev.rfd.toList) :
    (seat'.setInput d.1 dev).Sound answers := by
  have hinputs' : (seat'.setInput d.1 dev).inputs =
      Entries.modify d.1 (fun _ => dev) seat.inputs := congrArg _ hsame.inputs
  refine h.modifyInput (d := d) hsane rfl ⟨hsame.conf, hsame.awake, hsame.foreground,
    hsame.inputAwake, hsame.videos, hinputs', hsame.leaked⟩ (hheld.move rfl rfl ?_)
  obtain ⟨before, after, hsplit, -, hmodify⟩ := Entries.split h.inputs_nodup hd
  have hinputs : seat'.inputs = before ++ d :: after := hsame.inputs.trans hsplit
  have hold := fds_perm_input _ hinputs
  rw [hclosed, Option.toList_none, List.nil_append] at hold
  exact (hold.append_left _).trans (fds_perm_input _ (hinputs'.trans (hmodify _))).symm

/-! ### Setting up -/

section Setup

variable (malloc files : Malloc) (answers : ℕ → Answer)

/-- What one round of the first loop of `seat_go_foreground` can do: nothing to a device that
is set up or not there; set up the device; or drop it and its pointer in the monitor. -/
inductive Raised (acc acc' : DeviceSeat × DataSets) (a : ℕ) : Prop where
  | stays (heq : acc' = acc) (hup : ∀ v ∈ acc.1.videos, v.1 = a → v.2.video.isSome = true)
  | up (v : ℕ × KmsconVideo) (hv : v ∈ acc.1.videos) (ha : v.1 = a) (video : Option VideoObject)
      (hvideo : video.isSome = true)
      (hvideos : acc'.1.videos = Entries.modify a (KmsconVideo.withVideo video) acc.1.videos)
      (hsets : acc'.2 = acc.2)
  | dropped (v : ℕ × KmsconVideo) (hv : v ∈ acc.1.videos) (ha : v.1 = a)
      (hvideos : acc'.1.videos = acc.1.videos.erase v)
      (hsets : acc'.2 = acc.2 ++ [(v.2.udev, none)])

theorem raiseVideo_spec {acc : DeviceSeat × DataSets} (h : acc.1.Sound answers) (a : ℕ) :
    (raiseVideo files answers acc a).1.Sound answers ∧
      SameGround acc.1 (raiseVideo files answers acc a).1 ∧
      (raiseVideo files answers acc a).1.inputs = acc.1.inputs ∧
      Raised acc (raiseVideo files answers acc a) a := by
  obtain ⟨seat, sets⟩ := acc
  unfold raiseVideo
  cases hfind : Entries.lookup a seat.videos with
  | none =>
    have hnone := Entries.lookup_eq_none.mp hfind
    exact ⟨h, .refl seat, rfl, .stays rfl fun v hv ha =>
      absurd (ha ▸ List.mem_map_of_mem hv) hnone⟩
  | some v =>
    obtain ⟨hv, ha⟩ := Entries.mem_of_lookup hfind
    dsimp only
    split_ifs with hup
    · refine ⟨h, .refl seat, rfl, .stays rfl fun w hw hwa => ?_⟩
      rwa [Entries.eq_of_key_eq h.videos_nodup hw hv (hwa.trans ha.symm)]
    · have hnovideo : v.2.fd = none := by
        rw [KmsconVideo.fd, Option.not_isSome_iff_eq_none.mp hup, Option.map_none]
      obtain ⟨hsame, hheld, hworks, hnone⟩ := seatVideoInit_spec files answers v.2.drm h.holds
      rw [List.append_nil] at hheld
      obtain ⟨before, after, hsplit, herase, hmodify⟩ := Entries.split h.videos_nodup hv
      cases hres : seat.seatVideoInit files answers v.2.drm with
      | mk ok rest =>
        obtain ⟨video, seat'⟩ := rest
        rw [hres] at hsame hheld hworks hnone
        dsimp only at hsame hheld hworks hnone
        have hground := hsame.ground
        cases ok with
        | true =>
          dsimp only
          have hvideos : seat'.videos = before ++ v :: after := hsame.videos.trans hsplit
          have hmod : (seat'.setVideo a video).videos =
              before ++ (v.1, v.2.withVideo video) :: after := by
            rw [setVideo, hsame.videos, ← ha]
            exact hmodify _
          refine ⟨⟨?_, ?_, hsame.inputs ▸ h.sane, hsame.leaked ▸ h.lost⟩, ⟨hground.conf,
            hground.awake, hground.foreground, hground.inputAwake⟩, hsame.inputs,
            .up v hv ha video (hworks rfl) (by rw [setVideo, hsame.videos]) rfl⟩
          · refine hheld.move rfl rfl ?_
            have hold := fds_perm_video _ hvideos
            rw [hnovideo, Option.toList_none, List.nil_append] at hold
            exact (hold.append_left _).trans (fds_perm_video _ hmod).symm
          · have hused := h.distinct
            rw [← hsame.used] at hused
            refine used_sublist hused ?_ (List.Sublist.refl _)
            rw [setVideo, Entries.keys_modify]
        | false =>
          dsimp only
          have hvideos : seat'.videos = before ++ v :: after := hsame.videos.trans hsplit
          refine ⟨⟨?_, ?_, hsame.inputs ▸ h.sane, fun hwakes => ?_⟩, ⟨hground.conf,
            hground.awake, hground.foreground, hground.inputAwake⟩, hsame.inputs,
            .dropped v hv ha (by rw [← hsame.videos]; rfl) rfl⟩
          · apply forget_spec
            rw [List.append_nil]
            refine hheld.move rfl rfl ?_
            have hold := fds_perm_video _ hvideos
            rw [hnovideo, Option.toList_none, List.nil_append] at hold
            rw [hsame.videos, herase]
            exact hold.append_left _
          · have hused := h.distinct
            rw [← hsame.used] at hused
            exact used_sublist hused (List.erase_sublist.map _) (List.Sublist.refl _)
          · rw [hnone hwakes rfl]
            exact hsame.leaked.trans (h.lost hwakes)

/-- What `kmscon_seat_add_video` can do: no device is left, with its pointer in the monitor
never set or taken back, or there is a new one. -/
inductive AddedVideo (type : MonitorDevType) (node : List UInt8) (udev : ℕ) (seat : DeviceSeat)
    (result : DeviceSeat × DataSets) : Prop where
  | none (hvideos : result.1.videos = seat.videos)
      (hsets : result.2 = [] ∨ ∃ a, result.2 = [(udev, some a), (udev, none)])
  | new (a : ℕ) (hnew : a ∉ seat.used) (video : Option VideoObject)
      (hup : seat.awake = true → video.isSome = true)
      (hvideos : result.1.videos = (a, ⟨video, udev, node, decide (type = .drm)⟩) :: seat.videos)
      (hsets : result.2 = [(udev, some a)])

theorem kmsconSeatAddVideo_spec (h : seat.Sound answers) (type : MonitorDevType)
    (flags : MonitorFlags) (node : List UInt8) (udev : ℕ) :
    (seat.kmsconSeatAddVideo malloc files answers type flags node udev).1.Sound answers ∧
      SameGround seat (seat.kmsconSeatAddVideo malloc files answers type flags node udev).1 ∧
      (seat.kmsconSeatAddVideo malloc files answers type flags node udev).1.inputs = seat.inputs ∧
      AddedVideo type node udev seat
        (seat.kmsconSeatAddVideo malloc files answers type flags node udev) := by
  obtain ⟨hasked, hheld⟩ := ask_spec answers h.holds
  have hsound := h.of_same hasked hheld
  unfold kmsconSeatAddVideo
  split_ifs with hignored
  · exact ⟨h, .refl seat, rfl, .none rfl (Or.inl rfl)⟩
  · dsimp only
    cases haddr : malloc.addr (seat.ask answers).2.used with
    | none => exact ⟨hsound, hasked.ground, hasked.inputs, .none hasked.videos (Or.inl rfl)⟩
    | some a =>
      have hnew : a ∉ seat.used := by
        rw [← hasked.used]
        exact malloc.addr_notMem haddr
      dsimp only
      split_ifs with hmemory hawake
      · exact ⟨hsound, hasked.ground, hasked.inputs, .none hasked.videos (Or.inl rfl)⟩
      · -- the device is set up at once
        obtain ⟨hinit, hvideo, hworks, hnone⟩ :=
          seatVideoInit_spec files answers (decide (type = .drm)) hheld
        rw [List.append_nil] at hvideo
        have hsame := hasked.trans hinit
        cases hres : (seat.ask answers).2.seatVideoInit files answers (decide (type = .drm)) with
        | mk ok rest =>
          obtain ⟨video, seat'⟩ := rest
          rw [hres] at hsame hvideo hworks hnone
          cases ok with
          | true =>
            exact ⟨h.consVideo hnew _ hsame hvideo, ⟨hsame.conf, hsame.awake, hsame.foreground,
              hsame.inputAwake⟩, hsame.inputs, .new a hnew video (fun _ => hworks rfl)
              (congrArg _ hsame.videos) rfl⟩
          | false =>
            have hlost : (seat'.forget video).Holds [] := forget_spec (by rwa [List.append_nil])
            refine ⟨⟨hlost, ?_, ?_, fun hwakes => ?_⟩, ⟨hsame.conf, hsame.awake, hsame.foreground,
              hsame.inputAwake⟩, hsame.inputs, .none hsame.videos (Or.inr ⟨a, rfl⟩)⟩
            · exact hsame.used ▸ h.distinct
            · exact hsame.inputs ▸ h.sane
            · have hvideo : video = none := hnone hwakes rfl
              rw [hvideo]
              exact hsame.leaked.trans (h.lost hwakes)
      · have hasleep : seat.awake = false := by rwa [hasked.awake, Bool.not_eq_true] at hawake
        exact ⟨h.consVideo hnew ⟨none, udev, node, decide (type = .drm)⟩ hasked hheld,
          ⟨hasked.conf, hasked.awake, hasked.foreground, hasked.inputAwake⟩, hasked.inputs,
          .new a hnew none (fun hc => by rw [hasleep] at hc; cases hc)
            (congrArg _ hasked.videos) rfl⟩

/-- What `input_add_dev` can do: there is a new device, which is open exactly while the input
layer is awake, or none. -/
inductive AddedInput (node : List UInt8) (seat : DeviceSeat) (result : Option ℕ × DeviceSeat) :
    Prop where
  | none (hdata : result.1 = none) (hinputs : result.2.inputs = seat.inputs)
  | new (a : ℕ) (hnew : a ∉ seat.used) (dev : InputDev) (hnode : dev.node = node)
      (hopen : dev.rfd.isSome = true ↔ 0 < seat.inputAwake) (hdata : result.1 = some a)
      (hinputs : result.2.inputs = (a, dev) :: seat.inputs)

theorem inputAddDev_spec (h : seat.Sound answers) (node : List UInt8) :
    (seat.inputAddDev malloc files answers node).2.Sound answers ∧
      SameGround seat (seat.inputAddDev malloc files answers node).2 ∧
      (seat.inputAddDev malloc files answers node).2.videos = seat.videos ∧
      AddedInput node seat (seat.inputAddDev malloc files answers node) := by
  obtain ⟨hasked, hheld⟩ := ask_spec answers h.holds
  have hsound := h.of_same hasked hheld
  unfold inputAddDev
  dsimp only
  cases haddr : malloc.addr (seat.ask answers).2.used with
  | none => exact ⟨hsound, hasked.ground, hasked.videos, .none rfl hasked.inputs⟩
  | some a =>
    have hnew : a ∉ seat.used := by
      rw [← hasked.used]
      exact malloc.addr_notMem haddr
    dsimp only
    split_ifs with hmemory hawake
    · exact ⟨hsound, hasked.ground, hasked.videos, .none rfl hasked.inputs⟩
    · obtain ⟨hinit, hopened⟩ := inputInitDev_spec files answers hheld
      rw [List.append_nil] at hopened
      have hsame := hasked.trans hinit
      have hpos : 0 < seat.inputAwake := by rwa [hasked.inputAwake] at hawake
      cases hres : (seat.ask answers).2.inputInitDev files answers with
      | mk rfd seat' =>
        rw [hres] at hsame hopened
        cases rfd with
        | none =>
          exact ⟨h.of_same hsame hopened, hsame.ground, hsame.videos, .none rfl hsame.inputs⟩
        | some fd =>
          exact ⟨h.consInput hnew ⟨node, some fd, true⟩ (fun _ => rfl) hsame hopened,
            ⟨hsame.conf, hsame.awake, hsame.foreground, hsame.inputAwake⟩, hsame.videos,
            .new a hnew ⟨node, some fd, true⟩ rfl (iff_of_true rfl hpos) rfl
              (congrArg _ hsame.inputs)⟩
    · have hneg : ¬ 0 < seat.inputAwake := by rwa [hasked.inputAwake] at hawake
      exact ⟨h.consInput hnew ⟨node, none, false⟩ (fun hc => by cases hc) hasked hheld,
        ⟨hasked.conf, hasked.awake, hasked.foreground, hasked.inputAwake⟩, hasked.videos,
        .new a hnew ⟨node, none, false⟩ rfl (iff_of_false (by simp) hneg) rfl
          (congrArg _ hasked.inputs)⟩

/-- What a round of `input_wake_up` can do: nothing if the device is open or not there, open
it, or drop it. -/
inductive Woken (a : ℕ) (inputs inputs' : List (ℕ × InputDev)) : Prop where
  | stays (heq : inputs' = inputs) (hopen : ∀ d ∈ inputs, d.1 = a → d.2.rfd.isSome = true)
  | opened (d : ℕ × InputDev) (hd : d ∈ inputs) (ha : d.1 = a) (dev : InputDev)
      (hnode : dev.node = d.2.node) (hopen : dev.rfd.isSome = true)
      (heq : inputs' = Entries.modify a (fun _ => dev) inputs)
  | dropped (d : ℕ × InputDev) (hd : d ∈ inputs) (ha : d.1 = a) (heq : inputs' = inputs.erase d)

theorem wakeRound_spec (h : seat.Sound answers) (a : ℕ) :
    (seat.wakeRound files answers a).Sound answers ∧
      SameGround seat (seat.wakeRound files answers a) ∧
      (seat.wakeRound files answers a).videos = seat.videos ∧
      Woken a seat.inputs (seat.wakeRound files answers a).inputs := by
  unfold wakeRound
  cases hfind : Entries.lookup a seat.inputs with
  | none =>
    have hnone := Entries.lookup_eq_none.mp hfind
    exact ⟨h, .refl seat, rfl, .stays rfl fun d hd ha =>
      absurd (ha ▸ List.mem_map_of_mem hd) hnone⟩
  | some d =>
    obtain ⟨hd, rfl⟩ := Entries.mem_of_lookup hfind
    dsimp only
    split_ifs with hfresh hopen
    · -- it is set up for the first time
      have hclosed : d.2.rfd = none := by
        cases hrfd : d.2.rfd with
        | none => rfl
        | some fd =>
          have hinit := h.sane d hd (by rw [hrfd]; rfl)
          rw [hinit] at hfresh
          cases hfresh
      obtain ⟨hsame, hheld⟩ := inputInitDev_spec files answers h.holds
      rw [List.append_nil] at hheld
      cases hres : seat.inputInitDev files answers with
      | mk rfd seat' =>
        rw [hres] at hsame hheld
        cases rfd with
        | none =>
          have hd' : d ∈ seat'.inputs := hsame.inputs ▸ hd
          have htaken := takeInput_spec (h.of_same hsame hheld) hd'
          rw [hclosed] at htaken
          exact ⟨(h.of_same hsame hheld).eraseInput (.refl _) htaken,
            ⟨hsame.conf, hsame.awake, hsame.foreground, hsame.inputAwake⟩, hsame.videos,
            .dropped d hd rfl (congrArg (·.erase d) hsame.inputs)⟩
        | some fd =>
          have hinputs : seat'.inputs = seat.inputs := hsame.inputs
          exact ⟨h.openInput hd hclosed (fun _ => rfl) hsame hheld,
            ⟨hsame.conf, hsame.awake, hsame.foreground, hsame.inputAwake⟩, hsame.videos,
            .opened d hd rfl { d.2 with rfd := some fd, initialized := true } rfl rfl
              (by dsimp only [setInput]; rw [hinputs])⟩
    · refine ⟨h, .refl seat, rfl, .stays rfl fun e he hea => ?_⟩
      rwa [Entries.eq_of_key_eq h.inputs_nodup he hd hea]
    · have hclosed : d.2.rfd = none := Option.not_isSome_iff_eq_none.mp hopen
      obtain ⟨hasked, hheld⟩ := ask_spec answers h.holds
      obtain ⟨hopened, hfd⟩ := inputOpenDev_spec files (seat.ask answers).1 hheld
      rw [List.append_nil] at hfd
      have hsame := hasked.trans hopened
      cases hres : (seat.ask answers).2.inputOpenDev files (seat.ask answers).1 with
      | mk rfd seat' =>
        rw [hres] at hsame hfd
        cases rfd with
        | none =>
          have hd' : d ∈ seat'.inputs := hsame.inputs ▸ hd
          obtain ⟨hsound, hground, hvideos, hinputs, -⟩ :=
            inputFreeDev_spec (h.of_same hsame hfd) hd'
          exact ⟨hsound, hsame.ground.trans hground, hvideos.trans hsame.videos,
            .dropped d hd rfl (hinputs.trans (congrArg (·.erase d) hsame.inputs))⟩
        | some fd =>
          have hinputs : seat'.inputs = seat.inputs := hsame.inputs
          exact ⟨h.openInput hd hclosed
            (fun _ => by simpa using hfresh) hsame hfd,
            ⟨hsame.conf, hsame.awake, hsame.foreground, hsame.inputAwake⟩, hsame.videos,
            .opened d hd rfl { d.2 with rfd := some fd } rfl rfl
              (by dsimp only [setInput]; rw [hinputs])⟩

end Setup

end DeviceSeat

end Faceplate.Seats
