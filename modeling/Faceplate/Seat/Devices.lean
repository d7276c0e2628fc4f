import Faceplate.Uterm.MonitorRuns

/-!
# The devices of a seat

The seat is the user of the device monitor: it makes a video device of each graphics card
that it does not ignore, hands input devices to the input layer, and keeps in the monitor a
pointer to what it made. Video devices are set up when the seat is awake and comes to the
foreground, input devices are opened while the input layer is awake. What the kernel and the
backends answer comes from a stream of answers; `asked` counts those that were used.
Descriptors are handed out like memory: one that is open is not given out again.
-/

namespace Faceplate.Seats

open Faceplate.Uterm

/-- The video backends `be_drm3d`, `be_drm2d` and `be_fbdev`. -/
inductive Backend where
  | drm3d
  | drm2d
  | fbdev
  deriving DecidableEq, Repr

/-- The option `gpus`. -/
inductive Gpus where
  | all
  | aux
  | primary
  deriving DecidableEq, Repr

/-- The options that decide which video devices a seat uses. -/
structure DeviceConf where
  drm : Bool
  hwaccel : Bool
  gpus : Gpus
  deriving DecidableEq, Repr

/-- What is answered when a device is set up: memory, the node, the backends, `video_wake_up`,
the descriptor in the event loop, and whether the input device is of use. -/
structure Answer where
  memory : Bool
  opens : Bool
  makes : Backend → Bool
  wakes : Bool
  watched : Bool
  usable : Bool

/-- A `struct video` and the descriptor that it uses. -/
structure VideoObject where
  backend : Backend
  fd : ℕ
  deriving DecidableEq, Repr

/-- `struct kmscon_video`, with its descriptor beside `video`. -/
structure KmsconVideo where
  video : Option VideoObject
  udev : ℕ
  node : List UInt8
  drm : Bool
  deriving DecidableEq, Repr

/-- A device with another `video`. -/
def KmsconVideo.withVideo (video : Option VideoObject) (vid : KmsconVideo) : KmsconVideo :=
  { vid with video := video }

/-- `struct input_dev` as far as its life goes. -/
structure InputDev where
  node : List UInt8
  rfd : Option ℕ
  initialized : Bool
  deriving DecidableEq, Repr

/-- A device that is not open. -/
def InputDev.closed (dev : InputDev) : InputDev := { dev with rfd := none }

/-- `struct kmscon_seat` and its `struct input` as far as devices go, with the objects in
their lists under their addresses. `leaked` are the descriptors of objects that nothing
points to any more, and `fault` records a use of freed memory or the closing of a descriptor
that is not open. -/
structure DeviceSeat where
  conf : DeviceConf
  awake : Bool
  foreground : Bool
  inputAwake : ℤ
  videos : List (ℕ × KmsconVideo)
  inputs : List (ℕ × InputDev)
  openFds : List ℕ
  leaked : List ℕ
  asked : ℕ
  fault : Bool

/-- The calls of `uterm_monitor_set_dev_data` that a function of the seat makes. -/
abbrev DataSets := List (ℕ × Option ℕ)

namespace DeviceSeat

/-- A seat without devices. -/
def new (conf : DeviceConf) : DeviceSeat := ⟨conf, false, false, 0, [], [], [], [], 0, false⟩

/-- The addresses in use. -/
def used (seat : DeviceSeat) : List ℕ := seat.videos.map Prod.fst ++ seat.inputs.map Prod.fst

/-- `close` and `uterm_vt_close_device`. -/
def closeFd (fd : ℕ) (seat : DeviceSeat) : DeviceSeat :=
  if fd ∈ seat.openFds then { seat with openFds := seat.openFds.erase fd }
  else { seat with fault := true }

/-- `kmscon_seat_gpu_is_ignored`. -/
def gpuIsIgnored (conf : DeviceConf) (type : MonitorDevType) (flags : MonitorFlags) : Bool :=
  match type with
  | .input => true
  | .fbdev => conf.drm && flags.drmBacked || otherGpu
  | .drm => !conf.drm || otherGpu
where
  otherGpu : Bool :=
    conf.gpus = .primary && !flags.primary || conf.gpus = .aux && !flags.primary && !flags.aux

/-- The backend that `seat_video_init` asks for. -/
def wantedBackend (conf : DeviceConf) (drm : Bool) : Backend :=
  if drm then if conf.hwaccel then .drm3d else .drm2d else .fbdev

/-- `video_new`, once more with `be_drm2d` where `be_drm3d` does not work. -/
def videoNew (makes : Backend → Bool) (wanted : Backend) : Option Backend :=
  if makes wanted then some wanted
  else if wanted = .drm3d && makes .drm2d then some .drm2d else none

section Model

variable (malloc files : Malloc) (answers : ℕ → Answer)

/-- Take the next answer. -/
def ask (seat : DeviceSeat) : Answer × DeviceSeat :=
  (answers seat.asked, { seat with asked := seat.asked + 1 })

/-- Open a node. -/
def openNode (opens : Bool) (seat : DeviceSeat) : Option (ℕ × DeviceSeat) :=
  if !opens then none
  else (files.addr seat.openFds).map fun fd =>
    (fd, { seat with openFds := fd :: seat.openFds })

/-! ## Video devices -/

/-- `seat_video_init`: whether it works, and what `video` is then. -/
def seatVideoInit (drm : Bool) (seat : DeviceSeat) : Bool × Option VideoObject × DeviceSeat :=
  let (answer, seat) := seat.ask answers
  match seat.openNode files answer.opens with
  | none => (false, none, seat)
  | some (fd, seat) =>
    match videoNew answer.makes (wantedBackend seat.conf drm) with
    | none => (false, none, seat.closeFd fd)
    | some backend => (answer.wakes, some ⟨backend, fd⟩, seat)

/-- A device is freed whose `video` may be set: nothing points to that any more. -/
def forget (video : Option VideoObject) (seat : DeviceSeat) : DeviceSeat :=
  { seat with leaked := (video.map VideoObject.fd).toList ++ seat.leaked }

/-- `kmscon_seat_add_video`. -/
def kmsconSeatAddVideo (type : MonitorDevType) (flags : MonitorFlags) (node : List UInt8)
    (udev : ℕ) (seat : DeviceSeat) : DeviceSeat × DataSets :=
  if gpuIsIgnored seat.conf type flags then (seat, [])
  else
    let (answer, seat) := seat.ask answers
    match malloc.addr seat.used with
    | none => (seat, [])
    | some a =>
      let drm := decide (type = .drm)
      if !answer.memory then (seat, [])
      else if seat.awake then
        match seat.seatVideoInit files answers drm with
        | (true, video, seat) =>
          ({ seat with videos := (a, ⟨video, udev, node, drm⟩) :: seat.videos },
            [(udev, some a)])
        | (false, video, seat) => (seat.forget video, [(udev, some a), (udev, none)])
      else
        ({ seat with videos := (a, ⟨none, udev, node, drm⟩) :: seat.videos }, [(udev, some a)])

/-- `kmscon_seat_remove_video`, with a pointer that is not NULL. -/
def removeVideo (a : ℕ) (seat : DeviceSeat) : DeviceSeat × DataSets :=
  match Entries.lookup a seat.videos with
  | none => ({ seat with fault := true }, [])
  | some v =>
    let seat := { seat with videos := seat.videos.erase v }
    match v.2.video with
    | none => (seat, [(v.2.udev, none)])
    | some video => (seat.closeFd video.fd, [(v.2.udev, none)])

/-- `kmscon_seat_remove_video`. -/
def kmsconSeatRemoveVideo (data : Option ℕ) (seat : DeviceSeat) : DeviceSeat × DataSets :=
  match data with
  | none => (seat, [])
  | some a => seat.removeVideo a

/-- `kmscon_seat_poll_video`: the device is looked at. -/
def kmsconSeatPollVideo (data : Option ℕ) (seat : DeviceSeat) : DeviceSeat :=
  match data with
  | none => seat
  | some a => if a ∈ seat.videos.map Prod.fst then seat else { seat with fault := true }

/-- Set the `video` of a device. -/
def setVideo (a : ℕ) (video : Option VideoObject) (seat : DeviceSeat) : DeviceSeat :=
  { seat with videos := Entries.modify a (KmsconVideo.withVideo video) seat.videos }

/-- One round of the first loop of `seat_go_foreground`. -/
def raiseVideo (acc : DeviceSeat × DataSets) (a : ℕ) : DeviceSeat × DataSets :=
  match Entries.lookup a acc.1.videos with
  | none => acc
  | some v =>
    if v.2.video.isSome then acc
    else
      match acc.1.seatVideoInit files answers v.2.drm with
      | (true, video, seat) =>
        (seat.setVideo a video, acc.2)
      | (false, video, seat) =>
        ({ seat with videos := seat.videos.erase v }.forget video,
          acc.2 ++ [(v.2.udev, none)])

/-- `seat_go_foreground`, with `true` for success. -/
def seatGoForeground (seat : DeviceSeat) : Bool × DeviceSeat × DataSets :=
  if seat.foreground then (true, seat, [])
  else if !seat.awake then (false, seat, [])
  else
    (true, (seat.videos.map Prod.fst).foldl (raiseVideo files answers)
      ({ seat with foreground := true }, []))

/-- `seat_go_background`, with `true` for success. -/
def seatGoBackground (seat : DeviceSeat) : Bool × DeviceSeat :=
  if !seat.foreground then (true, seat)
  else if !seat.awake then (false, seat)
  else (true, { seat with foreground := false })

/-! ## Input devices -/

/-- `input_open_dev`. -/
def inputOpenDev (answer : Answer) (seat : DeviceSeat) : Option ℕ × DeviceSeat :=
  match seat.openNode files answer.opens with
  | none => (none, seat)
  | some (fd, seat) => if answer.watched then (some fd, seat) else (none, seat.closeFd fd)

/-- `input_init_dev` without the list: the descriptor, if the device is of use. -/
def inputInitDev (seat : DeviceSeat) : Option ℕ × DeviceSeat :=
  let (answer, seat) := seat.ask answers
  match seat.inputOpenDev files answer with
  | (none, seat) => (none, seat)
  | (some fd, seat) => if answer.usable then (some fd, seat) else (none, seat.closeFd fd)

/-- `input_sleep_dev`. -/
def inputSleepDev (dev : InputDev) (seat : DeviceSeat) : InputDev × DeviceSeat :=
  match dev.rfd with
  | none => (dev, seat)
  | some fd => if !dev.initialized then (dev, seat) else (dev.closed, seat.closeFd fd)

/-- `input_free_dev`. -/
def inputFreeDev (d : ℕ × InputDev) (seat : DeviceSeat) : DeviceSeat :=
  let (_, seat) := seat.inputSleepDev d.2
  { seat with inputs := seat.inputs.erase d }

/-- Replace a device of the input layer. -/
def setInput (a : ℕ) (dev : InputDev) (seat : DeviceSeat) : DeviceSeat :=
  { seat with inputs := Entries.modify a (fun _ => dev) seat.inputs }

/-- `input_add_dev`. -/
def inputAddDev (node : List UInt8) (seat : DeviceSeat) : Option ℕ × DeviceSeat :=
  let (answer, seat) := seat.ask answers
  match malloc.addr seat.used with
  | none => (none, seat)
  | some a =>
    if !answer.memory then (none, seat)
    else if 0 < seat.inputAwake then
      match seat.inputInitDev files answers with
      | (none, seat) => (none, seat)
      | (some fd, seat) =>
        (some a, { seat with inputs := (a, ⟨node, some fd, true⟩) :: seat.inputs })
    else (some a, { seat with inputs := (a, ⟨node, none, false⟩) :: seat.inputs })

/-- `input_remove_dev`: the device is known by its address. -/
def inputRemoveDev (data : Option ℕ) (seat : DeviceSeat) : DeviceSeat :=
  match data.bind fun a => Entries.lookup a seat.inputs with
  | none => seat
  | some d => seat.inputFreeDev d

/-- One round of `input_sleep`. -/
def sleepRound (seat : DeviceSeat) (a : ℕ) : DeviceSeat :=
  match Entries.lookup a seat.inputs with
  | none => seat
  | some d =>
    let (dev, seat) := seat.inputSleepDev d.2
    seat.setInput a dev

/-- `input_sleep`. -/
def inputSleep (seat : DeviceSeat) : DeviceSeat :=
  let seat := { seat with inputAwake := seat.inputAwake - 1 }
  if seat.inputAwake ≠ 0 then seat else (seat.inputs.map Prod.fst).foldl sleepRound seat

/-- One round of `input_wake_up`. -/
def wakeRound (seat : DeviceSeat) (a : ℕ) : DeviceSeat :=
  match Entries.lookup a seat.inputs with
  | none => seat
  | some d =>
    if !d.2.initialized then
      match seat.inputInitDev files answers with
      | (none, seat) => { seat with inputs := seat.inputs.erase d }
      | (some fd, seat) => seat.setInput a { d.2 with rfd := some fd, initialized := true }
    else if d.2.rfd.isSome then seat
    else
      let (answer, seat) := seat.ask answers
      match seat.inputOpenDev files answer with
      | (none, seat) => seat.inputFreeDev d
      | (some fd, seat) => seat.setInput a { d.2 with rfd := some fd }

/-- `input_wake_up`. -/
def inputWakeUp (seat : DeviceSeat) : DeviceSeat :=
  let seat := { seat with inputAwake := seat.inputAwake + 1 }
  if seat.inputAwake ≠ 1 then seat
  else (seat.inputs.map Prod.fst).foldl (wakeRound files answers) seat

/-! ## The callbacks of the monitor -/

/-- `seat_monitor_new_dev`. -/
def seatMonitorNewDev (node : List UInt8) (type : MonitorDevType) (flags : MonitorFlags)
    (udev : ℕ) (seat : DeviceSeat) : DeviceSeat × DataSets :=
  match type with
  | .input =>
    let (data, seat) := seat.inputAddDev malloc files answers node
    (seat, [(udev, data)])
  | type => seat.kmsconSeatAddVideo malloc files answers type flags node udev

/-- `seat_monitor_free_dev`. -/
def seatMonitorFreeDev (type : MonitorDevType) (data : Option ℕ) (seat : DeviceSeat) :
    DeviceSeat × DataSets :=
  match type with
  | .input => (seat.inputRemoveDev data, [])
  | _ => seat.kmsconSeatRemoveVideo data

/-- `seat_monitor_hotplug_dev`. -/
def seatMonitorHotplugDev (type : MonitorDevType) (data : Option ℕ) (seat : DeviceSeat) :
    DeviceSeat × DataSets :=
  match type with
  | .input => (seat, [])
  | _ => (seat.kmsconSeatPollVideo data, [])

/-- `seat_monitor_cb`. -/
def seatMonitorCb : MonitorCb DeviceSeat where
  newDev := seatMonitorNewDev malloc files answers
  freeDev := seatMonitorFreeDev
  hotplugDev := seatMonitorHotplugDev

/-! ## The handlers of the seat -/

/-- `seat_go_awake`, with `true` for success; `agrees` is the answer of the callback. -/
def seatGoAwake (agrees : Bool) (seat : DeviceSeat) : Bool × DeviceSeat :=
  if seat.awake then (true, seat)
  else if !agrees then (false, seat)
  else (true, { seat with awake := true }.inputWakeUp files answers)

/-- `seat_go_asleep`. -/
def seatGoAsleep (seat : DeviceSeat) : DeviceSeat :=
  if !seat.awake then seat else { seat with awake := false }.inputSleep

/-- `seat_vt_activate`. -/
def seatVtActivate (agrees : Bool) (seat : DeviceSeat) : DeviceSeat × DataSets :=
  let (ok, seat) := seat.seatGoAwake files answers agrees
  if !ok then (seat, []) else (seat.seatGoForeground files answers).2

/-- `seat_vt_deactivate`. -/
def seatVtDeactivate (seat : DeviceSeat) : DeviceSeat :=
  let (ok, seat) := seat.seatGoBackground
  if !ok then seat else seat.seatGoAsleep

/-- The change of ground in `seat_switch`, to a session that is to be shown in the foreground
or not, or to none. -/
def followSession (new : Option Bool) (seat : DeviceSeat) : DeviceSeat × DataSets :=
  match new with
  | none => (seat.seatGoBackground.2, [])
  | some true => if seat.foreground then (seat, []) else (seat.seatGoForeground files answers).2
  | some false => if seat.foreground then (seat.seatGoBackground.2, []) else (seat, [])

/-- What happens to a seat: scans and reports of devices, changes of the VT and of the
session, wake-ups and sleeps of the input layer by others, and an input device at whose
descriptor `input_data_dev` finds the end. -/
inductive DeviceEvent where
  | scan (found : List (UdevDevice × Probe))
  | udev (closed : Bool) (queue : List Monitor.Report)
  | vtActivate (agrees : Bool)
  | vtDeactivate
  | session (new : Option Bool)
  | inputWakeUp
  | inputSleep
  | inputEof (a : ℕ)

/-- One event. -/
def step (seatName : List UInt8) (mon : Monitor DeviceSeat) :
    DeviceEvent → Monitor DeviceSeat
  | .scan found => mon.utermMonitorScan malloc (seatMonitorCb malloc files answers) seatName found
  | .udev closed queue =>
    mon.monitorUdevEvent malloc (seatMonitorCb malloc files answers) seatName closed queue
  | .vtActivate agrees => mon.called (mon.user.seatVtActivate files answers agrees)
  | .vtDeactivate => mon.called (mon.user.seatVtDeactivate, [])
  | .session new => mon.called (mon.user.followSession files answers new)
  | .inputWakeUp => mon.called (mon.user.inputWakeUp files answers, [])
  | .inputSleep => mon.called (mon.user.inputSleep, [])
  | .inputEof a => mon.called (mon.user.inputRemoveDev (some a), [])

end Model

end DeviceSeat

end Faceplate.Seats
