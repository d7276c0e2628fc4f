import Faceplate.Input.Devices
import Faceplate.Lib.Runs

/-!
# Real VTs

`vt_real.c` and the callbacks of `vt.c`: a VT of the kernel is entered and left by
signals, and the input layer is kept awake while it is active. What the kernel and the
callbacks answer is part of the event. The input layer is shared with others, the
callbacks among them; their net number of wake-ups is recorded beside the state.
-/

namespace Faceplate.Uterm

open Faceplate.Input

/-- The requests to the kernel. -/
inductive Ioctl where
  | relDisp (arg : ℤ)
  | activate (num : ℤ)
  | setKbMode (mode : ℤ)
  | setModeProcess
  | setModeAuto
  | setGraphics
  | setText
  deriving DecidableEq, Repr

/-- `VT_ACKACQ`. -/
def vtAckAcq : ℤ := 2

/-- `K_RAW`, `K_UNICODE` and `K_OFF`. -/
def kRaw : ℤ := 0
def kUnicode : ℤ := 3
def kOff : ℤ := 4

/-- `-EPIPE`, `-EFAULT` and `-EINPROGRESS`. -/
def epipe : ℤ := -32
def efault : ℤ := -14
def einprogress : ℤ := -115

/-- `struct uterm_vt_real` with its base. `real_delayed` is set exactly while the idle
callback of the same name is registered, and `watched` while the fd is enabled. -/
structure Vt where
  active : Bool
  hup : Bool
  realNum : ℤ
  realSavedNum : ℤ
  realKbmode : ℤ
  watched : Bool
  realDelayed : Bool
  realTarget : ℤ
  realTargetTime : ℤ
  deriving DecidableEq, Repr

/-- A user of the input layer wakes it up or lets it sleep. -/
inductive InputCall where
  | wakeUp
  | sleep
  deriving DecidableEq, Repr

/-- The input layer, the net number of wake-ups by others, and the requests made. -/
structure World where
  input : Devices
  others : ℤ
  ioctls : List Ioctl
  deriving DecidableEq, Repr

section World

variable (usable : ℕ → Bool)

/-- A call of somebody else. -/
def World.other (world : World) : InputCall → World
  | .wakeUp => { world with input := inputWakeUp usable world.input, others := world.others + 1 }
  | .sleep => { world with input := inputSleep world.input, others := world.others - 1 }

/-- The calls that a callback makes. -/
def World.callback (world : World) (calls : List InputCall) : World :=
  calls.foldl (World.other usable) world

/-- The VT wakes up the input layer. -/
def World.wakeUp (world : World) : World :=
  { world with input := inputWakeUp usable world.input }

/-- The VT lets it sleep. -/
def World.sleep (world : World) : World := { world with input := inputSleep world.input }

/-- `ioctl`. -/
def World.ioctl (world : World) (request : Ioctl) : World :=
  { world with ioctls := world.ioctls ++ [request] }

/-- `vt_cb_activate`. -/
def vtCbActivate (calls : List InputCall) (vt : Vt) (world : World) : Vt × World :=
  if vt.active then (vt, world) else ({ vt with active := true }, world.callback usable calls)

/-- `vt_cb_deactivate`, with the result of the callback. -/
def vtCbDeactivate (calls : List InputCall) (ret : ℤ) (vt : Vt) (world : World) :
    ℤ × Vt × World :=
  if !vt.active then (0, vt, world)
  else (ret, { vt with active := false }, world.callback usable calls)

/-- The idle callback `real_delayed`. -/
def realDelayed (calls : List InputCall) (vt : Vt) (world : World) : Vt × World :=
  vtCbActivate usable calls { vt with realDelayed := false } world

/-- `real_sig_enter`; `state` is the answer of `VT_GETSTATE`. -/
def realSigEnter (state : Option ℤ) (calls : List InputCall) (vt : Vt) (world : World) :
    Vt × World :=
  if state ≠ some vt.realNum then (vt, world)
  else
    let (vt, world) :=
      if vt.realDelayed then ({ vt with realDelayed := false }, world)
      else if vt.active then (vt, world)
      else (vt, world.wakeUp usable)
    vtCbActivate usable calls { vt with realTarget := -1 } (world.ioctl (.relDisp vtAckAcq))

/-- `real_sig_leave`. -/
def realSigLeave (state : Option ℤ) (calls : List InputCall) (ret : ℤ) (vt : Vt)
    (world : World) : Vt × World :=
  if state ≠ some vt.realNum then (vt, world)
  else
    let active := vt.active
    let (ret, vt, world) := vtCbDeactivate usable calls ret vt world
    if ret ≠ 0 then (vt, world.ioctl (.relDisp 0))
    else
      let (vt, world) :=
        if vt.realDelayed then ({ vt with realDelayed := false }, world.sleep)
        else if !active then (vt, world)
        else (vt, world.sleep)
      ({ vt with realTarget := -1 }, world.ioctl (.relDisp 1))

/-- `real_vt_input` for `EV_HUP` or `EV_ERR`. A callback that frees the VT is a close
right behind it, since nothing else follows. -/
def realVtHup (calls : List InputCall) (vt : Vt) (world : World) : Vt × World :=
  ({ vt with watched := false, hup := true }, world.callback usable calls)

/-- What `real_open` meets: the number of the opened tty, and whether the steps behind
it succeed. -/
structure OpenAnswers where
  tty : Option ℤ
  newFd : Bool
  state : Option ℤ
  graphics : Bool
  setMode : Bool
  kbMode : Option ℤ
  raw : Bool
  idle : Bool
  deriving DecidableEq, Repr

/-- `real_open` on a new object. Every error takes back the steps before it. -/
def realOpen (answers : OpenAnswers) (world : World) : Option Vt × World :=
  match answers.tty, answers.newFd, answers.state with
  | some num, true, some saved =>
    let world := world.ioctl .setGraphics
    if !answers.graphics then (none, world)
    else
      let world := world.ioctl .setModeProcess
      if !answers.setMode then (none, world.ioctl .setText)
      else
        match answers.kbMode with
        | none => (none, (world.ioctl .setModeAuto).ioctl .setText)
        | some mode =>
          let mode := if mode = kOff then kUnicode else mode
          let world := world.ioctl (.setKbMode kRaw)
          if !answers.raw then (none, (world.ioctl .setModeAuto).ioctl .setText)
          else
            let world := world.ioctl (.setKbMode kOff)
            let vt : Vt := ⟨false, false, num, saved, mode, true, false, -1, 0⟩
            if saved = num then
              if !answers.idle then
                (none, ((world.ioctl (.setKbMode mode)).ioctl .setModeAuto).ioctl .setText)
              else (some { vt with realDelayed := true }, world.wakeUp usable)
            else (some vt, world)
  | _, _, _ => (none, world)

/-- `real_close`, after which the object is freed. -/
def realClose (calls : List InputCall) (ret : ℤ) (vt : Vt) (world : World) : World :=
  let (vt, world) :=
    if vt.realDelayed then ({ vt with realDelayed := false }, world.sleep)
    else if vt.active then (vt, world.sleep)
    else (vt, world)
  let (_, vt, world) := vtCbDeactivate usable calls ret vt world
  ((world.ioctl (.setKbMode vt.realKbmode)).ioctl .setModeAuto).ioctl .setText

end World

/-- `real_activate`; `ok` is the answer of `VT_ACTIVATE`. -/
def realActivate (state : Option ℤ) (ok : Bool) (vt : Vt) (world : World) : ℤ × Vt × World :=
  if vt.hup then (epipe, vt, world)
  else if state = some vt.realNum then (0, vt, world)
  else
    let vt := { vt with realTarget := -1 }
    (if ok then einprogress else efault, vt, world.ioctl (.activate vt.realNum))

/-- `real_deactivate` at time `now`. -/
def realDeactivate (state : Option ℤ) (now : ℤ) (ok : Bool) (vt : Vt) (world : World) :
    ℤ × Vt × World :=
  if vt.hup then (epipe, vt, world)
  else
    match state with
    | none => (efault, vt, world)
    | some current =>
      if current ≠ vt.realNum ∨ current = vt.realSavedNum then (0, vt, world)
      else
        let vt := { vt with realTarget := vt.realSavedNum, realTargetTime := now }
        (if ok then einprogress else efault, vt, world.ioctl (.activate vt.realSavedNum))

/-- A key event as `real_input` sees it. -/
structure VtKey where
  handled : Bool
  ctrlAlt : Bool
  keysym : ℕ
  deriving DecidableEq, Repr

/-- `XKB_KEY_F1` and `XKB_KEY_XF86Switch_VT_1`; eleven keys follow each. -/
def keyF1 : ℕ := 0xffbe
def keySwitchVt1 : ℕ := 0x1008fe01

/-- The VT that a key asks for. -/
def vtOfKey (key : VtKey) : Option ℤ :=
  if key.ctrlAlt ∧ keyF1 ≤ key.keysym ∧ key.keysym ≤ keyF1 + 11 then
    some (key.keysym - keyF1 + 1 : ℕ)
  else if keySwitchVt1 ≤ key.keysym ∧ key.keysym ≤ keySwitchVt1 + 11 then
    some (key.keysym - keySwitchVt1 + 1 : ℕ)
  else none

/-- `real_input`; the flag is the new value of `handled`. -/
def realInput (key : VtKey) (state : Option ℤ) (now : ℤ) (vt : Vt) (world : World) :
    Bool × Vt × World :=
  if key.handled || !vt.active || vt.hup then (key.handled, vt, world)
  else if state ≠ some vt.realNum then (false, vt, world)
  else
    match vtOfKey key with
    | none => (false, vt, world)
    | some id =>
      if id = vt.realNum then (true, vt, world)
      else
        (true, { vt with realTarget := id, realTargetTime := now }, world.ioctl (.activate id))

/-- `real_retry` at time `now`. -/
def realRetry (state : Option ℤ) (now : ℤ) (vt : Vt) (world : World) : Vt × World :=
  if vt.hup then (vt, world)
  else if state ≠ some vt.realNum ∨ vt.realTarget < 0 then (vt, world)
  else if vt.realTargetTime < now - 3 then ({ vt with realTarget := -1 }, world)
  else (vt, world.ioctl (.activate vt.realTarget))

end Faceplate.Uterm
