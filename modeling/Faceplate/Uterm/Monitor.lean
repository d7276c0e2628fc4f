import Mathlib.Algebra.Group.Int.Defs
import Faceplate.Lib.Announcements
import Faceplate.Lib.CString
import Faceplate.Lib.Entries
import Faceplate.Lib.Heap

/-!
# The device monitor

`uterm/monitor.c` follows the devices of one seat: it is told by udev what comes, goes and
changes, keeps the devices of its seat in a list and tells its user. What libudev says about
a device and what the kernel answers when its node is opened are part of the event. The
callbacks of the user are functions on the state of the user; they may set the data of a
device. The monitor is looked at from its scan on, which gives it the name of the seat.
-/

namespace Faceplate.Uterm

open CString Announcements

/-- `enum uterm_monitor_dev_type`. -/
inductive MonitorDevType where
  | drm
  | fbdev
  | input
  deriving DecidableEq, Repr

/-- The flags `UTERM_MONITOR_DRM_BACKED`, `UTERM_MONITOR_PRIMARY` and `UTERM_MONITOR_AUX`. -/
structure MonitorFlags where
  drmBacked : Bool
  primary : Bool
  aux : Bool
  deriving DecidableEq, Repr

/-- What libudev says about a device, `none` where that is NULL. -/
structure UdevDevice where
  syspath : Option (List UInt8)
  devnode : Option (List UInt8)
  subsystem : Option (List UInt8)
  sysname : Option (List UInt8)
  /-- The properties `ID_SEAT` and `HOTPLUG`. -/
  idSeat : Option (List UInt8)
  hotplug : Option (List UInt8)
  /-- The parent in the subsystem `input`, by its `ID_SEAT`. -/
  inputParent : Option (Option (List UInt8))
  /-- `boot_vga` of the parent in the subsystem `pci`. -/
  bootVga : Option (List UInt8)
  deriving DecidableEq, Repr

/-- What the kernel answers for a node, and whether there is memory. -/
structure Probe where
  opens : Bool
  /-- The name of the driver, as `get_drm_name` reads it. -/
  driver : Option (List UInt8)
  /-- The `id` that `FBIOGET_FSCREENINFO` fills in. -/
  fixId : Option (List UInt8)
  strdup : Bool
  deriving DecidableEq, Repr

/-- `(int)strtol(s, &end, 10)`, with what `end` points to. -/
def strtolEnd (s : List UInt8) : ℤ × List UInt8 :=
  let t := s.dropWhile isSpace
  let (negative, t) :=
    match t with
    | 0x2d :: rest => (true, rest)
    | 0x2b :: rest => (false, rest)
    | _ => (false, t)
  if (t.takeWhile isDigit).isEmpty then (0, s)
  else
    let n : ℤ := digitsValue (t.takeWhile isDigit)
    let long := if negative then max (-n) (-2 ^ 63) else min n (2 ^ 63 - 1)
    ((long + 2 ^ 31) % 2 ^ 32 - 2 ^ 31, t.dropWhile isDigit)

/-- The number behind the prefix of a name; `-ENODEV` if it has another form. -/
def sysnameId (pre : List UInt8) (dev : UdevDevice) : ℤ :=
  match dev.sysname.bind (stripPrefix pre) with
  | none => -19
  | some [] => -19
  | some digits =>
    let (devnum, rest) := strtolEnd digits
    if devnum < 0 ∨ rest ≠ [] then -19 else devnum

/-- `get_card_id`. -/
def getCardId (dev : UdevDevice) : ℤ := sysnameId (lit "card") dev

/-- `get_fb_id`. -/
def getFbId (dev : UdevDevice) : ℤ := sysnameId (lit "fb") dev

/-- `get_fbdev_flags`. -/
def getFbdevFlags (probe : Probe) : MonitorFlags :=
  if !probe.opens then ⟨true, false, false⟩
  else
    match probe.fixId with
    | none => ⟨true, false, false⟩
    | some id =>
      let backed := (5 ≤ id.length ∧ id.drop (id.length - 5) = lit "drmfb") ∨
        id = lit "nouveaufb" ∨ id = lit "psbfb"
      ⟨backed, id ≠ lit "udlfb" ∧ id = lit "VESA VGA", id = lit "udlfb"⟩

/-- `is_drm_primary`. -/
def isDrmPrimary (dev : UdevDevice) : Bool := dev.bootVga = some (lit "1")

/-- `is_drm_usb`. -/
def isDrmUsb (probe : Probe) : Bool := probe.driver = some (lit "udl")

/-- `get_drm_flags`. -/
def getDrmFlags (dev : UdevDevice) (probe : Probe) : MonitorFlags :=
  if !probe.opens then ⟨false, false, false⟩ else ⟨false, isDrmPrimary dev, isDrmUsb probe⟩

/-- `struct uterm_monitor_dev`; its data is a pointer of the user. -/
structure MonitorDev where
  type : MonitorDevType
  flags : MonitorFlags
  node : List UInt8
  data : Option ℕ
  deriving DecidableEq, Repr

/-- The callbacks of `struct uterm_monitor_cb`. Each gives the state of the user and the
calls of `uterm_monitor_set_dev_data` that it makes. -/
structure MonitorCb (σ : Type*) where
  newDev : List UInt8 → MonitorDevType → MonitorFlags → ℕ → σ → σ × List (ℕ × Option ℕ)
  freeDev : MonitorDevType → Option ℕ → σ → σ × List (ℕ × Option ℕ)
  hotplugDev : MonitorDevType → Option ℕ → σ → σ × List (ℕ × Option ℕ)

/-- What stays of a device while it is in the list: its address, node, type and flags. -/
abbrev MonitorTag := ℕ × List UInt8 × MonitorDevType × MonitorFlags

/-- All of a device but its data. -/
def monitorTag (d : ℕ × MonitorDev) : MonitorTag := (d.1, d.2.node, d.2.type, d.2.flags)

/-- `struct uterm_monitor` with the devices in its list, under their addresses, and with the
state of its user. One device may be out of the list and not yet freed. `told` records what
the user was told, and `fault` that data was set of a device which is not there. -/
structure Monitor (σ : Type*) where
  devices : List (ℕ × MonitorDev)
  freeing : Option ℕ
  user : σ
  told : List (Told MonitorTag)
  fault : Bool

namespace Monitor

variable {σ : Type*}

/-- A monitor that nothing was found for yet. -/
def new (user : σ) : Monitor σ := ⟨[], none, user, [], false⟩

/-- The data of one of the devices in a list is set. -/
def withData (set : ℕ × Option ℕ) (devices : List (ℕ × MonitorDev)) : List (ℕ × MonitorDev) :=
  Entries.modify set.1 (fun d => { d with data := set.2 }) devices

/-- `uterm_monitor_set_dev_data`. -/
def setDevData (mon : Monitor σ) (set : ℕ × Option ℕ) : Monitor σ :=
  if mon.freeing = some set.1 then mon
  else if set.1 ∈ mon.devices.map Prod.fst then
    { mon with devices := withData set mon.devices }
  else { mon with fault := true }

/-- What a callback has done. -/
def called (mon : Monitor σ) (result : σ × List (ℕ × Option ℕ)) : Monitor σ :=
  result.2.foldl setDevData { mon with user := result.1 }

/-- `monitor_find_dev`, for a node. -/
def findNode (mon : Monitor σ) (node : List UInt8) : Option (ℕ × MonitorDev) :=
  mon.devices.find? (·.2.node = node)

/-- `monitor_find_dev`. -/
def monitorFindDev (mon : Monitor σ) (dev : UdevDevice) : Option (ℕ × MonitorDev) :=
  dev.devnode.bind mon.findNode

variable (malloc : Malloc) (cb : MonitorCb σ) (seatName : List UInt8)

/-- `mon_new_dev`; `strdup` says whether there is memory for the node. -/
def monNewDev (type : MonitorDevType) (flags : MonitorFlags) (node : List UInt8) (strdup : Bool)
    (mon : Monitor σ) : Monitor σ :=
  match malloc.addr (mon.devices.map Prod.fst) with
  | none => mon
  | some a =>
    if !strdup then mon
    else
      let mon := { mon with
        devices := (a, ⟨type, flags, node, none⟩) :: mon.devices
        told := mon.told ++ [Told.added (a, node, type, flags)] }
      mon.called (cb.newDev node type flags a mon.user)

/-- `mon_free_dev`. -/
def monFreeDev (d : ℕ × MonitorDev) (mon : Monitor σ) : Monitor σ :=
  let mon := { mon with
    devices := mon.devices.erase d
    freeing := some d.1
    told := mon.told ++ [Told.removed (monitorTag d)] }
  { mon.called (cb.freeDev d.2.type d.2.data mon.user) with freeing := none }

/-- What `monitor_udev_add` makes of a device: its seat, its type and its flags. -/
def classify (dev : UdevDevice) (probe : Probe) :
    Option (Option (List UInt8) × MonitorDevType × MonitorFlags) :=
  match dev.subsystem with
  | none => none
  | some subs =>
    if subs = lit "drm" then
      if getCardId dev < 0 then none else some (dev.idSeat, .drm, getDrmFlags dev probe)
    else if subs = lit "graphics" then
      if getFbId dev < 0 then none else some (dev.idSeat, .fbdev, getFbdevFlags probe)
    else if subs = lit "input" then
      match dev.sysname.bind (stripPrefix (lit "event")), dev.inputParent with
      | some _, some seat => some (seat, .input, ⟨false, false, false⟩)
      | _, _ => none
    else none

/-- The seat of a device that names none. -/
def seatOf (sname : Option (List UInt8)) : List UInt8 := sname.getD (lit "seat0")

/-- `monitor_udev_add`. -/
def monitorUdevAdd (dev : UdevDevice) (probe : Probe) (mon : Monitor σ) : Monitor σ :=
  if dev.syspath.isNone then mon
  else if (mon.monitorFindDev dev).isSome then mon
  else
    match dev.devnode with
    | none => mon
    | some node =>
      match classify dev probe with
      | none => mon
      | some (sname, type, flags) =>
        if seatOf sname ≠ seatName then mon
        else mon.monNewDev malloc cb type flags node probe.strdup

/-- `monitor_udev_remove`. -/
def monitorUdevRemove (dev : UdevDevice) (mon : Monitor σ) : Monitor σ :=
  match mon.monitorFindDev dev with
  | none => mon
  | some d => mon.monFreeDev cb d

/-- `monitor_udev_change`. -/
def monitorUdevChange (dev : UdevDevice) (probe : Probe) (mon : Monitor σ) : Monitor σ :=
  match mon.monitorFindDev dev with
  | some d =>
    -- a device that switched seats is removed and added again
    if seatOf dev.idSeat ≠ seatName then
      (mon.monFreeDev cb d).monitorUdevAdd malloc cb seatName dev probe
    else if dev.hotplug = some (lit "1") then
      mon.called (cb.hotplugDev d.2.type d.2.data mon.user)
    else mon
  | none => mon.monitorUdevAdd malloc cb seatName dev probe

/-- What udev reports: the action, the device and what the kernel answers about it. -/
structure Report where
  action : Option (List UInt8)
  dev : UdevDevice
  probe : Probe
  deriving DecidableEq, Repr

/-- One round of `monitor_udev_event`. -/
def receive (mon : Monitor σ) (report : Report) : Monitor σ :=
  if report.action = some (lit "add") then
    mon.monitorUdevAdd malloc cb seatName report.dev report.probe
  else if report.action = some (lit "remove") then mon.monitorUdevRemove cb report.dev
  else if report.action = some (lit "change") then
    mon.monitorUdevChange malloc cb seatName report.dev report.probe
  else mon

/-- `monitor_udev_event`, with the reports that udev has queued; `closed` stands for the
mask bits `EV_HUP` and `EV_ERR`. -/
def monitorUdevEvent (closed : Bool) (queue : List Report) (mon : Monitor σ) : Monitor σ :=
  if closed then mon else queue.foldl (receive malloc cb seatName) mon

/-- `uterm_monitor_scan`, with the devices that the enumeration finds. -/
def utermMonitorScan (found : List (UdevDevice × Probe)) (mon : Monitor σ) : Monitor σ :=
  found.foldl (fun mon f => mon.monitorUdevAdd malloc cb seatName f.1 f.2) mon

/-- One round of the last `uterm_monitor_unref`, for the device at an address. -/
def unrefRound (mon : Monitor σ) (a : ℕ) : Monitor σ :=
  match Entries.lookup a mon.devices with
  | none => mon
  | some d => mon.monFreeDev cb d

/-- The last `uterm_monitor_unref`: the devices go in the order of the list. -/
def utermMonitorUnref (mon : Monitor σ) : Monitor σ :=
  (mon.devices.map Prod.fst).foldl (unrefRound cb) mon

end Monitor

end Faceplate.Uterm
