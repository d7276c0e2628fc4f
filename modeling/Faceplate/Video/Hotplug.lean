import Mathlib.Data.List.ReduceOption
import Mathlib.Data.List.Zip
import Faceplate.Lib.Announcements
import Faceplate.Video.FlipRefs

/-!
# Hotplug of a DRM device

`drm_video_hotplug` asks the kernel for all connectors, binds a display to each new one
that is connected, lets go of the displays whose connector is gone, sets the modes, and
tells the seat which displays came and went. When it fails, the device is asked again by
a timer. The books of references and modes are those of `DrmVideo`; what a hotplug keeps
beside them is modelled here.
-/

namespace Faceplate.Video

open Announcements

/-- `drmModeEncoder`. -/
structure KmsEncoder where
  crtcId : ℕ
  possibleCrtcs : BitVec 32
  deriving DecidableEq, Repr

/-- `drmModeConnector`, with the encoder that drives it and all its encoders, as far as
`drmModeGetEncoder` finds them, and the mode of the CRTC that it is on. -/
structure KmsConnector where
  connected : Bool
  modes : List Mode
  current : Option KmsEncoder
  encoders : List (Option KmsEncoder)
  crtcMode : Option Mode
  deriving DecidableEq, Repr

/-- What `bind_display` gets for its calls: the address that `display_new` hands out if
it can, the DPMS state, and whether blob, plane and properties are there. -/
structure BindAnswers where
  made : Bool
  addr : ℕ
  dpms : Dpms
  setup : Bool
  deriving DecidableEq, Repr

/-- What is found for one connector of the resources. -/
structure ConnectorAnswers where
  id : ℕ
  conn : Option KmsConnector
  bind : BindAnswers
  deriving DecidableEq, Repr

/-- `drmModeRes`. The mask of an encoder has a bit for each CRTC. -/
structure KmsResources where
  connectors : List ConnectorAnswers
  crtcs : List ℕ
  few : crtcs.length ≤ 32

/-- The answers during a hotplug. -/
structure HotplugAnswers (α : Type*) where
  res : Option KmsResources
  modeset : ModesetAnswers α
  retry : ModesetAnswers α

/-- What a hotplug looks at of a display beside `DrmDisplay`. -/
structure Plug where
  connector : ℕ
  crtcIndex : ℕ
  available : Bool
  inUse : Bool
  deriving DecidableEq, Repr

namespace Plug

/-- The connector is found. -/
def found (plug : Plug) : Plug := { plug with available := true }

/-- The connector has still to be found. -/
def cleared (plug : Plug) : Plug := { plug with available := false }

/-- The seat knows the display. -/
def used (plug : Plug) : Plug := { plug with inUse := true }

end Plug

/-- `struct video` and `struct drm_video` of a device, with all that the seat was told. -/
structure KmsVideo (β : Type*) where
  video : DrmVideo β
  hotplug : Bool
  master : Bool
  vtTimer : Bool
  plugs : ℕ → Plug
  told : List (Told ℕ)

/-- `get_crtc_index`. -/
def getCrtcIndex (crtcs : List ℕ) (crtc : ℕ) : ℕ :=
  if crtcs.idxOf crtc < crtcs.length then crtcs.idxOf crtc else 0

namespace DrmVideo

variable {β : Type*} (video : DrmVideo β)

/-- The inner loop of `modeset_find_crtc` over the global CRTCs, from number `j` on. -/
def findCrtcLoop (enc : KmsEncoder) : ℕ → List ℕ → Option (ℕ × ℕ)
  | _, [] => none
  | j, crtc :: crtcs =>
    if !enc.possibleCrtcs.getLsbD j then findCrtcLoop enc (j + 1) crtcs
    else if video.isCrtcInUse crtc then findCrtcLoop enc (j + 1) crtcs
    else some (crtc, j)

/-- The loop of `modeset_find_crtc` over the encoders. -/
def findEncoderLoop (crtcs : List ℕ) : List (Option KmsEncoder) → Option (ℕ × ℕ)
  | [] => none
  | none :: encoders => findEncoderLoop crtcs encoders
  | some enc :: encoders =>
    match video.findCrtcLoop enc 0 crtcs with
    | none => findEncoderLoop crtcs encoders
    | some found => some found

/-- `modeset_find_crtc`: the CRTC and its index. -/
def modesetFindCrtc (crtcs : List ℕ) (conn : KmsConnector) : Option (ℕ × ℕ) :=
  match conn.current with
  | none => video.findEncoderLoop crtcs conn.encoders
  | some enc =>
    if enc.crtcId ≠ 0 ∧ !video.isCrtcInUse enc.crtcId then
      some (enc.crtcId, getCrtcIndex crtcs enc.crtcId)
    else video.findEncoderLoop crtcs conn.encoders

end DrmVideo

/-- The CRTCs that an encoder can be put on, with their numbers from `j` on. -/
def KmsEncoder.possible (enc : KmsEncoder) (crtcs : List ℕ) (j : ℕ) : List (ℕ × ℕ) :=
  (crtcs.zipIdx j).filter fun p => enc.possibleCrtcs.getLsbD p.2

/-- All CRTCs that are tried for a connector. -/
def KmsConnector.candidates (conn : KmsConnector) (crtcs : List ℕ) : List (ℕ × ℕ) :=
  (conn.current.toList.filter (·.crtcId ≠ 0)).map (fun enc =>
      (enc.crtcId, getCrtcIndex crtcs enc.crtcId)) ++
    conn.encoders.reduceOption.flatMap (·.possible crtcs 0)

/-- A connector to which a display belongs. -/
def ConnectorAnswers.plugged (ans : ConnectorAnswers) : Bool :=
  ans.conn.any fun conn => conn.connected && !conn.modes.isEmpty

/-- The connectors to which a display belongs. -/
def pluggedIds (asked : List ConnectorAnswers) : List ℕ := (asked.filter (·.plugged)).map (·.id)

/-- The connector as `DrmVideo` binds it. -/
def KmsConnector.toConnector (conn : KmsConnector) (legacy : Bool) (crtcs : List ℕ)
    (ans : BindAnswers) : Connector where
  crtcs := (conn.candidates crtcs).map Prod.fst
  ok := legacy || ans.setup
  dpms := ans.dpms
  modes := conn.modes
  crtcMode := conn.crtcMode

namespace KmsVideo

variable {β α : Type*}

/-- A device as `drm_video_init` leaves it. -/
def new (legacy useOriginal : Bool) (desired : ℕ × ℕ) : KmsVideo β where
  video := { DrmVideo.new legacy useOriginal desired with awake := false }
  hotplug := true
  master := false
  vtTimer := false
  plugs _ := ⟨0, 0, false, false⟩
  told := []

/-- Change the marks of a display. -/
def mark (d : ℕ) (f : Plug → Plug) (v : KmsVideo β) : KmsVideo β :=
  { v with plugs := Function.update v.plugs d (f (v.plugs d)) }

@[simp] theorem plugs_mark_self (v : KmsVideo β) (d : ℕ) (f : Plug → Plug) :
    (v.mark d f).plugs d = f (v.plugs d) := Function.update_self ..

theorem plugs_mark_of_ne (v : KmsVideo β) {d e : ℕ} (he : e ≠ d) (f : Plug → Plug) :
    (v.mark d f).plugs e = v.plugs e := Function.update_of_ne he ..

@[simp] theorem video_mark (v : KmsVideo β) (d : ℕ) (f : Plug → Plug) :
    (v.mark d f).video = v.video := rfl

/-- `display_is_online`. -/
def isOnline (v : KmsVideo β) (d : ℕ) : Bool := (v.video.objs d).any (·.online)

/-- `bind_display`. Memory that is in use is not handed out again. -/
def bindDisplay (data : β) (crtcs : List ℕ) (id : ℕ) (conn : KmsConnector) (ans : BindAnswers)
    (v : KmsVideo β) : KmsVideo β :=
  if !ans.made || (v.video.objs ans.addr).isSome then v
  else
    match v.video.modesetFindCrtc crtcs conn with
    | none => v
    | some (crtc, index) =>
      if !v.video.legacy && !ans.setup then v
      else
        let head := v.video.initModes data (conn.toConnector v.video.legacy crtcs ans)
        { v with
          video := { v.video with
            objs := Function.update v.video.objs ans.addr
              (some ⟨1, crtc, false, false, false, false, ans.dpms, head⟩)
            displays := v.video.displays ++ [ans.addr] }
          plugs := Function.update v.plugs ans.addr ⟨id, index, true, false⟩ }

/-- One round of the loop of `drm_video_hotplug` over the connectors, with
`needs_modeset`. The DPMS state that the kernel may be given again is no change here. -/
def hotplugRound (data : β) (crtcs : List ℕ) (s : Bool × KmsVideo β) (ans : ConnectorAnswers) :
    Bool × KmsVideo β :=
  match ans.conn with
  | none => s
  | some conn =>
    if !conn.connected || conn.modes.isEmpty then s
    else
      match s.2.video.displays.find? fun d => (s.2.plugs d).connector == ans.id with
      | some d => (s.1 || !s.2.isOnline d, s.2.mark d Plug.found)
      | none => (true, s.2.bindDisplay data crtcs ans.id conn ans.bind)

/-- `display_unbind`. -/
def displayUnbind (d : ℕ) (v : KmsVideo β) : KmsVideo β :=
  { v with
    told := if (v.plugs d).inUse then v.told ++ [.removed d] else v.told
    video := v.video.displayUnbind d }

/-- `display_ready`. -/
def displayReady (v : KmsVideo β) (d : ℕ) : KmsVideo β :=
  if (v.plugs d).inUse then v
  else { v.mark d Plug.used with told := v.told ++ [.added d] }

/-- The first loop of `drm_video_hotplug`. -/
def clearAvailable (v : KmsVideo β) : KmsVideo β :=
  v.video.displays.foldl (fun v d => v.mark d Plug.cleared) v

/-- One round of the loop of `drm_video_hotplug` that lets displays go. -/
def letGo (v : KmsVideo β) (d : ℕ) : KmsVideo β :=
  if (v.plugs d).available then v else v.displayUnbind d

/-- The loop of `drm_video_hotplug` that lets displays go. -/
def unbindGone (v : KmsVideo β) : KmsVideo β := v.video.displays.foldl letGo v

/-- `-EACCES`. -/
def eacces : ℤ := -13

/-- The loop of `drm_video_hotplug` over the connectors. -/
def rounds (data : β) (crtcs : List ℕ) (modeset : Bool) (start : KmsVideo β)
    (asked : List ConnectorAnswers) : Bool × KmsVideo β :=
  asked.foldl (hotplugRound data crtcs) (modeset, start)

/-- The end of `drm_video_hotplug`, behind the loops that find connectors and let displays
go. Without displays there is nothing to set, and the device is left to others. -/
def finishHotplug (ops : DrmOps β α) (needs : Bool) (ans : HotplugAnswers α) (v : KmsVideo β) :
    ℤ × KmsVideo β :=
  if v.video.displays.isEmpty then (0, { v with master := false, hotplug := false })
  else
    let (ret, video) :=
      if needs then v.video.tryModeset ops ans.modeset ans.retry else (0, v.video)
    let v := { v with video := video }
    if ret ≠ 0 then (ret, v)
    else (0, { video.displays.foldl displayReady v with hotplug := false })

/-- `drm_video_hotplug`. -/
def drmVideoHotplug (ops : DrmOps β α) (data : β) (modeset : Bool) (ans : HotplugAnswers α)
    (v : KmsVideo β) : ℤ × KmsVideo β :=
  if !v.video.awake || !v.hotplug then (0, v)
  else
    match ans.res with
    | none => (eacces, v)
    | some res =>
      let (needs, v) := rounds data res.crtcs modeset v.clearAvailable res.connectors
      v.unbindGone.finishHotplug ops needs ans

/-- The flags that `drm_video_wake_up` sets. -/
def woken (v : KmsVideo β) : KmsVideo β :=
  { v with master := true, hotplug := true, video := { v.video with awake := true } }

/-- `drm_video_wake_up`, with the result of `drmSetMaster`. -/
def drmVideoWakeUp (ops : DrmOps β α) (data : β) (setMaster : ℤ) (ans : HotplugAnswers α)
    (v : KmsVideo β) : ℤ × KmsVideo β :=
  if !v.master && setMaster ≠ 0 then (setMaster, v)
  else
    let (ret, v) := v.woken.drmVideoHotplug ops data true ans
    if ret ≠ 0 then (ret, { v with master := false }) else (0, v)

/-- `video_wake_up`, whose backends start the timer when it fails. -/
def videoWakeUp (ops : DrmOps β α) (data : β) (setMaster : ℤ) (ans : HotplugAnswers α)
    (v : KmsVideo β) : KmsVideo β :=
  if v.video.awake then v
  else
    let (ret, v) := v.drmVideoWakeUp ops data setMaster ans
    if ret ≠ 0 then { v with vtTimer := true, video := { v.video with awake := false } }
    else { v with video := { v.video with awake := true } }

/-- `vt_timeout`, when the timer runs. -/
def vtTimeout (ops : DrmOps β α) (data : β) (setMaster : ℤ) (ans : HotplugAnswers α)
    (v : KmsVideo β) : KmsVideo β :=
  if !v.vtTimer then v
  else
    let (ret, v) := v.drmVideoWakeUp ops data setMaster ans
    if ret ≠ 0 then v else { v with vtTimer := false }

/-- `drm_video_poll`. -/
def drmVideoPoll (ops : DrmOps β α) (data : β) (ans : HotplugAnswers α) (v : KmsVideo β) :
    KmsVideo β :=
  let (ret, v) := { v with hotplug := true }.drmVideoHotplug ops data false ans
  if ret ≠ 0 then { v with vtTimer := true } else v

/-- `video_sleep`, with `drm_video_sleep`. The flips that it waits for come as events of
their own. -/
def videoSleep (v : KmsVideo β) : KmsVideo β :=
  if !v.video.awake then v
  else { v with master := false, vtTimer := false, video := { v.video with awake := false } }

/-- The loop of `video_unref`, which takes the last display first. -/
def unbindAll (v : KmsVideo β) : KmsVideo β :=
  v.video.displays.reverse.foldl (fun v d => v.displayUnbind d) v

end KmsVideo

/-- What happens to a DRM device from `drm_video_init` on. -/
inductive KmsEvent (α : Type*) where
  | wakeUp (setMaster : ℤ) (ans : HotplugAnswers α)
  | poll (ans : HotplugAnswers α)
  | vtTimeout (setMaster : ℤ) (ans : HotplugAnswers α)
  | sleep
  | swap (d : ℕ) (ans : α) (props : Bool) (commit : ℤ)
  | flipEvent (crtc : ℕ)
  | pflip (d : ℕ)
  | setDpms (d : ℕ) (dpms : Dpms) (ok : Bool)
  | acquire (d : ℕ)
  | release (d : ℕ)

/-- One event; `data` is the private data of a new display. -/
def KmsVideo.step {β α : Type*} (ops : DrmOps β α) (data : β) (v : KmsVideo β) :
    KmsEvent α → KmsVideo β
  | .wakeUp setMaster ans => v.videoWakeUp ops data setMaster ans
  | .poll ans => v.drmVideoPoll ops data ans
  | .vtTimeout setMaster ans => v.vtTimeout ops data setMaster ans
  | .sleep => v.videoSleep
  | .swap d ans props commit => { v with video := v.video.displaySwap ops d ans props commit }
  | .flipEvent crtc => { v with video := v.video.displayEvent crtc }
  | .pflip d => { v with video := v.video.drmDisplayPflip ops d }
  | .setDpms d dpms ok => { v with video := v.video.displaySetDpms d dpms ok }
  | .acquire d => { v with video := v.video.acquire d }
  | .release d => { v with video := v.video.release d }

end Faceplate.Video
