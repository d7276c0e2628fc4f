import Mathlib.Logic.Function.Iterate
import Faceplate.Video.Display

/-!
# The displays of a DRM device

`drm_shared.c` binds a display to each connector, sets modes by atomic commits and
flips pages. A flip asks the kernel for an event and takes a reference on its display,
which the event drops. The two backends, for dumb buffers and for OpenGL, differ in
where framebuffers come from, so their part is a parameter.
-/

namespace Faceplate.Video

/-- `drmModeModeInfo`; `timing` stands for all that is not looked at. -/
structure Mode where
  hdisplay : ℕ
  vdisplay : ℕ
  timing : ℕ
  preferred : Bool
  deriving DecidableEq, Repr

namespace Mode

/-- The size of the picture. -/
def size (mode : Mode) : ℕ × ℕ := (mode.hdisplay, mode.vdisplay)

/-- A mode in zeroed memory. -/
def null : Mode := ⟨0, 0, 0, false⟩

/-- `is_mode_null`. -/
def isModeNull (mode : Mode) : Bool := mode.hdisplay == 0

end Mode

/-- The modes that `current_mode` may point to. -/
inductive ModeSlot where
  | original
  | desired
  | default
  deriving DecidableEq, Repr

/-- The modes of a display, its size, and the data of the backend. The blob named by
`mode_blob_id` is given by the mode in it. -/
structure Head (β : Type*) where
  originalMode : Mode
  desiredMode : Mode
  defaultMode : Mode
  currentMode : ModeSlot
  previousMode : Option ModeSlot
  modeBlob : Mode
  width : ℕ
  height : ℕ
  data : β

/-- The mode that `current_mode` points to. -/
def Head.current {β : Type*} (head : Head β) : Mode :=
  match head.currentMode with
  | .original => head.originalMode
  | .desired => head.desiredMode
  | .default => head.defaultMode

/-- `struct display` of a DRM device. -/
structure DrmDisplay (β : Type*) where
  ref : ℕ
  crtc : ℕ
  online : Bool
  vsync : Bool
  pflip : Bool
  needRedraw : Bool
  dpms : Dpms
  head : Head β

/-- What a commit says about one display: the mode in its blob, the size of the
framebuffer that its number names, and the size of the plane. The mode that
`current_mode` points to at that time is noted beside. -/
structure Placed where
  blob : Mode
  fb : Option (ℕ × ℕ)
  plane : ℕ × ℕ
  mode : Mode
  deriving DecidableEq, Repr

/-- `-EAGAIN`. -/
def eagain : ℤ := -11

/-- `-ENOMEM`. -/
def enomem : ℤ := -12

/-- `drm_prepare_commit`, with `props` for the properties that can all be set. A legacy
device has no request. -/
def drmPrepareCommit {β : Type*} (legacy props : Bool) (fb : Option (ℕ × ℕ)) (head : Head β) :
    ℤ × Option Placed :=
  if legacy then (0, none)
  else if props then (0, some ⟨head.modeBlob, fb, (head.width, head.height), head.current⟩)
  else (-1, none)

/-- The part of a backend: `prepare_modeset` and `done_modeset` of a display that is
online or not, the framebuffer of a swap if there is one, and what follows a swap and a
page flip. `α` are the answers of the kernel and of EGL. -/
structure DrmOps (β α : Type*) where
  prepareModeset : Bool → α → Head β → ℤ × Head β × Option Placed
  doneModeset : Bool → ℤ → Head β → Head β
  swapFb : α → Head β → Option (Option (ℕ × ℕ))
  swapped : Head β → Head β
  pageFlip : Head β → Head β

/-- A connector that is bound: what `modeset_find_crtc` tries in turn, and whether blob,
plane and properties are there. -/
structure Connector where
  crtcs : List ℕ
  ok : Bool
  dpms : Dpms
  modes : List Mode
  crtcMode : Option Mode
  deriving DecidableEq, Repr

/-- The answers during one attempt to set the modes. `waits` are the events that are
read while the flip of a display is waited for, as many at a time as one read gives. -/
structure ModesetAnswers (α : Type*) where
  alloc : Bool
  waits : ℕ → List (List ℕ)
  prep : ℕ → α
  test : ℤ
  commit : ℤ
  setCrtc : ℕ → ℤ

/-- `struct video` of a DRM device. Displays are named by their address. Beside the
code's own state there are the references that others hold, the flips that the kernel
has still to report with their displays, and all atomic commits sent. -/
structure DrmVideo (β : Type*) where
  legacy : Bool
  awake : Bool
  useOriginal : Bool
  desired : ℕ × ℕ
  objs : ℕ → Option (DrmDisplay β)
  displays : List ℕ
  users : ℕ → ℕ
  pending : List (ℕ × ℕ)
  commits : List (List Placed)

namespace DrmVideo

variable {β α : Type*}

/-- A device without displays. -/
def new (legacy useOriginal : Bool) (desired : ℕ × ℕ) : DrmVideo β :=
  ⟨legacy, true, useOriginal, desired, fun _ => none, [], fun _ => 0, [], []⟩

/-- Change a display, if it is there. -/
def modify (d : ℕ) (f : DrmDisplay β → DrmDisplay β) (video : DrmVideo β) : DrmVideo β :=
  { video with objs := Function.update video.objs d ((video.objs d).map f) }

@[simp] theorem objs_modify_self (video : DrmVideo β) (d : ℕ) (f : DrmDisplay β → DrmDisplay β) :
    (video.modify d f).objs d = (video.objs d).map f := Function.update_self _ _ _

theorem objs_modify_of_ne (video : DrmVideo β) {d e : ℕ} (he : e ≠ d)
    (f : DrmDisplay β → DrmDisplay β) : (video.modify d f).objs e = video.objs e :=
  Function.update_of_ne he _ _

/-- A display that is there after a change is the changed one or another one. -/
theorem objs_of_modify {video : DrmVideo β} {d e : ℕ} {f : DrmDisplay β → DrmDisplay β}
    {disp : DrmDisplay β} (hobj : (video.modify d f).objs e = some disp) :
    (e = d ∧ ∃ old, video.objs d = some old ∧ f old = disp) ∨ video.objs e = some disp := by
  by_cases he : e = d
  · rw [he, objs_modify_self] at hobj
    exact Or.inl ⟨he, Option.map_eq_some_iff.mp hobj⟩
  · rw [objs_modify_of_ne video he] at hobj
    exact Or.inr hobj

/-- Change what the backend sees of a display. -/
def modifyHead (d : ℕ) (f : Head β → Head β) : DrmVideo β → DrmVideo β :=
  modify d fun disp => { disp with head := f disp.head }

/-- `display_ref`. -/
def displayRef (d : ℕ) : DrmVideo β → DrmVideo β :=
  modify d fun disp => if disp.ref = 0 then disp else { disp with ref := disp.ref + 1 }

/-- `display_unref`. -/
def displayUnref (d : ℕ) (video : DrmVideo β) : DrmVideo β :=
  match video.objs d with
  | none => video
  | some disp =>
    if disp.ref = 0 then video
    else if disp.ref = 1 then { video with objs := Function.update video.objs d none }
    else video.modify d fun disp => { disp with ref := disp.ref - 1 }

/-- An atomic commit is sent. -/
def send (req : List Placed) (video : DrmVideo β) : DrmVideo β :=
  { video with commits := video.commits ++ [req] }

/-- The flips that a commit on these displays starts. -/
def flips (ds : List ℕ) (video : DrmVideo β) : List (ℕ × ℕ) :=
  ds.filterMap fun d => (video.objs d).map fun disp => (disp.crtc, d)

/-- The kernel accepts a commit that asks for events. -/
def flip (ds : List ℕ) (video : DrmVideo β) : DrmVideo β :=
  { video with pending := video.pending ++ video.flips ds }

/-- `display_event`, which looks for the display of the CRTC in the list. The kernel
reports only flips that it owes. -/
def displayEvent (video : DrmVideo β) (crtc : ℕ) : DrmVideo β :=
  match video.pending.find? (·.1 == crtc) with
  | none => video
  | some owed =>
    let video := { video with pending := video.pending.erase owed }
    match video.displays.find? fun d => (video.objs d).any (·.crtc == crtc) with
    | none => video
    | some d =>
      (video.modify d fun disp =>
        if disp.vsync then { disp with pflip := true } else disp).displayUnref d

/-- `drm_display_wait_pflip`, until no more events come. -/
def drmDisplayWaitPflip (d : ℕ) : List (List ℕ) → DrmVideo β → DrmVideo β
  | [], video => video
  | batch :: batches, video =>
    if (video.objs d).any fun disp => !disp.pflip && disp.vsync then
      drmDisplayWaitPflip d batches (batch.foldl displayEvent video)
    else video

/-- The first loop of `perform_modeset`: its result, how many displays are prepared, and
the request. -/
def prepareAll (ops : DrmOps β α) (ans : ModesetAnswers α) :
    List ℕ → DrmVideo β → ℤ × ℕ × List Placed × DrmVideo β
  | [], video => (0, 0, [], video)
  | d :: ds, video =>
    let video := video.drmDisplayWaitPflip d (ans.waits d)
    match video.objs d with
    | none => prepareAll ops ans ds video
    | some disp =>
      let (ret, head, placed) := ops.prepareModeset video.legacy (ans.prep d) disp.head
      let video := video.modifyHead d fun _ => head
      if ret < 0 then (ret, 0, [], video)
      else
        let (ret, n, req, video) := prepareAll ops ans ds video
        (ret, n + 1, placed.toList ++ req, video)

theorem prepareAll_none {ops : DrmOps β α} {ans : ModesetAnswers α} {d : ℕ} (ds : List ℕ)
    {video : DrmVideo β} (hobj : (video.drmDisplayWaitPflip d (ans.waits d)).objs d = none) :
    video.prepareAll ops ans (d :: ds) =
      (video.drmDisplayWaitPflip d (ans.waits d)).prepareAll ops ans ds := by
  simp only [prepareAll, hobj]

/-- The loop with what the backend gives for the first display. -/
theorem prepareAll_some {ops : DrmOps β α} {ans : ModesetAnswers α} {d : ℕ} (ds : List ℕ)
    {video waited : DrmVideo β} (hwait : video.drmDisplayWaitPflip d (ans.waits d) = waited)
    {disp : DrmDisplay β} (hobj : waited.objs d = some disp) {ret : ℤ} {head : Head β}
    {placed : Option Placed}
    (hprep : ops.prepareModeset waited.legacy (ans.prep d) disp.head = (ret, head, placed)) :
    video.prepareAll ops ans (d :: ds) =
      if ret < 0 then (ret, 0, [], waited.modifyHead d fun _ => head)
      else
        let rest := (waited.modifyHead d fun _ => head).prepareAll ops ans ds
        (rest.1, rest.2.1 + 1, placed.toList ++ rest.2.2.1, rest.2.2.2) := by
  simp only [prepareAll, hwait, hobj, hprep]

/-- One round of the last loop of `perform_modeset`. -/
def finishDisplay (ops : DrmOps β α) (refsTaken : Bool) (ret : ℤ) (video : DrmVideo β) (d : ℕ) :
    DrmVideo β :=
  let video := video.modify d fun disp =>
    { disp with head := ops.doneModeset disp.online ret disp.head }
  if ret ≠ 0 then if refsTaken then video.displayUnref d else video
  else video.modify d fun disp => { disp with online := true, vsync := true, needRedraw := true }

/-- The last loop of `perform_modeset`, over the displays that are prepared. -/
def finishModeset (ops : DrmOps β α) (refsTaken : Bool) (ret : ℤ) (n : ℕ) (video : DrmVideo β) :
    DrmVideo β :=
  (video.displays.take n).foldl (finishDisplay ops refsTaken ret) video

/-- `perform_modeset`. -/
def performModeset (ops : DrmOps β α) (ans : ModesetAnswers α) (video : DrmVideo β) :
    ℤ × DrmVideo β :=
  if !ans.alloc then (enomem, video)
  else
    let (ret, n, req, video) := video.prepareAll ops ans video.displays
    if ret < 0 then (ret, video.finishModeset ops false ret n)
    else
      let video := video.send req
      if ans.test < 0 then (eagain, video.finishModeset ops false eagain n)
      else
        let video := (video.displays.foldl (fun video d => video.displayRef d) video).send req
        let video := if ans.commit = 0 then video.flip video.displays else video
        (ans.commit, video.finishModeset ops true ans.commit n)

/-- One round of `legacy_modeset`. -/
def legacyDisplay (ops : DrmOps β α) (ans : ModesetAnswers α) (video : DrmVideo β) (d : ℕ) :
    DrmVideo β :=
  let video := video.drmDisplayWaitPflip d (ans.waits d)
  match video.objs d with
  | none => video
  | some disp =>
    let (ret, head, _) := ops.prepareModeset video.legacy (ans.prep d) disp.head
    let video := video.modifyHead d fun _ => head
    if ret < 0 then video
    else
      let video := video.modify d fun disp =>
        { disp with head := ops.doneModeset disp.online (ans.setCrtc d) disp.head }
      if ans.setCrtc d ≠ 0 then video
      else video.modify d fun disp => { disp with online := true, needRedraw := true }

/-- `legacy_modeset`. -/
def legacyModeset (ops : DrmOps β α) (ans : ModesetAnswers α) (video : DrmVideo β) :
    ℤ × DrmVideo β :=
  (0, video.displays.foldl (legacyDisplay ops ans) video)

/-- One attempt of `try_modeset`. -/
def modeset (ops : DrmOps β α) (ans : ModesetAnswers α) (video : DrmVideo β) : ℤ × DrmVideo β :=
  if video.legacy then video.legacyModeset ops ans else video.performModeset ops ans

/-- The default mode becomes the current one. -/
def useDefault (head : Head β) : Head β :=
  { head with previousMode := some head.currentMode, currentMode := .default }

/-- The current mode of before comes back, unless the attempt with the default mode has
worked. -/
def settleMode (ret : ℤ) (head : Head β) : Head β :=
  { head with
    currentMode := if ret ≠ 0 then head.previousMode.getD head.currentMode else head.currentMode
    previousMode := none }

/-- `try_modeset`, with the answers during both attempts. -/
def tryModeset (ops : DrmOps β α) (ans retry : ModesetAnswers α) (video : DrmVideo β) :
    ℤ × DrmVideo β :=
  let (ret, video) := video.modeset ops ans
  if ret ≠ eagain then (ret, video)
  else if video.displays.isEmpty then (ret, video)
  else
    let video := video.displays.foldl (fun video d => video.modifyHead d useDefault) video
    let (ret, video) := video.modeset ops retry
    (ret, video.displays.foldl (fun video d => video.modifyHead d (settleMode ret)) video)

/-- `drm_display_swap`, with `pageflip` or `legacy_pageflip`. -/
def drmDisplaySwap (d : ℕ) (fb : Option (ℕ × ℕ)) (props : Bool) (commit : ℤ)
    (video : DrmVideo β) : ℤ × DrmVideo β :=
  match video.objs d with
  | none => (einval, video)
  | some disp =>
    if disp.dpms ≠ .on then (einval, video)
    else if disp.vsync then (ebusy, video)
    else
      let (ret, placed) := drmPrepareCommit video.legacy props fb disp.head
      if ret ≠ 0 then (einval, video)
      else
        let video := if video.legacy then video else video.send placed.toList
        if commit ≠ 0 then (commit, video)
        else
          (0, ((video.flip [d]).displayRef d).modify d fun disp =>
            { disp with vsync := true, needRedraw := false })

/-- `display_swap` and the `swap` operation of the backend. -/
def displaySwap (ops : DrmOps β α) (d : ℕ) (ans : α) (props : Bool) (commit : ℤ)
    (video : DrmVideo β) : DrmVideo β :=
  match video.objs d with
  | none => video
  | some disp =>
    if !disp.online || !video.awake then video
    else
      match ops.swapFb ans disp.head with
      | none => video
      | some fb =>
        let (ret, video) := video.drmDisplaySwap d fb props commit
        if ret ≠ 0 then video else video.modifyHead d ops.swapped

/-- `drm_display_pflip` of a display that has the flag, before the callbacks. -/
def drmDisplayPflip (ops : DrmOps β α) (d : ℕ) : DrmVideo β → DrmVideo β :=
  modify d fun disp =>
    if disp.pflip then
      { disp with pflip := false, vsync := false, head := ops.pageFlip disp.head }
    else disp

/-- `display_set_dpms` and `drm_display_set_dpms`. -/
def displaySetDpms (d : ℕ) (dpms : Dpms) (ok : Bool) (video : DrmVideo β) : DrmVideo β :=
  video.modify d fun disp =>
    if disp.online && video.awake && disp.dpms ≠ .unknown && ok then { disp with dpms := dpms }
    else disp

/-- One round of the loop of `init_modes` for the default and the desired mode. -/
def pickMode (desired : ℕ × ℕ) (picked : Mode × Mode) (mode : Mode) : Mode × Mode :=
  (if picked.1.isModeNull || mode.preferred then mode else picked.1,
    if picked.2.isModeNull ∧ desired.1 ≠ 0 ∧ desired.2 ≠ 0 ∧ mode.size = desired then mode
    else picked.2)

/-- `init_modes`, and the blob that `bind_display` makes of the current mode. -/
def initModes (data : β) (conn : Connector) (video : DrmVideo β) : Head β :=
  let (default, desired) := conn.modes.foldl (pickMode video.desired) (Mode.null, Mode.null)
  let original := (conn.modes.filter (conn.crtcMode = some ·)).getLast?.getD Mode.null
  let slot :=
    if video.useOriginal then .original else if !desired.isModeNull then .desired else .default
  let head : Head β := ⟨original, desired, default, slot, none, Mode.null, 0, 0, data⟩
  { head with modeBlob := head.current }

/-- `is_crtc_in_use`. -/
def isCrtcInUse (video : DrmVideo β) (crtc : ℕ) : Bool :=
  video.displays.any fun d => (video.objs d).any (·.crtc == crtc)

/-- `bind_display` at an address that is free, with the private data of the backend. Of
the references of `display_new` and `display_bind` one is dropped again. -/
def bindDisplay (data : β) (d : ℕ) (conn : Connector) (video : DrmVideo β) : DrmVideo β :=
  if (video.objs d).isSome then video
  else
    match conn.crtcs.find? (!video.isCrtcInUse ·) with
    | none => video
    | some crtc =>
      if !conn.ok then video
      else
        let disp : DrmDisplay β :=
          ⟨1, crtc, false, false, false, false, conn.dpms, video.initModes data conn⟩
        { video with
          objs := Function.update video.objs d (some disp)
          displays := video.displays ++ [d] }

/-- A screen, a renderer or a seat takes a reference. -/
def acquire (d : ℕ) (video : DrmVideo β) : DrmVideo β :=
  if (video.objs d).isSome then
    { video.displayRef d with users := Function.update video.users d (video.users d + 1) }
  else video

/-- It drops its reference. -/
def release (d : ℕ) (video : DrmVideo β) : DrmVideo β :=
  if video.users d = 0 then video
  else { video.displayUnref d with users := Function.update video.users d (video.users d - 1) }

/-- `display_unbind`, where `remove_disp` makes all others let go. -/
def displayUnbind (d : ℕ) (video : DrmVideo β) : DrmVideo β :=
  if d ∈ video.displays then
    let video := (release d)^[video.users d] video
    { video with displays := video.displays.erase d }.displayUnref d
  else video

end DrmVideo

/-- What happens to a DRM device. A hotplug binds and unbinds displays and sets the
modes. -/
inductive DrmEvent (α : Type*) where
  | bind (d : ℕ) (conn : Connector)
  | unbind (d : ℕ)
  | modeset (ans retry : ModesetAnswers α)
  | swap (d : ℕ) (ans : α) (props : Bool) (commit : ℤ)
  | flipEvent (crtc : ℕ)
  | pflip (d : ℕ)
  | setDpms (d : ℕ) (dpms : Dpms) (ok : Bool)
  | acquire (d : ℕ)
  | release (d : ℕ)
  | awake (on : Bool)

/-- One event; `data` is the private data of a new display. -/
def DrmVideo.step {β α : Type*} (ops : DrmOps β α) (data : β) (video : DrmVideo β) :
    DrmEvent α → DrmVideo β
  | .bind d conn => video.bindDisplay data d conn
  | .unbind d => video.displayUnbind d
  | .modeset ans retry => (video.tryModeset ops ans retry).2
  | .swap d ans props commit => video.displaySwap ops d ans props commit
  | .flipEvent crtc => video.displayEvent crtc
  | .pflip d => video.drmDisplayPflip ops d
  | .setDpms d dpms ok => video.displaySetDpms d dpms ok
  | .acquire d => video.acquire d
  | .release d => video.release d
  | .awake on => { video with awake := on }

end Faceplate.Video
