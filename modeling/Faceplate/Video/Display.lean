import Mathlib.Data.Int.Notation
import Mathlib.Data.Nat.Notation
import Mathlib.Tactic.SplitIfs

/-!
# Displays and their swap operation

A display shows the next frame by a swap; the backend answers with a page-flip
event later. `video.c` puts one function over three backends, each with its own
reasons to refuse. The answers of the kernel and of EGL are an argument.
-/

namespace Faceplate.Video

/-- The video backends. -/
inductive Backend where
  | drm2d
  | drm3d
  | fbdev
  deriving DecidableEq, Repr

/-- `enum display_dpms`. -/
inductive Dpms where
  | on
  | standby
  | suspend
  | off
  | unknown
  deriving DecidableEq, Repr

/-- `struct display` as far as sizes and swapping go, with the flag of its video
device and the private data of its backend. -/
structure Display where
  backend : Backend
  width : ℕ
  height : ℕ
  /-- `DISPLAY_ONLINE`. -/
  online : Bool
  /-- `VIDEO_AWAKE` of the device. -/
  videoAwake : Bool
  dpms : Dpms
  /-- `DISPLAY_VSYNC`: a commit that asked for a flip event was accepted. -/
  vsync : Bool
  /-- `DISPLAY_NEED_REDRAW`. -/
  needRedraw : Bool
  /-- `current_rb` of the 2D backend, `bufid` of fbdev. -/
  current : Bool
  /-- `DISPLAY_DBUF`. -/
  dbuf : Bool
  /-- `vblank_scheduled` of fbdev. -/
  vblankScheduled : Bool
  deriving DecidableEq, Repr

/-- What the kernel and EGL answer during one swap. -/
structure SwapAnswers where
  /-- The result of `pageflip` or `legacy_pageflip`. -/
  commit : ℤ
  /-- `gbm_surface_has_free_buffers`. -/
  freeBuffers : Bool
  /-- `eglSwapBuffers`, `gbm_surface_lock_front_buffer` and `bo_to_rb` all work. -/
  frontBuffer : Bool
  /-- `FBIOPUT_VSCREENINFO`. -/
  pan : Bool
  /-- `ev_timer_update`. -/
  timer : ℤ
  deriving DecidableEq, Repr

/-- `-EINVAL`. -/
def einval : ℤ := -22

/-- `-EBUSY`. -/
def ebusy : ℤ := -16

/-- `-EFAULT`. -/
def efault : ℤ := -14

namespace Display

/-- `drm_display_swap`. -/
def drmDisplaySwap (disp : Display) (ans : SwapAnswers) : ℤ × Display :=
  if disp.dpms ≠ .on then (einval, disp)
  else if disp.vsync then (ebusy, disp)
  else if ans.commit ≠ 0 then (ans.commit, disp)
  else (0, { disp with vsync := true, needRedraw := false })

/-- `drm2d_display_swap`. -/
def drm2dDisplaySwap (disp : Display) (ans : SwapAnswers) : ℤ × Display :=
  let (ret, disp) := disp.drmDisplaySwap ans
  if ret ≠ 0 then (ret, disp) else (0, { disp with current := !disp.current })

/-- `drm3d_display_swap`. -/
def drm3dDisplaySwap (disp : Display) (ans : SwapAnswers) : ℤ × Display :=
  if !ans.freeBuffers then (ebusy, disp)
  else if !ans.frontBuffer then (efault, disp)
  else disp.drmDisplaySwap ans

/-- `display_schedule_vblank_timer`. -/
def scheduleVblankTimer (disp : Display) (ans : SwapAnswers) : ℤ × Display :=
  if disp.vblankScheduled then (0, disp)
  else if ans.timer ≠ 0 then (ans.timer, disp)
  else (0, { disp with vblankScheduled := true })

/-- `fb_display_swap`. -/
def fbDisplaySwap (disp : Display) (ans : SwapAnswers) : ℤ × Display :=
  if !disp.dbuf then disp.scheduleVblankTimer ans
  else if !ans.pan then (efault, disp)
  else { disp with current := !disp.current }.scheduleVblankTimer ans

/-- The `swap` operation of the backend. -/
def opsSwap (disp : Display) (ans : SwapAnswers) : ℤ × Display :=
  match disp.backend with
  | .drm2d => disp.drm2dDisplaySwap ans
  | .drm3d => disp.drm3dDisplaySwap ans
  | .fbdev => disp.fbDisplaySwap ans

/-- A display on which drawing operations reach the backend. -/
def usable (disp : Display) : Bool := disp.online && disp.videoAwake

/-- `display_swap`. The result of the backend is not looked at. -/
def displaySwap (disp : Display) (ans : SwapAnswers) : ℤ × Display :=
  if !disp.usable then (einval, disp) else (0, (disp.opsSwap ans).2)

/-- `display_is_swapping`, through the backend. -/
def displayIsSwapping (disp : Display) : Bool :=
  match disp.backend with
  | .drm2d => disp.vsync
  | .drm3d => disp.vsync
  | .fbdev => disp.vblankScheduled

/-- A page flip is outstanding: the backend has been promised an event, and will
call the page-flip callbacks when it arrives. -/
def FlipOutstanding (disp : Display) : Prop := disp.displayIsSwapping = true

instance : DecidablePred FlipOutstanding := fun disp =>
  inferInstanceAs (Decidable (disp.displayIsSwapping = true))

/-- The completion of a flip: `drm_display_pflip` or `display_vblank_timer_event`
before the callbacks. -/
def completeFlip (disp : Display) : Display :=
  match disp.backend with
  | .drm2d => { disp with vsync := false }
  | .drm3d => { disp with vsync := false }
  | .fbdev => { disp with vblankScheduled := false }

/-- The backend accepts a swap: the display is in a state to be swapped, and the
kernel and EGL answer well. -/
def AcceptsSwap (disp : Display) (ans : SwapAnswers) : Prop :=
  match disp.backend with
  | .drm2d => disp.dpms = .on ∧ disp.vsync = false ∧ ans.commit = 0
  | .drm3d =>
    (ans.freeBuffers ∧ ans.frontBuffer) ∧
      disp.dpms = .on ∧ disp.vsync = false ∧ ans.commit = 0
  | .fbdev => (disp.dbuf → ans.pan) ∧ (disp.vblankScheduled ∨ ans.timer = 0)

theorem drmDisplaySwap_ret (disp : Display) (ans : SwapAnswers) :
    (disp.drmDisplaySwap ans).1 = 0 ↔
      disp.dpms = .on ∧ disp.vsync = false ∧ ans.commit = 0 := by
  unfold drmDisplaySwap
  split_ifs with hdpms hvsync hcommit <;> simp_all [einval, ebusy]

theorem drmDisplaySwap_vsync (disp : Display) (ans : SwapAnswers) :
    (disp.drmDisplaySwap ans).2.vsync = true ↔
      disp.vsync = true ∨ (disp.drmDisplaySwap ans).1 = 0 := by
  unfold drmDisplaySwap
  split_ifs with hdpms hvsync hcommit <;> simp_all [einval, ebusy]

theorem drm2dDisplaySwap_ret (disp : Display) (ans : SwapAnswers) :
    (disp.drm2dDisplaySwap ans).1 = (disp.drmDisplaySwap ans).1 := by
  unfold drm2dDisplaySwap
  by_cases hret : (disp.drmDisplaySwap ans).1 = 0 <;> simp [hret]

theorem drm2dDisplaySwap_vsync (disp : Display) (ans : SwapAnswers) :
    (disp.drm2dDisplaySwap ans).2.vsync = (disp.drmDisplaySwap ans).2.vsync := by
  unfold drm2dDisplaySwap
  by_cases hret : (disp.drmDisplaySwap ans).1 = 0 <;> simp [hret]

theorem scheduleVblankTimer_ret (disp : Display) (ans : SwapAnswers) :
    (disp.scheduleVblankTimer ans).1 = 0 ↔ disp.vblankScheduled = true ∨ ans.timer = 0 := by
  unfold scheduleVblankTimer
  split_ifs <;> simp_all

theorem scheduleVblankTimer_scheduled (disp : Display) (ans : SwapAnswers) :
    (disp.scheduleVblankTimer ans).2.vblankScheduled = true ↔
      disp.vblankScheduled = true ∨ (disp.scheduleVblankTimer ans).1 = 0 := by
  unfold scheduleVblankTimer
  split_ifs <;> simp_all

/-- The result of the backend is success exactly if it accepts the swap. -/
theorem opsSwap_ret (disp : Display) (ans : SwapAnswers) :
    (disp.opsSwap ans).1 = 0 ↔ disp.AcceptsSwap ans := by
  unfold opsSwap AcceptsSwap
  cases disp.backend with
  | drm2d =>
    simp only [drm2dDisplaySwap_ret]
    exact drmDisplaySwap_ret disp ans
  | drm3d =>
    simp only [drm3dDisplaySwap]
    rw [← drmDisplaySwap_ret]
    split_ifs <;> simp_all [ebusy, efault]
  | fbdev =>
    simp only [fbDisplaySwap]
    split_ifs <;> simp_all [efault, scheduleVblankTimer_ret]

instance (disp : Display) (ans : SwapAnswers) : Decidable (disp.AcceptsSwap ans) :=
  decidable_of_iff _ (opsSwap_ret disp ans)

/-- The same device in a possibly different state: neither the backend nor what
decides whether drawing reaches it has changed. -/
def SameDevice (disp disp' : Display) : Prop :=
  disp'.backend = disp.backend ∧ disp'.usable = disp.usable

theorem sameDevice_drmDisplaySwap (disp : Display) (ans : SwapAnswers) :
    SameDevice disp (disp.drmDisplaySwap ans).2 := by
  unfold drmDisplaySwap
  split_ifs <;> exact ⟨rfl, rfl⟩

theorem sameDevice_scheduleVblankTimer (disp : Display) (ans : SwapAnswers) :
    SameDevice disp (disp.scheduleVblankTimer ans).2 := by
  unfold scheduleVblankTimer
  split_ifs <;> exact ⟨rfl, rfl⟩

theorem sameDevice_opsSwap (disp : Display) (ans : SwapAnswers) :
    SameDevice disp (disp.opsSwap ans).2 := by
  have hdrm := sameDevice_drmDisplaySwap disp ans
  unfold opsSwap
  cases disp.backend with
  | drm2d =>
    unfold drm2dDisplaySwap
    by_cases hret : (disp.drmDisplaySwap ans).1 = 0 <;> simpa [hret, SameDevice, usable] using hdrm
  | drm3d =>
    unfold drm3dDisplaySwap
    split_ifs
    · exact ⟨rfl, rfl⟩
    · exact ⟨rfl, rfl⟩
    · exact hdrm
  | fbdev =>
    unfold fbDisplaySwap
    split_ifs
    · exact sameDevice_scheduleVblankTimer disp ans
    · exact ⟨rfl, rfl⟩
    · exact sameDevice_scheduleVblankTimer { disp with current := !disp.current } ans

/-- After a swap a flip is outstanding exactly if one was before or the backend
accepted this one. -/
theorem flipOutstanding_opsSwap (disp : Display) (ans : SwapAnswers) :
    (disp.opsSwap ans).2.FlipOutstanding ↔ disp.FlipOutstanding ∨ disp.AcceptsSwap ans := by
  have hbackend := (sameDevice_opsSwap disp ans).1
  rw [← opsSwap_ret]
  unfold FlipOutstanding displayIsSwapping
  rw [hbackend]
  unfold opsSwap
  cases disp.backend with
  | drm2d =>
    simp only [drm2dDisplaySwap_vsync, drm2dDisplaySwap_ret]
    exact drmDisplaySwap_vsync disp ans
  | drm3d =>
    simp only [drm3dDisplaySwap]
    split_ifs
    · simp [ebusy]
    · simp [efault]
    · exact drmDisplaySwap_vsync disp ans
  | fbdev =>
    simp only [fbDisplaySwap]
    split_ifs
    · exact scheduleVblankTimer_scheduled disp ans
    · simp [efault]
    · exact scheduleVblankTimer_scheduled { disp with current := !disp.current } ans

/-- The same for `display_swap`, which reaches the backend of a usable display only. -/
theorem flipOutstanding_displaySwap (disp : Display) (ans : SwapAnswers) :
    (disp.displaySwap ans).2.FlipOutstanding ↔
      disp.FlipOutstanding ∨ disp.usable = true ∧ disp.AcceptsSwap ans := by
  unfold displaySwap
  cases husable : disp.usable with
  | false => simp
  | true => simpa using flipOutstanding_opsSwap disp ans

theorem displaySwap_ret (disp : Display) (ans : SwapAnswers) :
    (disp.displaySwap ans).1 = 0 ↔ disp.usable = true := by
  unfold displaySwap
  cases disp.usable <;> simp [einval]

/-- The completion of a flip leaves none outstanding. -/
theorem not_flipOutstanding_completeFlip (disp : Display) :
    ¬ disp.completeFlip.FlipOutstanding := by
  unfold FlipOutstanding displayIsSwapping completeFlip
  cases h : disp.backend <;> simp

end Display

end Faceplate.Video
