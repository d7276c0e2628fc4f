import Mathlib.Tactic.SplitIfs
import Faceplate.Video.Drm

/-!
# The backend for dumb buffers

`drm2d_video.c` keeps two dumb buffers for a display, each with a framebuffer of the size
of the current mode, and shows them in turn. They are made when a mode is to be set and
the display has none, and freed when the modeset fails before the display was online.
-/

namespace Faceplate.Video

/-- The answers of the kernel while a buffer is made; `map` is the error of the ioctl
that asks for the offset. -/
structure RbAnswers where
  create : Bool
  addfb : Bool
  map : ℕ
  mmap : Bool
  deriving DecidableEq, Repr

/-- All that it takes to make the buffer works. -/
def RbAnswers.made (ans : RbAnswers) : Bool :=
  ans.create && ans.addfb && ans.map == 0 && ans.mmap

/-- What a display asks the kernel: for both buffers, and whether all properties of a
request can be set. -/
structure Drm2dAnswers where
  rb0 : RbAnswers
  rb1 : RbAnswers
  props : Bool
  deriving DecidableEq, Repr

/-- `struct drm2d_display`: each buffer is given by the size of its framebuffer, if it is
there, and `currentRb` says whether the second one is shown. -/
structure Drm2dDisplay where
  rb0 : Option (ℕ × ℕ)
  rb1 : Option (ℕ × ℕ)
  currentRb : Bool
  deriving DecidableEq, Repr

namespace Drm2dDisplay

/-- A display in zeroed memory. -/
def new : Drm2dDisplay := ⟨none, none, false⟩

/-- The buffer that is not shown. -/
def back (d2d : Drm2dDisplay) : Option (ℕ × ℕ) := if d2d.currentRb then d2d.rb0 else d2d.rb1

/-- `current_rb ^= 1`. -/
def turn (d2d : Drm2dDisplay) : Drm2dDisplay := { d2d with currentRb := !d2d.currentRb }

end Drm2dDisplay

/-- `init_rb`, with the buffer that is in `rb` before. -/
def initRb (ans : RbAnswers) (size : ℕ × ℕ) (rb : Option (ℕ × ℕ)) : ℤ × Option (ℕ × ℕ) :=
  if !ans.create then (efault, rb)
  else if !ans.addfb then (efault, none)
  else if ans.map ≠ 0 then (-ans.map, none)
  else if !ans.mmap then (efault, none)
  else (0, some size)

/-- A buffer that is made has the size that is asked for. -/
theorem initRb_of_made {ans : RbAnswers} (h : ans.made = true) (size : ℕ × ℕ)
    (rb : Option (ℕ × ℕ)) : initRb ans size rb = (0, some size) := by
  unfold RbAnswers.made at h
  simp only [Bool.and_eq_true, beq_iff_eq] at h
  simp [initRb, h]

/-- When none is made, none is there. -/
theorem initRb_of_not_made {ans : RbAnswers} (h : ans.made = false) (size : ℕ × ℕ) :
    (initRb ans size none).1 < 0 ∧ (initRb ans size none).2 = none := by
  unfold initRb
  split_ifs with hcreate haddfb hmap hmmap
  · exact ⟨by decide, rfl⟩
  · exact ⟨by decide, rfl⟩
  · exact ⟨by omega, rfl⟩
  · exact ⟨by decide, rfl⟩
  · simp_all [RbAnswers.made]

/-- `display_allocfb`, which frees the first buffer and reports success when it cannot make
the second. -/
def displayAllocfb (ans : Drm2dAnswers) (head : Head Drm2dDisplay) : ℤ × Head Drm2dDisplay :=
  let head := { head with width := head.current.hdisplay, height := head.current.vdisplay }
  let (ret, rb0) := initRb ans.rb0 head.current.size head.data.rb0
  if ret ≠ 0 then (ret, { head with data := ⟨rb0, head.data.rb1, false⟩ })
  else
    let (ret, rb1) := initRb ans.rb1 head.current.size head.data.rb1
    if ret ≠ 0 then (0, { head with data := ⟨none, rb1, false⟩ })
    else (0, { head with data := ⟨rb0, rb1, false⟩ })

/-- `display_freefb`. -/
def displayFreefb (head : Head Drm2dDisplay) : Head Drm2dDisplay :=
  { head with data := { head.data with rb0 := none, rb1 := none } }

/-- `display_prepare_modeset`. -/
def displayPrepareModeset (legacy : Bool) (ans : Drm2dAnswers) (head : Head Drm2dDisplay) :
    ℤ × Head Drm2dDisplay × Option Placed :=
  let (ret, head) := if head.data.rb0.isNone then displayAllocfb ans head else (0, head)
  if ret ≠ 0 then (ret, head, none)
  else
    let (ret, placed) := drmPrepareCommit legacy ans.props head.data.back head
    (ret, head, placed)

/-- `display_done_modeset`. -/
def displayDoneModeset (online : Bool) (status : ℤ) (head : Head Drm2dDisplay) :
    Head Drm2dDisplay :=
  if status ≠ 0 then if !online then displayFreefb head else head
  else { head with data := head.data.turn }

/-- The dumb buffers as a backend. -/
def drm2dOps : DrmOps Drm2dDisplay Drm2dAnswers where
  prepareModeset := displayPrepareModeset
  doneModeset := displayDoneModeset
  swapFb _ head := some head.data.back
  swapped head := { head with data := head.data.turn }
  pageFlip head := head

/-- A kernel that makes every buffer. -/
def roomyAnswers : Drm2dAnswers :=
  { rb0 := ⟨true, true, 0, true⟩, rb1 := ⟨true, true, 0, true⟩, props := true }

/-- A kernel that accepts every commit. -/
def willingAnswers : ModesetAnswers Drm2dAnswers :=
  { alloc := true, waits := fun _ => [], prep := fun _ => roomyAnswers, test := 0, commit := 0,
    setCrtc := fun _ => 0 }

end Faceplate.Video
