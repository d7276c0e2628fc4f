import Mathlib.Tactic.SplitIfs
import Faceplate.Lib.Runs
import Faceplate.Video.Drm2d

/-!
# Making and freeing dumb buffers

The two buffers of a display call by call: a dumb buffer, a framebuffer and a mapping,
which `init_rb` takes down again when a later call fails.
-/

namespace Faceplate.Video

/-- A head with other data of a backend. -/
def Head.map {β γ : Type*} (f : β → γ) (head : Head β) : Head γ :=
  { originalMode := head.originalMode
    desiredMode := head.desiredMode
    defaultMode := head.defaultMode
    currentMode := head.currentMode
    previousMode := head.previousMode
    modeBlob := head.modeBlob
    width := head.width
    height := head.height
    data := f head.data }

/-- The current mode has nothing to do with the backend. -/
@[simp] theorem Head.current_map {β γ : Type*} (f : β → γ) (head : Head β) :
    (head.map f).current = head.current := rfl

namespace Dumb

/-- `struct drm2d_rb` with what the kernel has for it: a dumb buffer, a framebuffer of
some size, and a mapping. -/
structure Rb where
  size : ℕ
  dumb : Bool
  fb : Option (ℕ × ℕ)
  map : Bool
  deriving DecidableEq, Repr

namespace Rb

/-- A render buffer in zeroed memory, with nothing in the kernel. -/
def zero : Rb := ⟨0, false, none, false⟩

/-- The buffer is there, with a framebuffer of this size and a mapping. -/
def Complete (rb : Rb) (size : ℕ × ℕ) : Prop :=
  rb.size ≠ 0 ∧ rb.dumb = true ∧ rb.fb = some size ∧ rb.map = true

instance (rb : Rb) (size : ℕ × ℕ) : Decidable (rb.Complete size) :=
  inferInstanceAs (Decidable (_ ∧ _ ∧ _ ∧ _))

/-- From the label `err_buf` of `init_rb` on. -/
def errBuf (rb : Rb) : Rb := { rb with dumb := false, size := 0 }

/-- From the label `err_fb` on. -/
def errFb (rb : Rb) : Rb := errBuf { rb with fb := none }

end Rb

/-- The answers while one buffer is made, with its size in bytes. -/
structure RbCalls extends RbAnswers where
  bytes : { n : ℕ // 0 < n }
  deriving DecidableEq

/-- The answers for both buffers and the properties of a request. -/
structure Calls where
  rb0 : RbCalls
  rb1 : RbCalls
  props : Bool
  deriving DecidableEq

/-- `struct drm2d_display`. -/
structure Rbs where
  rb0 : Rb
  rb1 : Rb
  currentRb : Bool
  deriving DecidableEq, Repr

/-- A display in zeroed memory. -/
def Rbs.new : Rbs := ⟨Rb.zero, Rb.zero, false⟩

/-- `init_rb`. -/
def initRb (ans : RbCalls) (size : ℕ × ℕ) (rb : Rb) : ℤ × Rb :=
  if !ans.create then (efault, rb)
  else
    let rb := { rb with size := ans.bytes, dumb := true }
    if !ans.addfb then (efault, rb.errBuf)
    else
      let rb := { rb with fb := some size }
      if ans.map ≠ 0 then (-ans.map, rb.errFb)
      else if !ans.mmap then (efault, rb.errFb)
      else (0, { rb with map := true })

/-- `destroy_rb`. -/
def destroyRb (rb : Rb) : Rb :=
  if rb.size = 0 then rb else { rb with map := false, fb := none, dumb := false, size := 0 }

/-- `display_allocfb`, with the `return 0` at its end. -/
def displayAllocfb (ans : Calls) (head : Head Rbs) : ℤ × Head Rbs :=
  let head := { head with width := head.current.hdisplay, height := head.current.vdisplay }
  let (ret, rb0) := initRb ans.rb0 head.current.size head.data.rb0
  if ret ≠ 0 then (ret, { head with data := ⟨rb0, head.data.rb1, false⟩ })
  else
    let (ret, rb1) := initRb ans.rb1 head.current.size head.data.rb1
    if ret ≠ 0 then (0, { head with data := ⟨destroyRb rb0, rb1, false⟩ })
    else (0, { head with data := ⟨rb0, rb1, false⟩ })

/-- `display_freefb`. -/
def displayFreefb (head : Head Rbs) : Head Rbs :=
  { head with data :=
    { head.data with rb0 := destroyRb head.data.rb0, rb1 := destroyRb head.data.rb1 } }

/-- The framebuffer of the buffer that is not shown, if its number still names one. -/
def Rbs.back (d2d : Rbs) : Option (ℕ × ℕ) := if d2d.currentRb then d2d.rb0.fb else d2d.rb1.fb

/-- `display_prepare_modeset`. -/
def displayPrepareModeset (legacy : Bool) (ans : Calls) (head : Head Rbs) :
    ℤ × Head Rbs × Option Placed :=
  let (ret, head) := if head.data.rb0.size = 0 then displayAllocfb ans head else (0, head)
  if ret ≠ 0 then (ret, head, none)
  else
    let (ret, placed) := drmPrepareCommit legacy ans.props head.data.back head
    (ret, head, placed)

/-- `display_done_modeset`. -/
def displayDoneModeset (online : Bool) (status : ℤ) (head : Head Rbs) : Head Rbs :=
  if status ≠ 0 then if !online then displayFreefb head else head
  else { head with data := { head.data with currentRb := !head.data.currentRb } }

/-- What happens to a display: other modes, the two ends of a modeset, and a swap. -/
inductive Event where
  | modes (head : Head Unit)
  | prepareModeset (legacy : Bool) (ans : Calls)
  | doneModeset (online : Bool) (status : ℤ)
  | swapped

/-- The display after an event. -/
def step (head : Head Rbs) : Event → Head Rbs
  | .modes other => other.map fun _ => head.data
  | .prepareModeset legacy ans => (displayPrepareModeset legacy ans head).2.1
  | .doneModeset online status => displayDoneModeset online status head
  | .swapped => { head with data := { head.data with currentRb := !head.data.currentRb } }

/-- The buffers are complete after an event: never is one of them left alone, and when
`display_prepare_modeset` reports success both are there for the current mode. -/
def BuffersComplete (head : Head Rbs) (event : Event) : Prop :=
  let next := step head event
  (next.data.rb0 = Rb.zero ↔ next.data.rb1 = Rb.zero) ∧
    match event with
    | .prepareModeset legacy ans =>
      (displayPrepareModeset legacy ans head).1 = 0 →
        next.data.rb0.Complete next.current.size ∧ next.data.rb1.Complete next.current.size
    | _ => True

instance (head : Head Rbs) : (event : Event) → Decidable (BuffersComplete head event)
  | .modes _ => inferInstanceAs (Decidable (_ ∧ True))
  | .prepareModeset _ _ => inferInstanceAs (Decidable (_ ∧ (_ → _)))
  | .doneModeset _ _ => inferInstanceAs (Decidable (_ ∧ True))
  | .swapped => inferInstanceAs (Decidable (_ ∧ True))

/-- When the properties can be set: no second buffer fails behind a first that is made, and
buffers from before are of the size of the current mode. -/
def Meets (head : Head Rbs) : Event → Prop
  | .prepareModeset legacy ans =>
    (legacy || ans.props) = true →
      if head.data.rb0.size = 0 then ans.rb0.made = true → ans.rb1.made = true
      else head.data.rb0.fb = some head.current.size
  | _ => True

/-! ## Making a buffer -/

theorem initRb_of_made {ans : RbCalls} (h : ans.made = true) (size : ℕ × ℕ) (rb : Rb) :
    (initRb ans size rb).1 = 0 ∧ (initRb ans size rb).2.Complete size := by
  unfold RbAnswers.made at h
  simp only [Bool.and_eq_true, beq_iff_eq] at h
  obtain ⟨⟨⟨hcreate, haddfb⟩, hmap⟩, hmmap⟩ := h
  simp [initRb, hcreate, haddfb, hmap, hmmap, Rb.Complete, ans.bytes.2.ne']

theorem initRb_of_not_made {ans : RbCalls} (h : ans.made = false) (size : ℕ × ℕ) :
    (initRb ans size Rb.zero).1 ≠ 0 ∧ (initRb ans size Rb.zero).2 = Rb.zero := by
  have hefault : efault ≠ 0 := by decide
  unfold initRb
  split_ifs with hcreate haddfb hmap hmmap
  · exact ⟨hefault, rfl⟩
  · exact ⟨hefault, rfl⟩
  · exact ⟨by simpa using hmap, rfl⟩
  · exact ⟨hefault, rfl⟩
  · simp_all [RbAnswers.made]

theorem destroyRb_of_complete {rb : Rb} {size : ℕ × ℕ} (h : rb.Complete size) :
    destroyRb rb = Rb.zero := if_neg h.1

@[simp] theorem destroyRb_zero : destroyRb Rb.zero = Rb.zero := rfl

/-- A complete buffer is not a zeroed one. -/
theorem Rb.Complete.ne_zero {rb : Rb} {size : ℕ × ℕ} (h : rb.Complete size) : rb ≠ Rb.zero :=
  fun heq => h.1 (heq ▸ rfl)

/-- Both buffers are there with one size, or none is. -/
def Rbs.Paired (d2d : Rbs) : Prop :=
  (d2d.rb0 = Rb.zero ∧ d2d.rb1 = Rb.zero) ∨
    ∃ size, d2d.rb0.Complete size ∧ d2d.rb1.Complete size

theorem Rbs.Paired.zero_iff {d2d : Rbs} (h : d2d.Paired) :
    d2d.rb0 = Rb.zero ↔ d2d.rb1 = Rb.zero := by
  obtain ⟨h0, h1⟩ | ⟨size, h0, h1⟩ := h
  · exact iff_of_true h0 h1
  · exact iff_of_false h0.ne_zero h1.ne_zero

@[simp] theorem current_displayAllocfb (ans : Calls) (head : Head Rbs) :
    (displayAllocfb ans head).2.current = head.current := by
  unfold displayAllocfb
  simp only
  split_ifs <;> rfl

/-- What `display_allocfb` does for a display without buffers: it fails with the first, and
with the second it makes both or none. -/
theorem displayAllocfb_cases (ans : Calls) {head : Head Rbs} (h0 : head.data.rb0 = Rb.zero)
    (h1 : head.data.rb1 = Rb.zero) :
    let next := (displayAllocfb ans head).2.data
    (ans.rb0.made = false ∧ (displayAllocfb ans head).1 ≠ 0 ∧
        next.rb0 = Rb.zero ∧ next.rb1 = Rb.zero) ∨
      (ans.rb0.made = true ∧ ans.rb1.made = false ∧ (displayAllocfb ans head).1 = 0 ∧
        next.rb0 = Rb.zero ∧ next.rb1 = Rb.zero) ∨
      (ans.rb1.made = true ∧ (displayAllocfb ans head).1 = 0 ∧
        next.rb0.Complete head.current.size ∧ next.rb1.Complete head.current.size) := by
  have hcurrent : Head.current
      { head with width := head.current.hdisplay, height := head.current.vdisplay } =
      head.current := rfl
  unfold displayAllocfb
  simp only [h0, h1, hcurrent]
  cases hmade0 : ans.rb0.made with
  | false =>
    obtain ⟨hret, hzero⟩ := initRb_of_not_made hmade0 head.current.size
    left
    simp [hret, hzero]
  | true =>
    obtain ⟨hret, hcomplete⟩ := initRb_of_made hmade0 head.current.size Rb.zero
    rw [if_neg (not_not.mpr hret)]
    cases hmade1 : ans.rb1.made with
    | false =>
      obtain ⟨hret1, hzero⟩ := initRb_of_not_made hmade1 head.current.size
      right; left
      simp [hret1, hzero, destroyRb_of_complete hcomplete]
    | true =>
      obtain ⟨hret1, hcomplete1⟩ := initRb_of_made hmade1 head.current.size Rb.zero
      right; right
      simp [hret1, hcomplete, hcomplete1]

/-! ## Every run -/

/-- A request that can be prepared is reported so. -/
theorem drmPrepareCommit_fst_eq_zero_iff {legacy props : Bool} {fb : Option (ℕ × ℕ)}
    {head : Head Rbs} : (drmPrepareCommit legacy props fb head).1 = 0 ↔
      (legacy || props) = true := by
  cases legacy <;> cases props <;> simp [drmPrepareCommit]

/-- A modeset whose buffers are taken from `next` succeeds as far as the properties do. -/
theorem prepareModeset_of_buffers (legacy : Bool) (ans : Calls) {head : Head Rbs}
    (next : Head Rbs)
    (h : (if head.data.rb0.size = 0 then displayAllocfb ans head else (0, head)) = (0, next)) :
    step head (.prepareModeset legacy ans) = next ∧
      ((displayPrepareModeset legacy ans head).1 = 0 ↔ (legacy || ans.props) = true) := by
  simp [step, displayPrepareModeset, h, drmPrepareCommit_fst_eq_zero_iff]

theorem prepareModeset_spec (legacy : Bool) (ans : Calls) {head : Head Rbs}
    (h : head.data.Paired) :
    (step head (.prepareModeset legacy ans)).data.Paired ∧
      (BuffersComplete head (.prepareModeset legacy ans) ↔
        Meets head (.prepareModeset legacy ans)) := by
  obtain ⟨h0, h1⟩ | ⟨size, h0, h1⟩ := h
  · have hsize : head.data.rb0.size = 0 := by rw [h0]; rfl
    obtain ⟨hmade0, hret, hzero⟩ | ⟨hmade0, hmade1, hret, hzero⟩ | ⟨hmade1, hret, hcomplete⟩ :=
      displayAllocfb_cases ans h0 h1
    · have hstep : step head (.prepareModeset legacy ans) = (displayAllocfb ans head).2 := by
        simp [step, displayPrepareModeset, hsize, hret]
      have hfails : (displayPrepareModeset legacy ans head).1 ≠ 0 := by
        simp [displayPrepareModeset, hsize, hret]
      rw [← hstep] at hzero
      simp [Rbs.Paired, BuffersComplete, Meets, hzero, hsize, hmade0, hfails]
    · obtain ⟨hstep, hsucceeds⟩ := prepareModeset_of_buffers legacy ans
        (displayAllocfb ans head).2 (by rw [if_pos hsize]; exact Prod.ext hret rfl)
      rw [← hstep] at hzero
      have hnot : ¬ Rb.zero.Complete (step head (.prepareModeset legacy ans)).current.size :=
        fun h => h.ne_zero rfl
      simp [Rbs.Paired, BuffersComplete, Meets, hzero, hsize, hmade0, hmade1, hsucceeds, hnot]
    · obtain ⟨hstep, hsucceeds⟩ := prepareModeset_of_buffers legacy ans
        (displayAllocfb ans head).2 (by rw [if_pos hsize]; exact Prod.ext hret rfl)
      rw [← hstep] at hcomplete
      have hpaired : (step head (.prepareModeset legacy ans)).data.Paired :=
        .inr ⟨_, hcomplete⟩
      have hcurrent : (step head (.prepareModeset legacy ans)).current = head.current := by
        rw [hstep, current_displayAllocfb]
      refine ⟨hpaired, iff_of_true ⟨hpaired.zero_iff, fun _ => hcurrent ▸ hcomplete⟩ fun _ => ?_⟩
      rw [if_pos hsize]
      exact fun _ => hmade1
  · obtain ⟨hstep, hsucceeds⟩ := prepareModeset_of_buffers legacy ans head (if_neg h0.1)
    have hpaired : head.data.Paired := .inr ⟨size, h0, h1⟩
    refine ⟨by rwa [hstep], ?_⟩
    simp only [BuffersComplete, Meets, hstep, hpaired.zero_iff, true_and, hsucceeds, if_neg h0.1]
    refine imp_congr_right fun _ => ⟨fun h => h.1.2.2.1, fun hfb => ?_⟩
    have hsize : size = head.current.size := Option.some.inj (h0.2.2.1.symm.trans hfb)
    exact hsize ▸ ⟨h0, h1⟩

/-- After every event both buffers are there or none is, whatever fails. -/
theorem Rbs.Paired.step {head : Head Rbs} (h : head.data.Paired) (event : Event) :
    (Dumb.step head event).data.Paired := by
  cases event with
  | modes other => exact h
  | prepareModeset legacy ans => exact (prepareModeset_spec legacy ans h).1
  | doneModeset online status =>
    have hfree : (displayFreefb head).data.Paired := by
      obtain ⟨h0, h1⟩ | ⟨size, h0, h1⟩ := h
      · exact .inl ⟨by simp [displayFreefb, h0], by simp [displayFreefb, h1]⟩
      · exact .inl ⟨destroyRb_of_complete h0, destroyRb_of_complete h1⟩
    show (displayDoneModeset online status head).data.Paired
    unfold displayDoneModeset
    split_ifs
    · exact hfree
    · exact h
    · exact h
  | swapped => exact h

theorem buffersComplete_step_iff {head : Head Rbs} (h : head.data.Paired) (event : Event) :
    BuffersComplete head event ↔ Meets head event := by
  have hnext := (h.step event).zero_iff
  cases event with
  | prepareModeset legacy ans => exact (prepareModeset_spec legacy ans h).2
  | modes other => exact iff_of_true ⟨hnext, trivial⟩ trivial
  | doneModeset online status => exact iff_of_true ⟨hnext, trivial⟩ trivial
  | swapped => exact iff_of_true ⟨hnext, trivial⟩ trivial

/-- In a run of a display from zeroed memory on the buffers are complete, if and only if all
its modesets meet the condition. -/
theorem buffersComplete_iff (head : Head Unit) (events : List Event) :
    Runs.Along step BuffersComplete (head.map fun _ => Rbs.new) events ↔
      Runs.Along step Meets (head.map fun _ => Rbs.new) events := by
  have hstart : (head.map fun _ => Rbs.new).data.Paired := .inl ⟨rfl, rfl⟩
  constructor
  · refine fun h => h.imp (J := fun head => head.data.Paired) (fun head event hpaired hstep => ?_)
      hstart
    exact ⟨(buffersComplete_step_iff hpaired event).mp hstep, hpaired.step event⟩
  · refine fun h => h.imp (J := fun head => head.data.Paired) (fun head event hpaired hstep => ?_)
      hstart
    exact ⟨(buffersComplete_step_iff hpaired event).mpr hstep, hpaired.step event⟩

/-! ## The buffers as the device sees them -/

/-- A buffer as `Drm2dDisplay` has it, by its framebuffer. -/
def Rbs.view (d2d : Rbs) : Drm2dDisplay := ⟨d2d.rb0.fb, d2d.rb1.fb, d2d.currentRb⟩

/-- The answers without the sizes in bytes. -/
def Calls.view (ans : Calls) : Drm2dAnswers :=
  ⟨ans.rb0.toRbAnswers, ans.rb1.toRbAnswers, ans.props⟩

theorem initRb_view (ans : RbCalls) (size : ℕ × ℕ) :
    Video.initRb ans.toRbAnswers size none =
      ((initRb ans size Rb.zero).1, (initRb ans size Rb.zero).2.fb) := by
  unfold Video.initRb initRb
  split_ifs <;> rfl

theorem displayAllocfb_view (ans : Calls) {head : Head Rbs} (h0 : head.data.rb0 = Rb.zero)
    (h1 : head.data.rb1 = Rb.zero) :
    Video.displayAllocfb ans.view (head.map Rbs.view) =
      ((displayAllocfb ans head).1, (displayAllocfb ans head).2.map Rbs.view) := by
  have hview0 : (head.map Rbs.view).data.rb0 = none := congrArg Rb.fb h0
  have hview1 : (head.map Rbs.view).data.rb1 = none := congrArg Rb.fb h1
  have hcurrent : Head.current
      { head with width := head.current.hdisplay, height := head.current.vdisplay } =
      head.current := rfl
  have hcurrentView : Head.current { head.map Rbs.view with
      width := head.current.hdisplay, height := head.current.vdisplay } = head.current := rfl
  unfold Video.displayAllocfb displayAllocfb
  simp only [h0, h1, hview0, hview1, hcurrent, Head.current_map, hcurrentView, Calls.view,
    initRb_view]
  cases hmade0 : ans.rb0.made with
  | false =>
    have hret := (initRb_of_not_made hmade0 head.current.size).1
    simp only [if_pos hret]
    simp [Head.map, Rbs.view, Rb.zero]
  | true =>
    obtain ⟨hret, hcomplete⟩ := initRb_of_made hmade0 head.current.size Rb.zero
    simp only [hret, ne_eq, not_true_eq_false, if_false]
    split_ifs
    · rfl
    · have hfb := congrArg Rb.fb (destroyRb_of_complete hcomplete)
      simp [Head.map, Rbs.view, hfb, show Rb.zero.fb = none from rfl]

/-- `display_prepare_modeset` of the device is this one, seen by the framebuffers. -/
theorem displayPrepareModeset_view (legacy : Bool) (ans : Calls) {head : Head Rbs}
    (h : head.data.Paired) :
    let prepared := displayPrepareModeset legacy ans head
    Video.displayPrepareModeset legacy ans.view (head.map Rbs.view) =
      (prepared.1, prepared.2.1.map Rbs.view, prepared.2.2) := by
  have hbuffers : (if (head.map Rbs.view).data.rb0.isNone
        then Video.displayAllocfb ans.view (head.map Rbs.view) else (0, head.map Rbs.view)) =
      let buffers := if head.data.rb0.size = 0 then displayAllocfb ans head else (0, head)
      (buffers.1, buffers.2.map Rbs.view) := by
    obtain ⟨h0, h1⟩ | ⟨size, h0, h1⟩ := h
    · have hnone : (head.map Rbs.view).data.rb0 = none := congrArg Rb.fb h0
      have hsize : head.data.rb0.size = 0 := congrArg Rb.size h0
      simp [hnone, hsize, displayAllocfb_view ans h0 h1]
    · have hsome : (head.map Rbs.view).data.rb0 = some size := h0.2.2.1
      simp [hsome, h0.1]
  unfold Video.displayPrepareModeset displayPrepareModeset
  simp only [hbuffers]
  split_ifs <;> rfl

/-- A kernel that makes one buffer and has no memory for a second. -/
def oneBuffer : Calls :=
  { rb0 := { create := true, addfb := true, map := 0, mmap := true, bytes := ⟨1228800, by decide⟩ }
    rb1 := { create := false, addfb := true, map := 0, mmap := true, bytes := ⟨1228800, by decide⟩ }
    props := true }

/-- A display whose default mode is 640x480. -/
def vgaHead : Head Unit :=
  { originalMode := .null
    desiredMode := .null
    defaultMode := ⟨640, 480, 0, true⟩
    currentMode := .default
    previousMode := none
    modeBlob := .null
    width := 0
    height := 0
    data := () }

/-- The modeset is reported as prepared, without a buffer. -/
theorem oneBuffer_not_buffersComplete :
    ¬ Runs.Along step BuffersComplete (vgaHead.map fun _ => Rbs.new)
      [.prepareModeset false oneBuffer] := by
  decide

end Dumb

end Faceplate.Video
