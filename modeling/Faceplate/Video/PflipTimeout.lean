import Mathlib.Algebra.Group.Nat.Defs
import Mathlib.Tactic.SplitIfs
import Faceplate.Lib.Runs
import Faceplate.Video.Display

/-!
# The timeout of a page flip

`drm_display_wait_pflip` calls `drm_video_wait_pflip` with what is left of a second until
the flip of its display has come. Both poll the device, and the timer of the device adds up
the microseconds of all calls.
-/

namespace Faceplate.Video

/-- `-ETIMEDOUT`. -/
def etimedout : ℤ := -110

/-- What a `poll` of the device ends with. Events are read and announced with a result, and
one of them may be the flip of the display. -/
inductive PollResult where
  | failed
  | expired
  | readable (ret : ℤ) (pflip : Bool)
  | hungUp
  deriving DecidableEq, Repr

/-- One wait for events: the microseconds that the clock measures, and its end. -/
structure Wakeup where
  off : ℕ
  result : PollResult
  deriving DecidableEq, Repr

/-- `shl_timer_stop` of a timer with this `elapsed`. -/
def shlTimerStop (elapsed off : ℕ) : ℕ := elapsed + off

/-- What is taken off the timeout, in milliseconds. -/
def timerCost (elapsed : ℕ) : ℕ := elapsed / 1000 + 1

/-- The result of `drm_video_wait_pflip`. -/
def PollResult.ret : PollResult → ℤ
  | failed => efault
  | expired => 0
  | readable ret _ => if ret ≠ 0 then ret else 1
  | hungUp => efault

/-- `DISPLAY_PFLIP` after a call. -/
def PollResult.pflip : PollResult → Bool
  | readable _ pflip => pflip
  | _ => false

/-- The loop of `drm_display_wait_pflip` between two rounds: its timeout, the timer, the
microseconds of this call, and how the loop has ended. -/
structure PflipWait where
  timeout : ℕ
  elapsed : ℕ
  waited : ℕ
  ended : Option ℤ
  deriving DecidableEq, Repr

namespace PflipWait

/-- The loop of a call begins; the timer is left as the calls before have left it. -/
def start (elapsed : ℕ) : PflipWait := ⟨1000, elapsed, 0, none⟩

/-- The timeout after a call of `drm_video_wait_pflip`: a difference of 64 bits in an
`unsigned int`. -/
def remaining (timeout elapsed : ℕ) : ℕ :=
  (timeout + (2 ^ 64 - timerCost elapsed % 2 ^ 64)) % 2 ^ 64 % 2 ^ 32

/-- What `drm_display_wait_pflip` returns after its loop. -/
def result (ret : ℤ) (timeout : ℕ) : ℤ :=
  if ret < 0 then ret else if ret = 0 ∨ timeout = 0 then etimedout else 0

/-- One round of the loop. -/
def step (wait : PflipWait) (wakeup : Wakeup) : PflipWait :=
  if wait.ended.isSome then wait
  else
    let elapsed := shlTimerStop wait.elapsed wakeup.off
    let timeout := remaining wait.timeout elapsed
    let ret := wakeup.result.ret
    let ended :=
      if ret < 1 ∨ wakeup.result.pflip = true ∨ timeout = 0 then some (result ret timeout)
      else none
    ⟨timeout, elapsed, wait.waited + wakeup.off, ended⟩

/-- The timeout does not grow, it is what is really left, and after a second the loop has
ended. -/
def Bounded (wait : PflipWait) (wakeup : Wakeup) : Prop :=
  let next := wait.step wakeup
  next.timeout ≤ wait.timeout ∧
    (wait.ended = none → next.timeout + timerCost next.elapsed = wait.timeout) ∧
    (1000000 ≤ next.waited → next.ended ≠ none)

/-- While the loop runs, the timer of the device is not above what is left. -/
def Meets (wait : PflipWait) (wakeup : Wakeup) : Prop :=
  wait.ended = none → timerCost (shlTimerStop wait.elapsed wakeup.off) ≤ wait.timeout

instance (wait : PflipWait) (wakeup : Wakeup) : Decidable (wait.Bounded wakeup) :=
  inferInstanceAs (Decidable (_ ∧ _ ∧ _))

instance (wait : PflipWait) (wakeup : Wakeup) : Decidable (wait.Meets wakeup) :=
  inferInstanceAs (Decidable (_ → _))

/-! ## One round -/

/-- Between two rounds, the timer is at least what this call has waited. -/
structure Sound (wait : PflipWait) : Prop where
  timeout : wait.timeout ≤ 1000
  waited : wait.waited ≤ wait.elapsed
  second : wait.waited < 1000000 ∨ wait.ended ≠ none

theorem remaining_of_le {timeout elapsed : ℕ} (h : timerCost elapsed ≤ timeout)
    (htimeout : timeout ≤ 1000) : remaining timeout elapsed = timeout - timerCost elapsed := by
  unfold remaining
  omega

theorem sound_start (elapsed : ℕ) : Sound (start elapsed) :=
  ⟨le_rfl, Nat.zero_le _, .inl (show 0 < 1000000 by decide)⟩

theorem Sound.step {wait : PflipWait} {wakeup : Wakeup} (h : wait.Sound)
    (hmeets : wait.Meets wakeup) : wait.Bounded wakeup ∧ (wait.step wakeup).Sound := by
  unfold Meets at hmeets
  cases hended : wait.ended with
  | some ret =>
    have hstep : wait.step wakeup = wait := by simp [PflipWait.step, hended]
    refine ⟨?_, hstep.symm ▸ h⟩
    rw [Bounded, hstep]
    exact ⟨le_rfl, by simp [hended], fun _ => by simp [hended]⟩
  | none =>
    have hcost := hmeets hended
    have htimeout := h.timeout
    have hwaited := h.waited
    have hleft := remaining_of_le hcost htimeout
    have hsecond : wait.waited + wakeup.off < 1000000 := by
      unfold timerCost shlTimerStop at hcost
      omega
    have hstep : (wait.step wakeup).timeout =
          wait.timeout - timerCost (shlTimerStop wait.elapsed wakeup.off) ∧
        (wait.step wakeup).elapsed = shlTimerStop wait.elapsed wakeup.off ∧
        (wait.step wakeup).waited = wait.waited + wakeup.off := by
      simp [PflipWait.step, hended, hleft]
    obtain ⟨hnext, helapsed, hsum⟩ := hstep
    refine ⟨⟨?_, fun _ => ?_, fun hover => ?_⟩, ⟨?_, ?_, .inl ?_⟩⟩
    · omega
    · rw [helapsed]
      omega
    · omega
    · omega
    · rw [hsum, helapsed, shlTimerStop]
      omega
    · omega

/-- What is left says that the timer was not above it. -/
theorem Bounded.meets {wait : PflipWait} {wakeup : Wakeup} (h : wait.Bounded wakeup) :
    wait.Meets wakeup := by
  intro hended
  have hleft := h.2.1 hended
  have helapsed : (wait.step wakeup).elapsed = shlTimerStop wait.elapsed wakeup.off := by
    simp [PflipWait.step, hended]
  rw [helapsed] at hleft
  omega

/-- The wait for a page flip is bounded in a run of wake-ups, if and only if the timer is
never above what is left. -/
theorem bounded_iff (elapsed : ℕ) (wakeups : List Wakeup) :
    Runs.Along step Bounded (start elapsed) wakeups ↔
      Runs.Along step Meets (start elapsed) wakeups := by
  constructor
  · refine fun h => h.imp (J := fun _ => True) ?_ trivial
    exact fun wait wakeup _ hbounded => ⟨hbounded.meets, trivial⟩
  · refine fun h => h.imp (J := Sound) ?_ (sound_start elapsed)
    exact fun wait wakeup hsound hmeets => hsound.step hmeets

/-- The flip of another display comes after 600 milliseconds, and one more at once. -/
def twoOthers : List Wakeup := [⟨600000, .readable 0 false⟩, ⟨0, .readable 0 false⟩]

/-- The timer still says 600 milliseconds, of which only 399 were left. -/
theorem twoOthers_not_bounded : ¬ Runs.Along step Bounded (start 0) twoOthers := by
  decide

end PflipWait

end Faceplate.Video
