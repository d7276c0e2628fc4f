import Mathlib.Data.Int.Notation
import Mathlib.Data.Nat.Notation

/-!
# Waking up the input layer

`input_wake_up` and `input_sleep` of `input.c` count: the devices are opened with the
first wake-up and closed with the last sleep. The users of the layer do not know of
each other, so each has to take back exactly the wake-ups that it made.
-/

namespace Faceplate.Input

/-- `struct input_dev` as far as sleeping goes. -/
structure Device where
  node : ℕ
  opened : Bool
  initialized : Bool
  repeating : Bool
  deriving DecidableEq, Repr

/-- `struct input` as far as sleeping goes. -/
structure Devices where
  awake : ℤ
  devices : List Device
  deriving DecidableEq, Repr

/-- `input_sleep_dev`. -/
def inputSleepDev (dev : Device) : Device :=
  if !dev.opened || !dev.initialized then dev
  else { dev with repeating := false, opened := false }

/-- The round of `input_wake_up` for one device; one that cannot be used is freed.
`usable` tells the nodes that can be opened, and set up the first time. -/
def wakeUpDev (usable : ℕ → Bool) (dev : Device) : Option Device :=
  if !dev.initialized then
    if usable dev.node then some { dev with initialized := true, opened := true } else none
  else if dev.opened then some dev
  else if usable dev.node then some { dev with opened := true }
  else none

/-- `input_sleep`. -/
def inputSleep (input : Devices) : Devices :=
  if input.awake - 1 ≠ 0 then { input with awake := input.awake - 1 }
  else ⟨input.awake - 1, input.devices.map inputSleepDev⟩

/-- `input_wake_up`. -/
def inputWakeUp (usable : ℕ → Bool) (input : Devices) : Devices :=
  if input.awake + 1 ≠ 1 then { input with awake := input.awake + 1 }
  else ⟨input.awake + 1, input.devices.filterMap (wakeUpDev usable)⟩

@[simp] theorem awake_inputSleep (input : Devices) :
    (inputSleep input).awake = input.awake - 1 := by
  unfold inputSleep
  split <;> rfl

@[simp] theorem awake_inputWakeUp (usable : ℕ → Bool) (input : Devices) :
    (inputWakeUp usable input).awake = input.awake + 1 := by
  unfold inputWakeUp
  split <;> rfl

end Faceplate.Input
