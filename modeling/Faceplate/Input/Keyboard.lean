import Mathlib.Data.Nat.Notation

/-!
# A keyboard

`input_uxkb.c` turns the keys of an evdev keyboard into keysyms, and repeats the last
one by a timer. Keymap, modifier state and compose state belong to libxkbcommon, which
is not part of this repository, so they are a parameter.
-/

namespace Faceplate.Input

/-- `KEY_RELEASED`, `KEY_PRESSED` and `KEY_REPEATED`. -/
inductive KeyState where
  | released
  | pressed
  | repeated
  deriving DecidableEq, Repr

/-- `enum xkb_compose_status`. -/
inductive ComposeStatus where
  | nothing
  | composing
  | composed
  | cancelled
  deriving DecidableEq, Repr

/-- The modifiers that `shl_get_xkb_mods` asks for. -/
inductive Modifier where
  | shift
  | caps
  | ctrl
  | alt
  | logo
  deriving DecidableEq, Repr

/-- What the keyboard uses of libxkbcommon: `σ` is the state of a keymap, `γ` the state
of a compose table. -/
structure Xkb (σ γ : Type*) where
  /-- `xkb_state_key_get_syms`. -/
  keyGetSyms : σ → ℕ → List ℕ
  /-- `xkb_state_key_get_one_sym`. -/
  keyGetOneSym : σ → ℕ → ℕ
  /-- `xkb_state_update_key` for a key that goes down or up. -/
  updateKey : σ → ℕ → Bool → σ
  /-- A new state with the locked modifiers and layout of an old one. -/
  relock : σ → σ
  modActive : σ → Modifier → Bool
  keyGetLevel : σ → ℕ → ℕ → ℕ
  /-- `xkb_keymap_key_repeats`. -/
  keyRepeats : ℕ → Bool
  numLayouts : ℕ → ℕ
  symsByLevel : ℕ → ℕ → ℕ → List ℕ
  keysymToUtf32 : ℕ → ℕ
  feed : γ → ℕ → γ
  getStatus : γ → ComposeStatus
  composeGetOneSym : γ → ℕ
  reset : γ → γ

/-- `struct input_key_event`. -/
structure KeyEvent where
  handled : Bool
  keycode : ℕ
  ascii : ℕ
  mods : ℕ
  keysyms : List ℕ
  codepoints : List ℕ
  deriving DecidableEq, Repr

/-- `struct input_dev` as far as keys go. `opened` is a file descriptor that is not
negative, and `timer` an armed repeat timer. -/
structure Dev (σ γ : Type*) where
  opened : Bool
  initialized : Bool
  state : σ
  composeState : Option γ
  numSyms : ℕ
  event : KeyEvent
  repeatEvent : KeyEvent
  repeating : Bool
  timer : Bool

/-- `XKB_KEY_NoSymbol`. -/
def noSymbol : ℕ := 0

/-- `INPUT_INVALID`. -/
def inputInvalid : ℕ := 0xffffffff

/-- `EVDEV_KEYCODE_OFFSET`. -/
def evdevKeycodeOffset : ℕ := 8

section Events

variable {σ γ : Type*} (xkb : Xkb σ γ)

/-- `shl_get_xkb_mods`. -/
def shlGetXkbMods (state : σ) : ℕ :=
  (if xkb.modActive state .shift then 1 else 0) + (if xkb.modActive state .caps then 2 else 0) +
    (if xkb.modActive state .ctrl then 4 else 0) + (if xkb.modActive state .alt then 8 else 0) +
    (if xkb.modActive state .logo then 16 else 0)

/-- The only keysym of a level, if it is an ASCII character. -/
def asciiSym : List ℕ → Option ℕ
  | [sym] => if sym < 128 then some sym else none
  | _ => none

/-- `shl_get_ascii`. -/
def shlGetAscii (state : σ) (keycode : ℕ) (keysyms : List ℕ) : ℕ :=
  match asciiSym keysyms with
  | some sym => sym
  | none =>
    ((List.range (xkb.numLayouts keycode)).findSome? fun layout =>
      asciiSym (xkb.symsByLevel keycode layout (xkb.keyGetLevel state keycode layout))).getD
        noSymbol

namespace Dev

/-- `uxkb_dev_resize_event`, where `mem` says whether memory is there. -/
def resizeEvent (mem : Bool) (s : ℕ) (dev : Dev σ γ) : Bool × Dev σ γ :=
  if dev.numSyms < s then
    if mem then (true, { dev with numSyms := s }) else (false, dev)
  else (true, dev)

/-- What `uxkb_dev_fill_event` writes. -/
def filled (dev : Dev σ γ) (ev : KeyEvent) (code : ℕ) (syms : List ℕ) : KeyEvent where
  handled := ev.handled
  keycode := code
  ascii := shlGetAscii xkb dev.state code syms
  mods := shlGetXkbMods xkb dev.state
  keysyms := syms
  codepoints := syms.map fun sym =>
    if xkb.keysymToUtf32 sym = 0 then inputInvalid else xkb.keysymToUtf32 sym

/-- `uxkb_dev_repeat`. -/
def uxkbDevRepeat (mem : Bool) (state : KeyState) (dev : Dev σ γ) : Dev σ γ :=
  if dev.repeating && dev.repeatEvent.keycode == dev.event.keycode then
    if state = .released then { dev with repeating := false, timer := false } else dev
  else if state = .pressed && xkb.keyRepeats dev.event.keycode then
    { dev with
      repeatEvent := { dev.event with handled := dev.repeatEvent.handled }
      repeating := true
      timer := true }
  else if dev.repeating && !xkb.keyRepeats dev.event.keycode then
    let keysyms := xkb.keyGetSyms dev.state dev.repeatEvent.keycode
    if keysyms.isEmpty then dev
    else
      let (ok, dev) := dev.resizeEvent mem keysyms.length
      if ok then
        { dev with repeatEvent := dev.filled xkb dev.repeatEvent dev.repeatEvent.keycode keysyms }
      else dev
  else dev

/-- What the compose state makes of a keysym that is pressed: its status, the keysym
that takes the place of this one, and the next state. -/
def compose (state : γ) (sym : ℕ) : ComposeStatus × ℕ × γ :=
  let state := xkb.feed state sym
  match xkb.getStatus state with
  | .composed =>
    if xkb.composeGetOneSym state = noSymbol then (.cancelled, noSymbol, xkb.reset state)
    else (.composed, xkb.composeGetOneSym state, xkb.reset state)
  | .cancelled => (.cancelled, sym, xkb.reset state)
  | status => (status, sym, state)

/-- The part of `uxkb_dev_process` before the state of the keymap changes: the status
and the state of composing, and the keysyms of the key. -/
def lookup (keyState : KeyState) (keycode : ℕ) (dev : Dev σ γ) :
    ComposeStatus × Option γ × List ℕ :=
  let keysyms := xkb.keyGetSyms dev.state keycode
  let oneSym := if keysyms.length = 1 then xkb.keyGetOneSym dev.state keycode else noSymbol
  match dev.composeState, keyState with
  | some state, .pressed =>
    let (status, oneSym, state) := compose xkb state oneSym
    (status, some state, if keysyms.length = 1 then [oneSym] else keysyms)
  | state, _ => (.nothing, state, if keysyms.length = 1 then [oneSym] else keysyms)

/-- `uxkb_dev_process`: the event that the key hook gets with a result of 0, or none
with `-ENOKEY`. There is one answer about memory for each of the two events. -/
def uxkbDevProcess (mem memRepeat : Bool) (keyState : KeyState) (code : ℕ) (dev : Dev σ γ) :
    Option KeyEvent × Dev σ γ :=
  if keyState = .repeated then (none, dev)
  else
    let keycode := code + evdevKeycodeOffset
    let (status, composeState, keysyms) := dev.lookup xkb keyState keycode
    let dev := { dev with
      state := xkb.updateKey dev.state keycode (keyState = .pressed)
      composeState := composeState }
    if keysyms.isEmpty then (none, dev)
    else if status = .composing ∨ status = .cancelled then (none, dev)
    else
      let (ok, dev) := dev.resizeEvent mem keysyms.length
      if !ok then (none, dev)
      else
        let dev := { dev with event := dev.filled xkb dev.event keycode keysyms }
        let dev := dev.uxkbDevRepeat xkb memRepeat keyState
        if keyState = .released then (none, dev)
        else
          let dev := { dev with event := { dev.event with handled := false } }
          (some dev.event, dev)

/-- `input_sleep_dev`. -/
def inputSleepDev (dev : Dev σ γ) : Dev σ γ :=
  if !dev.opened || !dev.initialized then dev
  else { dev with repeating := false, timer := false, opened := false }

/-- `input_wake_up_dev` of a keyboard, with `uxkb_dev_wake_up`; `ok` says whether the
device can be opened. -/
def inputWakeUpDev (ok : Bool) (dev : Dev σ γ) : Dev σ γ :=
  if dev.opened || !ok then dev
  else
    { dev with
      opened := true
      state := xkb.relock dev.state
      composeState := dev.composeState.map xkb.reset }

end Dev

end Events

end Faceplate.Input
