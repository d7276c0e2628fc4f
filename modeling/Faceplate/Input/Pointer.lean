import Mathlib.Algebra.Order.Group.Unbundled.Abs
import Mathlib.Tactic.Linarith
import Faceplate.Lib.CheckedInt

/-!
# The position of a pointer

`input_pointer.c` moves the pointer of a device with relative and absolute events. Signed
arithmetic that overflows and a division by zero are undefined. A touchpad moves the pointer
from where it is, by an offset that is taken when a finger touches it; a touchscreen and a
virtual mouse scale the range that the device reports to the display.
-/

namespace Faceplate.Input

open CheckedInt

/-- `int32_t`. -/
abbrev Value := { n : ℤ // Fits n }

/-- `pointer_max_x` or `pointer_max_y`. -/
abbrev Limit := { n : ℤ // 0 ≤ n ∧ Fits n }

/-- `enum pointer_kind`. -/
inductive PointerKind where
  | none
  | mouse
  | touchpad
  | touchscreen
  | vmouse
  deriving DecidableEq, Repr

/-- The fields of `struct input_pointer` for one axis, and the maximum of `struct input`. -/
structure Axis where
  pos : ℤ
  off : ℤ
  needsSync : Bool
  minimum : Value
  maximum : Value
  limit : Limit

/-- The capabilities of a device that decide about its kind. -/
structure Capabilities where
  hasAbs : Bool
  hasTouch : Bool
  hasDirect : Bool
  hasRel : Bool

/-- `struct input_pointer` without its buttons, and the capabilities of its device. -/
structure Pointer where
  caps : Capabilities
  kind : PointerKind
  touchpaddown : Bool
  x : Axis
  y : Axis

/-- `struct input_event`, without its time. -/
structure InputEvent where
  type : UInt16
  code : UInt16
  value : Value

namespace Axis

/-- What `pointer_dev_rel` does for one axis. -/
def rel (value : ℤ) (a : Axis) : Option Axis := do
  let pos ← int32 (a.pos + value)
  let pos := if pos < 0 then 0 else pos
  let pos := if pos > a.limit then (a.limit : ℤ) else pos
  some { a with pos := pos }

/-- The first lines for a touchpad: the offset is taken behind a touch. -/
def sync (value : ℤ) (a : Axis) : Option Axis :=
  if a.needsSync then do
    let off ← int32 (a.pos - value)
    some { a with off := off, needsSync := false }
  else some a

/-- At the first edge of the display the offset is taken anew. -/
def dragLow (value : ℤ) (a : Axis) : Option Axis :=
  if a.pos < 0 then do
    let off ← int32 (-value)
    some { a with pos := 0, off := off }
  else some a

def dragHigh (value : ℤ) (a : Axis) : Option Axis :=
  if a.pos > a.limit then do
    let off ← int32 (a.limit - value)
    some { a with pos := a.limit, off := off }
  else some a

/-- The lines for a touchpad with a finger on it. -/
def drag (value : ℤ) (a : Axis) : Option Axis := do
  let pos ← int32 (a.off + value)
  let a ← dragLow value { a with pos := pos }
  dragHigh value a

/-- The line for a touchscreen and a virtual mouse. -/
def scale (value : ℤ) (a : Axis) : Option Axis := do
  let offset ← int32 (value - a.minimum)
  let product ← int32 (offset * a.limit)
  let range ← int32 (a.maximum - a.minimum)
  let pos ← div32 product range
  some { a with pos := pos }

/-- `pointer_dev_abs_x` and `pointer_dev_abs_y`. -/
def abs (kind : PointerKind) (down : Bool) (value : ℤ) (a : Axis) : Option Axis :=
  match kind with
  | .touchpad => do
    let a ← a.sync value
    if down then a.drag value else some a
  | .touchscreen | .vmouse => a.scale value
  | .none | .mouse => some a

end Axis

/-- `EV_KEY`, `EV_REL` and `EV_ABS`. -/
def evKey : UInt16 := 1

def evRel : UInt16 := 2

def evAbs : UInt16 := 3

/-- `REL_X` and `ABS_X`. -/
def codeX : UInt16 := 0

/-- `REL_Y` and `ABS_Y`. -/
def codeY : UInt16 := 1

/-- `BTN_TOUCH`. -/
def btnTouch : UInt16 := 0x14a

namespace Pointer

/-- `pointer_dev_rel`. -/
def devRel (code : UInt16) (value : ℤ) (s : Pointer) : Option Pointer :=
  if code = codeX then (s.x.rel value).map fun x => { s with x := x }
  else if code = codeY then (s.y.rel value).map fun y => { s with y := y }
  else some s

/-- `pointer_dev_abs`. -/
def devAbs (code : UInt16) (value : ℤ) (s : Pointer) : Option Pointer :=
  if code = codeX then (s.x.abs s.kind s.touchpaddown value).map fun x => { s with x := x }
  else if code = codeY then (s.y.abs s.kind s.touchpaddown value).map fun y => { s with y := y }
  else some s

/-- `pointer_dev_button`, where only a touch matters for the position. -/
def devButton (code : UInt16) (value : ℤ) (s : Pointer) : Pointer :=
  if value > 1 then s
  else if code = btnTouch then
    let s := { s with touchpaddown := value = 1 }
    if value = 1 then
      { s with x := { s.x with needsSync := true }, y := { s.y with needsSync := true } }
    else s
  else s

/-- `notify_event`. -/
def notifyEvent (e : InputEvent) (s : Pointer) : Option Pointer :=
  if e.type = evKey then some (s.devButton e.code e.value)
  else if e.type = evRel then s.devRel e.code e.value
  else if e.type = evAbs then s.devAbs e.code e.value
  else some s

/-- `input_set_pointer_max`. -/
def setPointerMax (maxX maxY : Limit) (s : Pointer) : Pointer :=
  { s with x := { s.x with limit := maxX }, y := { s.y with limit := maxY } }

end Pointer

/-- `input_pointer_kind`. -/
def inputPointerKind (caps : Capabilities) : PointerKind :=
  if caps.hasAbs then
    if caps.hasTouch then if caps.hasDirect then .touchscreen else .touchpad else .vmouse
  else if caps.hasRel then .mouse
  else .none

/-- The ends of the range of an axis. -/
abbrev AbsInfo := Value × Value

/-- The ends that the device reports. -/
def Axis.report (info : AbsInfo) (a : Axis) : Axis :=
  { a with minimum := info.1, maximum := info.2 }

/-- A device that is new. -/
def Axis.zero (limit : Limit) : Axis :=
  ⟨0, 0, false, ⟨0, by decide⟩, ⟨0, by decide⟩, limit⟩

namespace Pointer

/-- `input_init_abs`. A device that cannot be asked for its first axis is not asked for the
second, and an axis that it cannot be asked for stays as it is. -/
def initAbs (infoX infoY : Option AbsInfo) (s : Pointer) : Pointer :=
  match infoX with
  | none => s
  | some infoX =>
    let s := { s with x := s.x.report infoX }
    match infoY with
    | none => s
    | some infoY => { s with y := s.y.report infoY }

/-- The last lines of `input_open_dev` before the device is read. -/
def openDev (infoX infoY : Option AbsInfo) (s : Pointer) : Pointer :=
  if s.caps.hasAbs then s.initAbs infoX infoY else s

/-- The pointer after `input_init_dev`. -/
def init (caps : Capabilities) (infoX infoY : Option AbsInfo) (maxX maxY : Limit) : Pointer :=
  openDev infoX infoY ⟨caps, inputPointerKind caps, false, .zero maxX, .zero maxY⟩

end Pointer

/-! ## Where a pointer stays in range -/

/-- The position is on the display. -/
def Axis.InRange (a : Axis) : Prop := 0 ≤ a.pos ∧ a.pos ≤ a.limit

def Pointer.InRange (s : Pointer) : Prop := s.x.InRange ∧ s.y.InRange

/-- A position moved onto the display. -/
def Axis.clamp (a : Axis) (pos : ℤ) : ℤ := max 0 (min pos a.limit)

/-- An event is computed without overflow and division by zero, the position is on the display
afterwards, and a relative event has moved it by its value and onto the display. -/
def Pointer.Right (s : Pointer) (e : InputEvent) : Prop :=
  ∃ s', s.notifyEvent e = some s' ∧ s'.InRange ∧
    (e.type = evRel → e.code = codeX → s'.x.pos = s.x.clamp (s.x.pos + e.value)) ∧
    (e.type = evRel → e.code = codeY → s'.y.pos = s.y.clamp (s.y.pos + e.value))

/-- An absolute event of a touchpad that is in range: the offset can be taken, or with the
finger down where it is known, added, and taken anew at the edge; without a finger the
position stays. -/
def Axis.TouchpadMeets (down : Bool) (value : ℤ) (a : Axis) : Prop :=
  (a.needsSync = true → Fits (a.pos - value)) ∧
    (down = true → a.needsSync = false →
      Fits (a.off + value) ∧ (a.off + value < 0 → Fits (-value))) ∧
    (down = false → a.InRange)

/-- An absolute event of a touchscreen that is in range: the device reports two different ends
of its range, the products fit, and the value is less than a pixel outside of the range. -/
def Axis.ScreenMeets (value : ℤ) (a : Axis) : Prop :=
  (a.minimum : ℤ) ≠ a.maximum ∧ Fits (a.maximum - a.minimum) ∧ Fits (value - a.minimum) ∧
    Fits ((value - a.minimum) * a.limit) ∧
    (min (a.minimum : ℤ) a.maximum - value) * a.limit < |(a.maximum : ℤ) - a.minimum| ∧
    (value - max (a.minimum : ℤ) a.maximum) * a.limit < |(a.maximum : ℤ) - a.minimum|

/-- An absolute event that is in range. -/
def Axis.AbsMeets (kind : PointerKind) (down : Bool) (value : ℤ) (a : Axis) : Prop :=
  match kind with
  | .touchpad => a.TouchpadMeets down value
  | .touchscreen | .vmouse => a.ScreenMeets value
  | .none | .mouse => a.InRange

/-- An event that is in range: the sum of a relative event fits, an absolute event is in
range, and what it does not move is. -/
def Pointer.Meets (s : Pointer) (e : InputEvent) : Prop :=
  if e.type = evRel ∧ e.code = codeX then Fits (s.x.pos + e.value) ∧ s.y.InRange
  else if e.type = evRel ∧ e.code = codeY then s.x.InRange ∧ Fits (s.y.pos + e.value)
  else if e.type = evAbs ∧ e.code = codeX then
    s.x.AbsMeets s.kind s.touchpaddown e.value ∧ s.y.InRange
  else if e.type = evAbs ∧ e.code = codeY then
    s.x.InRange ∧ s.y.AbsMeets s.kind s.touchpaddown e.value
  else s.InRange

/-- An event of the device, a new size of the display, or that the device is opened anew after
it slept. -/
inductive PointerStep where
  | event (e : InputEvent)
  | setMax (maxX maxY : Limit)
  | wakeUp (infoX infoY : Option AbsInfo)

/-- The pointer after a step. -/
def PointerStep.run (step : PointerStep) (s : Pointer) : Option Pointer :=
  match step with
  | event e => s.notifyEvent e
  | setMax maxX maxY => some (s.setPointerMax maxX maxY)
  | wakeUp infoX infoY => some (s.openDev infoX infoY)

/-- Every event of a run has some property of the state before it. -/
def Throughout (P : Pointer → InputEvent → Prop) : Pointer → List PointerStep → Prop
  | _, [] => True
  | s, step :: steps =>
    (∀ e, step = .event e → P s e) ∧ ∀ s', step.run s = some s' → Throughout P s' steps

/-! ## One axis -/

namespace Axis

variable {a : Axis}

theorem clamp_inRange (a : Axis) (pos : ℤ) : 0 ≤ a.clamp pos ∧ a.clamp pos ≤ a.limit := by
  have hlimit := a.limit.2.1
  unfold clamp
  omega

/-- A relative event moves the position by its value and onto the display. -/
theorem rel_eq {value : ℤ} (hfits : Fits (a.pos + value)) :
    a.rel value = some { a with pos := a.clamp (a.pos + value) } := by
  have hlimit := a.limit.2.1
  have hpos : (if (if a.pos + value < 0 then 0 else a.pos + value) > (a.limit : ℤ) then
      (a.limit : ℤ) else if a.pos + value < 0 then 0 else a.pos + value) =
      a.clamp (a.pos + value) := by
    unfold clamp
    split_ifs <;> omega
  simp only [rel, int32_of_fits hfits, Option.bind_eq_bind, Option.bind_some, hpos]

theorem rel_eq_none {value : ℤ} (hfits : ¬ Fits (a.pos + value)) : a.rel value = none := by
  simp only [rel, int32_eq_none hfits, Option.bind_eq_bind, Option.bind_none]

/-- A relative event leaves the position on the display where its sum fits. -/
theorem rel_iff {value : ℤ} :
    (∃ a', a.rel value = some a' ∧ a'.InRange ∧ a'.pos = a.clamp (a.pos + value)) ↔
      Fits (a.pos + value) := by
  by_cases hfits : Fits (a.pos + value)
  · exact iff_of_true ⟨_, rel_eq hfits, clamp_inRange a _, rfl⟩ hfits
  · rw [rel_eq_none hfits]
    exact iff_of_false (fun ⟨_, h, _⟩ => nomatch h) hfits

/-- With a finger down the position ends on the display, if the offset can be added and taken
anew. -/
theorem drag_iff (hoff : Fits a.off) (value : Value) :
    (∃ a', a.drag value = some a' ∧ a'.InRange) ↔
      Fits (a.off + value) ∧ (a.off + value < 0 → Fits (-value)) := by
  obtain ⟨value, hvalue⟩ := value
  have hlimit := a.limit.2
  unfold drag
  by_cases hsum : Fits (a.off + value)
  · simp only [int32_of_fits hsum, Option.bind_eq_bind, Option.bind_some]
    unfold dragLow
    by_cases hneg : a.off + value < 0
    · rw [if_pos hneg]
      by_cases hopp : Fits (-value)
      · have hhigh : ¬ (0 : ℤ) > a.limit := Int.not_lt.mpr hlimit.1
        simp only [int32_of_fits hopp, dragHigh, Option.bind_eq_bind, Option.bind_some,
          if_neg hhigh]
        exact iff_of_true ⟨_, rfl, Int.le_refl 0, hlimit.1⟩ ⟨hsum, fun _ => hopp⟩
      · simp only [int32_eq_none hopp, Option.bind_eq_bind, Option.bind_none]
        exact iff_of_false (fun ⟨_, h, _⟩ => nomatch h) fun h => hopp (h.2 hneg)
    · refine iff_of_true ?_ ⟨hsum, fun h => absurd h hneg⟩
      rw [if_neg hneg, Option.bind_some, dragHigh]
      by_cases hhigh : a.off + value > a.limit
      · -- the offset at the far edge is less than the one before
        have hedge : Fits (a.limit - value) := by
          unfold Fits at *
          omega
        rw [if_pos hhigh, int32_of_fits hedge]
        exact ⟨_, rfl, hlimit.1, Int.le_refl _⟩
      · rw [if_neg hhigh]
        exact ⟨_, rfl, Int.not_lt.mp hneg, Int.not_lt.mp hhigh⟩
  · simp only [int32_eq_none hsum, Option.bind_eq_bind, Option.bind_none]
    exact iff_of_false (fun ⟨_, h, _⟩ => nomatch h) fun h => hsum h.1

/-- The offset is taken where it fits. -/
theorem sync_of_fits {value : ℤ} (h : a.needsSync = true → Fits (a.pos - value)) :
    a.sync value = some (if a.needsSync then { a with off := a.pos - value, needsSync := false }
      else a) := by
  unfold sync
  split_ifs with hsync
  · simp only [int32_of_fits (h hsync), Option.bind_eq_bind, Option.bind_some]
  · rfl

theorem sync_eq_none {value : ℤ} (hsync : a.needsSync = true) (h : ¬ Fits (a.pos - value)) :
    a.sync value = none := by
  simp only [sync, if_pos hsync, int32_eq_none h, Option.bind_eq_bind, Option.bind_none]

/-- A finger that has just come down leaves the position where it was. -/
theorem touchpad_iff (down : Bool) (hpos : Fits a.pos) (hlow : 0 ≤ a.pos) (hoff : Fits a.off)
    (value : Value) :
    (∃ a', a.abs .touchpad down value = some a' ∧ a'.InRange) ↔ a.TouchpadMeets down value := by
  unfold abs TouchpadMeets
  by_cases htake : a.needsSync = true → Fits (a.pos - value)
  · simp only [sync_of_fits htake, Option.bind_eq_bind, Option.bind_some]
    cases down with
    | false =>
      have hsame : Axis.InRange (if a.needsSync then
          { a with off := a.pos - value, needsSync := false } else a) ↔ a.InRange := by
        split_ifs
        · rfl
        · rfl
      simp only [Bool.false_eq_true, if_false, Option.some.injEq, exists_eq_left', hsame,
        false_imp_iff, true_imp_iff, true_and, and_iff_right htake]
    | true =>
      simp only [if_true, true_imp_iff, Bool.true_eq_false, false_imp_iff, and_true,
        and_iff_right htake]
      cases hsync : a.needsSync with
      | false =>
        rw [if_neg Bool.false_ne_true, drag_iff hoff]
        exact ⟨fun h _ => h, fun h => h rfl⟩
      | true =>
        rw [if_pos rfl, drag_iff (htake hsync)]
        have hback : a.pos - value + value = a.pos := Int.sub_add_cancel _ _
        change Fits (a.pos - value + value) ∧ (a.pos - value + value < 0 → _) ↔ _
        rw [hback]
        exact iff_of_true ⟨hpos, fun h => absurd h (Int.not_lt.mpr hlow)⟩ nofun
  · obtain ⟨hsync, hfits⟩ := Classical.not_imp.mp htake
    simp only [sync_eq_none hsync hfits, Option.bind_eq_bind, Option.bind_none]
    exact iff_of_false (fun ⟨_, h, _⟩ => nomatch h) fun h => htake h.1

/-- A quotient lies on the display if the value is less than a pixel outside of the range. -/
theorem quotient_iff {low high value limit : ℤ} (hne : low ≠ high) (hlimit : 0 ≤ limit) :
    (0 ≤ ((value - low) * limit).tdiv (high - low) ∧
        ((value - low) * limit).tdiv (high - low) ≤ limit) ↔
      (min low high - value) * limit < |high - low| ∧
        (value - max low high) * limit < |high - low| := by
  rcases Int.lt_or_gt_of_ne hne with hlt | hgt
  · have hrange : 0 < high - low := by omega
    rw [tdiv_mem_iff hrange hlimit, min_eq_left (Int.le_of_lt hlt),
      max_eq_right (Int.le_of_lt hlt), abs_of_pos hrange]
    constructor
    · rintro ⟨h1, h2⟩
      exact ⟨by linarith, by linarith⟩
    · rintro ⟨h1, h2⟩
      exact ⟨by linarith, by linarith⟩
  · have hrange : 0 < low - high := by omega
    have hquot : ((value - low) * limit).tdiv (high - low) =
        ((low - value) * limit).tdiv (low - high) := by
      rw [← Int.neg_tdiv_neg, ← Int.neg_mul, Int.neg_sub, Int.neg_sub]
    rw [hquot, tdiv_mem_iff hrange hlimit, min_eq_right (Int.le_of_lt hgt),
      max_eq_left (Int.le_of_lt hgt), abs_sub_comm, abs_of_pos hrange]
    constructor
    · rintro ⟨h1, h2⟩
      exact ⟨by linarith, by linarith⟩
    · rintro ⟨h1, h2⟩
      exact ⟨by linarith, by linarith⟩

/-- Where the device reports a range, a value in it or less than a pixel outside of it is
scaled to a position on the display. -/
theorem scale_iff (value : ℤ) :
    (∃ a', a.scale value = some a' ∧ a'.InRange) ↔ a.ScreenMeets value := by
  have hlimit := a.limit.2
  constructor
  · rintro ⟨a', hscale, hrange⟩
    obtain ⟨offset, hoffset32, hscaled⟩ := Option.bind_eq_some_iff.mp hscale
    obtain ⟨hoffset, rfl⟩ := int32_eq_some_iff.mp hoffset32
    obtain ⟨product, hproduct32, hdivided⟩ := Option.bind_eq_some_iff.mp hscaled
    obtain ⟨hproduct, rfl⟩ := int32_eq_some_iff.mp hproduct32
    obtain ⟨range, hrange32, hplaced⟩ := Option.bind_eq_some_iff.mp hdivided
    obtain ⟨hfits, rfl⟩ := int32_eq_some_iff.mp hrange32
    obtain ⟨pos, hpos, hlast⟩ := Option.bind_eq_some_iff.mp hplaced
    obtain rfl := Option.some.inj hlast
    have hne : (a.maximum : ℤ) - a.minimum ≠ 0 := by
      intro hzero
      rw [div32, if_pos hzero] at hpos
      cases hpos
    rw [div32_of_ne hne] at hpos
    obtain ⟨-, rfl⟩ := int32_eq_some_iff.mp hpos
    have hends : (a.minimum : ℤ) ≠ a.maximum := by omega
    exact ⟨hends, hfits, hoffset, hproduct, (quotient_iff hends hlimit.1).mp hrange⟩
  · rintro ⟨hends, hfits, hoffset, hproduct, hnear⟩
    have hrange := (quotient_iff hends hlimit.1).mpr hnear
    have hne : (a.maximum : ℤ) - a.minimum ≠ 0 := by omega
    have hpos : Fits (((value - a.minimum) * a.limit).tdiv (a.maximum - a.minimum)) := by
      obtain ⟨-, hlow, hhigh⟩ := hlimit
      exact ⟨by omega, by omega⟩
    refine ⟨{ a with pos := ((value - a.minimum) * a.limit).tdiv (a.maximum - a.minimum) }, ?_,
      hrange⟩
    simp only [scale, int32_of_fits hoffset, int32_of_fits hproduct, int32_of_fits hfits,
      div32_of_ne hne, int32_of_fits hpos, Option.bind_eq_bind, Option.bind_some]

end Axis

/-- The numbers of an axis are in the range of their type. -/
structure Axis.Sound (a : Axis) : Prop where
  low : 0 ≤ a.pos
  fits : Fits a.pos
  off : Fits a.off

theorem Axis.abs_iff {a : Axis} (ha : a.Sound) (kind : PointerKind) (down : Bool)
    (value : Value) :
    (∃ a', a.abs kind down value = some a' ∧ a'.InRange) ↔ a.AbsMeets kind down value := by
  have hkept : (∃ a', some a = some a' ∧ a'.InRange) ↔ a.InRange := by
    simp only [Option.some.injEq, exists_eq_left']
  cases kind with
  | none => exact hkept
  | mouse => exact hkept
  | touchpad => exact touchpad_iff down ha.fits ha.low ha.off value
  | touchscreen => exact scale_iff value
  | vmouse => exact scale_iff value

/-- An offset that is taken fits. -/
theorem Axis.off_of_taken {a' : Axis} {n : ℤ} {f : ℤ → Axis} (hf : ∀ off, (f off).off = off)
    (h : (int32 n).bind (fun off => some (f off)) = some a') : Fits a'.off := by
  obtain ⟨off, hoff, htaken⟩ := Option.bind_eq_some_iff.mp h
  obtain ⟨hfits, rfl⟩ := int32_eq_some_iff.mp hoff
  obtain rfl := Option.some.inj htaken
  rw [hf]
  exact hfits

theorem Axis.off_of_sync {a a' : Axis} (ha : Fits a.off) {value : ℤ}
    (h : a.sync value = some a') : Fits a'.off := by
  unfold sync at h
  split_ifs at h with hsync
  · exact off_of_taken (fun _ => rfl) h
  · exact Option.some.inj h ▸ ha

theorem Axis.off_of_drag {a a' : Axis} (ha : Fits a.off) {value : ℤ}
    (h : a.drag value = some a') : Fits a'.off := by
  obtain ⟨pos, -, hmoved⟩ := Option.bind_eq_some_iff.mp h
  obtain ⟨b, hlow, hhigh⟩ := Option.bind_eq_some_iff.mp hmoved
  have hb : Fits b.off := by
    unfold dragLow at hlow
    split_ifs at hlow
    · exact off_of_taken (fun _ => rfl) hlow
    · exact Option.some.inj hlow ▸ ha
  unfold dragHigh at hhigh
  split_ifs at hhigh
  · exact off_of_taken (fun _ => rfl) hhigh
  · exact Option.some.inj hhigh ▸ hb

theorem Axis.off_of_scale {a a' : Axis} (ha : Fits a.off) {value : ℤ}
    (h : a.scale value = some a') : Fits a'.off := by
  obtain ⟨offset, -, hscaled⟩ := Option.bind_eq_some_iff.mp h
  obtain ⟨product, -, hdivided⟩ := Option.bind_eq_some_iff.mp hscaled
  obtain ⟨range, -, hplaced⟩ := Option.bind_eq_some_iff.mp hdivided
  obtain ⟨pos, -, hlast⟩ := Option.bind_eq_some_iff.mp hplaced
  obtain rfl := Option.some.inj hlast
  exact ha

/-- An event leaves the offset in the range of its type. -/
theorem Axis.off_of_abs {a a' : Axis} (ha : Fits a.off) {kind : PointerKind} {down : Bool}
    {value : ℤ} (h : a.abs kind down value = some a') : Fits a'.off := by
  have hkept : some a = some a' → Fits a'.off := fun h => Option.some.inj h ▸ ha
  cases kind with
  | none => exact hkept h
  | mouse => exact hkept h
  | touchpad =>
    obtain ⟨b, hsync, hdragged⟩ := Option.bind_eq_some_iff.mp h
    have hb := off_of_sync ha hsync
    split_ifs at hdragged with hdown
    · exact off_of_drag hb hdragged
    · obtain rfl := Option.some.inj hdragged
      exact hb
  | touchscreen => exact off_of_scale ha h
  | vmouse => exact off_of_scale ha h

theorem Axis.off_of_rel {a a' : Axis} (ha : Fits a.off) {value : ℤ}
    (h : a.rel value = some a') : Fits a'.off := by
  obtain ⟨pos, -, hmoved⟩ := Option.bind_eq_some_iff.mp h
  obtain rfl := Option.some.inj hmoved
  exact ha

/-- A position on the display is in the range of its type. -/
theorem Axis.sound_of_inRange {a : Axis} (hrange : a.InRange) (hoff : Fits a.off) : a.Sound := by
  obtain ⟨hlow, hhigh⟩ := hrange
  obtain ⟨-, -, hlimit⟩ := a.limit.2
  exact ⟨hlow, ⟨by omega, by omega⟩, hoff⟩

/-! ## Runs -/

namespace Pointer

variable {s s' : Pointer}

/-- Both axes are sound. -/
def Sound (s : Pointer) : Prop := s.x.Sound ∧ s.y.Sound

/-- A touch moves nothing. -/
theorem devButton_axes (s : Pointer) (code : UInt16) (value : ℤ) :
    ∃ syncX syncY, (s.devButton code value).x = { s.x with needsSync := syncX } ∧
      (s.devButton code value).y = { s.y with needsSync := syncY } := by
  unfold devButton
  dsimp only
  split_ifs
  · exact ⟨s.x.needsSync, s.y.needsSync, rfl, rfl⟩
  · exact ⟨true, true, rfl, rfl⟩
  · exact ⟨s.x.needsSync, s.y.needsSync, rfl, rfl⟩
  · exact ⟨s.x.needsSync, s.y.needsSync, rfl, rfl⟩

/-- What an event does: it moves one of the axes, or neither. -/
theorem notifyEvent_cases (s : Pointer) (e : InputEvent) :
    (e.type = evRel ∧ e.code = codeX ∧
      s.notifyEvent e = (s.x.rel e.value).map fun x => { s with x := x }) ∨
    (e.type = evRel ∧ e.code = codeY ∧
      s.notifyEvent e = (s.y.rel e.value).map fun y => { s with y := y }) ∨
    (e.type = evAbs ∧ e.code = codeX ∧
      s.notifyEvent e = (s.x.abs s.kind s.touchpaddown e.value).map fun x => { s with x := x }) ∨
    (e.type = evAbs ∧ e.code = codeY ∧
      s.notifyEvent e = (s.y.abs s.kind s.touchpaddown e.value).map fun y => { s with y := y }) ∨
    ((e.type = evRel ∨ e.type = evAbs → e.code ≠ codeX ∧ e.code ≠ codeY) ∧
      ∃ s' syncX syncY, s.notifyEvent e = some s' ∧ s'.x = { s.x with needsSync := syncX } ∧
        s'.y = { s.y with needsSync := syncY }) := by
  have hyx : codeY ≠ codeX := by decide
  obtain ⟨type, code, value⟩ := e
  dsimp only
  by_cases hrel : type = evRel
  · subst hrel
    have hnotify : s.notifyEvent ⟨evRel, code, value⟩ = s.devRel code value := rfl
    rw [hnotify, devRel]
    by_cases hx : code = codeX
    · exact .inl ⟨rfl, hx, if_pos hx⟩
    · rw [if_neg hx]
      by_cases hy : code = codeY
      · exact .inr (.inl ⟨rfl, hy, if_pos hy⟩)
      · rw [if_neg hy]
        exact .inr (.inr (.inr (.inr ⟨fun _ => ⟨hx, hy⟩, s, _, _, rfl, rfl, rfl⟩)))
  · by_cases habs : type = evAbs
    · subst habs
      have hnotify : s.notifyEvent ⟨evAbs, code, value⟩ = s.devAbs code value := rfl
      rw [hnotify, devAbs]
      by_cases hx : code = codeX
      · exact .inr (.inr (.inl ⟨rfl, hx, if_pos hx⟩))
      · rw [if_neg hx]
        by_cases hy : code = codeY
        · exact .inr (.inr (.inr (.inl ⟨rfl, hy, if_pos hy⟩)))
        · rw [if_neg hy]
          exact .inr (.inr (.inr (.inr ⟨fun _ => ⟨hx, hy⟩, s, _, _, rfl, rfl, rfl⟩)))
    · refine .inr (.inr (.inr (.inr ⟨fun h => (h.elim hrel habs).elim, ?_⟩)))
      simp only [notifyEvent, if_neg hrel, if_neg habs]
      split_ifs with hkey
      · obtain ⟨syncX, syncY, hx, hy⟩ := s.devButton_axes code value
        exact ⟨_, syncX, syncY, rfl, hx, hy⟩
      · exact ⟨s, _, _, rfl, rfl, rfl⟩

/-- One event leaves the position in range if and only if it is in range. -/
theorem right_iff (hs : s.Sound) (e : InputEvent) : s.Right e ↔ s.Meets e := by
  have hyx : codeY ≠ codeX := by decide
  have habs : evAbs ≠ evRel := by decide
  unfold Right Meets
  rcases s.notifyEvent_cases e with ⟨ht, hc, hrun⟩ | ⟨ht, hc, hrun⟩ | ⟨ht, hc, hrun⟩ |
    ⟨ht, hc, hrun⟩ | ⟨hnone, s', syncX, syncY, hrun, hx, hy⟩
  · rw [if_pos ⟨ht, hc⟩, hrun, ← Axis.rel_iff]
    constructor
    · rintro ⟨s', hs', hrange, hmoved, -⟩
      obtain ⟨x, hx, rfl⟩ := Option.map_eq_some_iff.mp hs'
      exact ⟨⟨x, hx, hrange.1, hmoved ht hc⟩, hrange.2⟩
    · rintro ⟨⟨x, hx, hrange, hmoved⟩, hy⟩
      refine ⟨_, Option.map_eq_some_iff.mpr ⟨x, hx, rfl⟩, ⟨hrange, hy⟩, fun _ _ => hmoved, ?_⟩
      exact fun _ hother => absurd (hother.symm.trans hc) hyx
  · rw [if_neg fun h => hyx (hc.symm.trans h.2), if_pos ⟨ht, hc⟩, hrun, ← Axis.rel_iff]
    constructor
    · rintro ⟨s', hs', hrange, -, hmoved⟩
      obtain ⟨y, hy, rfl⟩ := Option.map_eq_some_iff.mp hs'
      exact ⟨hrange.1, y, hy, hrange.2, hmoved ht hc⟩
    · rintro ⟨hx, y, hy, hrange, hmoved⟩
      refine ⟨_, Option.map_eq_some_iff.mpr ⟨y, hy, rfl⟩, ⟨hx, hrange⟩, ?_, fun _ _ => hmoved⟩
      exact fun _ hother => absurd (hc.symm.trans hother) hyx
  · have hrel : e.type ≠ evRel := ht ▸ habs
    rw [if_neg fun h => hrel h.1, if_neg fun h => hrel h.1, if_pos ⟨ht, hc⟩, hrun,
      ← Axis.abs_iff hs.1]
    constructor
    · rintro ⟨s', hs', hrange, -⟩
      obtain ⟨x, hx, rfl⟩ := Option.map_eq_some_iff.mp hs'
      exact ⟨⟨x, hx, hrange.1⟩, hrange.2⟩
    · rintro ⟨⟨x, hx, hrange⟩, hy⟩
      exact ⟨_, Option.map_eq_some_iff.mpr ⟨x, hx, rfl⟩, ⟨hrange, hy⟩,
        fun h => absurd h hrel, fun h => absurd h hrel⟩
  · have hrel : e.type ≠ evRel := ht ▸ habs
    rw [if_neg fun h => hrel h.1, if_neg fun h => hrel h.1,
      if_neg fun h => hyx (hc.symm.trans h.2), if_pos ⟨ht, hc⟩, hrun, ← Axis.abs_iff hs.2]
    constructor
    · rintro ⟨s', hs', hrange, -⟩
      obtain ⟨y, hy, rfl⟩ := Option.map_eq_some_iff.mp hs'
      exact ⟨hrange.1, y, hy, hrange.2⟩
    · rintro ⟨hx, y, hy, hrange⟩
      exact ⟨_, Option.map_eq_some_iff.mpr ⟨y, hy, rfl⟩, ⟨hx, hrange⟩,
        fun h => absurd h hrel, fun h => absurd h hrel⟩
  · rw [if_neg fun h => (hnone (.inl h.1)).1 h.2, if_neg fun h => (hnone (.inl h.1)).2 h.2,
      if_neg fun h => (hnone (.inr h.1)).1 h.2, if_neg fun h => (hnone (.inr h.1)).2 h.2, hrun]
    have hsame : s'.InRange ↔ s.InRange := by
      unfold InRange
      rw [hx, hy]
      exact Iff.rfl
    constructor
    · rintro ⟨t, ht, hrange, -⟩
      obtain rfl := Option.some.inj ht
      exact hsame.mp hrange
    · intro hrange
      exact ⟨s', rfl, hsame.mpr hrange, fun h hc => absurd hc (hnone (.inl h)).1,
        fun h hc => absurd hc (hnone (.inl h)).2⟩

/-- An event leaves the offsets in the range of their type. -/
theorem off_of_event (hs : s.Sound) {e : InputEvent} (h : s.notifyEvent e = some s') :
    Fits s'.x.off ∧ Fits s'.y.off := by
  have hx := hs.1.off
  have hy := hs.2.off
  rcases s.notifyEvent_cases e with ⟨-, -, hrun⟩ | ⟨-, -, hrun⟩ | ⟨-, -, hrun⟩ |
    ⟨-, -, hrun⟩ | ⟨-, t, syncX, syncY, hrun, hkeptX, hkeptY⟩
  · obtain ⟨x, hmoved, rfl⟩ := Option.map_eq_some_iff.mp (hrun.symm.trans h)
    exact ⟨Axis.off_of_rel hx hmoved, hy⟩
  · obtain ⟨y, hmoved, rfl⟩ := Option.map_eq_some_iff.mp (hrun.symm.trans h)
    exact ⟨hx, Axis.off_of_rel hy hmoved⟩
  · obtain ⟨x, hmoved, rfl⟩ := Option.map_eq_some_iff.mp (hrun.symm.trans h)
    exact ⟨Axis.off_of_abs hx hmoved, hy⟩
  · obtain ⟨y, hmoved, rfl⟩ := Option.map_eq_some_iff.mp (hrun.symm.trans h)
    exact ⟨hx, Axis.off_of_abs hy hmoved⟩
  · obtain rfl := Option.some.inj (hrun.symm.trans h)
    rw [hkeptX, hkeptY]
    exact ⟨hx, hy⟩

/-- An event that leaves the position in range leaves a sound pointer. -/
theorem sound_of_event (hs : s.Sound) {e : InputEvent} (h : s.notifyEvent e = some s')
    (hrange : s'.InRange) : s'.Sound :=
  have hoff := off_of_event hs h
  ⟨Axis.sound_of_inRange hrange.1 hoff.1, Axis.sound_of_inRange hrange.2 hoff.2⟩

/-- A device that is opened anew keeps its position. -/
theorem sound_openDev (hs : s.Sound) (infoX infoY : Option AbsInfo) :
    (s.openDev infoX infoY).Sound := by
  have hreport (a : Axis) (ha : a.Sound) (info : AbsInfo) : (a.report info).Sound :=
    ⟨ha.low, ha.fits, ha.off⟩
  unfold openDev initAbs
  split_ifs
  · cases infoX with
    | none => exact hs
    | some infoX =>
      cases infoY with
      | none => exact ⟨hreport _ hs.1 infoX, hs.2⟩
      | some infoY => exact ⟨hreport _ hs.1 infoX, hreport _ hs.2 infoY⟩
  · exact hs

theorem sound_init (caps : Capabilities) (infoX infoY : Option AbsInfo) (maxX maxY : Limit) :
    (init caps infoX infoY maxX maxY).Sound := by
  have hfits : Fits 0 := by decide
  have hzero (limit : Limit) : (Axis.zero limit).Sound := ⟨Int.le_refl 0, hfits, hfits⟩
  exact sound_openDev ⟨hzero maxX, hzero maxY⟩ infoX infoY

end Pointer

/-- A step that is no event needs nothing. -/
theorem throughout_skip {P : Pointer → InputEvent → Prop} {s s' : Pointer} {step : PointerStep}
    {steps : List PointerStep} (hstep : ∀ e, step ≠ .event e) (hrun : step.run s = some s') :
    Throughout P s (step :: steps) ↔ Throughout P s' steps := by
  constructor
  · rintro ⟨-, hrest⟩
    exact hrest s' hrun
  · intro hrest
    refine ⟨fun e he => absurd he (hstep e), fun t ht => ?_⟩
    obtain rfl := Option.some.inj (hrun.symm.trans ht)
    exact hrest

/-- The run is sound as long as its events leave the position in range. -/
theorem throughout_iff {s : Pointer} (hs : s.Sound) (steps : List PointerStep) :
    Throughout Pointer.Right s steps ↔ Throughout Pointer.Meets s steps := by
  induction steps generalizing s with
  | nil => exact Iff.rfl
  | cons step steps ih =>
    cases step with
    | event e =>
      have hstep := Pointer.right_iff hs e
      have hlater (hright : s.Right e) (s' : Pointer) (hrun : s.notifyEvent e = some s') :
          s'.Sound := by
        obtain ⟨t, ht, hrange, -⟩ := hright
        obtain rfl := Option.some.inj (ht.symm.trans hrun)
        exact Pointer.sound_of_event hs hrun hrange
      constructor
      · rintro ⟨hnow, hrest⟩
        have hright := hnow e rfl
        refine ⟨fun e' he' => ?_, fun s' hrun => ?_⟩
        · cases he'
          exact hstep.mp hright
        · exact (ih (hlater hright s' hrun)).mp (hrest s' hrun)
      · rintro ⟨hnow, hrest⟩
        have hright := hstep.mpr (hnow e rfl)
        refine ⟨fun e' he' => ?_, fun s' hrun => ?_⟩
        · cases he'
          exact hright
        · exact (ih (hlater hright s' hrun)).mpr (hrest s' hrun)
    | setMax maxX maxY =>
      have hkept : (s.setPointerMax maxX maxY).Sound :=
        ⟨⟨hs.1.low, hs.1.fits, hs.1.off⟩, ⟨hs.2.low, hs.2.fits, hs.2.off⟩⟩
      have hskip (e : InputEvent) : PointerStep.setMax maxX maxY ≠ .event e := nofun
      rw [throughout_skip hskip rfl, throughout_skip hskip rfl]
      exact ih hkept
    | wakeUp infoX infoY =>
      have hkept := Pointer.sound_openDev hs infoX infoY
      have hskip (e : InputEvent) : PointerStep.wakeUp infoX infoY ≠ .event e := nofun
      rw [throughout_skip hskip rfl, throughout_skip hskip rfl]
      exact ih hkept

/-- In every run of a new device every event leaves the position in range if and only if every
event is in range. -/
theorem throughout_right_iff (caps : Capabilities) (infoX infoY : Option AbsInfo)
    (maxX maxY : Limit) (steps : List PointerStep) :
    Throughout Pointer.Right (.init caps infoX infoY maxX maxY) steps ↔
      Throughout Pointer.Meets (.init caps infoX infoY maxX maxY) steps :=
  throughout_iff (Pointer.sound_init caps infoX infoY maxX maxY) steps

/-- A touchscreen that reports two equal ends makes the pointer divide by zero. -/
theorem equalEnds_not_right :
    ¬ Throughout Pointer.Right
      (.init ⟨true, true, true, false⟩ (some (⟨7, by decide⟩, ⟨7, by decide⟩)) none
        ⟨1023, by decide⟩ ⟨1023, by decide⟩)
      [.event ⟨evAbs, codeX, ⟨9, by decide⟩⟩] := by
  rintro ⟨hright, -⟩
  obtain ⟨s', hrun, -⟩ := hright _ rfl
  cases hrun

end Faceplate.Input
