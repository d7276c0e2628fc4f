import Mathlib.Algebra.BigOperators.Group.List.Basic
import Mathlib.Algebra.GroupWithZero.Nat
import Mathlib.Algebra.Ring.Int.Defs
import Faceplate.Lib.CheckedInt

/-!
# Dithering of the framebuffer device

`xrgb32_to_device` cuts each channel of a pixel down to the bits of the device. What is
cut off is carried to the next pixel: an accumulator for each channel holds by how much
too bright the last pixel was.
-/

namespace Faceplate.Video

open CheckedInt

/-- A channel of a pixel. -/
inductive Channel where
  | r
  | g
  | b
  deriving DecidableEq, Repr

/-- The value of a channel of an `xrgb32` pixel. -/
def Channel.of (c : Channel) (pixel : UInt32) : ℕ :=
  match c with
  | .r => (pixel >>> 16 &&& 0xff).toNat
  | .g => (pixel >>> 8 &&& 0xff).toNat
  | .b => (pixel &&& 0xff).toNat

/-- `off_r`, `len_r` and their like of `struct fbdev_display`. -/
structure PixelFormat where
  off : Channel → ℕ
  len : Channel → ℕ
  len_pos : ∀ c, 1 ≤ len c
  len_le : ∀ c, len c ≤ 8

/-- `clamp_value`. -/
def clampValue (val low up : ℤ) : ℤ := if val < low then low else if up < val then up else val

/-- The loops that fill the lower bits of `nr`, if they end. -/
def repeatBits : ℕ → ℕ → ℕ → Option ℕ
  | 0, _, _ => none
  | fuel + 1, i, nr => if i < 8 then repeatBits fuel (i <<< 1) (nr ||| nr >>> i) else some nr

/-- A channel that has been dithered: its value for the device, what this value looks like
in eight bits, and the accumulator. -/
structure Dithered where
  level : ℕ
  shown : ℕ
  dither : ℤ

/-- What `xrgb32_to_device` does for one channel. -/
def ditherChannel (len value : ℕ) (dither : ℤ) : Option Dithered := do
  let wanted ← int32 (value - dither)
  let level := (clampValue wanted 0 255).toNat >>> (8 - len) % 256
  let shown ← repeatBits 4 len (level <<< (8 - len) % 256)
  let dither ← int32 (shown - wanted)
  some ⟨level, shown, dither⟩

namespace PixelFormat

variable (fmt : PixelFormat)

/-- What a channel loses at most. -/
def step (c : Channel) : ℕ := 2 ^ (8 - fmt.len c)

/-- The channels in their places, in the 32 bits that the callers keep. A shift into the sign
bit of the `int` leaves the same bits there. -/
def assemble (level : Channel → ℕ) : ℕ :=
  (level .r <<< fmt.off .r ||| level .g <<< fmt.off .g ||| level .b <<< fmt.off .b) % 2 ^ 32

/-- The three channels of a pixel. -/
def ditherPixel (dither : Channel → ℤ) (pixel : UInt32) : Option (Channel → Dithered) := do
  let r ← ditherChannel (fmt.len .r) (Channel.r.of pixel) (dither .r)
  let g ← ditherChannel (fmt.len .g) (Channel.g.of pixel) (dither .g)
  let b ← ditherChannel (fmt.len .b) (Channel.b.of pixel) (dither .b)
  some fun c =>
    match c with
    | .r => r
    | .g => g
    | .b => b

/-- `xrgb32_to_device`: the value for the device, and the accumulators. -/
def xrgb32ToDevice (dithering : Bool) (dither : Channel → ℤ) (pixel : UInt32) :
    Option (ℕ × (Channel → ℤ)) :=
  if dithering then
    (fmt.ditherPixel dither pixel).map fun out =>
      (fmt.assemble fun c => (out c).level, fun c => (out c).dither)
  else some (fmt.assemble fun c => c.of pixel >>> (8 - fmt.len c), dither)

/-- The values for the device of a sequence of pixels, and the accumulators. -/
def deviceAll (dithering : Bool) (dither : Channel → ℤ) :
    List UInt32 → Option ((Channel → ℤ) × List ℕ)
  | [] => some (dither, [])
  | pixel :: pixels => do
    let (res, dither) ← fmt.xrgb32ToDevice dithering dither pixel
    let (dither, values) ← deviceAll dithering dither pixels
    some (dither, res :: values)

/-- The same with what became of each channel, where the pixels are dithered. -/
def ditherAll (dither : Channel → ℤ) :
    List UInt32 → Option ((Channel → ℤ) × List (Channel → Dithered))
  | [] => some (dither, [])
  | pixel :: pixels => do
    let out ← fmt.ditherPixel dither pixel
    let (dither, outs) ← ditherAll (fun c => (out c).dither) pixels
    some (dither, out :: outs)

end PixelFormat

/-! ## One channel -/

/-- The bits of a value are repeated to fill eight. -/
def BitReplicated (len level shown : ℕ) : Prop :=
  shown < 256 ∧ ∀ j < 8, shown.testBit (7 - j) = level.testBit (len - 1 - j % len)

instance (len level shown : ℕ) : Decidable (BitReplicated len level shown) :=
  inferInstanceAs (Decidable (_ ∧ _))

/-- What a quantised value looks like: no more than a step away, and black and white stay
as they are. -/
structure Close (len value shown : ℕ) : Prop where
  below : value < shown + 2 ^ (8 - len)
  above : shown < value + 2 ^ (8 - len)
  black : value = 0 → shown = 0
  white : value = 255 → shown = 255

/-- Two values with the same leading bits are less than a step apart. -/
theorem lt_of_shiftRight_eq {k value shown : ℕ} (h : value >>> k = shown >>> k) :
    value < shown + 2 ^ k := by
  rw [Nat.shiftRight_eq_div_pow, Nat.shiftRight_eq_div_pow] at h
  calc value < 2 ^ k * (value / 2 ^ k + 1) := Nat.lt_mul_div_succ value (Nat.two_pow_pos k)
    _ = 2 ^ k * (shown / 2 ^ k) + 2 ^ k := by rw [h, Nat.mul_add_one]
    _ ≤ shown + 2 ^ k := Nat.add_le_add_right (Nat.mul_div_le shown _) _

/-- The loop ends, for each width and each level of a channel. -/
theorem repeatBits_level : ∀ len < 9, 1 ≤ len → ∀ level < 2 ^ len,
    (repeatBits 4 len (level <<< (8 - len) % 256)).any (fun shown =>
      BitReplicated len level shown ∧ level = shown >>> (8 - len) ∧ (level = 0 → shown = 0) ∧
        (level + 1 = 2 ^ len → shown = 255)) = true := by
  decide +kernel

/-- What is shown has the leading bits of the value. -/
theorem repeatBits_spec {len value : ℕ} (hpos : 1 ≤ len) (hlen : len ≤ 8) (hvalue : value < 256) :
    ∃ shown, repeatBits 4 len (value >>> (8 - len) <<< (8 - len) % 256) = some shown ∧
      BitReplicated len (value >>> (8 - len)) shown ∧ Close len value shown := by
  have hlevel : value >>> (8 - len) < 2 ^ len := by
    rw [Nat.shiftRight_eq_div_pow, Nat.div_lt_iff_lt_mul (Nat.two_pow_pos _), ← Nat.pow_add,
      Nat.add_sub_cancel' hlen]
    exact hvalue
  have hloop := repeatBits_level len (by omega) hpos _ hlevel
  cases hshown : repeatBits 4 len (value >>> (8 - len) <<< (8 - len) % 256) with
  | none => simp [hshown] at hloop
  | some shown =>
    simp only [hshown, Option.any_some, decide_eq_true_eq] at hloop
    obtain ⟨hbits, hsame, hblack, hwhite⟩ := hloop
    refine ⟨shown, rfl, hbits, lt_of_shiftRight_eq hsame, lt_of_shiftRight_eq hsame.symm, ?_, ?_⟩
    · rintro rfl
      exact hblack (Nat.zero_shiftRight _)
    · rintro rfl
      have hlast : ∀ len < 9, 255 >>> (8 - len) + 1 = 2 ^ len := by decide
      exact hwhite (hlast len (by omega))

/-- The state of a channel between two pixels: less than one step has been carried over. -/
def Carries (len : ℕ) (dither : ℤ) : Prop := dither.natAbs < 2 ^ (8 - len)

/-- The step of a channel is no more than half of its range. -/
theorem step_le {len : ℕ} (hpos : 1 ≤ len) : 2 ^ (8 - len) ≤ 128 :=
  Nat.pow_le_pow_right (by decide) (by omega : 8 - len ≤ 7)

/-- Dithering one channel does not overflow. It shows what was wanted up to less than one step,
also where this is darker than black or brighter than white. -/
theorem ditherChannel_spec {len value : ℕ} {dither : ℤ} (hpos : 1 ≤ len) (hlen : len ≤ 8)
    (hvalue : value < 256) (h : Carries len dither) :
    ∃ out, ditherChannel len value dither = some out ∧ BitReplicated len out.level out.shown ∧
      (out.shown : ℤ) - value = out.dither - dither ∧ Carries len out.dither := by
  have hstep := step_le hpos
  unfold Carries at h
  generalize hwanted : (value : ℤ) - dither = wanted at *
  obtain ⟨clamped, hclamped, hbyte⟩ : ∃ n : ℕ, clampValue wanted 0 255 = n ∧ n < 256 := by
    unfold clampValue
    split_ifs
    · exact ⟨0, rfl, by decide⟩
    · exact ⟨255, rfl, by decide⟩
    · exact ⟨wanted.toNat, by omega, by omega⟩
  obtain ⟨shown, hshown, hbits, hclose⟩ := repeatBits_spec hpos hlen hbyte
  have hshown_lt := hbits.1
  have hlevel : clamped >>> (8 - len) % 256 = clamped >>> (8 - len) :=
    Nat.mod_eq_of_lt ((Nat.shiftRight_le clamped (8 - len)).trans_lt hbyte)
  have hfits : Fits wanted := by
    unfold Fits
    omega
  have hfits' : Fits (shown - wanted) := by
    unfold Fits
    omega
  refine ⟨⟨clamped >>> (8 - len), shown, shown - wanted⟩, ?_, hbits, ?_, ?_⟩
  · simp only [ditherChannel, hwanted, int32_of_fits hfits, Option.bind_eq_bind, Option.bind_some,
      hclamped, Int.toNat_natCast, hlevel, hshown, int32_of_fits hfits']
  · change (shown : ℤ) - value = shown - wanted - dither
    omega
  · -- only what is clamped is farther from what was wanted than from what is shown
    obtain ⟨hbelow, habove, hblack, hwhite⟩ := hclose
    change ((shown : ℤ) - wanted).natAbs < 2 ^ (8 - len)
    unfold clampValue at hclamped
    split_ifs at hclamped with hlow hhigh
    · have hzero := hblack (by omega)
      omega
    · have hfull := hwhite (by omega)
      omega
    · omega

/-! ## Sequences of pixels -/

theorem Channel.of_lt (c : Channel) (pixel : UInt32) : c.of pixel < 256 := by
  cases c <;> simp only [Channel.of, UInt32.toNat_and] <;>
    exact Nat.lt_succ_of_le Nat.and_le_right

namespace PixelFormat

variable (fmt : PixelFormat)

/-- All channels of a pixel are dithered well. -/
theorem ditherPixel_spec {dither : Channel → ℤ} (h : ∀ c, Carries (fmt.len c) (dither c))
    (pixel : UInt32) :
    ∃ out, fmt.ditherPixel dither pixel = some out ∧ ∀ c,
      BitReplicated (fmt.len c) (out c).level (out c).shown ∧
        ((out c).shown : ℤ) - c.of pixel = (out c).dither - dither c ∧
          Carries (fmt.len c) (out c).dither := by
  choose out hout hspec using fun c =>
    ditherChannel_spec (fmt.len_pos c) (fmt.len_le c) (c.of_lt pixel) (h c)
  refine ⟨out, ?_, hspec⟩
  simp only [ditherPixel, hout, Option.bind_eq_bind, Option.bind_some, Option.some.injEq]
  funext c
  cases c <;> rfl

/-- Of a whole sequence, what is shown and what was asked for differ by what is carried. -/
theorem ditherAll_spec {dither : Channel → ℤ} (h : ∀ c, Carries (fmt.len c) (dither c))
    (pixels : List UInt32) :
    ∃ last outs, fmt.ditherAll dither pixels = some (last, outs) ∧
      outs.length = pixels.length ∧
      (∀ out ∈ outs, ∀ c, BitReplicated (fmt.len c) (out c).level (out c).shown) ∧
      ∀ c, Carries (fmt.len c) (last c) ∧
        ((outs.map fun out => (out c).shown).sum : ℤ) - (pixels.map c.of).sum =
          last c - dither c := by
  induction pixels generalizing dither with
  | nil => exact ⟨dither, [], rfl, rfl, by simp, fun c => ⟨h c, by simp⟩⟩
  | cons pixel pixels ih =>
    obtain ⟨out, hout, hspec⟩ := fmt.ditherPixel_spec h pixel
    obtain ⟨last, outs, houts, hlength, hbits, hrest⟩ := ih fun c => (hspec c).2.2
    refine ⟨last, out :: outs, ?_, by simp [hlength], ?_, fun c => ⟨(hrest c).1, ?_⟩⟩
    · simp only [ditherAll, hout, houts, Option.bind_eq_bind, Option.bind_some]
    · intro other hother c
      rcases List.mem_cons.mp hother with rfl | hother
      · exact (hspec c).1
      · exact hbits other hother c
    · have hone := (hspec c).2.1
      have hmore := (hrest c).2
      simp only [List.map_cons, List.sum_cons]
      push_cast at hmore ⊢
      omega

theorem deviceAll_eq {dither last : Channel → ℤ} {pixels : List UInt32}
    {outs : List (Channel → Dithered)} (h : fmt.ditherAll dither pixels = some (last, outs)) :
    fmt.deviceAll true dither pixels =
      some (last, outs.map fun out => fmt.assemble fun c => (out c).level) := by
  induction pixels generalizing dither outs with
  | nil =>
    simp only [ditherAll, Option.some.injEq, Prod.mk.injEq] at h
    obtain ⟨rfl, rfl⟩ := h
    rfl
  | cons pixel pixels ih =>
    simp only [ditherAll, Option.bind_eq_bind, Option.bind_eq_some_iff, Option.some.injEq,
      Prod.mk.injEq] at h
    obtain ⟨out, hout, ⟨_, rest⟩, hrest, rfl, rfl⟩ := h
    simp only [deviceAll, xrgb32ToDevice, if_true, hout, Option.map_some, Option.bind_eq_bind,
      Option.bind_some, ih hrest, List.map_cons]

/-- The first pixels of a sequence are dithered alike. -/
theorem ditherAll_take {dither last : Channel → ℤ} {pixels : List UInt32}
    {outs : List (Channel → Dithered)} (h : fmt.ditherAll dither pixels = some (last, outs))
    (n : ℕ) : ∃ mid, fmt.ditherAll dither (pixels.take n) = some (mid, outs.take n) := by
  induction pixels generalizing dither outs n with
  | nil =>
    simp only [ditherAll, Option.some.injEq, Prod.mk.injEq] at h
    obtain ⟨rfl, rfl⟩ := h
    exact ⟨dither, by simp [ditherAll]⟩
  | cons pixel pixels ih =>
    cases n with
    | zero => exact ⟨dither, rfl⟩
    | succ n =>
      simp only [ditherAll, Option.bind_eq_bind, Option.bind_eq_some_iff, Option.some.injEq,
        Prod.mk.injEq] at h
      obtain ⟨out, hout, ⟨_, rest⟩, hrest, rfl, rfl⟩ := h
      obtain ⟨mid, hmid⟩ := ih hrest n
      refine ⟨mid, ?_⟩
      simp only [List.take_succ_cons, ditherAll, hout, hmid, Option.bind_eq_bind, Option.bind_some]

/-- Dithering conserves intensity. From empty accumulators nothing overflows; after each
pixel of a sequence each accumulator is less than one step, and so is the difference between
all that has been shown and all that was asked for. -/
theorem ditherAll_conserves (pixels : List UInt32) :
    ∃ last, ∃ outs : List (Channel → Dithered),
      fmt.deviceAll true (fun _ => 0) pixels =
        some (last, outs.map fun out => fmt.assemble fun c => (out c).level) ∧
      outs.length = pixels.length ∧
      (∀ out ∈ outs, ∀ c, BitReplicated (fmt.len c) (out c).level (out c).shown) ∧
      ∀ n, ∃ dither, fmt.ditherAll (fun _ => 0) (pixels.take n) = some (dither, outs.take n) ∧
        ∀ c, (dither c).natAbs < fmt.step c ∧
          ((((outs.take n).map fun out => (out c).shown).sum : ℤ) -
            ((pixels.take n).map c.of).sum).natAbs < fmt.step c := by
  have hstart (c : Channel) : Carries (fmt.len c) 0 := Nat.two_pow_pos _
  obtain ⟨last, outs, houts, hlength, hbits, -⟩ := fmt.ditherAll_spec hstart pixels
  refine ⟨last, outs, fmt.deviceAll_eq houts, hlength, hbits, fun n => ?_⟩
  obtain ⟨dither, hdither⟩ := fmt.ditherAll_take houts n
  obtain ⟨dither', outs', houts', -, -, hcarries⟩ := fmt.ditherAll_spec hstart (pixels.take n)
  rw [hdither, Option.some.injEq, Prod.mk.injEq] at houts'
  obtain ⟨rfl, rfl⟩ := houts'
  refine ⟨dither, hdither, fun c => ?_⟩
  obtain ⟨hlast, hsum⟩ := hcarries c
  rw [hsum, sub_zero]
  exact ⟨hlast, hlast⟩

end PixelFormat

end Faceplate.Video
