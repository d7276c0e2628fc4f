import Mathlib.Data.List.GetD
import Mathlib.Tactic.Ring
import Faceplate.Lib.Writes
import Faceplate.Render.Blend

/-!
# Rotating a glyph

`bbulk_rotate_glyph` copies the alpha map of a glyph byte by byte into a new buffer, with
one index formula for each orientation. The counters, the sizes and the indices of two
formulas are of type `int`, while the sizes of a glyph are `unsigned int`. Where they all
fit, the formulas are the rotations of the pixels, and these obey the laws of a quarter
turn.
-/

namespace Faceplate.Render

/-- `struct kmscon_glyph` with its `struct video_buffer`. -/
@[ext] structure GlyphBuf extends VideoBuffer where
  doubleWidth : Bool

namespace GlyphBuf

variable (glyph : GlyphBuf)

/-- The result of an `int` operation. An overflow is undefined. -/
def intValue (z : ℤ) : Option ℤ :=
  if -2147483648 ≤ z ∧ z < 2147483648 then some z else none

/-- An index as a place of a buffer. -/
def place (z : ℤ) : Option ℕ := if 0 ≤ z then some z.toNat else none

/-- The counters `i` and `j` of the two nested loops. They are of type `int` and count up to
sizes that are not. -/
def counters : Option (List (ℕ × ℕ)) :=
  if 2147483647 < glyph.height ∨ 0 < glyph.height ∧ 2147483647 < glyph.width then none
  else some ((List.range glyph.height).flatMap fun i =>
    (List.range glyph.width).map fun j => (i, j))

/-- `width` and `height` of the rotated glyph. -/
def rotatedSize (orientation : Orientation) : ℕ × ℕ :=
  if orientation.upright then (glyph.width, glyph.height) else (glyph.height, glyph.width)

/-- The index in `rglyph->buf.data` that a round of the loops writes to. -/
def dstIndex (orientation : Orientation) (i j : ℕ) : Option ℤ :=
  let width := toInt (glyph.rotatedSize orientation).1
  let height := toInt (glyph.rotatedSize orientation).2
  match orientation with
  | .normal => none
  | .right =>
    (intValue (j * width)).bind fun line =>
      (intValue (width - i)).bind fun rest =>
        (intValue (rest - 1)).bind fun rest => intValue (line + rest)
  | .upsideDown => some (i * width + j)
  | .left =>
    (intValue (height - j)).bind fun rest =>
      (intValue (rest - 1)).bind fun rest =>
        (intValue (rest * width)).bind fun line => intValue (line + i)

/-- The index in `buf->data` that a round of the loops reads from. -/
def srcIndex (orientation : Orientation) (i j : ℕ) : ℤ :=
  match orientation with
  | .upsideDown =>
    wrap (wrapSub glyph.height 1 * glyph.width) - i * glyph.width +
      wrapSub (wrapSub glyph.width j) 1
  | _ => i * glyph.width + j

/-- A round of the loops: read a byte, and the place that it is written to. -/
def copyByte (orientation : Orientation) (round : ℕ × ℕ) : Option (ℕ × ℕ) :=
  (glyph.dstIndex orientation round.1 round.2).bind fun dst =>
    (place dst).bind fun dst =>
      (place (glyph.srcIndex orientation round.1 round.2)).bind fun src =>
        glyph.data[src]?.map fun byte => (dst, byte)

/-- The rounds of the loops. There are none for the normal orientation. -/
def rounds (orientation : Orientation) : Option (List (ℕ × ℕ)) :=
  if orientation = .normal then some [] else glyph.counters

/-- The data of the rotated glyph, in zeroed memory of `size` bytes with a header of 12. -/
def rotatedData (orientation : Orientation) : Option (List ℕ) :=
  let size := wrap (12 + wrap (glyph.width * glyph.height))
  if size < 12 then none
  else (glyph.rounds orientation).bind
    (Writes.loop (glyph.copyByte orientation) (List.replicate (size - 12) 0))

/-- `bbulk_rotate_glyph`; undefined if a counter or an index overflows, if a byte outside
of a buffer is read or written, and if the buffer is smaller than its sizes. -/
def bbulkRotateGlyph (orientation : Orientation) : Option GlyphBuf :=
  (glyph.rotatedData orientation).bind fun data =>
    let size := glyph.rotatedSize orientation
    if h : size.1 < 4294967296 ∧ size.2 < 4294967296 ∧ data.length = size.1 * size.2 then
      some ⟨⟨size.1, size.2, data, h.1, h.2.1, h.2.2⟩, glyph.doubleWidth⟩
    else none

/-- The sizes of a glyph and its indices fit in an `int`. -/
def Fits : Prop :=
  glyph.width < 2147483648 ∧ glyph.height < 2147483648 ∧
    glyph.width * glyph.height ≤ 2147483648

/-- The laws of rotation. -/
structure RotationLaws : Prop where
  right_left : (glyph.bbulkRotateGlyph .right).bind (bbulkRotateGlyph · .left) = some glyph
  right_right : (glyph.bbulkRotateGlyph .right).bind (bbulkRotateGlyph · .right) =
    glyph.bbulkRotateGlyph .upsideDown
  right_four : ((((glyph.bbulkRotateGlyph .right).bind (bbulkRotateGlyph · .right)).bind
    (bbulkRotateGlyph · .right)).bind (bbulkRotateGlyph · .right)) = some glyph
  turned : ∀ orientation : Orientation, orientation.upright = false → ∃ rotated,
    glyph.bbulkRotateGlyph orientation = some rotated ∧
      rotated.width = glyph.height ∧ rotated.height = glyph.width
  upsideDown : ∃ rotated, glyph.bbulkRotateGlyph .upsideDown = some rotated ∧
    rotated.width = glyph.width ∧ rotated.height = glyph.height

/-! ## Indices -/

variable {glyph}

theorem index_lt {x y width height : ℕ} (hx : x < width) (hy : y < height) :
    y * width + x < width * height := by
  have hline : (y + 1) * width ≤ height * width := Nat.mul_le_mul_right _ hy
  rw [Nat.succ_mul] at hline
  rw [Nat.mul_comm width]
  omega

theorem intValue_of_mem {z : ℤ} (hlow : -2147483648 ≤ z) (hhigh : z < 2147483648) :
    intValue z = some z := if_pos ⟨hlow, hhigh⟩

theorem intValue_eq_some {z v : ℤ} (h : intValue z = some v) : z = v ∧ z < 2147483648 := by
  unfold intValue at h
  split_ifs at h with hz
  exact ⟨Option.some.inj h, hz.2⟩

/-- Where a pixel goes. -/
def target (glyph : GlyphBuf) (orientation : Orientation) (i j : ℕ) : ℕ × ℕ :=
  match orientation with
  | .normal => (j, i)
  | .right => (glyph.height - i - 1, j)
  | .upsideDown => (j, i)
  | .left => (i, glyph.width - j - 1)

theorem target_lt (orientation : Orientation) {i j : ℕ} (hi : i < glyph.height)
    (hj : j < glyph.width) :
    (glyph.target orientation i j).1 < (glyph.rotatedSize orientation).1 ∧
      (glyph.target orientation i j).2 < (glyph.rotatedSize orientation).2 := by
  cases orientation <;> simp only [target, rotatedSize, Orientation.upright, if_true,
    Bool.false_eq_true, if_false] <;> omega

/-- The index of the pixel that a round writes. -/
theorem dstIndex_eq (hfits : glyph.Fits) {orientation : Orientation}
    (hturn : orientation ≠ .normal) {i j : ℕ} (hi : i < glyph.height) (hj : j < glyph.width) :
    glyph.dstIndex orientation i j =
      some (((glyph.target orientation i j).2 * (glyph.rotatedSize orientation).1 +
        (glyph.target orientation i j).1 : ℕ) : ℤ) := by
  obtain ⟨hwidth, hheight, harea⟩ := hfits
  have hindex := index_lt (target_lt orientation hi hj).1
    (target_lt orientation hi hj).2
  cases orientation with
  | normal => exact absurd rfl hturn
  | right =>
    simp only [target, rotatedSize, Orientation.upright, Bool.false_eq_true, if_false,
      dstIndex, toInt_of_lt hheight] at hindex ⊢
    rw [Nat.mul_comm] at harea
    rw [intValue_of_mem (by omega) (by omega), Option.bind_some,
      intValue_of_mem (by omega) (by omega), Option.bind_some,
      intValue_of_mem (by omega) (by omega), Option.bind_some,
      intValue_of_mem (by omega) (by omega)]
    congr 1
    omega
  | upsideDown =>
    simp only [target, rotatedSize, Orientation.upright, if_true, dstIndex, toInt_of_lt hwidth]
    push_cast
    rfl
  | left =>
    simp only [target, rotatedSize, Orientation.upright, Bool.false_eq_true, if_false,
      dstIndex, toInt_of_lt hheight, toInt_of_lt hwidth] at hindex ⊢
    rw [Nat.mul_comm] at harea
    have hrest : ((glyph.width : ℤ) - j - 1) = (glyph.width - j - 1 : ℕ) := by omega
    have hline : ((glyph.width : ℤ) - j - 1) * glyph.height =
        ((glyph.width - j - 1) * glyph.height : ℕ) := by
      rw [hrest]
      push_cast
      rfl
    rw [intValue_of_mem (by omega) (by omega), Option.bind_some,
      intValue_of_mem (by omega) (by omega), Option.bind_some, hline,
      intValue_of_mem (by omega) (by omega), Option.bind_some,
      intValue_of_mem (by omega) (by omega)]
    congr 1

/-- The byte that a round reads. -/
theorem srcIndex_eq (hfits : glyph.Fits) (orientation : Orientation)
    {i j : ℕ} (hi : i < glyph.height) (hj : j < glyph.width) :
    ∃ x y, x < glyph.width ∧ y < glyph.height ∧
      glyph.srcIndex orientation i j = (y * glyph.width + x : ℕ) ∧
      ∀ alpha : ℕ → ℕ → ℕ, rotateGlyph orientation glyph.width glyph.height alpha
        (glyph.target orientation i j).1 (glyph.target orientation i j).2 = alpha x y := by
  obtain ⟨hwidth, hheight, harea⟩ := hfits
  have hplain : (i : ℤ) * glyph.width + j = (i * glyph.width + j : ℕ) := by
    push_cast
    rfl
  cases orientation with
  | normal => exact ⟨j, i, hj, hi, hplain, fun _ => rfl⟩
  | right =>
    refine ⟨j, i, hj, hi, hplain, fun alpha => ?_⟩
    simp only [rotateGlyph, target]
    congr 1
    omega
  | upsideDown =>
    refine ⟨glyph.width - j - 1, glyph.height - i - 1, by omega, by omega, ?_, fun _ => rfl⟩
    have hlast : (glyph.height - 1) * glyph.width + glyph.width = glyph.height * glyph.width := by
      rw [← Nat.succ_mul]
      congr 1
      omega
    have hrow : (glyph.height - i - 1) * glyph.width + i * glyph.width =
        (glyph.height - 1) * glyph.width := by
      rw [← Nat.add_mul]
      congr 1
      omega
    rw [Nat.mul_comm] at harea
    simp only [srcIndex]
    rw [wrapSub_of_le (by omega : 1 ≤ glyph.height) (by omega), wrap_of_lt (by omega),
      wrapSub_of_le (by omega : j ≤ glyph.width) (by omega),
      wrapSub_of_le (by omega : 1 ≤ glyph.width - j) (by omega), ← hrow]
    push_cast
    ring
  | left =>
    refine ⟨j, i, hj, hi, hplain, fun alpha => ?_⟩
    simp only [rotateGlyph, target]
    congr 1
    omega

/-- A round writes the pixel that the rotation puts there. -/
theorem copyByte_eq (hfits : glyph.Fits) {orientation : Orientation}
    (hturn : orientation ≠ .normal) {i j : ℕ} (hi : i < glyph.height) (hj : j < glyph.width) :
    glyph.copyByte orientation (i, j) =
      some ((glyph.target orientation i j).2 * (glyph.rotatedSize orientation).1 +
        (glyph.target orientation i j).1,
        rotateGlyph orientation glyph.width glyph.height glyph.pixel
          (glyph.target orientation i j).1 (glyph.target orientation i j).2) := by
  obtain ⟨x, y, hx, hy, hsrc, halpha⟩ := srcIndex_eq hfits orientation hi hj
  have hlt : y * glyph.width + x < glyph.data.length := glyph.length_eq ▸ index_lt hx hy
  have hplace (n : ℕ) : place (n : ℤ) = some n := if_pos (Int.natCast_nonneg n)
  rw [copyByte, dstIndex_eq hfits hturn hi hj, hsrc, Option.bind_some, hplace, Option.bind_some,
    hplace, Option.bind_some, halpha, VideoBuffer.pixel, List.getD_eq_getElem _ _ hlt,
    List.getElem?_eq_getElem hlt, Option.map_some]

/-- Every pixel of the rotated glyph is the target of a round. -/
theorem exists_target {orientation : Orientation} {x y : ℕ}
    (hx : x < (glyph.rotatedSize orientation).1) (hy : y < (glyph.rotatedSize orientation).2) :
    ∃ i < glyph.height, ∃ j < glyph.width, glyph.target orientation i j = (x, y) := by
  cases orientation with
  | normal => exact ⟨y, hy, x, hx, rfl⟩
  | right =>
    have hx' : x < glyph.height := hx
    refine ⟨glyph.height - x - 1, by omega, y, hy, ?_⟩
    simp only [target, Prod.mk.injEq, and_true]
    omega
  | upsideDown => exact ⟨y, hy, x, hx, rfl⟩
  | left =>
    have hy' : y < glyph.width := hy
    refine ⟨x, hx, glyph.width - y - 1, by omega, ?_⟩
    simp only [target, Prod.mk.injEq, true_and]
    omega

theorem counters_eq (hfits : glyph.Fits) : glyph.counters =
    some ((List.range glyph.height).flatMap fun i =>
      (List.range glyph.width).map fun j => (i, j)) := by
  obtain ⟨hwidth, hheight, -⟩ := hfits
  exact if_neg (by omega)

theorem mem_rounds {round : ℕ × ℕ} : round ∈ ((List.range glyph.height).flatMap fun i =>
    (List.range glyph.width).map fun j => (i, j)) ↔
      round.1 < glyph.height ∧ round.2 < glyph.width := by
  simp only [List.mem_flatMap, List.mem_map, List.mem_range]
  constructor
  · rintro ⟨i, hi, j, hj, rfl⟩
    exact ⟨hi, hj⟩
  · rintro ⟨hi, hj⟩
    exact ⟨round.1, hi, round.2, hj, rfl⟩

theorem rotatedSize_mul (orientation : Orientation) :
    (glyph.rotatedSize orientation).1 * (glyph.rotatedSize orientation).2 =
      glyph.width * glyph.height := by
  unfold rotatedSize
  split_ifs
  · rfl
  · exact Nat.mul_comm _ _

/-! ## Rotated glyphs -/

/-- Where everything fits, the glyph is rotated pixel by pixel. -/
theorem bbulkRotateGlyph_spec (hfits : glyph.Fits) {orientation : Orientation}
    (hturn : orientation ≠ .normal) :
    ∃ rotated, glyph.bbulkRotateGlyph orientation = some rotated ∧
      rotated.doubleWidth = glyph.doubleWidth ∧
      (rotated.width, rotated.height) = glyph.rotatedSize orientation ∧
      ∀ x < rotated.width, ∀ y < rotated.height, rotated.pixel x y =
        rotateGlyph orientation glyph.width glyph.height glyph.pixel x y := by
  let size := glyph.rotatedSize orientation
  have harea : glyph.width * glyph.height ≤ 2147483648 := hfits.2.2
  have hbytes : wrap (12 + wrap (glyph.width * glyph.height)) =
      12 + glyph.width * glyph.height := by
    rw [wrap_of_lt (by omega : glyph.width * glyph.height < 4294967296), wrap_of_lt (by omega)]
  -- what the loops write to a place depends on the place alone
  let value (k : ℕ) : ℕ :=
    rotateGlyph orientation glyph.width glyph.height glyph.pixel (k % size.1) (k / size.1)
  have hvalue {x y : ℕ} (hx : x < size.1) : value (y * size.1 + x) =
      rotateGlyph orientation glyph.width glyph.height glyph.pixel x y := by
    simp only [value]
    rw [Nat.mul_comm y, Nat.mul_add_mod, Nat.mod_eq_of_lt hx, Nat.mul_add_div (by omega),
      Nat.div_eq_of_lt hx, Nat.add_zero]
  have hround {i j : ℕ} (hi : i < glyph.height) (hj : j < glyph.width) :
      glyph.copyByte orientation (i, j) = some
        ((glyph.target orientation i j).2 * size.1 + (glyph.target orientation i j).1,
          value ((glyph.target orientation i j).2 * size.1 + (glyph.target orientation i j).1)) := by
    rw [hvalue (target_lt orientation hi hj).1]
    exact copyByte_eq hfits hturn hi hj
  obtain ⟨data, hloop, hlen, hhit, -⟩ := Writes.loop_spec
    (glyph.copyByte orientation) value ((List.range glyph.height).flatMap fun i =>
      (List.range glyph.width).map fun j => (i, j))
    (List.replicate (glyph.width * glyph.height) 0) (fun ⟨i, j⟩ hij => by
        obtain ⟨hi, hj⟩ := mem_rounds.mp hij
        refine ⟨_, ?_, hround hi hj⟩
        have htarget := target_lt orientation hi hj
        rw [List.length_replicate, ← rotatedSize_mul orientation]
        exact index_lt htarget.1 htarget.2)
  rw [List.length_replicate, ← rotatedSize_mul orientation] at hlen
  have hdata : glyph.rotatedData orientation = some data := by
    simp only [rotatedData, hbytes, if_neg (by omega : ¬ 12 + glyph.width * glyph.height < 12),
      rounds, if_neg hturn, counters_eq hfits, Option.bind_some, Nat.add_sub_cancel_left]
    exact hloop
  have hsizes : size.1 < 4294967296 ∧ size.2 < 4294967296 := by
    have hwidth := glyph.width_lt
    have hheight := glyph.height_lt
    simp only [size, rotatedSize]
    split_ifs <;> exact ⟨by assumption, by assumption⟩
  refine ⟨⟨⟨size.1, size.2, data, hsizes.1, hsizes.2, hlen⟩, glyph.doubleWidth⟩, ?_, rfl, rfl,
    fun x hx y hy => ?_⟩
  · simp only [bbulkRotateGlyph, hdata, Option.bind_some]
    exact dif_pos ⟨hsizes.1, hsizes.2, hlen⟩
  · obtain ⟨i, hi, j, hj, htarget⟩ := @exists_target glyph orientation x y hx hy
    have hwritten := hhit (y * size.1 + x) ⟨(i, j), mem_rounds.mpr ⟨hi, hj⟩, _, by
      rw [hround hi hj, htarget]⟩
    rw [VideoBuffer.pixel, List.getD_eq_getElem?_getD, hwritten, Option.getD_some]
    exact hvalue hx

/-- A glyph is given by its sizes and its pixels. -/
theorem ext_pixel {glyph' : GlyphBuf} (hdouble : glyph.doubleWidth = glyph'.doubleWidth)
    (hwidth : glyph.width = glyph'.width) (hheight : glyph.height = glyph'.height)
    (hpixel : ∀ x < glyph.width, ∀ y < glyph.height, glyph.pixel x y = glyph'.pixel x y) :
    glyph = glyph' := by
  refine GlyphBuf.ext hwidth hheight (List.ext_getElem ?_ fun k hk hk' => ?_) hdouble
  · rw [glyph.length_eq, glyph'.length_eq, hwidth, hheight]
  · have hlt : k < glyph.width * glyph.height := glyph.length_eq ▸ hk
    have hpos : 0 < glyph.width := Nat.pos_of_ne_zero fun h => by simp [h] at hlt
    have hk_eq : k / glyph.width * glyph.width + k % glyph.width = k := Nat.div_add_mod' k _
    have heq := hpixel (k % glyph.width) (Nat.mod_lt _ hpos) (k / glyph.width)
      (Nat.div_lt_of_lt_mul hlt)
    simp only [VideoBuffer.pixel, ← hwidth, hk_eq] at heq
    rwa [List.getD_eq_getElem _ _ hk, List.getD_eq_getElem _ _ hk'] at heq

/-- A rotated glyph fits. -/
theorem Fits.of_sizes (hfits : glyph.Fits) {rotated : GlyphBuf} {orientation : Orientation}
    (hsize : (rotated.width, rotated.height) = glyph.rotatedSize orientation) : rotated.Fits := by
  obtain ⟨hwidth, hheight, harea⟩ := hfits
  unfold rotatedSize at hsize
  unfold Fits
  split_ifs at hsize <;> obtain ⟨hw, hh⟩ := Prod.mk.inj hsize <;> rw [hw, hh]
  · exact ⟨hwidth, hheight, harea⟩
  · exact ⟨hheight, hwidth, Nat.mul_comm _ _ ▸ harea⟩

theorem Fits.right_left (hfits : glyph.Fits) :
    (glyph.bbulkRotateGlyph .right).bind (bbulkRotateGlyph · .left) = some glyph := by
  obtain ⟨r, hr, hdouble, hsize, hpixel⟩ :=
    bbulkRotateGlyph_spec hfits (by decide : Orientation.right ≠ .normal)
  obtain ⟨l, hl, hdouble', hsize', hpixel'⟩ :=
    bbulkRotateGlyph_spec (hfits.of_sizes hsize) (by decide : Orientation.left ≠ .normal)
  obtain ⟨hw, hh⟩ := Prod.mk.inj hsize
  obtain ⟨hw', hh'⟩ := Prod.mk.inj hsize'
  rw [hr, Option.bind_some, hl]
  refine congrArg some (ext_pixel (hdouble'.trans hdouble) (hw'.trans hh) (hh'.trans hw) ?_)
  intro x hx y hy
  rw [hpixel' x hx y hy]
  simp only [rotateGlyph]
  rw [hpixel _ (by omega) x (by omega)]
  simp only [rotateGlyph]
  congr 1
  omega

theorem Fits.right_right (hfits : glyph.Fits) :
    (glyph.bbulkRotateGlyph .right).bind (bbulkRotateGlyph · .right) =
      glyph.bbulkRotateGlyph .upsideDown := by
  obtain ⟨r, hr, hdouble, hsize, hpixel⟩ :=
    bbulkRotateGlyph_spec hfits (by decide : Orientation.right ≠ .normal)
  obtain ⟨t, ht, hdouble', hsize', hpixel'⟩ :=
    bbulkRotateGlyph_spec (hfits.of_sizes hsize) (by decide : Orientation.right ≠ .normal)
  obtain ⟨u, hu, hdouble'', hsize'', hpixel''⟩ :=
    bbulkRotateGlyph_spec hfits (by decide : Orientation.upsideDown ≠ .normal)
  obtain ⟨hw, hh⟩ := Prod.mk.inj hsize
  obtain ⟨hw', hh'⟩ := Prod.mk.inj hsize'
  obtain ⟨hw'', hh''⟩ := Prod.mk.inj hsize''
  rw [hr, Option.bind_some, ht, hu]
  refine congrArg some (ext_pixel (by rw [hdouble', hdouble, hdouble'']) (by omega) (by omega) ?_)
  intro x hx y hy
  rw [hpixel' x hx y hy, hpixel'' x (by omega) y (by omega)]
  simp only [rotateGlyph]
  rw [hpixel y (by omega) _ (by omega)]
  simp only [rotateGlyph, hh]

/-- Turning upside down twice is the identity. -/
theorem Fits.upsideDown_upsideDown (hfits : glyph.Fits) :
    (glyph.bbulkRotateGlyph .upsideDown).bind (bbulkRotateGlyph · .upsideDown) = some glyph := by
  obtain ⟨u, hu, hdouble, hsize, hpixel⟩ :=
    bbulkRotateGlyph_spec hfits (by decide : Orientation.upsideDown ≠ .normal)
  obtain ⟨v, hv, hdouble', hsize', hpixel'⟩ :=
    bbulkRotateGlyph_spec (hfits.of_sizes hsize) (by decide : Orientation.upsideDown ≠ .normal)
  obtain ⟨hw, hh⟩ := Prod.mk.inj hsize
  obtain ⟨hw', hh'⟩ := Prod.mk.inj hsize'
  rw [hu, Option.bind_some, hv]
  refine congrArg some (ext_pixel (hdouble'.trans hdouble) (hw'.trans hw) (hh'.trans hh) ?_)
  intro x hx y hy
  rw [hpixel' x hx y hy]
  simp only [rotateGlyph]
  rw [hpixel _ (by omega) _ (by omega)]
  simp only [rotateGlyph]
  congr 1 <;> omega

theorem Fits.right_four (hfits : glyph.Fits) :
    ((((glyph.bbulkRotateGlyph .right).bind (bbulkRotateGlyph · .right)).bind
      (bbulkRotateGlyph · .right)).bind (bbulkRotateGlyph · .right)) = some glyph := by
  obtain ⟨u, hu, -, hsize, -⟩ :=
    bbulkRotateGlyph_spec hfits (by decide : Orientation.upsideDown ≠ .normal)
  have hhalf := hfits.right_right
  have hdouble := hfits.upsideDown_upsideDown
  rw [hu, Option.bind_some] at hdouble
  rw [hhalf, hu, Option.bind_some, (hfits.of_sizes hsize).right_right, hdouble]

/-! ## Glyphs that are too large -/

/-- The sizes of a rotated glyph. -/
theorem sizes_of_bbulkRotateGlyph {orientation : Orientation} {rotated : GlyphBuf}
    (h : glyph.bbulkRotateGlyph orientation = some rotated) :
    (rotated.width, rotated.height) = glyph.rotatedSize orientation := by
  obtain ⟨data, -, hdata⟩ := Option.bind_eq_some_iff.mp h
  simp only at hdata
  split_ifs at hdata
  rw [← Option.some.inj hdata]

/-- The counters of a rotation do not overflow. -/
theorem counters_of_bbulkRotateGlyph {orientation : Orientation} {rotated : GlyphBuf}
    (hturn : orientation ≠ .normal) (h : glyph.bbulkRotateGlyph orientation = some rotated) :
    glyph.height < 2147483648 ∧ (0 < glyph.height → glyph.width < 2147483648) ∧
      ∀ i < glyph.height, ∀ j < glyph.width, glyph.copyByte orientation (i, j) ≠ none := by
  obtain ⟨data, hdata, -⟩ := Option.bind_eq_some_iff.mp h
  unfold rotatedData at hdata
  dsimp only at hdata
  split_ifs at hdata
  obtain ⟨rounds, hrounds, hloop⟩ := Option.bind_eq_some_iff.mp hdata
  rw [GlyphBuf.rounds, if_neg hturn, counters] at hrounds
  split_ifs at hrounds with hbig
  refine ⟨by omega, fun _ => by omega, fun i hi j hj hnone => ?_⟩
  rw [← Option.some.inj hrounds] at hloop
  rw [Writes.loop_eq_none (@mem_rounds glyph (i, j) |>.mpr ⟨hi, hj⟩) hnone] at hloop
  simp at hloop

/-- The index of the last byte of a glyph turned right is an `int`. -/
theorem area_of_copyByte (hheight : glyph.height < 2147483648)
    (h : glyph.copyByte .right (0, glyph.width - 1) ≠ none) (hwidth : 0 < glyph.width) :
    glyph.width * glyph.height ≤ 2147483648 := by
  obtain ⟨w, hw⟩ := Option.ne_none_iff_exists'.mp h
  obtain ⟨dst, hdst, -⟩ := Option.bind_eq_some_iff.mp hw
  simp only [dstIndex, rotatedSize, Orientation.upright, Bool.false_eq_true, if_false,
    toInt_of_lt hheight] at hdst
  obtain ⟨line, hline, hdst⟩ := Option.bind_eq_some_iff.mp hdst
  obtain ⟨rest, hrest, hdst⟩ := Option.bind_eq_some_iff.mp hdst
  obtain ⟨last, hlast, hdst⟩ := Option.bind_eq_some_iff.mp hdst
  have hlt := (intValue_eq_some hdst).2
  rw [← (intValue_eq_some hline).1, ← (intValue_eq_some hlast).1,
    ← (intValue_eq_some hrest).1] at hlt
  have hsplit : (glyph.width - 1) * glyph.height + glyph.height = glyph.width * glyph.height := by
    rw [← Nat.succ_mul, Nat.succ_eq_add_one, Nat.sub_add_cancel hwidth]
  omega

/-- A rotation that can be undone fits. -/
theorem fits_of_right_left
    (h : (glyph.bbulkRotateGlyph .right).bind (bbulkRotateGlyph · .left) = some glyph) :
    glyph.Fits := by
  obtain ⟨rotated, hright, hleft⟩ := Option.bind_eq_some_iff.mp h
  obtain ⟨hheight, -, hbytes⟩ := counters_of_bbulkRotateGlyph (by decide) hright
  have hturned := (counters_of_bbulkRotateGlyph (by decide) hleft).1
  have hsize : rotated.height = glyph.width :=
    (Prod.mk.inj (sizes_of_bbulkRotateGlyph hright)).2
  refine ⟨hsize ▸ hturned, hheight, ?_⟩
  rcases Nat.eq_zero_or_pos glyph.height with hzero | hpos
  · simp [hzero]
  · rcases Nat.eq_zero_or_pos glyph.width with hzero | hwidth
    · simp [hzero]
    · exact area_of_copyByte hheight (hbytes 0 hpos (glyph.width - 1) (by omega)) hwidth

/-- The laws hold of the glyphs that fit, and of no other. -/
theorem rotationLaws_iff (glyph : GlyphBuf) : glyph.RotationLaws ↔ glyph.Fits := by
  constructor
  · intro h
    exact fits_of_right_left h.right_left
  · intro hfits
    refine ⟨hfits.right_left, hfits.right_right, hfits.right_four, fun orientation hturned => ?_, ?_⟩
    · obtain ⟨r, hr, -, hsize, -⟩ := bbulkRotateGlyph_spec hfits
        (by rintro rfl; simp [Orientation.upright] at hturned : orientation ≠ .normal)
      rw [rotatedSize, hturned] at hsize
      exact ⟨r, hr, (Prod.mk.inj hsize).1, (Prod.mk.inj hsize).2⟩
    · obtain ⟨u, hu, -, hsize, -⟩ :=
        bbulkRotateGlyph_spec hfits (by decide : Orientation.upsideDown ≠ .normal)
      exact ⟨u, hu, (Prod.mk.inj hsize).1, (Prod.mk.inj hsize).2⟩

/-- A glyph without ink. -/
def blankGlyph (width height : ℕ) (hwidth : width < 4294967296) (hheight : height < 4294967296) :
    GlyphBuf where
  width := width
  height := height
  data := List.replicate (width * height) 0
  width_lt := hwidth
  height_lt := hheight
  length_eq := List.length_replicate
  doubleWidth := false

/-- The bytes of a glyph of more than two gigabytes have no index of type `int`. -/
theorem blankGlyph_not_rotationLaws :
    ¬ (blankGlyph 46341 46341 (by decide) (by decide)).RotationLaws := by
  intro h
  have hfits := fits_of_right_left h.right_left
  exact absurd hfits.2.2 (by decide)

end GlyphBuf

end Faceplate.Render
