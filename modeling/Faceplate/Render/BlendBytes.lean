import Mathlib.Tactic.Ring
import Faceplate.Lib.LittleEndian
import Faceplate.Lib.Writes
import Faceplate.Render.Blend

/-!
# Blending in memory

A blend request is drawn into a mapped framebuffer byte by byte. Its rectangle is cut with
sums of 32 bits first, which may wrap around; then nothing is drawn. What is drawn is the
part of the rectangle that is on the screen, and `displayBlend` is what it looks like.
-/

namespace Faceplate.Render

open LittleEndian

/-- `struct video_blend_req`, whose sizes are words of 32 bits. -/
structure VideoBlendReq where
  buf : VideoBuffer
  x : ℕ
  y : ℕ
  w : ℕ
  h : ℕ
  fg : Rgb
  bg : Rgb
  x_lt : x < 4294967296
  y_lt : y < 4294967296
  w_lt : w < 4294967296
  h_lt : h < 4294967296

/-- A mapped framebuffer with four bytes for each pixel. -/
structure Framebuffer where
  width : ℕ
  height : ℕ
  stride : ℕ
  map : List UInt8
  width_le : 4 * width ≤ stride
  size_lt : stride * height < 4294967296
  length_eq : map.length = stride * height

/-- The length that is left of a side of the rectangle, unless the request is refused. -/
def clipAxis (start len size : ℕ) : Option ℕ :=
  let tmp := wrap (start + len)
  if tmp < start ∨ size ≤ start then none
  else some (if size < tmp then size - start else len)

namespace VideoBlendReq

variable (req : VideoBlendReq)

/-- `width` and `height` in `drm2d_display_blend`. -/
def drm2dClip (sw sh : ℕ) : Option (ℕ × ℕ) :=
  (clipAxis req.x (min req.w req.buf.width) sw).bind fun width =>
    (clipAxis req.y (min req.h req.buf.height) sh).map fun height => (width, height)

/-- `width` and `height` in `fbdev_display_blend`. -/
def fbdevClip (xres yres : ℕ) : Option (ℕ × ℕ) :=
  (clipAxis req.x (min req.w req.buf.width) xres).bind fun width =>
    (clipAxis req.y (min req.h req.buf.height) yres).map fun height => (width, height)

/-- A pixel of the rectangle that is requested. -/
def Covers (px py : ℕ) : Prop :=
  (req.x ≤ px ∧ px < req.x + min req.w req.buf.width) ∧
    req.y ≤ py ∧ py < req.y + min req.h req.buf.height

instance (px py : ℕ) : Decidable (req.Covers px py) :=
  inferInstanceAs (Decidable ((_ ∧ _) ∧ _ ∧ _))

/-- The colour of a pixel of the rectangle. -/
def color (px py : ℕ) : Rgb := blendPixel req.fg req.bg (req.buf.pixel (px - req.x) (py - req.y))

end VideoBlendReq

/-- `out`. -/
def pack (color : Rgb) : ℕ := color.r <<< 16 ||| color.g <<< 8 ||| color.b

/-- The offset of a pixel in the map. -/
def Framebuffer.offset (fb : Framebuffer) (px py : ℕ) : ℕ := py * fb.stride + px * 4

variable (fb : Framebuffer) (req : VideoBlendReq)

/-- The counters of the loops, over the four bytes of each pixel, too. -/
def blendRounds (width height : ℕ) : List (ℕ × ℕ × ℕ) :=
  (List.range height).flatMap fun row =>
    (List.range width).flatMap fun i => (List.range 4).map fun b => (row, i, b)

/-- One byte of a pixel: the place in the map, and the value blended from a byte of the
glyph. -/
def blendByte (round : ℕ × ℕ × ℕ) : Option (ℕ × UInt8) :=
  let (row, i, b) := round
  let dst := wrap (wrap (req.y * fb.stride) + wrap (req.x * 4)) + row * fb.stride + 4 * i + b
  let src := row * req.buf.width + i
  (req.buf.data[src]?).bind fun alpha =>
    (bytes 4 (pack (blendPixel req.fg req.bg alpha)))[b]?.map fun byte => (dst, byte)

/-- `drm2d_display_blend`: whether it returns 0, and the map; undefined if a byte outside
the glyph is read or one outside the map is written. -/
def drm2dDisplayBlend : Option (Bool × List UInt8) :=
  match req.drm2dClip fb.width fb.height with
  | none => some (false, fb.map)
  | some (width, height) =>
    (Writes.loop (blendByte fb req) fb.map (blendRounds width height)).map fun map => (true, map)

/-- The rectangle is on the screen, and nothing else has changed. -/
structure DrawsExactly (map : List UInt8) : Prop where
  inside : ∀ px < fb.width, ∀ py < fb.height, req.Covers px py →
    (map.drop (fb.offset px py)).take 4 = bytes 4 (pack (req.color px py))
  outside : ∀ k, (∀ px < fb.width, ∀ py < fb.height, req.Covers px py →
    ¬ (fb.offset px py ≤ k ∧ k < fb.offset px py + 4)) → map[k]? = fb.map[k]?

/-- The rectangle starts outside of the screen, or a side of it wraps around. -/
def Refused : Prop :=
  (fb.width ≤ req.x ∨ 4294967296 ≤ req.x + min req.w req.buf.width) ∨
    fb.height ≤ req.y ∨ 4294967296 ≤ req.y + min req.h req.buf.height

/-- A blend draws nothing, or exactly what was requested and is on the screen; and the
other driver clips in the same way. -/
def BlendsExactly : Prop :=
  (∃ drawn map, drm2dDisplayBlend fb req = some (drawn, map) ∧ map.length = fb.map.length ∧
    (drawn = false ∧ Refused fb req ∧ map = fb.map ∨ drawn = true ∧ DrawsExactly fb req map)) ∧
  req.fbdevClip fb.width fb.height = req.drm2dClip fb.width fb.height

variable {fb req}

/-! ## The rectangle -/

/-- What is left of a side is what is on the screen. -/
theorem clipAxis_eq_some {start len size left : ℕ} (hstart : start < 4294967296)
    (hlen : len < 4294967296) (h : clipAxis start len size = some left) :
    start < size ∧ left ≤ len ∧ ∀ p, start ≤ p →
      (p < start + left ↔ p < start + len ∧ p < size) := by
  unfold clipAxis wrap at h
  dsimp only at h
  split_ifs at h with hrefused hcut <;> obtain rfl := Option.some.inj h
  · exact ⟨by omega, by omega, fun p hp => by omega⟩
  · exact ⟨by omega, by omega, fun p hp => by omega⟩

theorem clipAxis_eq_none {start len size : ℕ} (h : clipAxis start len size = none) :
    size ≤ start ∨ 4294967296 ≤ start + len := by
  unfold clipAxis wrap at h
  dsimp only at h
  split_ifs at h with hrefused
  omega

theorem refused_of_clip (h : req.drm2dClip fb.width fb.height = none) : Refused fb req := by
  cases hwidth : clipAxis req.x (min req.w req.buf.width) fb.width with
  | none => exact .inl (clipAxis_eq_none hwidth)
  | some width =>
    rw [VideoBlendReq.drm2dClip, hwidth] at h
    exact .inr (clipAxis_eq_none (Option.map_eq_none_iff.mp h))

theorem drm2dClip_eq_some {sw sh width height : ℕ}
    (h : req.drm2dClip sw sh = some (width, height)) :
    (req.x < sw ∧ width ≤ req.buf.width) ∧ (req.y < sh ∧ height ≤ req.buf.height) ∧
      ∀ px py, (∃ i < width, ∃ row < height, px = req.x + i ∧ py = req.y + row) ↔
        req.Covers px py ∧ px < sw ∧ py < sh := by
  obtain ⟨width', hwidth, hrest⟩ := Option.bind_eq_some_iff.mp h
  obtain ⟨height', hheight, hpair⟩ := Option.map_eq_some_iff.mp hrest
  obtain ⟨rfl, rfl⟩ := Prod.mk.inj hpair
  have hbufw := req.buf.width_lt
  have hbufh := req.buf.height_lt
  obtain ⟨hx, hlew, hcol⟩ := clipAxis_eq_some req.x_lt (by omega) hwidth
  obtain ⟨hy, hleh, hrow⟩ := clipAxis_eq_some req.y_lt (by omega) hheight
  refine ⟨⟨hx, by omega⟩, ⟨hy, by omega⟩, fun px py => ⟨?_, ?_⟩⟩
  · rintro ⟨i, hi, row, hr, rfl, rfl⟩
    have hpx := (hcol (req.x + i) (by omega)).mp (by omega)
    have hpy := (hrow (req.y + row) (by omega)).mp (by omega)
    exact ⟨⟨⟨by omega, hpx.1⟩, by omega, hpy.1⟩, hpx.2, hpy.2⟩
  · rintro ⟨⟨⟨hlx, hpx⟩, hly, hpy⟩, hsw, hsh⟩
    have hltx := (hcol px hlx).mpr ⟨hpx, hsw⟩
    have hlty := (hrow py hly).mpr ⟨hpy, hsh⟩
    exact ⟨px - req.x, by omega, py - req.y, by omega, by omega, by omega⟩

/-! ## Offsets -/

/-- Four bytes of a pixel are in the map. -/
theorem Framebuffer.offset_lt {px py : ℕ} (hpx : px < fb.width) (hpy : py < fb.height) :
    fb.offset px py + 4 ≤ py * fb.stride + fb.stride ∧
      py * fb.stride + fb.stride ≤ fb.map.length := by
  have hwidth := fb.width_le
  have hline : (py + 1) * fb.stride ≤ fb.height * fb.stride := Nat.mul_le_mul_right _ hpy
  rw [fb.length_eq, Nat.mul_comm fb.stride, ← Nat.succ_mul]
  refine ⟨?_, hline⟩
  rw [Nat.succ_mul, offset]
  omega

/-- A byte of the map is in the line and the column of its pixel. -/
theorem Framebuffer.offset_div {px b : ℕ} (py : ℕ) (hpx : px < fb.width) (hb : b < 4) :
    (fb.offset px py + b) / fb.stride = py ∧ (fb.offset px py + b) % fb.stride / 4 = px ∧
      (fb.offset px py + b) % fb.stride % 4 = b := by
  have hwidth := fb.width_le
  have hlt : px * 4 + b < fb.stride := by omega
  rw [offset, Nat.mul_comm py, Nat.add_assoc, Nat.mul_add_div (by omega), Nat.div_eq_of_lt hlt,
    Nat.mul_add_mod, Nat.mod_eq_of_lt hlt]
  omega

/-- The byte that a drawn pixel has at a place of the map. -/
def drawnByte (fb : Framebuffer) (req : VideoBlendReq) (k : ℕ) : UInt8 :=
  (bytes 4 (pack (req.color (k % fb.stride / 4) (k / fb.stride)))).getD (k % fb.stride % 4) 0

theorem drawnByte_offset {px py b : ℕ} (hpx : px < fb.width) (hb : b < 4) :
    (bytes 4 (pack (req.color px py)))[b]? = some (drawnByte fb req (fb.offset px py + b)) := by
  obtain ⟨hline, hcol, hbyte⟩ := fb.offset_div py hpx hb
  have hlt : b < (bytes 4 (pack (req.color px py))).length := by rwa [length_bytes]
  rw [drawnByte, hline, hcol, hbyte, List.getD_eq_getElem?_getD, List.getElem?_eq_getElem hlt,
    Option.getD_some]

/-- A round writes a byte of its pixel. -/
theorem blendByte_eq {row i b : ℕ} (hi : i < req.buf.width) (hrow : row < req.buf.height)
    (hb : b < 4) (hpx : req.x + i < fb.width) (hpy : req.y + row < fb.height) :
    blendByte fb req (row, i, b) = some (fb.offset (req.x + i) (req.y + row) + b,
      drawnByte fb req (fb.offset (req.x + i) (req.y + row) + b)) := by
  have hsrc : row * req.buf.width + i < req.buf.data.length := by
    have hline : (row + 1) * req.buf.width ≤ req.buf.height * req.buf.width :=
      Nat.mul_le_mul_right _ hrow
    rw [req.buf.length_eq, Nat.mul_comm req.buf.width]
    rw [Nat.succ_mul] at hline
    omega
  have hpixel : req.buf.data[row * req.buf.width + i] = req.buf.pixel i row := by
    rw [VideoBuffer.pixel, List.getD_eq_getElem?_getD, List.getElem?_eq_getElem hsrc,
      Option.getD_some]
  have hcolor : blendPixel req.fg req.bg (req.buf.pixel i row) =
      req.color (req.x + i) (req.y + row) := by
    rw [VideoBlendReq.color, Nat.add_sub_cancel_left, Nat.add_sub_cancel_left]
  -- the first pixel of the rectangle is on the screen, so that no product wraps around
  have hsize := fb.size_lt
  obtain ⟨hfirst, hend⟩ := fb.offset_lt (by omega : req.x < fb.width)
    (by omega : req.y < fb.height)
  rw [Framebuffer.offset, fb.length_eq] at *
  have hstart : wrap (wrap (req.y * fb.stride) + wrap (req.x * 4)) =
      req.y * fb.stride + req.x * 4 := by
    rw [@wrap_of_lt (req.y * fb.stride) (by omega), @wrap_of_lt (req.x * 4) (by omega),
      wrap_of_lt (by omega)]
  have hdst : req.y * fb.stride + req.x * 4 + row * fb.stride + 4 * i + b =
      fb.offset (req.x + i) (req.y + row) + b := by
    rw [Framebuffer.offset, Nat.add_mul]
    omega
  simp only [blendByte, hstart, hdst, List.getElem?_eq_getElem hsrc, hpixel, hcolor,
    Option.bind_some, drawnByte_offset hpx hb, Option.map_some]
  rfl

theorem mem_blendRounds {width height row i b : ℕ} :
    (row, i, b) ∈ blendRounds width height ↔ row < height ∧ i < width ∧ b < 4 := by
  simp only [blendRounds, List.mem_flatMap, List.mem_map, List.mem_range, Prod.mk.injEq]
  constructor
  · rintro ⟨row, hrow, i, hi, b, hb, rfl, rfl, rfl⟩
    exact ⟨hrow, hi, hb⟩
  · rintro ⟨hrow, hi, hb⟩
    exact ⟨row, hrow, i, hi, b, hb, rfl, rfl, rfl⟩

/-! ## The blend -/

/-- The loops write the pixels of the rectangle that are on the screen. -/
theorem hits_blendRounds {width height : ℕ}
    (hclip : req.drm2dClip fb.width fb.height = some (width, height)) (k : ℕ) :
    Writes.Hits (blendByte fb req) (blendRounds width height) k ↔
      ∃ px < fb.width, ∃ py < fb.height, req.Covers px py ∧
        fb.offset px py ≤ k ∧ k < fb.offset px py + 4 := by
  obtain ⟨⟨-, hwidth⟩, ⟨-, hheight⟩, hcovers⟩ := drm2dClip_eq_some hclip
  constructor
  · rintro ⟨⟨row, i, b⟩, hround, byte, hbyte⟩
    obtain ⟨hrow, hi, hb⟩ := mem_blendRounds.mp hround
    obtain ⟨hcov, hpx, hpy⟩ := (hcovers _ _).mp ⟨i, hi, row, hrow, rfl, rfl⟩
    rw [blendByte_eq (by omega) (by omega) hb hpx hpy] at hbyte
    obtain ⟨rfl, -⟩ := Prod.mk.inj (Option.some.inj hbyte)
    exact ⟨_, hpx, _, hpy, hcov, by omega, by omega⟩
  · rintro ⟨px, hpx, py, hpy, hcov, hlow, hhigh⟩
    obtain ⟨i, hi, row, hrow, rfl, rfl⟩ := (hcovers px py).mpr ⟨hcov, hpx, hpy⟩
    obtain ⟨b, rfl⟩ := Nat.exists_eq_add_of_le hlow
    exact ⟨(row, i, b), mem_blendRounds.mpr ⟨hrow, hi, by omega⟩, _,
      blendByte_eq (by omega) (by omega) (by omega) hpx hpy⟩

/-- A request that is not refused is drawn in bounds, and exactly. -/
theorem drm2dDisplayBlend_of_clip {width height : ℕ}
    (hclip : req.drm2dClip fb.width fb.height = some (width, height)) :
    ∃ map, drm2dDisplayBlend fb req = some (true, map) ∧ map.length = fb.map.length ∧
      DrawsExactly fb req map := by
  obtain ⟨⟨-, hwidth⟩, ⟨-, hheight⟩, hcovers⟩ := drm2dClip_eq_some hclip
  obtain ⟨map, hloop, hlen, hhit, hkept⟩ := Writes.loop_spec (blendByte fb req)
    (drawnByte fb req) (blendRounds width height) fb.map (fun ⟨row, i, b⟩ hround => by
      obtain ⟨hrow, hi, hb⟩ := mem_blendRounds.mp hround
      obtain ⟨-, hpx, hpy⟩ := (hcovers _ _).mp ⟨i, hi, row, hrow, rfl, rfl⟩
      have hbounds := Framebuffer.offset_lt hpx hpy
      exact ⟨_, by omega, blendByte_eq (by omega) (by omega) hb hpx hpy⟩)
  refine ⟨map, by simp only [drm2dDisplayBlend, hclip, hloop, Option.map_some], hlen, ?_, ?_⟩
  · intro px hpx py hpy hcov
    refine List.ext_getElem? fun b => ?_
    by_cases hb : b < 4
    · rw [List.getElem?_take_of_lt hb, List.getElem?_drop, drawnByte_offset hpx hb]
      exact hhit _ ((hits_blendRounds hclip _).mpr ⟨px, hpx, py, hpy, hcov, by omega, by omega⟩)
    · rw [List.getElem?_take_eq_none (by omega),
        List.getElem?_eq_none (by rw [length_bytes]; omega)]
  · intro k hk
    refine hkept k fun hits => ?_
    obtain ⟨px, hpx, py, hpy, hcov, hplace⟩ := (hits_blendRounds hclip k).mp hits
    exact hk px hpx py hpy hcov hplace

theorem drm2dDisplayBlend_exact (fb : Framebuffer) (req : VideoBlendReq) : BlendsExactly fb req := by
  refine ⟨?_, rfl⟩
  cases hclip : req.drm2dClip fb.width fb.height with
  | none =>
    exact ⟨false, fb.map, by simp only [drm2dDisplayBlend, hclip], rfl,
      .inl ⟨rfl, refused_of_clip hclip, rfl⟩⟩
  | some size =>
    obtain ⟨map, hblend, hlen, hdraws⟩ := drm2dDisplayBlend_of_clip hclip
    exact ⟨true, map, hblend, hlen, .inr ⟨rfl, hdraws⟩⟩

/-! ## Canvases -/

/-- The map holds the pixels of a canvas. -/
def Holds (fb : Framebuffer) (map : List UInt8) (canvas : Canvas) : Prop :=
  ∀ px < fb.width, ∀ py < fb.height,
    (map.drop (fb.offset px py)).take 4 = bytes 4 (pack (canvas px py))

/-- The request of a painter for a request in memory. -/
def VideoBlendReq.toBlendReq (req : VideoBlendReq) : BlendReq where
  alpha := req.buf.pixel
  bufWidth := req.buf.width
  bufHeight := req.buf.height
  x := req.x
  y := req.y
  w := req.w
  h := req.h
  fg := req.fg
  bg := req.bg

theorem clipped_eq (start len size : ℕ) :
    clipped start len size = (clipAxis start len size).getD 0 := by
  unfold clipped clipAxis
  dsimp only
  split_ifs <;> rfl

/-- Where pixels do not overlap, a place outside of the rectangle keeps its pixel. -/
theorem DrawsExactly.kept {map : List UInt8} (h : DrawsExactly fb req map) {px py : ℕ}
    (hpx : px < fb.width) (hcov : ¬ req.Covers px py) :
    (map.drop (fb.offset px py)).take 4 = (fb.map.drop (fb.offset px py)).take 4 := by
  refine List.ext_getElem? fun b => ?_
  by_cases hb : b < 4
  · rw [List.getElem?_take_of_lt hb, List.getElem?_take_of_lt hb, List.getElem?_drop,
      List.getElem?_drop]
    refine h.outside _ fun px' hpx' py' _ hcov' ⟨hlow, hhigh⟩ => hcov ?_
    obtain ⟨b', hb'⟩ := Nat.exists_eq_add_of_le hlow
    obtain ⟨hline, hcol, -⟩ := fb.offset_div py hpx hb
    obtain ⟨hline', hcol', -⟩ := fb.offset_div py' hpx' (by omega : b' < 4)
    rw [← hb'] at hline' hcol'
    obtain rfl : px' = px := hcol'.symm.trans hcol
    obtain rfl : py' = py := hline'.symm.trans hline
    exact hcov'
  · rw [List.getElem?_take_eq_none (by omega), List.getElem?_take_eq_none (by omega)]

/-- On the screen a canvas changes as the request says, unless it is refused. -/
theorem displayBlend_toBlendReq {sw sh px py : ℕ} (hpx : px < sw) (hpy : py < sh)
    (canvas : Canvas) : displayBlend sw sh req.toBlendReq canvas px py =
      match req.drm2dClip sw sh with
      | none => canvas px py
      | some _ => if req.Covers px py then req.color px py else canvas px py := by
  have hbufw := req.buf.width_lt
  have hbufh := req.buf.height_lt
  change (if req.x ≤ px ∧ px < req.x + clipped req.x (min req.w req.buf.width) sw ∧
    req.y ≤ py ∧ py < req.y + clipped req.y (min req.h req.buf.height) sh then req.color px py
      else canvas px py) = _
  rw [clipped_eq, clipped_eq, VideoBlendReq.drm2dClip]
  cases hwidth : clipAxis req.x (min req.w req.buf.width) sw with
  | none => exact if_neg fun h => by simp only [Option.getD_none] at h; omega
  | some width =>
    cases hheight : clipAxis req.y (min req.h req.buf.height) sh with
    | none => exact if_neg fun h => by simp only [Option.getD_none] at h; omega
    | some height =>
      obtain ⟨-, -, hcol⟩ := clipAxis_eq_some req.x_lt (by omega) hwidth
      obtain ⟨-, -, hrow⟩ := clipAxis_eq_some req.y_lt (by omega) hheight
      refine if_congr ?_ rfl rfl
      simp only [Option.getD_some, VideoBlendReq.Covers]
      constructor
      · rintro ⟨hx, hltx, hy, hlty⟩
        exact ⟨⟨hx, ((hcol px hx).mp hltx).1⟩, hy, ((hrow py hy).mp hlty).1⟩
      · rintro ⟨⟨hx, hltx⟩, hy, hlty⟩
        exact ⟨hx, (hcol px hx).mpr ⟨hltx, hpx⟩, hy, (hrow py hy).mpr ⟨hlty, hpy⟩⟩

/-- The blend in memory is the blend of the canvas that the map holds. -/
theorem holds_drm2dDisplayBlend {canvas : Canvas} (h : Holds fb fb.map canvas) :
    ∃ drawn map, drm2dDisplayBlend fb req = some (drawn, map) ∧
      Holds fb map (displayBlend fb.width fb.height req.toBlendReq canvas) := by
  cases hclip : req.drm2dClip fb.width fb.height with
  | none =>
    refine ⟨false, fb.map, by simp only [drm2dDisplayBlend, hclip], fun px hpx py hpy => ?_⟩
    rw [displayBlend_toBlendReq hpx hpy, hclip]
    exact h px hpx py hpy
  | some size =>
    obtain ⟨map, hblend, -, hdraws⟩ := drm2dDisplayBlend_of_clip hclip
    refine ⟨true, map, hblend, fun px hpx py hpy => ?_⟩
    rw [displayBlend_toBlendReq hpx hpy, hclip]
    dsimp only
    split_ifs with hcov
    · exact hdraws.inside px hpx py hpy hcov
    · rw [hdraws.kept hpx hcov]
      exact h px hpx py hpy

end Faceplate.Render
