import Mathlib.Data.Int.Notation
import Mathlib.Tactic.SplitIfs
import Faceplate.Render.Text

/-!
# Glyphs and blending

A renderer hands the video device one request for each glyph: an alpha map, a place
on the screen, and two colours. This file models the rotation of glyphs and what the
two-dimensional backend does with a request. Positions are 32-bit words.
-/

namespace Faceplate.Render

/-- The value of a sum or product in an `unsigned int`. -/
def wrap (n : ℕ) : ℕ := n % 4294967296

/-- The difference of two `unsigned int`. -/
def wrapSub (a b : ℕ) : ℕ := wrap (a + (4294967296 - wrap b))

/-- The value of an `unsigned int` in an `int`. -/
def toInt (n : ℕ) : ℤ := if n < 2147483648 then n else (n : ℤ) - 4294967296

theorem toInt_of_lt {n : ℕ} (h : n < 2147483648) : toInt n = n := if_pos h

theorem wrap_of_lt {n : ℕ} (h : n < 4294967296) : wrap n = n := Nat.mod_eq_of_lt h

theorem wrapSub_of_le {a b : ℕ} (h : b ≤ a) (ha : a < 4294967296) : wrapSub a b = a - b := by
  unfold wrapSub wrap
  omega

/-- A difference that wraps around. -/
theorem wrapSub_of_lt {a b : ℕ} (h : a < b) (hb : b < 4294967296) :
    wrapSub a b = 4294967296 + a - b := by
  unfold wrapSub wrap
  omega

theorem wrapSub_half_lt (a b : ℕ) : wrapSub a b / 2 < 2147483648 := by
  unfold wrapSub wrap
  omega

/-- A colour. -/
structure Rgb where
  r : ℕ
  g : ℕ
  b : ℕ
  deriving DecidableEq, Repr

/-- A buffer of the video device, by columns and lines of pixels. -/
abbrev Canvas : Type := ℕ → ℕ → Rgb

/-- `struct video_buffer`, with an alpha value for each pixel. -/
@[ext] structure VideoBuffer where
  width : ℕ
  height : ℕ
  data : List ℕ
  width_lt : width < 4294967296
  height_lt : height < 4294967296
  length_eq : data.length = width * height

/-- The alpha value of a pixel. -/
def VideoBuffer.pixel (buf : VideoBuffer) (x y : ℕ) : ℕ := buf.data.getD (y * buf.width + x) 0

/-- `struct kmscon_glyph` as the font renders it: one or two cells wide and one cell
high, with the alpha value of each pixel. -/
structure Glyph where
  doubleWidth : Bool
  alpha : ℕ → ℕ → ℕ

/-- The alpha map of `bbulk_rotate_glyph`, for a glyph of this size. -/
def rotateGlyph (orientation : Orientation) (width height : ℕ) (alpha : ℕ → ℕ → ℕ) : ℕ → ℕ → ℕ :=
  match orientation with
  | .normal => alpha
  | .right => fun x y => alpha y (height - x - 1)
  | .upsideDown => fun x y => alpha (width - x - 1) (height - y - 1)
  | .left => fun x y => alpha (width - y - 1) x

/-- `struct video_blend_req`. -/
structure BlendReq where
  alpha : ℕ → ℕ → ℕ
  bufWidth : ℕ
  bufHeight : ℕ
  x : ℕ
  y : ℕ
  w : ℕ
  h : ℕ
  fg : Rgb
  bg : Rgb

/-- One channel of a blended pixel. The division by 255 is done by shifts. -/
def blendChannel (fg bg alpha : ℕ) : ℕ :=
  if alpha = 0 then bg
  else if alpha = 255 then fg
  else
    let t := fg * alpha + bg * (255 - alpha) + 0x80
    (t + t / 256) / 256

/-- One blended pixel. -/
def blendPixel (fg bg : Rgb) (alpha : ℕ) : Rgb where
  r := blendChannel fg.r bg.r alpha
  g := blendChannel fg.g bg.g alpha
  b := blendChannel fg.b bg.b alpha

/-- The colour a request has for a pixel. -/
def BlendReq.color (req : BlendReq) (px py : ℕ) : Rgb :=
  blendPixel req.fg req.bg (req.alpha (px - req.x) (py - req.y))

/-- The part of a request along one axis: nothing if it wraps around or starts outside,
else what is on the screen. -/
def clipped (start len size : ℕ) : ℕ :=
  if wrap (start + len) < start ∨ size ≤ start then 0
  else if size < wrap (start + len) then size - start else len

/-- `drm2d_display_blend` on a screen of this size. -/
def displayBlend (sw sh : ℕ) (req : BlendReq) (canvas : Canvas) : Canvas :=
  let width := clipped req.x (min req.w req.bufWidth) sw
  let height := clipped req.y (min req.h req.bufHeight) sh
  fun px py =>
    if req.x ≤ px ∧ px < req.x + width ∧ req.y ≤ py ∧ py < req.y + height then req.color px py
    else canvas px py

/-- A pixel on the screen that a request covers along one axis. -/
def Within (start len size p : ℕ) : Prop := start ≤ p ∧ p < start + len ∧ p < size

instance (start len size p : ℕ) : Decidable (Within start len size p) :=
  inferInstanceAs (Decidable (_ ∧ _))

theorem lt_clipped {start len size p : ℕ} (hsize : size < 1073741824) (hlen : len < 3221225472) :
    start ≤ p ∧ p < start + clipped start len size ↔ Within start len size p := by
  unfold clipped wrap Within
  split_ifs <;> omega

/-- On a screen of real size a request paints the pixels of its rectangle. -/
theorem displayBlend_apply {sw sh : ℕ} (hsw : sw < 1073741824) (hsh : sh < 1073741824)
    (req : BlendReq) (hw : min req.w req.bufWidth < 3221225472)
    (hh : min req.h req.bufHeight < 3221225472) (canvas : Canvas) (px py : ℕ) :
    displayBlend sw sh req canvas px py =
      if Within req.x (min req.w req.bufWidth) sw px ∧
        Within req.y (min req.h req.bufHeight) sh py then req.color px py
      else canvas px py := by
  unfold displayBlend
  simp only [← lt_clipped hsw hw, ← lt_clipped hsh hh, and_assoc]

end Faceplate.Render
