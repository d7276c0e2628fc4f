import Faceplate.Lib.CString
import Faceplate.Render.Bbulk

/-!
# The chrome around the text

What `struct kmscon_text` keeps for the rows above and below the text: a logo or a title on
the left, the state of the device on the right, and a line at the bottom. Both renderers
draw it again in each frame, with the rows and colours of `text.h`.
-/

namespace Faceplate.Render

open CString

/-- A text of the chrome, without the byte that ends it. -/
@[ext] structure Label where
  chars : List UInt8
  no_nul : 0 ∉ chars

namespace Label

instance : DecidableEq Label := fun _ _ => decidable_of_iff _ Label.ext_iff.symm

theorem no_nul_empty : (0 : UInt8) ∉ ([] : List UInt8) := List.not_mem_nil

/-- The empty text. -/
def empty : Label := ⟨[], no_nul_empty⟩

/-- `label[0] ? label : other`. -/
def orElse (label other : Label) : Label := if label.chars = [] then other else label

end Label

/-- The fields of `struct kmscon_text` that the chrome is drawn from; `line` is the one
that `kmscon_text_draw` passes on. -/
structure Chrome where
  logo : Option VideoBuffer
  title : Label
  idle : Bool
  hostname : Label
  status : Label
  supporting : Label
  secondary : Label
  compact : Label
  connectionAlert : Bool
  raucAlert : Bool
  line : Label

/-- `FACEPLATE_CHROME_CARD_Y0`. -/
def chromeCardY0 : ℕ := 4

/-- `FACEPLATE_CHROME_PAD_ROWS`. -/
def chromePadRows : ℕ := 1

/-- `FACEPLATE_CHROME_FOOTER_GAP_ROWS`. -/
def chromeFooterGapRows : ℕ := 2

/-- The colour of the padding of the card. -/
def card : Rgb := ⟨0, 0, 0⟩

/-- The colour of the title and of the logo. -/
def titleFg : Rgb := ⟨244, 248, 255⟩

/-- `FACEPLATE_MUTED_FG`. -/
def mutedFg : Rgb := ⟨148, 163, 184⟩

/-- `FACEPLATE_ONLINE_FG`. -/
def onlineFg : Rgb := ⟨110, 231, 183⟩

/-- `FACEPLATE_ALERT_FG`. -/
def alertFg : Rgb := ⟨251, 146, 60⟩

/-- `FACEPLATE_HOST_FG`. -/
def hostFg : Rgb := ⟨248, 250, 252⟩

/-- The cell of a character of the chrome. -/
def chromeCell (bg fg : Rgb) (ch : UInt8) : Cell := { Cell.zero with ch := ch.toNat, fg, bg }

namespace Chrome

variable (chrome : Chrome)

/-- `status` in the functions that draw the chrome. -/
def statusText : Label := chrome.status.orElse ⟨lit "Unknown", by decide +kernel⟩

/-- `host` in the functions that draw the chrome. -/
def hostText : Label := chrome.hostname.orElse ⟨lit "Device", by decide +kernel⟩

/-- `compact` in the functions that draw the chrome. -/
def compactText : Label := chrome.compact.orElse chrome.line

/-- The row of the footer. -/
def secondaryY (txt : Text) : ℕ :=
  wrap (chromeTopRows + txt.rows + chromePadRows + chromeFooterGapRows)

end Chrome

end Faceplate.Render
