import Mathlib.Data.List.Dedup
import Mathlib.Data.List.Perm.Subperm
import Faceplate.Shl.HashtableRuns

/-!
# The texture atlases of the GL renderer

The GL renderer puts the bitmaps of glyphs into textures, side by side, and keeps in a hash
table where it has put them. A glyph is asked for by its id, which stands for the character and
the attributes; what the font renders for an id is always the same. What the GL library, the
allocators and the font answer is given with each call.
-/

namespace Faceplate.GlAtlas

open Shl

/-- The loop of `shl_next_pow2` doubles the shift. -/
def nextPow2 (num : ℕ) : ℕ :=
  if num = 0 then 0 else [1, 2, 4, 8, 16, 32].foldl (fun n i => n ||| n >>> i) (num - 1) + 1

theorem le_nextPow2 (num : ℕ) : num ≤ nextPow2 num := by
  have hfold : ∀ (shifts : List ℕ) (n : ℕ), n ≤ shifts.foldl (fun n i => n ||| n >>> i) n := by
    intro shifts
    induction shifts with
    | nil => exact Nat.le_refl
    | cons i shifts ih => exact fun n => Nat.le_trans Nat.left_le_or (ih _)
  rw [nextPow2]
  split
  · omega
  · have := hfold [1, 2, 4, 8, 16, 32] (num - 1)
    omega

/-- The power of two is less than twice the number. -/
theorem nextPow2_lt {num : ℕ} (hnum : 0 < num) : nextPow2 num < 2 * num := by
  have hfold : ∀ (shifts : List ℕ) {n bits : ℕ}, n < 2 ^ bits →
      shifts.foldl (fun n i => n ||| n >>> i) n < 2 ^ bits := by
    intro shifts
    induction shifts with
    | nil => exact fun h => h
    | cons i shifts ih =>
      intro n bits h
      exact ih (Nat.or_lt_two_pow h (Nat.lt_of_le_of_lt (Nat.shiftRight_le n i) h))
  rw [nextPow2, if_neg (by omega)]
  rcases Nat.eq_zero_or_pos (num - 1) with h0 | hpos
  · rw [h0]
    have : [1, 2, 4, 8, 16, 32].foldl (fun n i => n ||| n >>> i) 0 = 0 := by decide
    omega
  · have hlog : 2 ^ (num - 1).log2 ≤ num - 1 := Nat.log2_self_le (by omega)
    have hlt := hfold [1, 2, 4, 8, 16, 32] (Nat.lt_log2_self (n := num - 1))
    rw [Nat.pow_succ] at hlt
    omega

/-- `struct kmscon_glyph`. -/
structure Glyph where
  doubleWidth : Bool
  width : ℕ
  height : ℕ
  data : List UInt8

/-- `kmscon_glyph_cwidth`. -/
def Glyph.cwidth (glyph : Glyph) : ℕ := if glyph.doubleWidth then 2 else 1

/-- A pixel of a bitmap. -/
def Glyph.pixel (glyph : Glyph) (i j : ℕ) : Option UInt8 := glyph.data[j * glyph.width + i]?

/-- A font of cells of one size: what it renders for an id fills one cell or two. -/
structure Font where
  width : ℕ
  width_pos : 0 < width
  height : ℕ
  render : UInt64 → Option Glyph
  size : ∀ {id glyph}, render id = some glyph →
    glyph.width = glyph.cwidth * width ∧ glyph.height = height

/-- A texture; a pixel that has not been written is undefined. -/
structure Texture where
  width : ℕ
  height : ℕ
  pixel : ℕ → ℕ → Option UInt8

/-- `glTexSubImage2D` at the top: outside of the texture it is an error and writes nothing. -/
def Texture.subImage (tex : Texture) (x : ℕ) (glyph : Glyph) : Option Texture :=
  if x + glyph.width ≤ tex.width ∧ glyph.height ≤ tex.height then
    some { tex with
      pixel := fun i j =>
        if x ≤ i ∧ i < x + glyph.width ∧ j < glyph.height then glyph.pixel (i - x) j
        else tex.pixel i j }
  else none

/-- `struct atlas`: its texture, its number of cells and how many are in use. -/
structure Atlas where
  tex : Texture
  count : ℕ
  fill : ℕ

/-- `struct gl_glyph`; an atlas is given by its number, the oldest one having the number 0. -/
structure GlGlyph where
  doubleWidth : Bool
  atlas : ℕ
  texoff : ℕ

/-- `struct gltex`, with the atlas made last first. -/
structure Gltex where
  glyphs : ShlHashtable GlGlyph
  maxTexSize : ℕ
  atlases : List Atlas

/-- What the environment answers in one call: whether `malloc` of the glyph succeeds, whether the
atlas with its texture and its arrays can be allocated, for which numbers of cells
`glTexImage2D` accepts the texture, whether the upload meets no other error, and the `malloc` of
the entry and the `calloc` of the hash table. -/
structure Env where
  glyphMalloc : Bool
  atlasMalloc : Bool
  accept : ℕ → Bool
  upload : Bool
  entry : Option Ccan.Word
  calloc : Bool

section Model

variable (font : Font)

/-- The loop at `try_next` of `get_atlas`: the number of cells, and the texture. -/
def tryNext (accept : ℕ → Bool) : ℕ → Option (ℕ × Texture)
  | 0 => none
  | newsize + 1 =>
    let width := nextPow2 (font.width * (newsize + 1))
    let height := nextPow2 font.height
    if accept (newsize + 1) then some (newsize + 1, ⟨width, height, fun _ _ => none⟩)
    else tryNext accept newsize

/-- The part of `get_atlas` that makes an atlas. -/
def newAtlas (gt : Gltex) (env : Env) : Option Gltex :=
  if env.atlasMalloc then
    (tryNext font env.accept (max (gt.maxTexSize / font.width) 1)).map fun (newsize, tex) =>
      { gt with atlases := ⟨tex, newsize, 0⟩ :: gt.atlases }
  else none

/-- `get_atlas`: the renderer with the atlas to use as the first one. -/
def getAtlas (gt : Gltex) (num : ℕ) (env : Env) : Option Gltex :=
  match gt.atlases with
  | atlas :: _ => if atlas.fill + num ≤ atlas.count then some gt else newAtlas font gt env
  | [] => newAtlas font gt env

/-- `find_glyph` behind `get_atlas`: the upload and the insertion. -/
def addGlyph (gt : Gltex) (id : UInt64) (glyph : Glyph) (env : Env) :
    Option (Option GlGlyph × Gltex) :=
  match gt.atlases with
  | [] => none
  | atlas :: older =>
    if env.upload then
      match atlas.tex.subImage (font.width * atlas.fill) glyph with
      | none => some (none, gt)
      | some tex => do
        let glglyph : GlGlyph := ⟨glyph.doubleWidth, older.length, atlas.fill⟩
        let (ret, glyphs) ←
          shlHashtableInsert shlDirect gt.glyphs id glglyph env.entry env.calloc
        if ret = 0 then
          return (some glglyph, { gt with
            glyphs := glyphs
            atlases := { atlas with tex := tex, fill := atlas.fill + glyph.cwidth } :: older })
        else
          return (none, { gt with glyphs := glyphs, atlases := { atlas with tex := tex } :: older })
    else some (none, gt)

/-- `find_glyph` when the glyph is not in the hash table. -/
def loadGlyph (gt : Gltex) (id : UInt64) (env : Env) : Option (Option GlGlyph × Gltex) :=
  if env.glyphMalloc then
    match font.render id with
    | none => some (none, gt)
    | some glyph =>
      match getAtlas font gt glyph.cwidth env with
      | none => some (none, gt)
      | some gt => addGlyph font gt id glyph env
  else some (none, gt)

/-- `find_glyph`, given the id. -/
def findGlyph (gt : Gltex) (id : UInt64) (env : Env) : Option (Option GlGlyph × Gltex) := do
  match ← shlHashtableFind shlDirect gt.glyphs id with
  | some glglyph => return (some glglyph, gt)
  | none => loadGlyph font gt id env

/-- A call with its id and what the environment answers. -/
def findStep (gt : Gltex) (call : UInt64 × Env) : Option (Option GlGlyph × Gltex) :=
  findGlyph font gt call.1 call.2

end Model

/-- `gltex_set`. -/
def gltexSet (maxTexSize : ℕ) : Gltex := ⟨shlHashtableNew, maxTexSize, []⟩

/-! ## What a glyph shows -/

/-- The cells of the texture that the glyph stands for hold what the font renders for the id. -/
def Shows (font : Font) (gt : Gltex) (id : UInt64) (glglyph : GlGlyph) : Prop :=
  ∃ glyph atlas, font.render id = some glyph ∧ gt.atlases.reverse[glglyph.atlas]? = some atlas ∧
    glglyph.doubleWidth = glyph.doubleWidth ∧ glglyph.texoff + glyph.cwidth ≤ atlas.fill ∧
    ∀ i < glyph.width, ∀ j < glyph.height,
      atlas.tex.pixel (font.width * glglyph.texoff + i) j = glyph.pixel i j

/-- The cells of an atlas are cells of its texture, and no more are in use than it has. -/
structure Atlas.Fits (font : Font) (atlas : Atlas) : Prop where
  width : font.width * atlas.count ≤ atlas.tex.width
  height : font.height ≤ atlas.tex.height
  fill : atlas.fill ≤ atlas.count

/-- Every glyph in the hash table shows what its id stands for. -/
structure Good (font : Font) (gt : Gltex) (ents : List (ShlHashentry GlGlyph)) : Prop where
  shows : ∀ ent ∈ ents, Shows font gt ent.key ent.value
  fits : ∀ atlas ∈ gt.atlases, atlas.Fits font

variable {font : Font} {gt : Gltex}

/-- A change of the first atlas behind the cells in use hides no glyph. -/
theorem Shows.change {id : UInt64} {glglyph : GlGlyph} (h : Shows font gt id glglyph)
    {atlas atlas' : Atlas} {older : List Atlas} (hatlases : gt.atlases = atlas :: older)
    {gt' : Gltex} (hatlases' : gt'.atlases = atlas' :: older) (hfill : atlas.fill ≤ atlas'.fill)
    (hpixel : ∀ x < font.width * atlas.fill, ∀ j, atlas'.tex.pixel x j = atlas.tex.pixel x j) :
    Shows font gt' id glglyph := by
  obtain ⟨glyph, at', hrender, hat, hdouble, hin, hpixels⟩ := h
  have hwidth := (font.size hrender).1
  rw [hatlases, List.reverse_cons] at hat
  rcases Nat.lt_trichotomy glglyph.atlas older.length with hlt | heq | hgt
  · refine ⟨glyph, at', hrender, ?_, hdouble, hin, hpixels⟩
    rw [hatlases', List.reverse_cons, List.getElem?_append_left (by simpa using hlt)]
    rwa [List.getElem?_append_left (by simpa using hlt)] at hat
  · rw [heq, List.getElem?_append_right (by simp)] at hat
    obtain rfl : atlas = at' := by simpa using hat
    refine ⟨glyph, atlas', hrender, ?_, hdouble, by omega, fun i hi j hj => ?_⟩
    · rw [hatlases', List.reverse_cons, heq, List.getElem?_append_right (by simp)]
      simp
    · rw [← hpixels i hi j hj]
      apply hpixel
      calc font.width * glglyph.texoff + i
          < font.width * glglyph.texoff + glyph.cwidth * font.width := by omega
        _ = font.width * (glglyph.texoff + glyph.cwidth) := by
          rw [Nat.mul_add, Nat.mul_comm glyph.cwidth]
        _ ≤ font.width * atlas.fill := Nat.mul_le_mul_left _ hin
  · rw [List.getElem?_eq_none (by simp; omega)] at hat
    simp at hat

/-- A new atlas hides no glyph. -/
theorem Shows.newAtlas {id : UInt64} {glglyph : GlGlyph} (h : Shows font gt id glglyph)
    {gt' : Gltex} {atlas : Atlas} (hatlases : gt'.atlases = atlas :: gt.atlases) :
    Shows font gt' id glglyph := by
  obtain ⟨glyph, at', hrender, hat, hrest⟩ := h
  have hlt := (List.getElem?_eq_some_iff.mp hat).1
  refine ⟨glyph, at', hrender, ?_, hrest⟩
  rw [hatlases, List.reverse_cons, List.getElem?_append_left hlt]
  exact hat

theorem tryNext_spec {accept : ℕ → Bool} {start newsize : ℕ} {tex : Texture}
    (h : tryNext font accept start = some (newsize, tex)) :
    tex.width = nextPow2 (font.width * newsize) ∧ tex.height = nextPow2 font.height := by
  induction start with
  | zero => simp [tryNext] at h
  | succ start ih =>
    rw [tryNext] at h
    split at h
    · obtain ⟨rfl, rfl⟩ := Prod.mk.inj (Option.some.inj h)
      exact ⟨rfl, rfl⟩
    · exact ih h

/-- `get_atlas` keeps the atlases and gives one that is empty or has room. -/
theorem getAtlas_spec {num : ℕ} {env : Env} {gt' : Gltex} (h : getAtlas font gt num env = some gt')
    {ents : List (ShlHashentry GlGlyph)} (hgood : Good font gt ents) :
    gt'.glyphs = gt.glyphs ∧ Good font gt' ents ∧ ∃ atlas older, gt'.atlases = atlas :: older ∧
      (atlas.fill + num ≤ atlas.count ∨
        atlas.fill = 0 ∧ atlas.tex.width = nextPow2 (font.width * atlas.count)) := by
  have hnew : ∀ {gt'}, newAtlas font gt env = some gt' → gt'.glyphs = gt.glyphs ∧
      Good font gt' ents ∧ ∃ atlas older, gt'.atlases = atlas :: older ∧
        (atlas.fill + num ≤ atlas.count ∨
          atlas.fill = 0 ∧ atlas.tex.width = nextPow2 (font.width * atlas.count)) := by
    intro gt' h
    rw [GlAtlas.newAtlas] at h
    split at h
    · rw [Option.map_eq_some_iff] at h
      obtain ⟨⟨newsize, tex⟩, htry, rfl⟩ := h
      obtain ⟨hwidth, hheight⟩ := tryNext_spec htry
      refine ⟨rfl, ⟨fun ent hent => (hgood.shows ent hent).newAtlas rfl, fun atlas hatlas => ?_⟩,
        _, _, rfl, .inr ⟨rfl, hwidth⟩⟩
      rcases List.mem_cons.mp hatlas with rfl | hatlas
      · exact ⟨hwidth ▸ le_nextPow2 _, hheight ▸ le_nextPow2 _, Nat.zero_le _⟩
      · exact hgood.fits atlas hatlas
    · simp at h
  rw [getAtlas] at h
  split at h
  · split at h
    · rename_i atlas older hatlases hroom
      obtain rfl := Option.some.inj h
      exact ⟨rfl, hgood, atlas, older, hatlases, .inl hroom⟩
    · exact hnew h
  · exact hnew h

/-! ### The upload -/

/-- A glyph of one cell or two goes behind the cells in use. -/
theorem subImage_spec {tex tex' : Texture} {x : ℕ} {glyph : Glyph}
    (h : tex.subImage x glyph = some tex') :
    x + glyph.width ≤ tex.width ∧ tex'.width = tex.width ∧ tex'.height = tex.height ∧
      (∀ i < x, ∀ j, tex'.pixel i j = tex.pixel i j) ∧
      ∀ i < glyph.width, ∀ j < glyph.height, tex'.pixel (x + i) j = glyph.pixel i j := by
  rw [Texture.subImage] at h
  split at h
  · rename_i hfits
    obtain rfl := Option.some.inj h
    refine ⟨hfits.1, rfl, rfl, fun i hi j => ?_, fun i hi j hj => ?_⟩
    · exact if_neg (by omega)
    · have hin : x ≤ x + i ∧ x + i < x + glyph.width ∧ j < glyph.height := by omega
      simp only [if_pos hin, Nat.add_sub_cancel_left]
  · simp at h

/-- The texture of an atlas with one cell more or two in use. -/
theorem Atlas.Fits.upload {atlas : Atlas} (h : atlas.Fits font) {glyph : Glyph}
    (hwidth : glyph.width = glyph.cwidth * font.width) {tex : Texture}
    (hsub : atlas.tex.subImage (font.width * atlas.fill) glyph = some tex)
    (hroom : atlas.fill + glyph.cwidth ≤ atlas.count ∨
      atlas.fill = 0 ∧ atlas.tex.width = nextPow2 (font.width * atlas.count))
    {fill : ℕ} (hfill : fill ≤ atlas.fill + glyph.cwidth) :
    Atlas.Fits font { atlas with tex := tex, fill := fill } := by
  obtain ⟨hin, hw, hh, -, -⟩ := subImage_spec hsub
  refine ⟨hw ▸ h.width, hh ▸ h.height, ?_⟩
  change fill ≤ atlas.count
  rcases hroom with hroom | ⟨h0, hpow⟩
  · omega
  · -- a new atlas of one cell is less than two cells wide
    have hpos := font.width_pos
    rw [h0, Nat.mul_zero, Nat.zero_add, hwidth, hpow] at hin
    have hcount : 0 < atlas.count := by
      rcases Nat.eq_zero_or_pos atlas.count with hzero | hcount
      · rw [hzero, Nat.mul_zero] at hin
        have : nextPow2 0 = 0 := rfl
        have hone : 1 ≤ glyph.cwidth := by
          rw [Glyph.cwidth]
          split <;> omega
        have := Nat.mul_le_mul hone (Nat.le_refl font.width)
        omega
      · exact hcount
    have hlt := nextPow2_lt (Nat.mul_pos hpos hcount)
    have hcells : glyph.cwidth < 2 * atlas.count := by
      have hmul : glyph.cwidth * font.width < 2 * atlas.count * font.width := by
        calc glyph.cwidth * font.width ≤ nextPow2 (font.width * atlas.count) := hin
          _ < 2 * (font.width * atlas.count) := hlt
          _ = 2 * atlas.count * font.width := by rw [Nat.mul_comm font.width, Nat.mul_assoc]
      exact Nat.lt_of_mul_lt_mul_right hmul
    have htwo : glyph.cwidth ≤ 2 := by
      rw [Glyph.cwidth]
      split <;> omega
    omega

/-- An upload that is within the cells of its atlas is within its texture. -/
theorem Atlas.Fits.subImage {atlas : Atlas} (h : atlas.Fits font) {glyph : Glyph}
    (hwidth : glyph.width = glyph.cwidth * font.width) (hheight : glyph.height = font.height)
    (hroom : atlas.fill + glyph.cwidth ≤ atlas.count) :
    ∃ tex, atlas.tex.subImage (font.width * atlas.fill) glyph = some tex := by
  rw [Texture.subImage, if_pos]
  · exact ⟨_, rfl⟩
  · refine ⟨?_, hheight ▸ h.height⟩
    calc font.width * atlas.fill + glyph.width
        = font.width * (atlas.fill + glyph.cwidth) := by
          rw [hwidth, Nat.mul_add, Nat.mul_comm glyph.cwidth]
      _ ≤ font.width * atlas.count := Nat.mul_le_mul_left _ hroom
      _ ≤ atlas.tex.width := h.width

/-- After an upload into the newest atlas, with the new glyph's cells in use or not, each glyph
shows still what its id stands for. -/
theorem Good.upload {ents : List (ShlHashentry GlGlyph)} (h : Good font gt ents) {atlas : Atlas}
    {older : List Atlas} (hatlases : gt.atlases = atlas :: older) {glyph : Glyph}
    (hwidth : glyph.width = glyph.cwidth * font.width) {tex : Texture}
    (hsub : atlas.tex.subImage (font.width * atlas.fill) glyph = some tex)
    (hroom : atlas.fill + glyph.cwidth ≤ atlas.count ∨
      atlas.fill = 0 ∧ atlas.tex.width = nextPow2 (font.width * atlas.count))
    {fill : ℕ} (hkept : atlas.fill ≤ fill) (hfill : fill ≤ atlas.fill + glyph.cwidth)
    (glyphs : ShlHashtable GlGlyph) :
    Good font { gt with
      glyphs := glyphs, atlases := { atlas with tex := tex, fill := fill } :: older } ents := by
  obtain ⟨-, -, -, hbefore, -⟩ := subImage_spec hsub
  refine ⟨fun ent hent => (h.shows ent hent).change hatlases rfl hkept hbefore, fun at' hat => ?_⟩
  rcases List.mem_cons.mp hat with rfl | hat
  · exact (h.fits atlas (hatlases ▸ List.mem_cons_self)).upload hwidth hsub hroom hfill
  · exact h.fits at' (hatlases ▸ List.mem_cons_of_mem _ hat)

/-! ## Runs -/

/-- The hash table holds these glyphs, one for an id and only for some ids, and each shows what
its id stands for. -/
structure Keeps (font : Font) (k : ℕ) (ids : List UInt64) (gt : Gltex)
    (ents : List (ShlHashentry GlGlyph)) : Prop where
  holds : gt.glyphs.HoldsEntries shlDirect k ents
  good : Good font gt ents
  nodup : (ents.map ShlHashentry.key).Nodup
  subset : ∀ ent ∈ ents, ent.key ∈ ids

/-- What one call does: the glyphs that are known stay known, and the one returned is known
under its id. -/
def Known (ents : List (ShlHashentry GlGlyph)) (call : UInt64 × Env) (answer : Option GlGlyph)
    (ents' : List (ShlHashentry GlGlyph)) : Prop :=
  (∀ ent ∈ ents, ent ∈ ents') ∧ ∀ glglyph, answer = some glglyph → ⟨call.1, glglyph⟩ ∈ ents'

/-- The entry of a new glyph is one that `malloc` may answer. -/
def EntryAllowed (k : ℕ) (gt : Gltex) (call : UInt64 × Env) : Prop :=
  gt.glyphs.Allows k call.2.entry

instance (k : ℕ) (gt : Gltex) (call : UInt64 × Env) : Decidable (EntryAllowed k gt call) :=
  inferInstanceAs (Decidable (gt.glyphs.Allows k call.2.entry))

variable {k : ℕ} {ids : List UInt64} {ents : List (ShlHashentry GlGlyph)}

theorem known_none (ents : List (ShlHashentry GlGlyph)) (call : UInt64 × Env) :
    Known ents call none ents :=
  ⟨fun _ h => h, fun _ h => by simp at h⟩

/-- There are fewer glyphs than ids as long as there is none for one of them. -/
theorem Keeps.length_lt (h : Keeps font k ids gt ents) {id : UInt64} (hid : id ∈ ids)
    (hnew : id ∉ ents.map ShlHashentry.key) : ents.length < ids.dedup.length := by
  have hnodup : (id :: ents.map ShlHashentry.key).Nodup := List.nodup_cons.mpr ⟨hnew, h.nodup⟩
  have hsub : id :: ents.map ShlHashentry.key ⊆ ids.dedup := by
    intro key hkey
    rw [List.mem_dedup]
    rcases List.mem_cons.mp hkey with rfl | hkey
    · exact hid
    · obtain ⟨ent, hent, rfl⟩ := List.mem_map.mp hkey
      exact h.subset ent hent
  have hle := (hnodup.subperm hsub).length_le
  rwa [List.length_cons, List.length_map] at hle

/-- The upload and the insertion keep every glyph. -/
theorem addGlyph_spec (h : Keeps font k ids gt ents) {id : UInt64} (hid : id ∈ ids)
    (hids : ids.dedup.length ≤ Ccan.maxPointers) (hnew : id ∉ ents.map ShlHashentry.key)
    {glyph : Glyph} (hrender : font.render id = some glyph) {env : Env}
    (hentry : gt.glyphs.Allows k env.entry) {atlas : Atlas} {older : List Atlas}
    (hatlases : gt.atlases = atlas :: older)
    (hroom : atlas.fill + glyph.cwidth ≤ atlas.count ∨
      atlas.fill = 0 ∧ atlas.tex.width = nextPow2 (font.width * atlas.count)) :
    ∃ answer gt' ents', addGlyph font gt id glyph env = some (answer, gt') ∧
      Known ents (id, env) answer ents' ∧ Keeps font k ids gt' ents' := by
  have hlt := h.length_lt hid hnew
  obtain ⟨cells, hholds, rfl⟩ := h.holds
  obtain ⟨hwidth, hheight⟩ := font.size hrender
  rw [addGlyph, hatlases]
  simp only
  cases env.upload with
  | false => exact ⟨none, gt, _, rfl, known_none _ _, h⟩
  | true =>
    rw [if_pos rfl]
    cases hsub : atlas.tex.subImage (font.width * atlas.fill) glyph with
    | none => exact ⟨none, gt, _, rfl, known_none _ _, h⟩
    | some tex =>
      obtain ⟨-, -, -, -, hat⟩ := subImage_spec hsub
      have hplace : gt.glyphs.tbl.elems < Ccan.maxPointers := by
        rw [hholds.elems]
        rw [List.length_map] at hlt
        omega
      obtain ⟨code, glyphs, cells', hins, hholds', hcode⟩ := hholds.insert id
        ⟨glyph.doubleWidth, older.length, atlas.fill⟩ hentry env.calloc hplace
      simp only [hins, Option.bind_eq_bind, Option.bind_some]
      rcases hcode with ⟨rfl, -, hents⟩ | ⟨rfl, rfl, -⟩
      · rw [if_pos rfl]
        have hgood := h.good.upload hatlases hwidth hsub hroom (Nat.le_add_right _ _)
          (Nat.le_refl _) glyphs
        refine ⟨_, _, _, rfl, ⟨fun ent hent => List.mem_cons_of_mem _ hent, fun g hg => ?_⟩,
          ⟨cells', hholds', hents.symm⟩, ⟨fun ent hent => ?_, hgood.fits⟩,
          List.nodup_cons.mpr ⟨hnew, h.nodup⟩, fun ent hent => ?_⟩
        · obtain rfl := Option.some.inj hg
          exact List.mem_cons_self
        · rcases List.mem_cons.mp hent with rfl | hent
          · refine ⟨glyph, { atlas with tex := tex, fill := atlas.fill + glyph.cwidth }, hrender,
              ?_, rfl, Nat.le_refl _, hat⟩
            rw [List.reverse_cons, List.getElem?_append_right (by simp)]
            simp
          · exact hgood.shows ent hent
        · rcases List.mem_cons.mp hent with rfl | hent
          · exact hid
          · exact h.subset ent hent
      · rw [if_neg (by decide)]
        have hgood := h.good.upload hatlases hwidth hsub hroom (Nat.le_refl _)
          (Nat.le_add_right _ _) glyphs
        exact ⟨none, _, _, rfl, known_none _ _, ⟨cells', hholds', rfl⟩, hgood, h.nodup, h.subset⟩

/-- One call keeps every glyph. -/
theorem findStep_spec (h : Keeps font k ids gt ents) (hids : ids.dedup.length ≤ Ccan.maxPointers)
    {call : UInt64 × Env} (hid : call.1 ∈ ids) (hentry : EntryAllowed k gt call) :
    ∃ answer gt' ents', findStep font gt call = some (answer, gt') ∧
      Known ents call answer ents' ∧ Keeps font k ids gt' ents' := by
  obtain ⟨id, env⟩ := call
  obtain ⟨cells, hholds, rfl⟩ := h.holds
  rw [findStep, findGlyph]
  rcases hholds.find id with ⟨cell, hcell, hfind, hkey⟩ | ⟨hfind, hnone⟩
  · have hid : id = cell.2.key := eq_of_beq hkey
    rw [hfind]
    refine ⟨some cell.2.value, gt, _, rfl, ⟨fun _ h => h, fun g hg => ?_⟩, h⟩
    obtain rfl := Option.some.inj hg
    rw [hid]
    exact List.mem_map_of_mem hcell
  · have hnew : id ∉ (cells.map Prod.snd).map ShlHashentry.key := by
      rw [List.map_map]
      intro hmem
      obtain ⟨cell, hcell, hkey⟩ := List.mem_map.mp hmem
      exact ne_of_beq_false (hnone cell hcell) hkey.symm
    rw [hfind]
    simp only [Option.bind_eq_bind, Option.bind_some]
    rw [loadGlyph]
    cases env.glyphMalloc with
    | false => exact ⟨none, gt, _, rfl, known_none _ _, h⟩
    | true =>
      rw [if_pos rfl]
      cases hrender : font.render id with
      | none => exact ⟨none, gt, _, rfl, known_none _ _, h⟩
      | some glyph =>
        cases hget : getAtlas font gt glyph.cwidth env with
        | none =>
          simp only [hget]
          exact ⟨none, gt, _, rfl, known_none _ _, h⟩
        | some gt₁ =>
          obtain ⟨hglyphs, hgood₁, atlas, older, hatlases, hroom⟩ := getAtlas_spec hget h.good
          have hkeep₁ : Keeps font k ids gt₁ (cells.map Prod.snd) :=
            ⟨hglyphs ▸ h.holds, hgood₁, h.nodup, h.subset⟩
          simp only [hget]
          exact addGlyph_spec hkeep₁ hid hids hnew hrender (hglyphs ▸ hentry) hatlases hroom

/-- A glyph that has been returned is known in the end. -/
theorem known_of_runs {calls : List (UInt64 × Env)} {answers : List (Option GlGlyph)}
    {ents ents' : List (ShlHashentry GlGlyph)}
    (h : Refinement.Runs Known ents calls answers ents') :
    (∀ ent ∈ ents, ent ∈ ents') ∧ ∀ call glglyph, (call, some glglyph) ∈ calls.zip answers →
      ⟨call.1, glglyph⟩ ∈ ents' := by
  induction h with
  | nil => exact ⟨fun _ h => h, by simp⟩
  | cons head tail ih =>
    obtain ⟨hkept, hknown⟩ := ih
    refine ⟨fun ent hent => hkept ent (head.1 ent hent), fun call glglyph hmem => ?_⟩
    rw [List.zip_cons_cons] at hmem
    rcases List.mem_cons.mp hmem with heq | hmem
    · obtain ⟨rfl, rfl⟩ := Prod.mk.inj heq
      exact hkept _ (head.2 glglyph rfl)
    · exact hknown call glglyph hmem

/-- A run of lookups of no more ids than pointers fit into the largest hash table, in which
`malloc` never answers an entry that is in use and all entries have the same highest bit. Each
call is defined, and a glyph that a call returned shows in the end still what the font renders
for the id of that call, for no later upload touches its cells. No atlas has more cells in use
than its texture holds. -/
theorem findGlyph_shows (font : Font) (k maxTexSize : ℕ) {calls : List (UInt64 × Env)}
    (hids : (calls.map Prod.fst).dedup.length ≤ Ccan.maxPointers)
    (hentries : Refinement.Along (findStep font) (EntryAllowed k) (gltexSet maxTexSize) calls) :
    ∃ answers gt, Refinement.run (findStep font) (gltexSet maxTexSize) calls =
        some (answers, gt) ∧
      (∀ call glglyph, (call, some glglyph) ∈ calls.zip answers →
        Shows font gt call.1 glglyph) ∧
      ∀ atlas ∈ gt.atlases, atlas.Fits font := by
  have hinit : Keeps font k (calls.map Prod.fst) (gltexSet maxTexSize) [] :=
    ⟨⟨[], .new, rfl⟩, ⟨by simp, by simp [gltexSet]⟩, List.nodup_nil, by simp⟩
  have hknown : Refinement.Along (findStep font) (fun _ call => call.1 ∈ calls.map Prod.fst)
      (gltexSet maxTexSize) calls :=
    Refinement.along_of_forall (fun call hcall _ => List.mem_map_of_mem hcall) _
  have hstep (gt : Gltex) (ents : List (ShlHashentry GlGlyph)) (call : UInt64 × Env)
      (hcall : call.1 ∈ calls.map Prod.fst ∧ EntryAllowed k gt call)
      (h : Keeps font k (calls.map Prod.fst) gt ents) :
      ∃ answer gt' ents', findStep font gt call = some (answer, gt') ∧
        Known ents call answer ents' ∧ Keeps font k (calls.map Prod.fst) gt' ents' :=
    findStep_spec h hids hcall.1 hcall.2
  obtain ⟨answers, gt, ents, hrun, hruns, hkeeps⟩ := (hknown.and hentries).run hstep hinit
  refine ⟨answers, gt, hrun, fun call glglyph hmem => ?_, hkeeps.good.fits⟩
  exact hkeeps.good.shows _ ((known_of_runs hruns).2 call glglyph hmem)

theorem square_size {glyph : Glyph}
    (h : (some ⟨false, 2, 2, [0, 255, 255, 0]⟩ : Option Glyph) = some glyph) :
    glyph.width = glyph.cwidth * 2 ∧ glyph.height = 2 := by
  obtain rfl := Option.some.inj h
  exact ⟨rfl, rfl⟩

/-- A font with one glyph of two by two pixels. -/
def squareFont : Font where
  width := 2
  width_pos := Nat.two_pos
  height := 2
  render _ := some ⟨false, 2, 2, [0, 255, 255, 0]⟩
  size := square_size

/-- Lookups of two glyphs where nothing fails, and once more of the first one. -/
def threeCalls : List (UInt64 × Env) :=
  [(65, ⟨true, true, fun _ => true, true, some 0x1000, true⟩),
    (66, ⟨true, true, fun _ => true, true, some 0x1010, true⟩),
    (65, ⟨true, true, fun _ => true, true, none, true⟩)]

theorem findGlyph_shows_square :
    ∃ answers gt, Refinement.run (findStep squareFont) (gltexSet 4) threeCalls =
        some (answers, gt) ∧
      (∀ call glglyph, (call, some glglyph) ∈ threeCalls.zip answers →
        Shows squareFont gt call.1 glglyph) ∧
      ∀ atlas ∈ gt.atlases, atlas.Fits squareFont :=
  findGlyph_shows squareFont 12 4 (by decide +kernel) (by decide +kernel)

end Faceplate.GlAtlas
