import Mathlib.Tactic.SplitIfs
import Faceplate.Terminal.Basic

/-!
# The grids of a terminal

Only a part of a terminal takes part in the choice of its size: the grid of each
screen and whether it is enabled, the common size, and the size of the console.
Here this part is a model of its own, without the loops over screens and without
drawing. The screens agree when all that are enabled have the size of the console.
-/

namespace Faceplate.Terminal

open Render Video

/-- The grid of one screen. -/
structure Pane where
  disp : ℕ
  txt : Text
  enabled : Bool
  deriving DecidableEq

namespace Pane

/-- The largest grid that fits the screen. -/
def size (pane : Pane) : ℕ × ℕ := (pane.txt.maxCols, pane.txt.maxRows)

/-- The grid in use. -/
def grid (pane : Pane) : ℕ × ℕ := (pane.txt.cols, pane.txt.rows)

/-- Ask for another grid. -/
def resize (pane : Pane) (size : ℕ × ℕ) : Pane :=
  { pane with txt := pane.txt.resize size.1 size.2 }

/-- The same, on a screen that is enabled. -/
def resizeEnabled (size : ℕ × ℕ) (pane : Pane) : Pane :=
  if pane.enabled then pane.resize size else pane

/-- Enabled or disabled, by its own size. -/
def enableFor (size : ℕ × ℕ) (pane : Pane) : Pane :=
  { pane with enabled := decide (pane.size = size) }

end Pane

/-- The grid part of a terminal. -/
structure Panes where
  panes : List Pane
  min : ℕ × ℕ
  console : ℕ × ℕ
  deriving DecidableEq

namespace Panes

/-- The smaller of two dimensions, the second of which may be missing. -/
def smaller (least size : ℕ) : ℕ := if size ≠ 0 ∧ size < least then size else least

/-- The smallest of all sizes, each of which counts only with the dimensions it
has. -/
def smallest (sizes : List (ℕ × ℕ)) : ℕ × ℕ :=
  ((sizes.map (·.1)).foldl smaller uintMax, (sizes.map (·.2)).foldl smaller uintMax)

/-- The sizes of all screens. -/
def sizes (g : Panes) : List (ℕ × ℕ) := g.panes.map Pane.size

/-- The larger of a number of cells with its size and those of a screen. -/
def larger (best : ℕ × ℕ × ℕ) (pane : Pane) : ℕ × ℕ × ℕ :=
  if best.1 < cellsOf pane.size then (cellsOf pane.size, pane.size) else best

/-- The number of cells and the size of the first screen with the most cells. -/
def largest (min : ℕ × ℕ) (panes : List Pane) : ℕ × ℕ × ℕ := panes.foldl larger (0, min)

/-- Change the grid on one display. -/
def mapAt (g : Panes) (d : ℕ) (h : Pane → Pane) : Panes :=
  { g with panes := g.panes.map fun pane => if pane.disp = d then h pane else pane }

/-- A new screen, with its own grid. -/
def add (pane : Pane) (g : Panes) : Panes := { g with panes := pane :: g.panes }

/-- A screen is removed. -/
def remove (d : ℕ) (g : Panes) : Panes := { g with panes := g.panes.filter (·.disp != d) }

/-- No display has two grids. -/
def Distinct (g : Panes) : Prop := (g.panes.map (·.disp)).Nodup

theorem mapAt_id (g : Panes) (d : ℕ) : g.mapAt d id = g := by
  simp [mapAt]

theorem Distinct.mapAt {g : Panes} (hg : g.Distinct) (d : ℕ) {h : Pane → Pane}
    (hdisp : ∀ pane, (h pane).disp = pane.disp) : (g.mapAt d h).Distinct := by
  have heq : ((g.mapAt d h).panes.map (·.disp)) = g.panes.map (·.disp) := by
    simp only [Panes.mapAt, List.map_map]
    refine List.map_congr_left fun pane _ => ?_
    simp only [Function.comp_apply]
    split_ifs
    · exact hdisp pane
    · rfl
  unfold Distinct
  rwa [heq]

/-- A new common size. -/
def push (g : Panes) (size : ℕ × ℕ) : Panes :=
  ⟨g.panes.map (Pane.resizeEnabled size), size, size⟩

/-- The size is renewed in clone mode. -/
def updateClone (g : Panes) : Panes :=
  let size := smallest g.sizes
  if size.1 = uintMax ∨ size.2 = uintMax ∨ size = g.min then g else g.push size

/-- The size is renewed in the largest mode. -/
def updateLargest (g : Panes) : Panes :=
  let best := largest g.min g.panes
  let panes := g.panes.map (Pane.enableFor best.2)
  if 0 < best.1 then push ⟨panes, best.2, g.console⟩ best.2 else ⟨panes, best.2, g.console⟩

/-- The size is renewed. -/
def update (conf : Conf) (g : Panes) : Panes :=
  if conf.largest then g.updateLargest else g.updateClone

/-- Changing the grids one after the other, each by its own function. -/
theorem foldl_mapAt {g : Panes} (hg : g.Distinct) {h : Pane → Pane → Pane}
    (hdisp : ∀ p q, (h p q).disp = q.disp) :
    g.panes.foldl (fun g p => g.mapAt p.disp (h p)) g =
      { g with panes := g.panes.map fun p => h p p } := by
  suffices hsuffix : ∀ (rest done : List Pane), ((done ++ rest).map (·.disp)).Nodup →
      rest.foldl (fun g p => g.mapAt p.disp (h p)) { g with panes := done ++ rest } =
        { g with panes := done ++ rest.map fun p => h p p } by
    exact hsuffix g.panes [] hg
  intro rest
  induction rest with
  | nil => simp
  | cons p rest ih =>
    intro done hnodup
    have hmap : ∀ panes : List Pane, p.disp ∉ panes.map (·.disp) →
        (panes.map fun q => if q.disp = p.disp then h p q else q) = panes := by
      intro panes hnot
      refine (List.map_congr_left fun q hq => ?_).trans (List.map_id _)
      have hne : q.disp ≠ p.disp := fun heq => hnot (List.mem_map.mpr ⟨q, hq, heq⟩)
      simp [hne]
    have hparts := hnodup
    simp only [List.map_append, List.map_cons, List.nodup_append, List.nodup_cons] at hparts
    obtain ⟨-, ⟨hrest, -⟩, hdone⟩ := hparts
    have hdone : p.disp ∉ done.map (·.disp) := fun hin => hdone _ hin _ (by simp) rfl
    have hstep : mapAt { g with panes := done ++ p :: rest } p.disp (h p) =
        { g with panes := (done ++ [h p p]) ++ rest } := by
      simp [mapAt, hmap done hdone, hmap rest hrest]
    rw [List.foldl_cons, hstep, ih]
    · simp
    · simpa [hdisp] using hnodup

/-- All enabled screens have the common size, which is that of the console and no
more than fits. -/
def Agrees (g : Panes) : Prop :=
  ∀ pane ∈ g.panes, pane.enabled = true →
    pane.grid = g.min ∧ g.min = g.console ∧
      pane.grid.1 ≤ pane.size.1 ∧ pane.grid.2 ≤ pane.size.2

instance : DecidablePred Agrees := fun g => inferInstanceAs (Decidable (∀ pane ∈ g.panes, _))

end Panes

/-- A size with rows and columns. -/
def Proper (size : ℕ × ℕ) : Prop :=
  0 < size.1 ∧ size.1 < uintMax ∧ 0 < size.2 ∧ size.2 < uintMax

instance : DecidablePred Proper := fun size =>
  inferInstanceAs (Decidable (0 < size.1 ∧ size.1 < uintMax ∧ 0 < size.2 ∧ size.2 < uintMax))

namespace Pane

@[simp] theorem resize_disp (pane : Pane) (size : ℕ × ℕ) : (pane.resize size).disp = pane.disp :=
  rfl

@[simp] theorem resize_enabled (pane : Pane) (size : ℕ × ℕ) :
    (pane.resize size).enabled = pane.enabled := rfl

@[simp] theorem resize_size (pane : Pane) (size : ℕ × ℕ) : (pane.resize size).size = pane.size := by
  simp only [resize, Pane.size, Text.resize]
  split_ifs <;> rfl

/-- A proper size that fits is taken. -/
theorem resize_grid {pane : Pane} {size : ℕ × ℕ} (hsize : 0 < size.1 ∧ 0 < size.2)
    (hle : size.1 ≤ pane.size.1 ∧ size.2 ≤ pane.size.2) : (pane.resize size).grid = size := by
  have hfit : ¬ (size.1 = 0 ∨ pane.txt.maxCols < size.1 ∨ size.2 = 0 ∨
      pane.txt.maxRows < size.2) := by
    simp only [Pane.size] at hle
    omega
  simp [resize, grid, Text.resize, hfit]

@[simp] theorem resizeEnabled_disp (pane : Pane) (size : ℕ × ℕ) :
    (pane.resizeEnabled size).disp = pane.disp := by
  unfold resizeEnabled
  split_ifs <;> rfl

@[simp] theorem resizeEnabled_enabled (pane : Pane) (size : ℕ × ℕ) :
    (pane.resizeEnabled size).enabled = pane.enabled := by
  unfold resizeEnabled
  split_ifs <;> rfl

@[simp] theorem resizeEnabled_size (pane : Pane) (size : ℕ × ℕ) :
    (pane.resizeEnabled size).size = pane.size := by
  unfold resizeEnabled
  split_ifs
  · exact resize_size pane size
  · rfl

@[simp] theorem enableFor_disp (pane : Pane) (size : ℕ × ℕ) :
    (pane.enableFor size).disp = pane.disp := rfl

@[simp] theorem enableFor_size (pane : Pane) (size : ℕ × ℕ) :
    (pane.enableFor size).size = pane.size := rfl

end Pane

/-- A size with cells: their number in 32 bits is not 0. -/
def HasCells (size : ℕ × ℕ) : Prop := 0 < cellsOf size

instance : DecidablePred HasCells := fun size => inferInstanceAs (Decidable (0 < cellsOf size))

theorem HasCells.pos {size : ℕ × ℕ} (h : HasCells size) : 0 < size.1 ∧ 0 < size.2 := by
  unfold HasCells cellsOf at h
  constructor
  · exact Nat.pos_of_ne_zero fun hzero => by simp [hzero] at h
  · exact Nat.pos_of_ne_zero fun hzero => by simp [hzero] at h

namespace Panes

theorem foldl_smaller (least : ℕ) (sizes : List ℕ) :
    sizes.foldl smaller least ≤ least ∧
      (∀ size ∈ sizes, 0 < size → sizes.foldl smaller least ≤ size) ∧
      (sizes.foldl smaller least = least ∨
        sizes.foldl smaller least ∈ sizes ∧ 0 < sizes.foldl smaller least) := by
  induction sizes generalizing least with
  | nil => simp
  | cons size sizes ih =>
    obtain ⟨hle, hall, hone⟩ := ih (smaller least size)
    rw [List.foldl_cons]
    have hsmaller : smaller least size ≤ least ∧ (0 < size → smaller least size ≤ size) ∧
        (smaller least size = least ∨ smaller least size = size ∧ 0 < size) := by
      unfold smaller
      split_ifs <;> omega
    refine ⟨by omega, ?_, ?_⟩
    · intro other hother hpos
      rcases List.mem_cons.mp hother with rfl | hmem
      · have := hsmaller.2.1 hpos
        omega
      · exact hall other hmem hpos
    · rcases hone with heq | ⟨hmem, hpos⟩
      · rcases hsmaller.2.2 with hsame | ⟨hsize, hpos⟩
        · exact .inl (heq.trans hsame)
        · refine .inr ⟨?_, ?_⟩
          · rw [heq, hsize]
            exact List.mem_cons_self
          · omega
      · exact .inr ⟨List.mem_cons_of_mem _ hmem, hpos⟩

/-- The smallest size fits in every size that has rows and columns. -/
theorem smallest_le {sizes : List (ℕ × ℕ)} {size : ℕ × ℕ} (hmem : size ∈ sizes)
    (hproper : Proper size) :
    (smallest sizes).1 ≤ size.1 ∧ (smallest sizes).2 ≤ size.2 := by
  constructor
  · apply (foldl_smaller uintMax (sizes.map (·.1))).2.1
    · exact List.mem_map_of_mem hmem
    · exact hproper.1
  · apply (foldl_smaller uintMax (sizes.map (·.2))).2.1
    · exact List.mem_map_of_mem hmem
    · exact hproper.2.2.1

theorem smallest_pos {sizes : List (ℕ × ℕ)} (hcols : (smallest sizes).1 ≠ uintMax)
    (hrows : (smallest sizes).2 ≠ uintMax) : 0 < (smallest sizes).1 ∧ 0 < (smallest sizes).2 := by
  constructor
  · exact ((foldl_smaller uintMax _).2.2.resolve_left hcols).2
  · exact ((foldl_smaller uintMax _).2.2.resolve_left hrows).2

/-- It has rows and columns itself. -/
theorem smallest_proper {sizes : List (ℕ × ℕ)} {size : ℕ × ℕ} (hmem : size ∈ sizes)
    (hproper : Proper size) : Proper (smallest sizes) := by
  have hle := smallest_le hmem hproper
  obtain ⟨-, hcols, -, hrows⟩ := hproper
  have hpos : 0 < (smallest sizes).1 ∧ 0 < (smallest sizes).2 :=
    smallest_pos (by omega) (by omega)
  exact ⟨hpos.1, by omega, hpos.2, by omega⟩

/-- The screens that count for the largest size: either none has cells, or the
result is a size that has. -/
theorem largest_cases (min : ℕ × ℕ) (panes : List Pane) :
    (largest min panes = (0, min) ∧ ∀ pane ∈ panes, ¬ HasCells pane.size) ∨
      (0 < (largest min panes).1 ∧ HasCells (largest min panes).2) := by
  suffices hfold : ∀ best : ℕ × ℕ × ℕ,
      (panes.foldl larger best = best ∧ ∀ pane ∈ panes, cellsOf pane.size ≤ best.1) ∨
        (0 < (panes.foldl larger best).1 ∧ HasCells (panes.foldl larger best).2) by
    rcases hfold (0, min) with ⟨heq, hnone⟩ | hsome
    · exact .inl ⟨heq, fun pane hpane => Nat.not_lt.mpr (hnone pane hpane)⟩
    · exact .inr hsome
  induction panes with
  | nil => simp
  | cons pane panes ih =>
    intro best
    rw [List.foldl_cons]
    by_cases hbest : best.1 < cellsOf pane.size
    · have hcells : HasCells pane.size := Nat.lt_of_le_of_lt (Nat.zero_le _) hbest
      rw [larger, if_pos hbest]
      rcases ih (cellsOf pane.size, pane.size) with ⟨heq, -⟩ | hsome
      · refine .inr ?_
        rw [heq]
        exact ⟨hcells, hcells⟩
      · exact .inr hsome
    · rw [larger, if_neg hbest]
      rcases ih best with ⟨heq, hnone⟩ | hsome
      · refine .inl ⟨heq, fun other hother => ?_⟩
        rcases List.mem_cons.mp hother with rfl | hmem
        · omega
        · exact hnone other hmem
      · exact .inr hsome

/-- The console has the common size, unless there is none yet. -/
def Synced (g : Panes) : Prop := g.min = (0, 0) ∨ g.console = g.min

/-- The sizes allow a common size: in clone mode all screens have rows and columns,
and in the largest mode one has, or none has the size that would be kept. -/
def Fits (conf : Conf) (min : ℕ × ℕ) (sizes : List (ℕ × ℕ)) : Prop :=
  if conf.largest then (∃ size ∈ sizes, HasCells size) ∨ ∀ size ∈ sizes, size ≠ min
  else ∀ size ∈ sizes, Proper size

instance (conf : Conf) (min : ℕ × ℕ) (sizes : List (ℕ × ℕ)) : Decidable (Fits conf min sizes) :=
  inferInstanceAs (Decidable (if conf.largest then
    (∃ size ∈ sizes, HasCells size) ∨ ∀ size ∈ sizes, size ≠ min else ∀ size ∈ sizes, Proper size))

theorem panes_push (g : Panes) (size : ℕ × ℕ) :
    (g.push size).panes.map (fun pane => (pane.disp, pane.size)) =
      g.panes.map fun pane => (pane.disp, pane.size) := by
  simp [push]

/-- An update keeps the displays and the sizes of their screens. -/
theorem panes_update (conf : Conf) (g : Panes) :
    (g.update conf).panes.map (fun pane => (pane.disp, pane.size)) =
      g.panes.map fun pane => (pane.disp, pane.size) := by
  unfold update updateClone updateLargest
  dsimp only
  split_ifs
  · simp [panes_push]
  · simp
  · rfl
  · exact panes_push ..

theorem disps_update (conf : Conf) (g : Panes) :
    (g.update conf).panes.map (·.disp) = g.panes.map (·.disp) := by
  have h := congrArg (List.map Prod.fst) (panes_update conf g)
  rw [List.map_map, List.map_map] at h
  exact h

theorem sizes_update (conf : Conf) (g : Panes) : (g.update conf).sizes = g.sizes := by
  have h := congrArg (List.map Prod.snd) (panes_update conf g)
  rw [List.map_map, List.map_map] at h
  exact h

/-- A size that fits all enabled screens is taken by them. -/
theorem agrees_push {g : Panes} {size : ℕ × ℕ} (hpos : 0 < size.1 ∧ 0 < size.2)
    (hfit : ∀ pane ∈ g.panes, pane.enabled = true →
      size.1 ≤ pane.size.1 ∧ size.2 ≤ pane.size.2) : (g.push size).Agrees := by
  intro pane hpane henabled
  obtain ⟨old, hold, rfl⟩ := List.mem_map.mp hpane
  rw [Pane.resizeEnabled_enabled] at henabled
  have hle := hfit old hold henabled
  have hgrid := Pane.resize_grid hpos hle
  rw [Pane.resizeEnabled, if_pos henabled, hgrid, Pane.resize_size]
  exact ⟨rfl, rfl, hle⟩

theorem sizes_updateClone (g : Panes) : g.updateClone.sizes = g.sizes := by
  unfold updateClone
  dsimp only
  split_ifs
  · rfl
  · simp [sizes, push]

theorem updateClone_eq {g : Panes} {size : ℕ × ℕ} (hmem : size ∈ g.sizes)
    (hproper : ∀ size ∈ g.sizes, Proper size) :
    g.updateClone = if smallest g.sizes = g.min then g else g.push (smallest g.sizes) := by
  obtain ⟨-, hcols, -, hrows⟩ := smallest_proper hmem (hproper size hmem)
  simp [updateClone, hcols.ne, hrows.ne]

/-- In clone mode the screens agree after an update, if they have the common size
already whenever it does not change. -/
theorem agrees_updateClone {g : Panes} (hproper : ∀ size ∈ g.sizes, Proper size)
    (hsynced : g.Synced) (hkeep : smallest g.sizes = g.min → ∀ pane ∈ g.panes,
      pane.enabled = true → pane.grid = g.min) : g.updateClone.Agrees := by
  intro pane hpane henabled
  have hmem : pane.size ∈ g.sizes := by
    rw [← sizes_updateClone]
    exact List.mem_map_of_mem hpane
  have hsmallest := smallest_proper hmem (hproper pane.size hmem)
  rw [updateClone_eq hmem hproper] at hpane ⊢
  by_cases heq : smallest g.sizes = g.min
  · rw [if_pos heq] at hpane ⊢
    have hle := smallest_le hmem (hproper pane.size hmem)
    have hgrid := hkeep heq pane hpane henabled
    have hconsole : g.console = g.min := by
      rcases hsynced with hzero | hconsole
      · simp [heq, hzero, Proper] at hsmallest
      · exact hconsole
    rw [hgrid, ← heq]
    exact ⟨rfl, heq.trans hconsole.symm, hle⟩
  · rw [if_neg heq] at hpane ⊢
    have hfit : ∀ pane ∈ g.panes, pane.enabled = true → (smallest g.sizes).1 ≤ pane.size.1 ∧
        (smallest g.sizes).2 ≤ pane.size.2 := fun pane hpane _ =>
      have hmem : pane.size ∈ g.sizes := List.mem_map_of_mem hpane
      smallest_le hmem (hproper pane.size hmem)
    exact agrees_push ⟨hsmallest.1, hsmallest.2.2.1⟩ hfit pane hpane henabled

/-- In the largest mode they agree if a screen has cells, or none is enabled. -/
theorem agrees_updateLargest {g : Panes} (hfits : (∃ size ∈ g.sizes, HasCells size) ∨
    ∀ size ∈ g.sizes, size ≠ g.min) : g.updateLargest.Agrees := by
  unfold updateLargest
  rcases largest_cases g.min g.panes with ⟨heq, hnone⟩ | ⟨hpos, hcells⟩
  · have hkept : ∀ size ∈ g.sizes, size ≠ g.min := by
      rcases hfits with ⟨size, hsize, hcells⟩ | hkept
      · obtain ⟨pane, hpane, rfl⟩ := List.mem_map.mp hsize
        exact absurd hcells (hnone pane hpane)
      · exact hkept
    simp only [heq, lt_irrefl, if_false]
    intro pane hpane henabled
    obtain ⟨old, hold, rfl⟩ := List.mem_map.mp hpane
    have hsame : old.size = g.min := by simpa [Pane.enableFor] using henabled
    exact absurd hsame (hkept old.size (List.mem_map_of_mem hold))
  · rw [if_pos hpos]
    apply agrees_push hcells.pos
    intro pane hpane henabled
    obtain ⟨old, hold, rfl⟩ := List.mem_map.mp hpane
    have hsame : old.size = (largest g.min g.panes).2 := by simpa [Pane.enableFor] using henabled
    simp [hsame]

theorem synced_update {conf : Conf} {g : Panes} (h : g.Synced) : (g.update conf).Synced := by
  unfold update
  split_ifs with hlargest
  · unfold updateLargest
    rcases largest_cases g.min g.panes with ⟨heq, -⟩ | ⟨hpos, -⟩
    · simp only [heq, lt_irrefl, if_false]
      exact h
    · simp [hpos, push, Synced]
  · unfold updateClone
    dsimp only
    split_ifs
    · exact h
    · exact .inr rfl

/-- The common size in the largest mode: it has cells, or there is none yet and no
screen is without a size either. -/
def Chosen (g : Panes) : Prop := HasCells g.min ∨ g.min = (0, 0) ∧ ∀ size ∈ g.sizes, size ≠ (0, 0)

/-- What holds between the operations on a terminal. -/
structure Sound (conf : Conf) (g : Panes) : Prop where
  distinct : g.Distinct
  agrees : g.Agrees
  synced : g.Synced
  proper : conf.largest = false → ∀ size ∈ g.sizes, Proper size
  chosen : conf.largest = true → g.Chosen

/-- An update makes the screens agree again, when their sizes allow it and, in clone
mode, a size that stays is already theirs. -/
theorem sound_update {conf : Conf} {g : Panes} (hdistinct : g.Distinct) (hsynced : g.Synced)
    (hmin : conf.largest = true → HasCells g.min ∨ g.min = (0, 0))
    (hfits : Fits conf g.min g.sizes)
    (hkeep : conf.largest = false → smallest g.sizes = g.min → ∀ pane ∈ g.panes,
      pane.enabled = true → pane.grid = g.min) : (g.update conf).Sound conf := by
  have hdistinct' : (g.update conf).Distinct := by
    unfold Distinct
    rwa [disps_update]
  cases hlargest : conf.largest with
  | false =>
    have hproper : ∀ size ∈ g.sizes, Proper size := by simpa [Fits, hlargest] using hfits
    refine ⟨hdistinct', ?_, synced_update hsynced, ?_, ?_⟩
    · rw [update, hlargest]
      exact agrees_updateClone hproper hsynced (hkeep hlargest)
    · rw [sizes_update]
      exact fun _ => hproper
    · simp [hlargest]
  | true =>
    have hfits : (∃ size ∈ g.sizes, HasCells size) ∨ ∀ size ∈ g.sizes, size ≠ g.min := by
      simpa [Fits, hlargest] using hfits
    refine ⟨hdistinct', ?_, synced_update hsynced, ?_, ?_⟩
    · rw [update, hlargest]
      exact agrees_updateLargest hfits
    · simp [hlargest]
    · intro _
      unfold Chosen
      rw [sizes_update, update, hlargest]
      rcases largest_cases g.min g.panes with ⟨heq, hnone⟩ | ⟨hpos, hcells⟩
      · have hsame : g.updateLargest.min = g.min := by simp [updateLargest, heq]
        simp only [if_true, hsame]
        rcases hmin hlargest with hcells | hzero
        · exact .inl hcells
        · refine .inr ⟨hzero, ?_⟩
          rcases hfits with ⟨size, hsize, hcells⟩ | hkept
          · obtain ⟨pane, hpane, rfl⟩ := List.mem_map.mp hsize
            exact absurd hcells (hnone pane hpane)
          · rwa [hzero] at hkept
      · have hsame : g.updateLargest.min = (largest g.min g.panes).2 := by
          simp [updateLargest, hpos, push]
        simp only [if_true, hsame]
        exact .inl hcells

/-- Asking again for the common size changes nothing. -/
theorem Agrees.resizeAt {g : Panes} (h : g.Agrees) (d : ℕ) :
    (g.mapAt d fun pane => pane.resize g.min).Agrees := by
  intro pane hpane henabled
  obtain ⟨old, hold, rfl⟩ := List.mem_map.mp hpane
  by_cases hd : old.disp = d
  · simp only [if_pos hd, Pane.resize_enabled, Pane.resize_size] at henabled ⊢
    obtain ⟨hgrid, hconsole, hle⟩ := h old hold henabled
    have hsame : (old.resize g.min).grid = old.grid := by
      simp only [Pane.resize, Pane.grid, Text.resize, ← hgrid]
      split_ifs <;> rfl
    rw [hsame]
    exact ⟨hgrid, hconsole, hle⟩
  · simp only [if_neg hd] at henabled ⊢
    exact h old hold henabled

theorem sizes_mapAt {g : Panes} (d : ℕ) {h : Pane → Pane}
    (hsize : ∀ pane, (h pane).size = pane.size) :
    (g.mapAt d h).sizes = g.sizes := by
  simp only [sizes, mapAt, List.map_map]
  refine List.map_congr_left fun pane _ => ?_
  simp only [Function.comp_apply]
  split_ifs
  · exact hsize pane
  · rfl

theorem Sound.resizeAt {conf : Conf} {g : Panes} (h : g.Sound conf) (d : ℕ) :
    (g.mapAt d fun pane => pane.resize g.min).Sound conf := by
  have hsizes : (g.mapAt d fun pane => pane.resize g.min).sizes = g.sizes :=
    sizes_mapAt d fun pane => Pane.resize_size pane g.min
  refine ⟨h.distinct.mapAt d fun _ => rfl, h.agrees.resizeAt d, h.synced, ?_, ?_⟩
  · rw [hsizes]
    exact h.proper
  · unfold Chosen
    rw [hsizes]
    exact h.chosen

/-- A screen may be added when its size fits in with those of the others. -/
theorem Sound.add {conf : Conf} {g : Panes} (h : g.Sound conf) (pane : Pane)
    (hfresh : pane.disp ∉ g.panes.map (·.disp))
    (hfits : Fits conf g.min (pane.size :: g.sizes)) :
    (((g.add pane).update conf).mapAt pane.disp fun other =>
      other.resize ((g.add pane).update conf).min).Sound conf := by
  have hdistinct : (g.add pane).Distinct := List.nodup_cons.mpr ⟨hfresh, h.distinct⟩
  have hmin : conf.largest = true → HasCells g.min ∨ g.min = (0, 0) := fun hlargest =>
    (h.chosen hlargest).imp_right And.left
  by_cases hkeep : conf.largest = false ∧ smallest (pane.size :: g.sizes) = g.min
  · -- the size stays, so only the new screen is resized
    obtain ⟨hlargest, hsame⟩ := hkeep
    have hproper : ∀ size ∈ (g.add pane).sizes, Proper size := by
      simp only [Fits, hlargest, Bool.false_eq_true, if_false] at hfits
      exact hfits
    have hstay : (g.add pane).update conf = g.add pane := by
      rw [update, hlargest]
      exact (updateClone_eq (g := g.add pane) List.mem_cons_self hproper).trans (if_pos hsame)
    have hmem : pane.size ∈ pane.size :: g.sizes := List.mem_cons_self
    have hfit := smallest_le hmem (hproper pane.size hmem)
    have hsmallest := smallest_proper hmem (hproper pane.size hmem)
    rw [hsame] at hfit hsmallest
    have hmin : (g.add pane).min = g.min := rfl
    rw [hstay, hmin]
    have hsizes : ((g.add pane).mapAt pane.disp fun other => other.resize g.min).sizes =
        (g.add pane).sizes := sizes_mapAt pane.disp fun other => Pane.resize_size other g.min
    refine ⟨hdistinct.mapAt pane.disp fun _ => rfl, ?_, h.synced, ?_, ?_⟩
    · intro other hother henabled
      obtain ⟨old, hold, rfl⟩ := List.mem_map.mp hother
      rcases List.mem_cons.mp hold with rfl | hmem
      · have hgrid := Pane.resize_grid ⟨hsmallest.1, hsmallest.2.2.1⟩ hfit
        have hconsole : g.console = g.min := by
          rcases h.synced with hzero | hconsole
          · simp [hzero, Proper] at hsmallest
          · exact hconsole
        simp only [if_true, hgrid, Pane.resize_size]
        exact ⟨rfl, hconsole.symm, hfit⟩
      · have hne : old.disp ≠ pane.disp := fun heq => hfresh (List.mem_map.mpr ⟨old, hmem, heq⟩)
        rw [if_neg hne] at henabled ⊢
        exact h.agrees old hmem henabled
    · rw [hsizes]
      exact fun _ => hproper
    · simp [hlargest]
  · refine (sound_update hdistinct h.synced hmin hfits ?_).resizeAt pane.disp
    exact fun hlargest hsame => absurd ⟨hlargest, hsame⟩ hkeep

theorem mem_sizes_remove {g : Panes} {d : ℕ} {size : ℕ × ℕ} (h : size ∈ (g.remove d).sizes) :
    size ∈ g.sizes := by
  obtain ⟨pane, hpane, rfl⟩ := List.mem_map.mp h
  exact List.mem_map_of_mem (List.mem_of_mem_filter hpane)

/-- A screen may be removed at any time. -/
theorem Sound.remove {conf : Conf} {g : Panes} (h : g.Sound conf) (d : ℕ) :
    ((g.remove d).update conf).Sound conf := by
  have hdistinct : (g.remove d).Distinct :=
    h.distinct.sublist (List.filter_sublist.map _)
  have hagrees : (g.remove d).Agrees := fun pane hpane =>
    h.agrees pane (List.mem_of_mem_filter hpane)
  apply sound_update hdistinct h.synced
  · exact fun hlargest => (h.chosen hlargest).imp_right And.left
  · cases hlargest : conf.largest with
    | false =>
      simp only [Fits, hlargest, Bool.false_eq_true, if_false]
      exact fun size hsize => h.proper hlargest size (mem_sizes_remove hsize)
    | true =>
      simp only [Fits, hlargest, if_true]
      by_cases hcells : ∃ size ∈ (g.remove d).sizes, HasCells size
      · exact .inl hcells
      · refine .inr fun size hsize hsame => ?_
        rcases h.chosen hlargest with hmin | ⟨hzero, hnone⟩
        · exact hcells ⟨size, hsize, hsame ▸ hmin⟩
        · exact hnone size (mem_sizes_remove hsize) (hsame.trans hzero)
  · exact fun _ _ pane hpane henabled => (hagrees pane hpane henabled).1

/-- All screens measured anew: each has its own size as grid, and the common size is
kept or forgotten. In clone mode a common size that comes out as before is not told to
the screens, so it must be the size of each. -/
theorem sound_renew {conf : Conf} {g : Panes} (hdistinct : g.Distinct) (hsynced : g.Synced)
    (hmin : conf.largest = true → HasCells g.min ∨ g.min = (0, 0))
    (hgrid : ∀ pane ∈ g.panes, pane.grid = pane.size) (hfits : Fits conf g.min g.sizes)
    (hsame : conf.largest = false → smallest g.sizes = g.min → ∀ size ∈ g.sizes, size = g.min) :
    (g.update conf).Sound conf := by
  apply sound_update hdistinct hsynced hmin hfits
  intro hlargest hsmallest pane hpane _
  rw [hgrid pane hpane]
  exact hsame hlargest hsmallest pane.size (List.mem_map_of_mem hpane)

end Panes

end Faceplate.Terminal
