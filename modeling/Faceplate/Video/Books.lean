import Mathlib.Data.List.Nodup
import Mathlib.Logic.Function.Basic
import Faceplate.Lib.Refs

/-!
# The books of references

Which references on displays there are: those that the list of a device holds, those of
its users, and one for every flip that the kernel still has to report. The books are
right when each count is the number of these, and every operation on references keeps
them right as long as the list keeps the displays that flips are owed to.
-/

namespace Faceplate.Video

/-- What the references of a device depend on. -/
structure Books where
  counts : ℕ → Option ℕ
  crtcs : ℕ → Option ℕ
  displays : List ℕ
  users : ℕ → ℕ
  pending : List (ℕ × ℕ)

namespace Books

/-- The flips of a display that the kernel still has to report. -/
def owedFlips (b : Books) (d : ℕ) : ℕ := (b.pending.map Prod.snd).count d

/-- The holders of a display: those outside, the list, and the flips. -/
def holders (b : Books) (d : ℕ) : ℕ := b.users d + b.displays.count d + b.owedFlips d

/-- `display_ref` in the books. -/
def ref (b : Books) (d : ℕ) : Books :=
  { b with counts := Function.update b.counts d (Refs.incr (b.counts d)) }

/-- `display_unref` in the books. -/
def unref (b : Books) (d : ℕ) : Books :=
  { b with
    counts := Function.update b.counts d (Refs.decr (b.counts d))
    crtcs := if Refs.decr (b.counts d) = none then Function.update b.crtcs d none else b.crtcs }

/-- `display_event` in the books. -/
def event (b : Books) (crtc : ℕ) : Books :=
  match b.pending.find? (·.1 == crtc) with
  | none => b
  | some owed =>
    let b := { b with pending := b.pending.erase owed }
    match b.displays.find? (b.crtcs · == some crtc) with
    | none => b
    | some d => b.unref d

/-- The flips of a commit in the books. -/
def flip (b : Books) (ds : List ℕ) : Books :=
  { b with pending := b.pending ++ ds.filterMap fun d => (b.crtcs d).map fun crtc => (crtc, d) }

/-- The books are right, with `extra` references that the running operation has taken
and not yet accounted for. Flips are owed to displays in the list only, and no two of
these share a CRTC. -/
structure Sound (b : Books) (extra : ℕ → ℕ) : Prop where
  counts : ∀ d, b.counts d = Refs.counted (b.holders d + extra d)
  alive : ∀ d, b.crtcs d = none ↔ b.counts d = none
  nodup : b.displays.Nodup
  users : ∀ d, b.users d ≠ 0 → d ∈ b.displays
  owed : ∀ owed ∈ b.pending, b.crtcs owed.2 = some owed.1 ∧ owed.2 ∈ b.displays
  apart : ∀ d ∈ b.displays, ∀ e ∈ b.displays, b.crtcs d = b.crtcs e → d = e

variable {b : Books} {extra : ℕ → ℕ}

theorem Sound.congr {other : ℕ → ℕ} (h : b.Sound extra) (heq : ∀ d, extra d = other d) :
    b.Sound other :=
  (funext heq : extra = other) ▸ h

theorem holders_pos_of_mem {d : ℕ} (h : d ∈ b.displays) : 0 < b.holders d := by
  have hcount := List.count_pos_iff.mpr h
  unfold holders
  omega

/-- All who hold a display hold one in the list. -/
theorem Sound.mem_of_holders (h : b.Sound extra) {d : ℕ} (hd : 0 < b.holders d) :
    d ∈ b.displays := by
  by_contra hnot
  have hlist : b.displays.count d = 0 := List.count_eq_zero.mpr hnot
  have husers : b.users d = 0 := by
    by_contra hne
    exact hnot (h.users d hne)
  have hflips : b.owedFlips d = 0 := by
    apply List.count_eq_zero.mpr
    intro hmem
    obtain ⟨owed, howed, rfl⟩ := List.mem_map.mp hmem
    exact hnot (h.owed owed howed).2
  unfold holders at hd
  omega

theorem Sound.ref (h : b.Sound extra) {d : ℕ} (hd : d ∈ b.displays) :
    (b.ref d).Sound fun e => extra e + if e = d then 1 else 0 := by
  refine ⟨fun e => ?_, fun e => ?_, h.nodup, h.users, h.owed, h.apart⟩
  · have hpos := holders_pos_of_mem hd
    change Function.update b.counts d (Refs.incr (b.counts d)) e = Refs.counted (b.holders e + _)
    by_cases he : e = d
    · rw [he, Function.update_self, h.counts d, Refs.incr_counted (by omega), if_pos rfl,
        Nat.add_assoc]
    · rw [Function.update_of_ne he, if_neg he, h.counts e, Nat.add_zero]
  · change b.crtcs e = none ↔ Function.update b.counts d (Refs.incr (b.counts d)) e = none
    by_cases he : e = d
    · rw [he, Function.update_self, h.alive d]
      simp [Refs.incr]
    · rw [Function.update_of_ne he, h.alive e]

theorem Sound.unref {d : ℕ} (h : b.Sound fun e => extra e + if e = d then 1 else 0) :
    (b.unref d).Sound extra := by
  have hcount : b.counts d = Refs.counted (b.holders d + extra d + 1) := by
    rw [h.counts d, if_pos rfl, Nat.add_assoc]
  have hdecr : Refs.decr (b.counts d) = Refs.counted (b.holders d + extra d) := by
    rw [hcount, Refs.decr_counted]
  have hcrtcs : ∀ e, e ∈ b.displays → (b.unref d).crtcs e = b.crtcs e := by
    intro e he
    unfold Books.unref
    dsimp only
    split_ifs with hfreed
    · rw [hdecr, Refs.counted_eq_none_iff] at hfreed
      have hpos := holders_pos_of_mem he
      have hne : e ≠ d := by
        rintro rfl
        omega
      rw [Function.update_of_ne hne]
    · rfl
  refine ⟨fun e => ?_, fun e => ?_, h.nodup, h.users, fun owed howed => ?_, ?_⟩
  · change Function.update b.counts d (Refs.decr (b.counts d)) e = Refs.counted (b.holders e + _)
    by_cases he : e = d
    · rw [he, Function.update_self, hdecr]
    · rw [Function.update_of_ne he, h.counts e, if_neg he, Nat.add_zero]
  · unfold Books.unref
    dsimp only
    by_cases he : e = d
    · rw [he, Function.update_self]
      split_ifs with hfreed
      · simp [hfreed]
      · have hsome : b.crtcs d ≠ none := fun hnone => by
          have := (h.alive d).mp hnone
          rw [this] at hfreed
          exact hfreed rfl
        simp [hfreed, hsome]
    · rw [Function.update_of_ne he]
      split_ifs
      · rw [Function.update_of_ne he]
        exact h.alive e
      · exact h.alive e
  · obtain ⟨hcrtc, hmem⟩ := h.owed owed howed
    exact ⟨(hcrtcs owed.2 hmem).trans hcrtc, hmem⟩
  · intro e he f hf heq
    rw [hcrtcs e he, hcrtcs f hf] at heq
    exact h.apart e he f hf heq

theorem owedFlips_erase {owed : ℕ × ℕ} (h : owed ∈ b.pending) (d : ℕ) :
    b.owedFlips d = ({ b with pending := b.pending.erase owed } : Books).owedFlips d +
      if d = owed.2 then 1 else 0 := by
  have hperm := ((List.perm_cons_erase h).map Prod.snd).count_eq d
  unfold owedFlips
  rw [hperm, List.map_cons, List.count_cons]
  simp only [beq_iff_eq]
  congr 1
  simp only [eq_comm]

/-- The event of a flip finds the display of the flip. -/
theorem Sound.event (h : b.Sound extra) (crtc : ℕ) : (b.event crtc).Sound extra := by
  unfold Books.event
  cases hfind : b.pending.find? (·.1 == crtc) with
  | none => exact h
  | some owed =>
    have hmem := List.mem_of_find?_eq_some hfind
    have hcrtc : owed.1 = crtc := by simpa using List.find?_some hfind
    obtain ⟨howed, hbound⟩ := h.owed owed hmem
    have hdisp : b.displays.find? (b.crtcs · == some crtc) = some owed.2 := by
      cases hfound : b.displays.find? (b.crtcs · == some crtc) with
      | none =>
        have hnone := List.find?_eq_none.mp hfound owed.2 hbound
        simp [howed, hcrtc] at hnone
      | some d =>
        have hd : b.crtcs d = some crtc := by simpa using List.find?_some hfound
        have hin := List.mem_of_find?_eq_some hfound
        rw [h.apart d hin owed.2 hbound (by rw [hd, howed, hcrtc])]
    dsimp only
    rw [hdisp]
    apply Sound.unref
    refine ⟨fun d => ?_, h.alive, h.nodup, h.users, fun other hother => ?_, h.apart⟩
    · rw [h.counts d]
      have hflips := owedFlips_erase hmem d
      simp only [holders] at hflips ⊢
      congr 1
      omega
    · exact h.owed other (List.mem_of_mem_erase hother)

theorem Sound.events (h : b.Sound extra) (crtcs : List ℕ) :
    (crtcs.foldl Books.event b).Sound extra := by
  induction crtcs generalizing b with
  | nil => exact h
  | cons crtc crtcs ih => exact ih (h.event crtc)

theorem event_displays (b : Books) (crtc : ℕ) : (b.event crtc).displays = b.displays := by
  unfold Books.event
  cases b.pending.find? (·.1 == crtc) with
  | none => rfl
  | some owed =>
    dsimp only
    split <;> rfl

theorem events_displays (b : Books) (crtcs : List ℕ) :
    (crtcs.foldl Books.event b).displays = b.displays := by
  induction crtcs generalizing b with
  | nil => rfl
  | cons crtc crtcs ih => exact (ih (b.event crtc)).trans (event_displays b crtc)

/-- References on a part of the list. -/
theorem Sound.refAll {ds : List ℕ} (h : b.Sound extra) (hds : ∀ d ∈ ds, d ∈ b.displays) :
    (ds.foldl Books.ref b).Sound fun d => extra d + ds.count d := by
  induction ds generalizing b extra with
  | nil => exact h
  | cons d ds ih =>
    have hstep := ih (h.ref (hds d List.mem_cons_self)) fun e he =>
      hds e (List.mem_cons_of_mem _ he)
    refine hstep.congr fun e => ?_
    rw [List.count_cons]
    simp only [beq_iff_eq, eq_comm (a := d)]
    omega

theorem Sound.unrefAll {ds : List ℕ} (h : b.Sound fun d => extra d + ds.count d) :
    (ds.foldl Books.unref b).Sound extra := by
  induction ds generalizing b with
  | nil => exact h
  | cons d ds ih =>
    apply ih
    apply Sound.unref
    refine h.congr fun e => ?_
    rw [List.count_cons]
    simp only [beq_iff_eq, eq_comm (a := d)]
    omega

/-- A display in the list is there. -/
theorem Sound.crtcs_of_mem (h : b.Sound extra) {d : ℕ} (hd : d ∈ b.displays) :
    ∃ crtc, b.crtcs d = some crtc := by
  apply Option.ne_none_iff_exists'.mp
  rw [Ne, h.alive d, h.counts d, Refs.counted_eq_none_iff]
  have hpos := holders_pos_of_mem hd
  omega

theorem Sound.flips_snd (h : b.Sound extra) {ds : List ℕ} (hds : ∀ d ∈ ds, d ∈ b.displays) :
    ((ds.filterMap fun d => (b.crtcs d).map fun crtc => (crtc, d)).map Prod.snd) = ds := by
  induction ds with
  | nil => rfl
  | cons d ds ih =>
    obtain ⟨crtc, hcrtc⟩ := h.crtcs_of_mem (hds d List.mem_cons_self)
    rw [List.filterMap_cons_some (by rw [hcrtc]; rfl), List.map_cons,
      ih fun e he => hds e (List.mem_cons_of_mem _ he)]

/-- Flips take over the references that were taken for them. -/
theorem Sound.flip {ds : List ℕ} (h : b.Sound fun d => extra d + ds.count d)
    (hds : ∀ d ∈ ds, d ∈ b.displays) : (b.flip ds).Sound extra := by
  refine ⟨fun d => ?_, h.alive, h.nodup, h.users, fun owed howed => ?_, h.apart⟩
  · have hflips : (b.flip ds).owedFlips d = b.owedFlips d + ds.count d := by
      simp only [owedFlips, Books.flip, List.map_append, List.count_append, h.flips_snd hds]
    have hcount := h.counts d
    have hholders : (b.flip ds).holders d = b.holders d + ds.count d := by
      simp only [holders, hflips]
      simp only [Books.flip]
      omega
    rw [hholders]
    rw [Nat.add_comm (extra d), ← Nat.add_assoc] at hcount
    exact hcount
  · rcases List.mem_append.mp howed with hold | hnew
    · exact h.owed owed hold
    · obtain ⟨d, hd, hcrtc⟩ := List.mem_filterMap.mp hnew
      obtain ⟨crtc, hsome, rfl⟩ := Option.map_eq_some_iff.mp hcrtc
      exact ⟨hsome, hds d hd⟩

/-- A new display, with the reference of the list. -/
def bind (b : Books) (d crtc : ℕ) : Books :=
  { b with
    counts := Function.update b.counts d (some 1)
    crtcs := Function.update b.crtcs d (some crtc)
    displays := b.displays ++ [d] }

theorem Sound.bind (h : b.Sound fun _ => 0) {d crtc : ℕ} (hfree : b.counts d = none)
    (hcrtc : ∀ e ∈ b.displays, b.crtcs e ≠ some crtc) : (b.bind d crtc).Sound fun _ => 0 := by
  have hnobody : b.holders d = 0 := by
    rw [h.counts d, Refs.counted_eq_none_iff] at hfree
    omega
  have hnot : d ∉ b.displays := fun hmem => by
    have := holders_pos_of_mem hmem
    omega
  have hother : ∀ e ∈ b.displays, e ≠ d := fun e he heq => hnot (heq ▸ he)
  refine ⟨fun e => ?_, fun e => ?_, ?_, fun e he => ?_, fun owed howed => ?_, ?_⟩
  · change Function.update b.counts d (some 1) e = _
    simp only [holders, owedFlips, Books.bind, List.count_append] at hnobody ⊢
    by_cases he : e = d
    · rw [he, Function.update_self, List.count_singleton_self]
      have hone :
          b.users d + (b.displays.count d + 1) + (b.pending.map Prod.snd).count d + 0 = 1 := by
        omega
      rw [hone]
      rfl
    · rw [Function.update_of_ne he, h.counts e, List.count_singleton,
        if_neg (by simpa using Ne.symm he)]
      rfl
  · change Function.update b.crtcs d (some crtc) e = none ↔
      Function.update b.counts d (some 1) e = none
    by_cases he : e = d
    · simp [he]
    · rw [Function.update_of_ne he, Function.update_of_ne he, h.alive e]
  · exact List.nodup_append.mpr ⟨h.nodup, List.nodup_singleton d, fun e he f hf =>
      List.mem_singleton.mp hf ▸ hother e he⟩
  · exact List.mem_append_left _ (h.users e he)
  · obtain ⟨hcrtc', hmem⟩ := h.owed owed howed
    refine ⟨?_, List.mem_append_left _ hmem⟩
    exact (Function.update_of_ne (hother owed.2 hmem) _ _).trans hcrtc'
  · intro e he f hf heq
    change Function.update b.crtcs d (some crtc) e = Function.update b.crtcs d (some crtc) f at heq
    rcases List.mem_append.mp he with he | he <;> rcases List.mem_append.mp hf with hf | hf
    · rw [Function.update_of_ne (hother e he), Function.update_of_ne (hother f hf)] at heq
      exact h.apart e he f hf heq
    · rw [List.mem_singleton.mp hf, Function.update_of_ne (hother e he),
        Function.update_self] at heq
      exact absurd heq (hcrtc e he)
    · rw [List.mem_singleton.mp he, Function.update_of_ne (hother f hf),
        Function.update_self] at heq
      exact absurd heq.symm (hcrtc f hf)
    · rw [List.mem_singleton.mp he, List.mem_singleton.mp hf]

/-- Another holder outside. -/
def acquire (b : Books) (d : ℕ) : Books :=
  { b.ref d with users := Function.update b.users d (b.users d + 1) }

theorem Sound.acquire (h : b.Sound extra) {d : ℕ} (hd : d ∈ b.displays) :
    (b.acquire d).Sound extra := by
  have href := h.ref hd
  refine ⟨fun e => ?_, href.alive, h.nodup, fun e he => ?_, h.owed, h.apart⟩
  · have hcount := href.counts e
    change (b.ref d).counts e = _
    rw [hcount]
    simp only [holders, owedFlips, Books.acquire, Books.ref]
    by_cases he : e = d
    · rw [he, Function.update_self, if_pos rfl]
      congr 1
      omega
    · rw [Function.update_of_ne he, if_neg he, Nat.add_zero]
  · by_cases heq : e = d
    · exact heq ▸ hd
    · apply h.users e
      simpa [Books.acquire, heq] using he

/-- One holder outside less. -/
def release (b : Books) (d : ℕ) : Books :=
  { b.unref d with users := Function.update b.users d (b.users d - 1) }

theorem Sound.release (h : b.Sound extra) {d : ℕ} (hd : b.users d ≠ 0) :
    (b.release d).Sound extra := by
  have hless : ({ b with users := Function.update b.users d (b.users d - 1) } : Books).Sound
      fun e => extra e + if e = d then 1 else 0 := by
    refine ⟨fun e => ?_, h.alive, h.nodup, fun e he => ?_, h.owed, h.apart⟩
    · change b.counts e = _
      rw [h.counts e]
      simp only [holders, owedFlips]
      by_cases he : e = d
      · rw [he, Function.update_self, if_pos rfl]
        congr 1
        omega
      · rw [Function.update_of_ne he, if_neg he, Nat.add_zero]
    · by_cases heq : e = d
      · exact heq ▸ h.users d hd
      · apply h.users e
        simpa [heq] using he
  exact hless.unref

/-- The list lets go of a display. -/
def unlink (b : Books) (d : ℕ) : Books := { b with displays := b.displays.erase d }

/-- It may do so when nobody outside holds the display and no flip of it is owed. -/
theorem Sound.unlink (h : b.Sound extra) {d : ℕ} (hd : d ∈ b.displays) (husers : b.users d = 0)
    (hflips : b.owedFlips d = 0) : ((b.unlink d).unref d).Sound extra := by
  apply Sound.unref
  have hkeep : ∀ {e}, e ∈ b.displays → e ≠ d → e ∈ b.displays.erase d := fun he hne =>
    (List.mem_erase_of_ne hne).mpr he
  refine ⟨fun e => ?_, h.alive, h.nodup.erase d, fun e he => ?_, fun owed howed => ?_, ?_⟩
  · change b.counts e = _
    rw [h.counts e]
    simp only [holders, owedFlips, Books.unlink]
    by_cases he : e = d
    · have hone : b.displays.count d = 1 := List.count_eq_one_of_mem h.nodup hd
      rw [he, if_pos rfl, List.count_erase_self]
      congr 1
      omega
    · rw [List.count_erase_of_ne he, if_neg he, Nat.add_zero]
  · have hne : e ≠ d := fun heq => he (heq ▸ husers)
    exact hkeep (h.users e he) hne
  · obtain ⟨hcrtc, hmem⟩ := h.owed owed howed
    refine ⟨hcrtc, hkeep hmem fun heq => ?_⟩
    have hpos : 0 < b.owedFlips d :=
      List.count_pos_iff.mpr (List.mem_map.mpr ⟨owed, howed, heq⟩)
    omega
  · exact fun e he f hf => h.apart e (List.mem_of_mem_erase he) f (List.mem_of_mem_erase hf)

end Books

end Faceplate.Video
