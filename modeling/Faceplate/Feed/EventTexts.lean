import Faceplate.Feed.EventsFormat
import Faceplate.Feed.SourceOrder

/-!
# The texts of the events

Whatever a refresh finds, the snapshot it leaves in the context counts no more events
than it has, and each of them has a text of 1 to 96 printable characters.
-/

namespace Faceplate.Feed

open CString Assignments

namespace Events

/-- The events of a snapshot are there, and their texts passed the check. -/
structure Snapshot.Sound (snapshot : Snapshot) : Prop where
  count_le : snapshot.count ≤ snapshot.lines.length
  texts : ∀ line ∈ snapshot.lines.take snapshot.count, tokenValid line.text textMax = true

theorem sound_hide : hide.Sound := ⟨Nat.zero_le _, fun _ h => by simp [hide] at h⟩

/-- The entries of an accepted feed make a sound snapshot. -/
theorem sound_snapshotOf {entries : List Entry} (hall : AllAccepted entries)
    (hcomplete : Complete entries) : (snapshotOf entries).Sound := by
  obtain ⟨-, -, value, hcount, hlines⟩ := hcomplete
  have hnumber : numberOf (last .count entries) = digitsValue value := by
    rw [Option.mem_def.mp hcount]
    rfl
  have hle : digitsValue value ≤ maxLines := (hall _ (mem_of_last hcount)).2
  constructor
  · simp only [snapshotOf, parseOf, hnumber, List.length_ofFn]
    exact hle
  · intro line hline
    simp only [snapshotOf, parseOf, hnumber] at hline
    obtain ⟨i, hi, rfl⟩ := mem_take_ofFn.mp hline
    obtain ⟨text, htext⟩ := Option.isSome_iff_exists.mp (hlines i hi).2
    simp only [lineOf, htext, Option.getD_some]
    exact hall _ (mem_of_last htext)

/-- What the reader returns is sound. -/
theorem sound_readAt (dir : Directory) (uid now stale : ℕ) (alloc : Bool) :
    (readAt dir uid now stale alloc).Sound := by
  unfold readAt
  split_ifs with hstale
  · exact sound_hide
  · cases dir filename with
    | missing => exact sound_hide
    | refused => exact sound_hide
    | opened file =>
      cases hread : readSnapshot maxBytes uid file with
      | none => simpa only [hread] using sound_hide
      | some bytes =>
        simp only [hread, judge]
        cases hparse : parseSnapshot bytes alloc with
        | none => exact sound_hide
        | some snapshot =>
          have halloc : alloc = true := by
            by_contra hno
            simp [parseSnapshot, hno] at hparse
          rw [halloc] at hparse
          obtain ⟨entries, hreadable, rfl⟩ := parseSnapshot_iff.mp hparse
          have hsound := sound_snapshotOf hreadable.accepted hreadable.complete
          dsimp only
          split_ifs
          · exact sound_hide
          · exact ⟨hsound.count_le, hsound.texts⟩
          · exact ⟨hsound.count_le, hsound.texts⟩

/-- A text that passed the check is short and printable. -/
theorem text_of_tokenValid {text : List UInt8} (h : tokenValid text textMax = true) :
    text.length ≤ 96 ∧ ∀ c ∈ text, 0x20 ≤ c ∧ c ≤ 0x7e := by
  simp only [tokenValid, charsOk, Bool.and_eq_true, decide_eq_true_eq, List.all_eq_true] at h
  refine ⟨h.1.2, fun c hc => ?_⟩
  have hchar := h.2 c hc
  simp only [alnum, Bool.or_eq_true, Bool.and_eq_true, decide_eq_true_eq, beq_iff_eq] at hchar
  rcases hchar with ((((((⟨hlow, hhigh⟩ | ⟨hlow, hhigh⟩) | ⟨hlow, hhigh⟩) | rfl) | rfl) | rfl) |
    rfl) | rfl
  · exact ⟨UInt8.le_trans (by decide) hlow, UInt8.le_trans hhigh (by decide)⟩
  · exact ⟨UInt8.le_trans (by decide) hlow, UInt8.le_trans hhigh (by decide)⟩
  · exact ⟨UInt8.le_trans (by decide) hlow, UInt8.le_trans hhigh (by decide)⟩
  all_goals decide

end Events

theorem events_refreshEvents (fs : FileSystem) (now : ℕ) (alloc : Bool) (source : Source)
    {ctx : Context} (h : ctx.events.Sound) :
    (refreshEvents fs now alloc source ctx).events.Sound := by
  unfold refreshEvents
  split_ifs with hvalid
  · exact h
  · cases eventsDirectory fs source with
    | none => exact h
    | some dir =>
      dsimp only
      split_ifs with hhidden
      · exact h
      · exact Events.sound_readAt dir source.uid now source.staleMs alloc

/-- A round of the refresh leaves a sound snapshot. -/
theorem events_refreshSource (around : Surroundings) (now : ℕ) (done : List Source)
    (source : Source) {ctx : Context} (h : ctx.events.Sound) :
    (refreshSource around now done source ctx).2.events.Sound := by
  unfold refreshSource
  dsimp only
  split_ifs with hknown
  · exact h
  · cases (resolveSourceUser around.getpwnam source).2.kind with
    | dataplicity =>
      obtain ⟨part, hpart⟩ :=
        exists_dataplicity around.fs now (resolveSourceUser around.getpwnam source).2
      simp only [hpart]
      split_ifs
      · cases part <;> exact h
      · exact h
    | system =>
      obtain ⟨part, hpart⟩ :=
        exists_system (around.stack done) around.fs now (resolveSourceUser around.getpwnam source).2
      simp only [hpart]
      split_ifs
      · cases part with
        | none => exact h
        | some values =>
          simp only [Option.elim_some, storeSystem]
          split_ifs <;> exact h
      · exact h
    | events => exact events_refreshEvents around.fs now around.alloc _ h

theorem events_refreshAll (around : Surroundings) (now : ℕ) (done sources : List Source)
    {ctx : Context} (h : ctx.events.Sound) :
    (refreshAll around now done sources ctx).2.events.Sound := by
  induction sources generalizing done ctx with
  | nil => exact h
  | cons source rest ih => exact ih _ (events_refreshSource around now done source h)

/-- A refresh leaves a sound snapshot. -/
theorem events_faceplateSourcesRefresh (around : Surroundings) (now : ℕ)
    (sources : Option (List Source)) :
    (faceplateSourcesRefresh around now sources).2.events.Sound := by
  have hcleared : Context.cleared.events.Sound :=
    ⟨Nat.zero_le _, fun _ h => by simp [Context.cleared, Events.hide] at h⟩
  cases sources with
  | none => exact hcleared
  | some sources => exact events_refreshAll around now [] sources hcleared

end Faceplate.Feed
