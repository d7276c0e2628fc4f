import Faceplate.Feed.Sources

/-!
# What a refresh makes of the events feed

The path of one events source through `faceplate_sources_refresh`: what its reader
answers, when that counts as a rejected feed, and what becomes of the context. With
a single events source a rejected feed leaves a context without events.
-/

namespace Faceplate.Feed

/-- What `refresh_events` gets from the reader for a source, if it gets that far:
whether the feed file exists, and the snapshot. -/
def feedOutcome (around : Surroundings) (now : ℕ) (source : Source) :
    Option (Bool × Events.Snapshot) :=
  let (known, source) := resolveSourceUser around.getpwnam source
  if !known then none
  else
    (eventsDirectory around.fs source).map fun dir =>
      (match dir Events.filename with
        | .missing => false
        | .refused => true
        | .opened _ => true,
        Events.readAt dir source.uid now source.staleMs around.alloc)

/-- The feed file exists, and the reader rejects it. -/
def feedRejected (around : Surroundings) (now : ℕ) (source : Source) : Bool :=
  match feedOutcome around now source with
  | none => false
  | some (found, snapshot) => found && snapshot.visibility = .hidden

/-- The lock after a refresh: what an accepted snapshot says, or else what it was. -/
def feedHeld (around : Surroundings) (now : ℕ) (source : Source) (held : Bool) : Bool :=
  match feedOutcome around now source with
  | none => held
  | some (_, snapshot) => if snapshot.visibility = .hidden then held else snapshot.consoleLocked

theorem feedHeld_of_rejected {around : Surroundings} {now : ℕ} {source : Source} {held : Bool}
    (h : feedRejected around now source = true) : feedHeld around now source held = held := by
  unfold feedRejected at h
  unfold feedHeld
  cases houtcome : feedOutcome around now source with
  | none => rfl
  | some outcome =>
    simp only [houtcome, Bool.and_eq_true, decide_eq_true_eq] at h
    simp [h.2]

/-- Sources whose events come from exactly one of them. -/
structure EventsSources where
  list : List Source
  one : (list.map (·.kind)).count .events = 1

/-- The events source among these. -/
def eventsSource (sources : Option (List Source)) : Option Source :=
  (sources.getD []).find? (·.kind == .events)

theorem kind_refreshSource (around : Surroundings) (now : ℕ) (done : List Source)
    (source : Source) (ctx : Context) :
    (refreshSource around now done source ctx).1.kind = source.kind := by
  have hkind : (resolveSourceUser around.getpwnam source).2.kind = source.kind := by
    unfold resolveSourceUser
    split_ifs
    · rfl
    · cases around.getpwnam source.user <;> rfl
  unfold refreshSource
  dsimp only
  split_ifs
  · exact hkind
  · cases h : (resolveSourceUser around.getpwnam source).2.kind <;> simp [← hkind, h]

/-- A refresh keeps the kinds of the sources. -/
theorem kinds_refreshAll (around : Surroundings) (now : ℕ) (done sources : List Source)
    (ctx : Context) :
    (refreshAll around now done sources ctx).1.map (·.kind) = sources.map (·.kind) := by
  induction sources generalizing done ctx with
  | nil => rfl
  | cons source rest ih =>
    simp only [refreshAll, List.map_cons, List.cons.injEq]
    exact ⟨kind_refreshSource around now done source ctx, ih _ _⟩

theorem eventsValid_refreshDataplicity (fs : FileSystem) (now : ℕ) (source : Source)
    (ctx : Context) : (refreshDataplicity fs now source ctx).eventsValid = ctx.eventsValid := by
  unfold refreshDataplicity
  split_ifs
  · rfl
  cases splitPath source with
  | none => rfl
  | some pair =>
    dsimp only
    split_ifs
    · rfl
    cases fs pair.1 with
    | none => rfl
    | some dir => dsimp only; split_ifs <;> rfl

theorem eventsValid_refreshSystemFrom (bytes : List UInt8) (now stale : ℕ) (ctx : Context) :
    (refreshSystemFrom bytes now stale ctx).eventsValid = ctx.eventsValid := by
  unfold refreshSystemFrom
  cases CString.tokens 0x0a bytes with
  | nil => rfl
  | cons first rest =>
    dsimp only
    split_ifs
    · rfl
    cases systemLines SystemValues.initial rest with
    | none => rfl
    | some values =>
      dsimp only [storeSystem]
      split_ifs <;> rfl

theorem eventsValid_refreshSystem (behind : List UInt8) (fs : FileSystem) (now : ℕ)
    (source : Source) (ctx : Context) :
    (refreshSystem behind fs now source ctx).eventsValid = ctx.eventsValid := by
  unfold refreshSystem
  split_ifs
  · rfl
  cases splitPath source with
  | none => rfl
  | some pair =>
    dsimp only
    cases fs pair.1 with
    | none => rfl
    | some dir =>
      dsimp only
      cases readSafeFileAt dir (systemName behind pair.2) source.uid 2048 with
      | none => rfl
      | some bytes => exact eventsValid_refreshSystemFrom bytes now source.staleMs ctx

/-- The reader of a source has nothing for the context. -/
def Unread (around : Surroundings) (now : ℕ) (source : Source) : Prop :=
  ∀ outcome, feedOutcome around now source = some outcome → outcome.2.visibility = .hidden

theorem unread_of_rejected {around : Surroundings} {now : ℕ} {source : Source}
    (h : feedRejected around now source = true) : Unread around now source := by
  intro outcome houtcome
  simp only [feedRejected, houtcome, Bool.and_eq_true, decide_eq_true_eq] at h
  exact h.2

theorem eventsValid_refreshEvents {fs : FileSystem} {now : ℕ} {alloc : Bool} {source : Source}
    (h : ∀ dir, eventsDirectory fs source = some dir →
      (Events.readAt dir source.uid now source.staleMs alloc).visibility = .hidden)
    (ctx : Context) : (refreshEvents fs now alloc source ctx).eventsValid = ctx.eventsValid := by
  unfold refreshEvents
  split_ifs
  · rfl
  cases hdir : eventsDirectory fs source with
  | none => rfl
  | some dir =>
    dsimp only
    rw [if_pos (h dir hdir)]

theorem eventsValid_refreshSource {around : Surroundings} {now : ℕ} {source : Source}
    (h : source.kind = .events → Unread around now source) (done : List Source)
    (ctx : Context) : (refreshSource around now done source ctx).2.eventsValid =
      ctx.eventsValid := by
  have hkind := kind_refreshSource around now done source ctx
  unfold refreshSource at hkind ⊢
  unfold Unread feedOutcome at h
  dsimp only at hkind h ⊢
  split_ifs at hkind h ⊢ with hknown
  · rfl
  · cases hk : (resolveSourceUser around.getpwnam source).2.kind with
    | dataplicity => exact eventsValid_refreshDataplicity ..
    | system => exact eventsValid_refreshSystem ..
    | events =>
      simp only [hk] at hkind ⊢
      refine eventsValid_refreshEvents (fun dir hdir => ?_) ctx
      exact h hkind.symm _ (by rw [hdir]; rfl)

/-- If no events source has anything, the context has no events. -/
theorem eventsValid_refreshAll {around : Surroundings} {now : ℕ} {sources : List Source}
    (h : ∀ source ∈ sources, source.kind = .events → Unread around now source)
    (done : List Source) (ctx : Context) :
    (refreshAll around now done sources ctx).2.eventsValid = ctx.eventsValid := by
  induction sources generalizing done ctx with
  | nil => rfl
  | cons source rest ih =>
    simp only [refreshAll]
    rw [ih fun other hother => h other (List.mem_cons_of_mem _ hother)]
    exact eventsValid_refreshSource (h source List.mem_cons_self) done ctx

/-- Where events have one source, it is the one that is found. -/
theorem eq_of_eventsSource {sources : List Source} {source other : Source}
    (hone : (sources.map (·.kind)).count .events = 1)
    (hsource : eventsSource (some sources) = some source) (hother : other ∈ sources)
    (hkind : other.kind = .events) : other = source := by
  simp only [eventsSource, Option.getD_some] at hsource
  induction sources with
  | nil => simp at hother
  | cons first rest ih =>
    by_cases hfirst : first.kind = .events
    · have hnone : ∀ s ∈ rest, s.kind ≠ .events := by
        simpa [hfirst, List.count_eq_zero] using hone
      have hfound : first = source := by simpa [hfirst] using hsource
      rcases List.mem_cons.mp hother with rfl | hrest
      · exact hfound
      · exact absurd hkind (hnone other hrest)
    · rcases List.mem_cons.mp hother with rfl | hrest
      · exact absurd hkind hfirst
      · refine ih ?_ ?_ hrest
        · simpa [hfirst] using hone
        · simpa [hfirst] using hsource

/-- A refresh whose only events source rejects its feed has no events. -/
theorem eventsValid_of_rejected {around : Surroundings} {now : ℕ} {sources : List Source}
    {source : Source} (hone : (sources.map (·.kind)).count .events = 1)
    (hsource : eventsSource (some sources) = some source)
    (h : feedRejected around now source = true) :
    (faceplateSourcesRefresh around now (some sources)).2.eventsValid = false := by
  have hunread : ∀ other ∈ sources, other.kind = .events → Unread around now other := by
    intro other hother hkind
    rw [eq_of_eventsSource hone hsource hother hkind]
    exact unread_of_rejected h
  exact eventsValid_refreshAll hunread [] Context.cleared

end Faceplate.Feed
