import Faceplate.Feed.SystemFile
import Faceplate.Lib.Interleave

/-!
# The order of the sources

Manifests are read in the order of their directory. The refreshes of different kinds
neither look at nor write each other's fields of the context, so only the order
within a kind, where the first usable source wins, can matter. A system file with a
long name is the exception: its name ends in what the sources before it left on the
stack.
-/

namespace Faceplate.Feed

open CString Interleave

/-- What `refresh_dataplicity` writes for a snapshot. -/
def storeDataplicity (snapshot : Status.Snapshot) (ctx : Context) : Context :=
  { ctx with
    connection := snapshot.connection
    connectionLabel := (connectionLabelOf snapshot.connection).1
    connectionAlert := (connectionLabelOf snapshot.connection).2
    serialShort := snapshot.serial.take 12 }

/-- What `refresh_events` writes for a snapshot. -/
def storeEvents (snapshot : Events.Snapshot) (ctx : Context) : Context :=
  { ctx with eventsValid := true, consoleLocked := snapshot.consoleLocked, events := snapshot }

/-- None of the fields that guard `refresh_system` is set. -/
def noSystem (ctx : Context) : Bool := ctx.hostname.isEmpty && ctx.ip.isEmpty && ctx.image.isEmpty

/-- The files alone decide what `refresh_dataplicity` stores, its guard whether. -/
theorem exists_dataplicity (fs : FileSystem) (now : ℕ) (source : Source) :
    ∃ part : Option Status.Snapshot, ∀ ctx, refreshDataplicity fs now source ctx =
      if ctx.connectionLabel.isEmpty then part.elim ctx (storeDataplicity · ctx) else ctx := by
  unfold refreshDataplicity
  cases splitPath source with
  | none => exact ⟨none, fun ctx => by simp⟩
  | some parts =>
    obtain ⟨path, file⟩ := parts
    by_cases hfile : file = Status.filename
    · cases hdir : fs path with
      | none => exact ⟨none, fun ctx => by simp [hfile, hdir]⟩
      | some dir =>
        by_cases hhidden : (Status.readAt dir source.uid now source.staleMs).visibility = .hidden
        · exact ⟨none, fun ctx => by simp [hfile, hdir, hhidden]⟩
        · refine ⟨some (Status.readAt dir source.uid now source.staleMs), fun ctx => ?_⟩
          cases ctx.connectionLabel <;> simp [hfile, hdir, hhidden, storeDataplicity]
    · exact ⟨none, fun ctx => by simp [hfile]⟩

/-- Likewise for `refresh_events`. -/
theorem exists_events (fs : FileSystem) (now : ℕ) (alloc : Bool) (source : Source) :
    ∃ part : Option Events.Snapshot, ∀ ctx, refreshEvents fs now alloc source ctx =
      if ctx.eventsValid then ctx else part.elim ctx (storeEvents · ctx) := by
  unfold refreshEvents
  cases eventsDirectory fs source with
  | none => exact ⟨none, fun ctx => by simp⟩
  | some dir =>
    by_cases hhidden : (Events.readAt dir source.uid now source.staleMs alloc).visibility = .hidden
    · exact ⟨none, fun ctx => by simp [hhidden]⟩
    · exact ⟨some (Events.readAt dir source.uid now source.staleMs alloc), fun ctx => by
        simp [hhidden, storeEvents]⟩

/-- Likewise for `refresh_system`. -/
theorem exists_system (behind : List UInt8) (fs : FileSystem) (now : ℕ) (source : Source) :
    ∃ part : Option SystemValues, ∀ ctx, refreshSystem behind fs now source ctx =
      if noSystem ctx then part.elim ctx (storeSystem now source.staleMs · ctx) else ctx := by
  have hguard : ∀ ctx : Context, noSystem ctx = false →
      refreshSystem behind fs now source ctx = ctx := by
    intro ctx h
    simp only [noSystem, Bool.and_eq_false_iff] at h
    refine if_pos ?_
    rcases h with (h | h) | h <;> simp [h]
  have hopen : ∀ ctx : Context, noSystem ctx = true → refreshSystem behind fs now source ctx =
      (systemBytes behind fs source).elim ctx fun bytes =>
        refreshSystemFrom bytes now source.staleMs ctx := by
    intro ctx h
    simp only [noSystem, Bool.and_eq_true, List.isEmpty_iff] at h
    exact refreshSystem_eq now h.1.1 h.1.2 h.2
  suffices hpart : ∃ part : Option SystemValues, ∀ ctx, (systemBytes behind fs source).elim ctx
      (fun bytes => refreshSystemFrom bytes now source.staleMs ctx) =
        part.elim ctx (storeSystem now source.staleMs · ctx) by
    obtain ⟨part, hpart⟩ := hpart
    refine ⟨part, fun ctx => ?_⟩
    cases h : noSystem ctx with
    | false => simp only [hguard ctx h, Bool.false_eq_true, if_false]
    | true => simp only [hopen ctx h, hpart, if_true]
  cases systemBytes behind fs source with
  | none => exact ⟨none, fun ctx => rfl⟩
  | some bytes =>
    by_cases htaken : ∃ lines, systemBody bytes = some lines ∧ ∀ line ∈ lines, TakenLine line
    · obtain ⟨lines, hbody, htaken⟩ := htaken
      exact ⟨some _, fun ctx => refreshSystemFrom_of_taken hbody htaken now source.staleMs ctx⟩
    · exact ⟨none, fun ctx => refreshSystemFrom_of_refused
        (fun lines hbody h => htaken ⟨lines, hbody, h⟩) now source.staleMs ctx⟩

section Guards

variable (now stale : ℕ) (values : SystemValues) (status : Status.Snapshot)
  (snapshot : Events.Snapshot) (ctx : Context)

@[simp] theorem storeSystem_connectionLabel :
    (storeSystem now stale values ctx).connectionLabel = ctx.connectionLabel := by
  unfold storeSystem
  split_ifs <;> rfl

@[simp] theorem storeSystem_eventsValid :
    (storeSystem now stale values ctx).eventsValid = ctx.eventsValid := by
  unfold storeSystem
  split_ifs <;> rfl

@[simp] theorem storeDataplicity_noSystem :
    noSystem (storeDataplicity status ctx) = noSystem ctx := rfl

@[simp] theorem storeDataplicity_eventsValid :
    (storeDataplicity status ctx).eventsValid = ctx.eventsValid := rfl

@[simp] theorem storeEvents_noSystem : noSystem (storeEvents snapshot ctx) = noSystem ctx := rfl

@[simp] theorem storeEvents_connectionLabel :
    (storeEvents snapshot ctx).connectionLabel = ctx.connectionLabel := rfl

theorem storeSystem_storeDataplicity :
    storeSystem now stale values (storeDataplicity status ctx) =
      storeDataplicity status (storeSystem now stale values ctx) := by
  unfold storeSystem
  split_ifs <;> rfl

theorem storeSystem_storeEvents :
    storeSystem now stale values (storeEvents snapshot ctx) =
      storeEvents snapshot (storeSystem now stale values ctx) := by
  unfold storeSystem
  split_ifs <;> rfl

end Guards

/-- One round of the loop for a source with a known user. -/
def refreshKnown (around : Surroundings) (now : ℕ) (behind : List UInt8) (ctx : Context)
    (source : Source) : Context :=
  match source.kind with
  | .dataplicity => refreshDataplicity around.fs now source ctx
  | .system => refreshSystem behind around.fs now source ctx
  | .events => refreshEvents around.fs now around.alloc source ctx

theorem refreshDataplicity_refreshSystem (behind : List UInt8) (fs : FileSystem) (now : ℕ)
    (s t : Source) (ctx : Context) :
    refreshDataplicity fs now s (refreshSystem behind fs now t ctx) =
      refreshSystem behind fs now t (refreshDataplicity fs now s ctx) := by
  obtain ⟨status, hstatus⟩ := exists_dataplicity fs now s
  obtain ⟨values, hvalues⟩ := exists_system behind fs now t
  simp only [hstatus, hvalues]
  cases hguard : noSystem ctx <;> cases hlabel : ctx.connectionLabel.isEmpty <;> cases status <;>
    cases values <;> simp [hguard, hlabel, storeSystem_storeDataplicity]

theorem refreshEvents_refreshSystem (behind : List UInt8) (fs : FileSystem) (now : ℕ)
    (alloc : Bool) (s t : Source) (ctx : Context) :
    refreshEvents fs now alloc s (refreshSystem behind fs now t ctx) =
      refreshSystem behind fs now t (refreshEvents fs now alloc s ctx) := by
  obtain ⟨snapshot, hsnapshot⟩ := exists_events fs now alloc s
  obtain ⟨values, hvalues⟩ := exists_system behind fs now t
  simp only [hsnapshot, hvalues]
  cases hguard : noSystem ctx <;> cases hvalid : ctx.eventsValid <;> cases snapshot <;>
    cases values <;> simp [hguard, hvalid, storeSystem_storeEvents]

theorem refreshEvents_refreshDataplicity (fs : FileSystem) (now : ℕ) (alloc : Bool) (s t : Source)
    (ctx : Context) : refreshEvents fs now alloc s (refreshDataplicity fs now t ctx) =
      refreshDataplicity fs now t (refreshEvents fs now alloc s ctx) := by
  obtain ⟨snapshot, hsnapshot⟩ := exists_events fs now alloc s
  obtain ⟨status, hstatus⟩ := exists_dataplicity fs now t
  simp only [hsnapshot, hstatus]
  cases hlabel : ctx.connectionLabel.isEmpty <;> cases hvalid : ctx.eventsValid <;>
    cases snapshot <;> cases status <;>
    simp [hlabel, hvalid, storeEvents, storeDataplicity]

/-- Sources of different kinds can be refreshed in either order. -/
theorem refreshKnown_comm (around : Surroundings) (now : ℕ) (behind : List UInt8) (ctx : Context)
    (s t : Source) (h : s.kind ≠ t.kind) :
    refreshKnown around now behind (refreshKnown around now behind ctx s) t =
      refreshKnown around now behind (refreshKnown around now behind ctx t) s := by
  unfold refreshKnown
  cases hs : s.kind with
  | dataplicity =>
    cases ht : t.kind with
    | dataplicity => exact absurd (hs.trans ht.symm) h
    | system => exact (refreshDataplicity_refreshSystem _ _ _ _ _ _).symm
    | events => exact refreshEvents_refreshDataplicity _ _ _ _ _ _
  | system =>
    cases ht : t.kind with
    | dataplicity => exact refreshDataplicity_refreshSystem _ _ _ _ _ _
    | system => exact absurd (hs.trans ht.symm) h
    | events => exact refreshEvents_refreshSystem _ _ _ _ _ _ _
  | events =>
    cases ht : t.kind with
    | dataplicity => exact (refreshEvents_refreshDataplicity _ _ _ _ _ _).symm
    | system => exact (refreshEvents_refreshSystem _ _ _ _ _ _ _).symm
    | events => exact absurd (hs.trans ht.symm) h

/-- One round on the sources refreshed so far and the context. -/
def refreshRound (around : Surroundings) (now : ℕ) (state : List Source × Context)
    (source : Source) : List Source × Context :=
  (source :: state.1, refreshKnown around now (around.stack state.1) state.2 source)

/-- With all users known the loop is a fold, and the sources stay as they are. -/
theorem refreshAll_of_ready (around : Surroundings) (now : ℕ) {sources : List Source}
    (hready : ∀ source ∈ sources, source.ready = true) (done : List Source) (ctx : Context) :
    refreshAll around now done sources ctx =
      (sources, (sources.foldl (refreshRound around now) (done, ctx)).2) := by
  induction sources generalizing done ctx with
  | nil => rfl
  | cons source rest ih =>
    have hsource := hready source List.mem_cons_self
    have hround : refreshSource around now done source ctx =
        (source, refreshKnown around now (around.stack done) ctx source) := by
      unfold refreshSource refreshKnown resolveSourceUser
      simp only [hsource, if_true, Bool.not_true, Bool.false_eq_true, if_false]
      cases source.kind <;> rfl
    have hrest := ih (fun s hs => hready s (List.mem_cons_of_mem _ hs)) (source :: done)
      (refreshKnown around now (around.stack done) ctx source)
    simp only [refreshAll, hround, hrest, List.foldl_cons, refreshRound]

/-- The last component of a path is shorter than the buffer of `refresh_system`. -/
def NameFits (source : Source) : Prop := ∀ parts ∈ splitPath source, parts.2.length < 63

instance (source : Source) : Decidable (NameFits source) :=
  inferInstanceAs (Decidable (∀ parts ∈ splitPath source, parts.2.length < 63))

/-- The name of such a file is read whole, whatever lies behind it. -/
theorem refreshKnown_of_fits {source : Source} (h : source.kind = .system → NameFits source)
    (around : Surroundings) (now : ℕ) (behind : List UInt8) (ctx : Context) :
    refreshKnown around now behind ctx source = refreshKnown around now [] ctx source := by
  unfold refreshKnown
  cases hkind : source.kind with
  | dataplicity => rfl
  | events => rfl
  | system =>
    have hfits := h hkind
    unfold refreshSystem NameFits at *
    cases hsplit : splitPath source with
    | none => rfl
    | some parts =>
      have hname : ∀ behind, systemName behind parts.2 = parts.2 := fun behind =>
        if_pos (hfits parts hsplit)
      simp only [hname]

@[simp] theorem fst_foldl_refreshRound (around : Surroundings) (now : ℕ) (sources : List Source)
    (state : List Source × Context) :
    (sources.foldl (refreshRound around now) state).1 = sources.reverse ++ state.1 := by
  induction sources generalizing state with
  | nil => rfl
  | cons source rest ih => simp [ih, refreshRound]

theorem foldl_refreshRound_of_fits {sources : List Source}
    (h : ∀ source ∈ sources, source.kind = .system → NameFits source) (around : Surroundings)
    (now : ℕ) (done : List Source) (ctx : Context) :
    (sources.foldl (refreshRound around now) (done, ctx)).2 =
      sources.foldl (refreshKnown around now []) ctx := by
  induction sources generalizing done ctx with
  | nil => rfl
  | cons source rest ih =>
    rw [List.foldl_cons, List.foldl_cons, refreshRound,
      refreshKnown_of_fits (h source List.mem_cons_self)]
    exact ih (fun s hs => h s (List.mem_cons_of_mem _ hs)) _ _

/-- A refresh of these sources shows the same in every order that keeps the order within
each kind. -/
def OrderFree (sources : List Source) : Prop :=
  ∀ around now sources', sources.Perm sources' → SameParts Source.kind sources sources' →
    (faceplateSourcesRefresh around now (some sources)).2 =
      (faceplateSourcesRefresh around now (some sources')).2

/-- The order does not matter where the names of all system files fit. -/
theorem orderFree_of_fits {sources : List Source}
    (hready : ∀ source ∈ sources, source.ready = true)
    (hfits : ∀ source ∈ sources, source.kind = .system → NameFits source) :
    OrderFree sources := by
  intro around now sources' hperm horder
  have hready' : ∀ source ∈ sources', source.ready = true := fun source hsource =>
    hready source (hperm.mem_iff.mpr hsource)
  have hfits' : ∀ source ∈ sources', source.kind = .system → NameFits source :=
    fun source hsource => hfits source (hperm.mem_iff.mpr hsource)
  simp only [faceplateSourcesRefresh, refreshAll_of_ready around now hready,
    refreshAll_of_ready around now hready', foldl_refreshRound_of_fits hfits,
    foldl_refreshRound_of_fits hfits']
  rw [foldl_eq_of_sameParts (refreshKnown_comm around now []) horder]

section LongName

/-- A snapshot of the first millisecond. -/
def earlySystemFile : List UInt8 :=
  lit "FACEPLATE_SYSTEM_V1\nhostname=a\nupdated_boottime_ms=1\n"

/-- A directory with the snapshot under this name and nothing else. -/
def earlyDirectory (name : List UInt8) (uid : ℕ) : Directory := fun name' =>
  if name' = name then
    .opened ⟨some ⟨true, 1, uid, 0o600, earlySystemFile.length⟩, earlySystemFile, true⟩
  else .missing

/-- Every directory is that one. The stack is clear behind the name of a system file once
`done` have been refreshed, and only then. -/
def clearAfter (done : List Source) (name : List UInt8) (uid : ℕ) : Surroundings where
  fs _ := some (earlyDirectory name uid)
  getpwnam _ := none
  alloc := true
  stack done' := if done' = done then [] else [0x78]

theorem readSafeFileAt_early (name : List UInt8) (uid : ℕ) :
    readSafeFileAt (earlyDirectory name uid) name uid 2048 = some earlySystemFile := by
  have hlen : earlySystemFile.length = 53 := by decide +kernel
  have htake : earlySystemFile.take (2048 - 1) = earlySystemFile :=
    List.take_of_length_le (by omega)
  have hne : earlySystemFile ≠ [] := List.length_pos_iff.mp (by omega)
  simp only [readSafeFileAt, earlyDirectory, if_true, htake]
  exact if_pos ⟨trivial, trivial, trivial, by decide, by omega, by omega, hne, trivial⟩

theorem readSafeFileAt_other {name name' : List UInt8} (h : name' ≠ name) (uid uid' cap : ℕ) :
    readSafeFileAt (earlyDirectory name uid) name' uid' cap = none := by
  simp only [readSafeFileAt, earlyDirectory, if_neg h]

/-- The snapshot sets a hostname. -/
theorem hostname_early (stale : ℕ) (ctx : Context) :
    (refreshSystemFrom earlySystemFile 1 stale ctx).hostname = lit "a" := by
  have htokens : tokens 0x0a earlySystemFile =
      [lit "FACEPLATE_SYSTEM_V1", lit "hostname=a", lit "updated_boottime_ms=1"] := by
    decide +kernel
  have hlines : systemLines SystemValues.initial [lit "hostname=a", lit "updated_boottime_ms=1"] =
      some ⟨lit "a", [], [], [], [], [], [], 1, 0⟩ := by decide +kernel
  rw [refreshSystemFrom, htokens]
  simp only [ne_eq, not_true_eq_false, if_false, hlines, storeSystem]
  rw [if_neg (by omega)]
  rfl

/-- Only `refresh_system` touches the fields that guard it. -/
theorem refreshKnown_of_kind {source : Source} (h : source.kind ≠ .system)
    (around : Surroundings) (now : ℕ) (behind : List UInt8) (ctx : Context) :
    noSystem (refreshKnown around now behind ctx source) = noSystem ctx ∧
      (refreshKnown around now behind ctx source).hostname = ctx.hostname := by
  unfold refreshKnown
  cases hkind : source.kind with
  | system => exact absurd hkind h
  | dataplicity =>
    obtain ⟨part, hpart⟩ := exists_dataplicity around.fs now source
    simp only [hpart]
    split_ifs
    · cases part <;> exact ⟨rfl, rfl⟩
    · exact ⟨rfl, rfl⟩
  | events =>
    obtain ⟨part, hpart⟩ := exists_events around.fs now around.alloc source
    simp only [hpart]
    split_ifs
    · exact ⟨rfl, rfl⟩
    · cases part <;> exact ⟨rfl, rfl⟩

/-- A system file that is not there changes nothing. -/
theorem refreshSystem_of_missing {behind : List UInt8} {fs : FileSystem} {source : Source}
    (h : systemBytes behind fs source = none) (now : ℕ) (ctx : Context) :
    refreshSystem behind fs now source ctx = ctx := by
  cases hguard : noSystem ctx with
  | false =>
    obtain ⟨part, hpart⟩ := exists_system behind fs now source
    rw [hpart, hguard, if_neg Bool.false_ne_true]
  | true =>
    simp only [noSystem, Bool.and_eq_true, List.isEmpty_iff] at hguard
    rw [refreshSystem_eq now hguard.1.1 hguard.1.2 hguard.2, h, Option.elim_none]

/-- A hostname that has been set stays. -/
theorem hostname_foldl {around : Surroundings} {now : ℕ} {sources : List Source}
    {state : List Source × Context} (h : state.2.hostname ≠ []) :
    (sources.foldl (refreshRound around now) state).2.hostname = state.2.hostname := by
  induction sources generalizing state with
  | nil => rfl
  | cons source rest ih =>
    have hround : (refreshRound around now state source).2.hostname = state.2.hostname := by
      by_cases hkind : source.kind = .system
      · obtain ⟨part, hpart⟩ := exists_system (around.stack state.1) around.fs now source
        have hguard : noSystem state.2 = false := by simp [noSystem, h]
        simp only [refreshRound, refreshKnown, hkind, hpart, hguard, Bool.false_eq_true, if_false]
      · exact (refreshKnown_of_kind hkind around now _ _).2
    rw [List.foldl_cons, ih (by rwa [hround]), hround]

variable {done : List Source} {file : List UInt8} {uid : ℕ}

/-- The long name is opened behind `done` only, and no short one is. -/
theorem systemBytes_clearAfter {done' : List Source} {source : Source} (hlong : 63 ≤ file.length)
    (h : NameFits source ∨ done' ≠ done) :
    systemBytes ((clearAfter done (file.take 63) uid).stack done')
      (clearAfter done (file.take 63) uid).fs source = none := by
  unfold systemBytes
  cases hsplit : splitPath source with
  | none => rfl
  | some parts =>
    refine readSafeFileAt_other ?_ uid source.uid 2048
    intro heq
    have hlen := congrArg List.length heq
    rw [List.length_take, Nat.min_eq_left hlong, systemName] at hlen
    rcases h with hfits | hdone
    · have hshort := hfits parts hsplit
      rw [if_pos hshort] at hlen
      omega
    · have hbehind : (clearAfter done (file.take 63) uid).stack done' = [0x78] := if_neg hdone
      split_ifs at hlen
      · omega
      · rw [hbehind, List.length_append, List.length_take] at hlen
        have hone : (cstr [0x78]).length = 1 := rfl
        omega

/-- Behind `done` it is opened. -/
theorem hostname_clearAfter {source : Source} {path : List UInt8} (hlong : 63 ≤ file.length)
    (hkind : source.kind = .system) (hsplit : splitPath source = some (path, file))
    {state : List Source × Context} (hstate : noSystem state.2 = true) (hdone : state.1 = done) :
    (refreshRound (clearAfter done (file.take 63) source.uid) 1 state source).2.hostname =
      lit "a" := by
  have hbehind : (clearAfter done (file.take 63) source.uid).stack state.1 = [] := if_pos hdone
  have hname : systemName [] file = file.take 63 := by
    rw [systemName, if_neg (Nat.not_lt.mpr hlong)]
    simp [cstr]
  have hbytes : systemBytes [] (clearAfter done (file.take 63) source.uid).fs source =
      some earlySystemFile := by
    simp only [systemBytes, hsplit, clearAfter, hname, readSafeFileAt_early]
  simp only [noSystem, Bool.and_eq_true, List.isEmpty_iff] at hstate
  simp only [refreshRound, refreshKnown, hkind, hbehind]
  rw [refreshSystem_eq 1 hstate.1.1 hstate.1.2 hstate.2, hbytes, Option.elim_some, hostname_early]

/-- As long as no long name meets a clear stack, the context has no system fields. -/
theorem noSystem_foldl {now : ℕ} {sources : List Source} (hlong : 63 ≤ file.length)
    {state : List Source × Context} (hstate : noSystem state.2 = true)
    (h : ∀ before source after, sources = before ++ source :: after → source.kind = .system →
      NameFits source ∨ before.reverse ++ state.1 ≠ done) :
    noSystem (sources.foldl (refreshRound (clearAfter done (file.take 63) uid) now) state).2 =
      true := by
  induction sources generalizing state with
  | nil => exact hstate
  | cons source rest ih =>
    rw [List.foldl_cons]
    refine ih ?_ ?_
    · by_cases hkind : source.kind = .system
      · have hmeets : NameFits source ∨ state.1 ≠ done := h [] source rest rfl hkind
        have hsame : (refreshRound (clearAfter done (file.take 63) uid) now state source).2 =
            state.2 := by
          simp only [refreshRound, refreshKnown, hkind]
          exact refreshSystem_of_missing (systemBytes_clearAfter hlong hmeets) now state.2
        rw [hsame]
        exact hstate
      · rw [refreshRound, (refreshKnown_of_kind hkind _ now _ _).1]
        exact hstate
    · intro before source' after hsplit hkind
      have hhere := h (source :: before) source' after (by rw [hsplit]; rfl) hkind
      simpa [refreshRound] using hhere

/-- With a source of another kind beside it, a long name is opened in one order and not in
another. -/
theorem not_orderFree_of_long {sources : List Source}
    (hready : ∀ source ∈ sources, source.ready = true) {long other : Source}
    (hlong : long ∈ sources) (hkind : long.kind = .system) (hname : ¬NameFits long)
    (hother : other ∈ sources) (hne : other.kind ≠ .system) : ¬OrderFree sources := by
  -- the first of the long names, so that none before it is opened
  obtain ⟨first, hfind⟩ := Option.isSome_iff_exists.mp
    (List.find?_isSome.mpr ⟨long, hlong, decide_eq_true ⟨hkind, hname⟩⟩ :
      (sources.find? fun s => decide (s.kind = .system ∧ ¬NameFits s)).isSome = true)
  obtain ⟨hfirst, before, after, rfl, hbefore⟩ := List.find?_eq_some_iff_append.mp hfind
  obtain ⟨hsystem, hlongName⟩ := of_decide_eq_true hfirst
  obtain ⟨⟨path, file⟩, hsplit, hlen⟩ : ∃ parts ∈ splitPath first, 63 ≤ parts.2.length := by
    by_contra hall
    exact hlongName fun parts hparts => by
      by_contra hge
      exact hall ⟨parts, hparts, by omega⟩
  obtain ⟨sources', hperm, hparts, hfront⟩ :=
    @exists_sameParts_behind _ _ Source.kind _ .system before after first other hother hne
  have hready' : ∀ source ∈ sources', source.ready = true := fun source hsource =>
    hready source (hperm.mem_iff.mpr hsource)
  intro hfree
  have hsame := congrArg Context.hostname
    (hfree (clearAfter before.reverse (file.take 63) first.uid) 1 sources' hperm hparts)
  simp only [faceplateSourcesRefresh, refreshAll_of_ready _ 1 hready,
    refreshAll_of_ready _ 1 hready'] at hsame
  -- in the order of the list the name ends in time
  have hclear : noSystem (before.foldl (refreshRound (clearAfter before.reverse (file.take 63)
      first.uid) 1) ([], Context.cleared)).2 = true := by
    refine noSystem_foldl hlen rfl fun front source rest hsplit' hsource => Or.inl ?_
    have hnot := hbefore source (by rw [hsplit']; simp)
    simpa [hsource] using hnot
  have hdone : (before.foldl (refreshRound (clearAfter before.reverse (file.take 63)
      first.uid) 1) ([], Context.cleared)).1 = before.reverse := by simp
  have hopened := hostname_clearAfter hlen hsystem hsplit hclear hdone
  -- in the other one no name does
  have hnone : noSystem (sources'.foldl (refreshRound (clearAfter before.reverse (file.take 63)
      first.uid) 1) ([], Context.cleared)).2 = true := by
    refine noSystem_foldl hlen rfl fun front source rest hsplit' hsource => Or.inr ?_
    simpa using hfront front source rest hsplit' hsource
  simp only [noSystem, Bool.and_eq_true, List.isEmpty_iff] at hnone
  have hkept := @hostname_foldl (clearAfter before.reverse (file.take 63) first.uid) 1 after _
    (by rw [hopened]; decide)
  rw [List.foldl_append, List.foldl_cons] at hsame
  have habsurd := hkept.symm.trans (hsame.trans hnone.1.1)
  rw [hopened] at habsurd
  exact absurd habsurd (by decide)

end LongName

/-- The order of the sources does not matter if and only if the names of all system files
fit, or there are no sources but system files. -/
theorem faceplateSourcesRefresh_order_iff {sources : List Source}
    (hready : ∀ source ∈ sources, source.ready = true) :
    OrderFree sources ↔
      (∀ source ∈ sources, source.kind = .system → NameFits source) ∨
        ∀ source ∈ sources, source.kind = .system := by
  constructor
  · intro hfree
    by_contra hnot
    simp only [not_or, not_forall] at hnot
    obtain ⟨⟨long, hlong, hkind, hname⟩, other, hother, hne⟩ := hnot
    exact not_orderFree_of_long hready hlong hkind hname hother hne hfree
  · rintro (hfits | hall)
    · exact orderFree_of_fits hready hfits
    · intro around now sources' hperm hparts
      rw [hparts.eq_of_key hall fun source hsource => hall source (hperm.mem_iff.mpr hsource)]

/-- A system file with a name of 63 characters, and a status file. -/
def longName : Source :=
  ⟨.system, lit "/run/" ++ List.replicate 63 0x61, lit "a", 0, 30000, true⟩

def statusSource : Source := ⟨.dataplicity, lit "/run/faceplate.status", lit "a", 0, 30000, true⟩

/-- The name of the file goes on with what the status source left on the stack. -/
theorem longName_not_orderFree : ¬OrderFree [longName, statusSource] := by
  intro h
  have hsame := congrArg Context.hostname
    (h (clearAfter [] (List.replicate 63 0x61) 0) 1 [statusSource, longName]
      (List.Perm.swap _ _ []) (by intro kind; cases kind <;> rfl))
  revert hsame
  decide +kernel

/-- A system and a status source with short names. -/
theorem twoSources_order :
    OrderFree [⟨.system, lit "/run/system", lit "a", 0, 3000, true⟩, statusSource] :=
  (faceplateSourcesRefresh_order_iff (by simp [statusSource])).mpr (Or.inl (by decide +kernel))

end Faceplate.Feed
