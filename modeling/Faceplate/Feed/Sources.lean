import Faceplate.Feed.Events
import Faceplate.Feed.Status

/-!
# The display context and its sources

`faceplate_sources.c`: a refresh clears the context and lets every source with a
known user fill in its part. The file system and the user database are arguments,
since each refresh may find them changed. Nothing of an earlier refresh survives.
-/

namespace Faceplate.Feed

open CString

/-- `enum source_kind`. -/
inductive SourceKind where
  | dataplicity
  | system
  | events
  deriving DecidableEq, Repr

/-- `struct source`. -/
structure Source where
  kind : SourceKind
  path : List UInt8
  user : List UInt8
  uid : ℕ
  staleMs : ℕ
  ready : Bool
  deriving DecidableEq, Repr

/-- `struct faceplate_display_context`. -/
structure Context where
  hostname : List UInt8
  ip : List UInt8
  image : List UInt8
  buildChannel : List UInt8
  connectionLabel : List UInt8
  connection : Status.Connection
  connectionAlert : Bool
  serialShort : List UInt8
  uptimeLabel : List UInt8
  raucSlot : List UInt8
  raucBoot : List UInt8
  raucUnhealthy : Bool
  supportingLine : List UInt8
  secondaryLine : List UInt8
  compactLine : List UInt8
  eventsValid : Bool
  consoleLocked : Bool
  events : Events.Snapshot
  deriving DecidableEq, Repr

/-- A cleared context, with the connection set to unknown. -/
def Context.cleared : Context where
  hostname := []
  ip := []
  image := []
  buildChannel := []
  connectionLabel := []
  connection := .unknown
  connectionAlert := false
  serialShort := []
  uptimeLabel := []
  raucSlot := []
  raucBoot := []
  raucUnhealthy := false
  supportingLine := []
  secondaryLine := []
  compactLine := []
  eventsValid := false
  consoleLocked := false
  events := { Events.hide with visibility := .hidden, consoleLocked := false }

/-- `safe_token`. -/
def safeToken (s : List UInt8) (max : ℕ) : Bool :=
  charsOk (fun c => alnum c || c == 0x2e || c == 0x5f || c == 0x2d || c == 0x3a || c == 0x2f) max s

/-- `parse_u64` of `faceplate_sources.c`, on `strtoull`. -/
def sourcesParseU64 (s : List UInt8) : Option ℕ :=
  match scanUnsigned s with
  | some (value, false, []) => some value
  | _ => none

/-- `resolve_source_user`, on the user database of this refresh. -/
def resolveSourceUser (getpwnam : List UInt8 → Option ℕ) (source : Source) : Bool × Source :=
  if source.ready then (true, source)
  else
    match getpwnam source.user with
    | none => (false, source)
    | some uid => (true, { source with uid := uid, ready := true })

/-- The directory and file name that a source's path is split into. -/
def splitPath (source : Source) : Option (List UInt8 × List UInt8) :=
  strrchr 0x2f (fit 256 source.path)

/-- The fields of the label for a connection state. -/
def connectionLabelOf : Status.Connection → List UInt8 × Bool
  | .connected => (lit "Online", false)
  | .disconnected => (lit "Offline", true)
  | .unknown => (lit "Unknown", true)

/-- `refresh_dataplicity`. -/
def refreshDataplicity (fs : FileSystem) (now : ℕ) (source : Source) (ctx : Context) : Context :=
  if !ctx.connectionLabel.isEmpty then ctx
  else
    match splitPath source with
    | none => ctx
    | some (path, file) =>
      if file ≠ Status.filename then ctx
      else
        match fs path with
        | none => ctx
        | some dir =>
          let snapshot := Status.readAt dir source.uid now source.staleMs
          if snapshot.visibility = .hidden then ctx
          else
            let (label, alert) := connectionLabelOf snapshot.connection
            { ctx with
              connection := snapshot.connection
              connectionLabel := label
              connectionAlert := alert
              serialShort := snapshot.serial.take 12 }

/-- The locals of `refresh_system`. -/
structure SystemValues where
  host : List UInt8
  os : List UInt8
  ip : List UInt8
  slot : List UInt8
  image : List UInt8
  boot : List UInt8
  channel : List UInt8
  updated : ℕ
  uptime : ℕ
  deriving DecidableEq, Repr

/-- Before any line. -/
def SystemValues.initial : SystemValues := ⟨[], [], [], [], [], [], [], 0, 0⟩

/-- One round of the loop of `refresh_system`. -/
def systemLine (values : SystemValues) (line : List UInt8) : Option SystemValues :=
  match strchr 0x3d line with
  | none => none
  | some (key, value) =>
    if !safeToken value 63 then none
    else if key = lit "updated_boottime_ms" then
      (sourcesParseU64 value).map ({ values with updated := · })
    else if key = lit "uptime_seconds" then
      (sourcesParseU64 value).map ({ values with uptime := · })
    else if key = lit "hostname" then some { values with host := fit 64 value }
    else if key = lit "os_image" then some { values with os := fit 64 value }
    else if key = lit "primary_ip" then some { values with ip := fit 48 value }
    else if key = lit "build_channel" then some { values with channel := fit 24 value }
    else if key = lit "rauc_slot" then some { values with slot := fit 32 value }
    else if key = lit "rauc_image" then some { values with image := fit 64 value }
    else if key = lit "rauc_boot" then some { values with boot := fit 24 value }
    else if key ≠ lit "clock_synced" then none
    else some values

/-- The loop of `refresh_system`. -/
def systemLines : SystemValues → List (List UInt8) → Option SystemValues
  | values, [] => some values
  | values, line :: rest => (systemLine values line).bind fun values => systemLines values rest

/-- `rauc_boot_is_healthy`. -/
def raucBootIsHealthy (boot : List UInt8) : Bool := boot = lit "good" ∨ boot = lit "ok"

/-- The end of `refresh_system`: the values go into the context only if they are
dated within the stale limit. -/
def storeSystem (now stale : ℕ) (values : SystemValues) (ctx : Context) : Context :=
  if values.updated = 0 ∨ now < values.updated ∨ stale < now - values.updated then ctx
  else
    { ctx with
      hostname := fit 64 values.host
      ip := fit 48 values.ip
      image := fit 64 (if !values.os.isEmpty then values.os else values.image)
      buildChannel := fit 24 values.channel
      uptimeLabel := fit 32 (lit "Uptime " ++ decimal values.uptime ++ lit "s")
      raucSlot := fit 32 values.slot
      raucBoot := fit 24 values.boot
      raucUnhealthy := !values.slot.isEmpty && !values.boot.isEmpty &&
        !raucBootIsHealthy values.boot }

/-- `refresh_system` on the bytes of the file. -/
def refreshSystemFrom (bytes : List UInt8) (now stale : ℕ) (ctx : Context) : Context :=
  match tokens 0x0a bytes with
  | [] => ctx
  | first :: rest =>
    if first ≠ lit "FACEPLATE_SYSTEM_V1" then ctx
    else
      match systemLines SystemValues.initial rest with
      | none => ctx
      | some values => storeSystem now stale values ctx

/-- The name that `refresh_system` opens. `strncpy` puts 63 bytes into a buffer that is not
cleared: a longer component has no end there, and the name goes on with what lies in
memory behind those bytes. -/
def systemName (behind file : List UInt8) : List UInt8 :=
  if file.length < 63 then file else file.take 63 ++ cstr behind

/-- `refresh_system`, with what lies in memory behind the 63 bytes of `file`. -/
def refreshSystem (behind : List UInt8) (fs : FileSystem) (now : ℕ) (source : Source)
    (ctx : Context) : Context :=
  if !ctx.hostname.isEmpty || !ctx.ip.isEmpty || !ctx.image.isEmpty then ctx
  else
    match splitPath source with
    | none => ctx
    | some (path, file) =>
      match fs path with
      | none => ctx
      | some dir =>
        match readSafeFileAt dir (systemName behind file) source.uid 2048 with
        | none => ctx
        | some bytes => refreshSystemFrom bytes now source.staleMs ctx

/-- A file that can be read is what `refresh_system` works on. -/
theorem refreshSystem_of_read {behind : List UInt8} {fs : FileSystem} {now : ℕ} {source : Source}
    {ctx : Context} {path file bytes : List UInt8} {dir : Directory}
    (hctx : ctx.hostname = [] ∧ ctx.ip = [] ∧ ctx.image = [])
    (hpath : splitPath source = some (path, file)) (hdir : fs path = some dir)
    (hread : readSafeFileAt dir (systemName behind file) source.uid 2048 = some bytes) :
    refreshSystem behind fs now source ctx = refreshSystemFrom bytes now source.staleMs ctx := by
  obtain ⟨hhost, hip, himage⟩ := hctx
  simp only [refreshSystem, hhost, hip, himage, hpath, hdir, hread, List.isEmpty_nil, Bool.not_true,
    Bool.or_self, Bool.false_eq_true, if_false]

/-- The directory in which a source's feed is read, if it has the name that
`refresh_events` requires. -/
def eventsDirectory (fs : FileSystem) (source : Source) : Option Directory :=
  match splitPath source with
  | none => none
  | some (path, file) => if file ≠ Events.filename then none else fs path

/-- `refresh_events`. -/
def refreshEvents (fs : FileSystem) (now : ℕ) (alloc : Bool) (source : Source) (ctx : Context) :
    Context :=
  if ctx.eventsValid then ctx
  else
    match eventsDirectory fs source with
    | none => ctx
    | some dir =>
      let snapshot := Events.readAt dir source.uid now source.staleMs alloc
      if snapshot.visibility = .hidden then ctx
      else
        { ctx with
          eventsValid := true, consoleLocked := snapshot.consoleLocked, events := snapshot }

/-- `append_sep` into a buffer of `cap` bytes: the text and the count `used`,
which may grow past what fits. -/
def appendSep (cap : ℕ) (out : List UInt8 × ℕ) (piece : List UInt8) : List UInt8 × ℕ :=
  if piece.isEmpty ∨ cap ≤ out.2 then out
  else
    let text := if out.2 = 0 then piece else lit " | " ++ piece
    (out.1 ++ fit (cap - out.2) text, out.2 + text.length)

/-- A line of `format_display_lines` from its pieces. -/
def formatLine (pieces : List (List UInt8)) : List UInt8 := (pieces.foldl (appendSep 160) ([], 0)).1

/-- `format_display_lines`. -/
def formatDisplayLines (ctx : Context) : Context :=
  let ipPiece := if ctx.ip.isEmpty then [] else fit 64 (lit "IP " ++ ctx.ip)
  let osPiece := if ctx.image.isEmpty then [] else fit 80 (lit "OS " ++ ctx.image)
  let debugPiece :=
    if ctx.buildChannel = lit "debug" then fit 40 (lit "DEBUG BUILD - NOT FOR PRODUCTION") else []
  let raucPiece :=
    if ctx.raucUnhealthy then
      fit 80 (lit "RAUC " ++ (if ctx.raucSlot.isEmpty then lit "?" else ctx.raucSlot) ++ lit " " ++
        (if ctx.raucBoot.isEmpty then lit "bad" else ctx.raucBoot))
    else []
  let serialPiece :=
    if ctx.serialShort.isEmpty then [] else fit 40 (lit "Serial " ++ ctx.serialShort)
  { ctx with
    supportingLine := formatLine [debugPiece, ipPiece, osPiece]
    compactLine := formatLine [ctx.connectionLabel, debugPiece, ipPiece, raucPiece]
    secondaryLine := formatLine [raucPiece, ctx.uptimeLabel, serialPiece] }

/-- What a refresh finds outside: the files, the users, whether memory can be allocated,
and what lies on the stack behind the name of a system file, once some sources have been
refreshed, the latest of them first. -/
structure Surroundings where
  fs : FileSystem
  getpwnam : List UInt8 → Option ℕ
  alloc : Bool
  stack : List Source → List UInt8

/-- One round of the loop of `faceplate_sources_refresh`, behind some sources. -/
def refreshSource (around : Surroundings) (now : ℕ) (done : List Source) (source : Source)
    (ctx : Context) : Source × Context :=
  let (known, source) := resolveSourceUser around.getpwnam source
  if !known then (source, ctx)
  else
    match source.kind with
    | .dataplicity => (source, refreshDataplicity around.fs now source ctx)
    | .system => (source, refreshSystem (around.stack done) around.fs now source ctx)
    | .events => (source, refreshEvents around.fs now around.alloc source ctx)

/-- The loop of `faceplate_sources_refresh`. -/
def refreshAll (around : Surroundings) (now : ℕ) :
    List Source → List Source → Context → List Source × Context
  | _, [], ctx => ([], ctx)
  | done, source :: rest, ctx =>
    let (source, ctx) := refreshSource around now done source ctx
    let (rest, ctx) := refreshAll around now (source :: done) rest ctx
    (source :: rest, ctx)

/-- `faceplate_sources_refresh`; `none` is a `NULL` argument. -/
def faceplateSourcesRefresh (around : Surroundings) (now : ℕ) (sources : Option (List Source)) :
    Option (List Source) × Context :=
  match sources with
  | none => (none, Context.cleared)
  | some sources =>
    let (sources, ctx) := refreshAll around now [] sources Context.cleared
    (some sources, formatDisplayLines ctx)

end Faceplate.Feed
