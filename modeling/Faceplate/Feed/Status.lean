import Faceplate.Feed.File

/-!
# The connection status reader

`faceplate_status.c`: four newline-terminated lines in a fixed order, and nothing
behind them. Unlike the events reader it works on the bytes as read, so a NUL is
just a byte that no line may contain.
-/

namespace Faceplate.Feed.Status

open CString

/-- `FACEPLATE_STATUS_MAX_BYTES`. -/
def maxBytes : ℕ := 512

/-- `FACEPLATE_STATUS_SERIAL_MAX`. -/
def serialMax : ℕ := 64

/-- `STATUS_FILENAME`. -/
def filename : List UInt8 := lit "faceplate.status"

/-- `enum faceplate_connection`. -/
inductive Connection where
  | connected
  | disconnected
  | unknown
  deriving DecidableEq, Repr

/-- `enum faceplate_status_visibility`. -/
inductive Visibility where
  | hidden
  | fresh
  | stale
  deriving DecidableEq, Repr

/-- `struct faceplate_status_snapshot`. -/
structure Snapshot where
  visibility : Visibility
  connection : Connection
  serial : List UInt8
  updatedBoottimeMs : ℕ
  deriving DecidableEq, Repr

/-- `hide`. -/
def hide : Snapshot := ⟨.hidden, .unknown, [], 0⟩

/-- `serial_valid`. -/
def serialValid (value : List UInt8) : Bool :=
  charsOk (fun c => alnum c || c == 0x2e || c == 0x5f || c == 0x3a || c == 0x2f || c == 0x2d)
    serialMax value

/-- `take_line`: the line and the bytes behind its newline. -/
def takeLine (bytes : List UInt8) : Option (List UInt8 × List UInt8) := strchr 0x0a bytes

/-- The values of the `dataplicity=` line. -/
def parseConnection (value : List UInt8) : Option Connection :=
  if value = lit "connected" then some .connected
  else if value = lit "disconnected" then some .disconnected
  else if value = lit "unknown" then some .unknown
  else none

/-- `parse_snapshot`. -/
def parseSnapshot (bytes : List UInt8) : Option Snapshot := do
  let (line, rest) ← takeLine bytes
  if line ≠ lit "FACEPLATE_STATUS_V1" then none
  let (line, rest) ← takeLine rest
  let serial ← stripPrefix (lit "serial=") line
  if !serialValid serial then none
  let (line, rest) ← takeLine rest
  let value ← stripPrefix (lit "dataplicity=") line
  let connection ← parseConnection value
  let (line, rest) ← takeLine rest
  let value ← stripPrefix (lit "updated_boottime_ms=") line
  let updated ← parseU64 value
  if rest ≠ [] then none
  return ⟨.hidden, connection, serial, updated⟩

/-- The decision of `faceplate_status_read_at` on the bytes it has read. -/
def judge (bytes : List UInt8) (now stale : ℕ) : Snapshot :=
  match parseSnapshot bytes with
  | none => hide
  | some snapshot =>
    if now < snapshot.updatedBoottimeMs then hide
    else if stale < now - snapshot.updatedBoottimeMs then
      { snapshot with visibility := .stale, connection := .unknown }
    else { snapshot with visibility := .fresh }

/-- `faceplate_status_read_at` in an open directory. -/
def readAt (dir : Directory) (uid now stale : ℕ) : Snapshot :=
  if stale = 0 then hide
  else
    match dir filename with
    | .missing => hide
    | .refused => hide
    | .opened file =>
      match readSnapshot maxBytes uid file with
      | none => hide
      | some bytes => judge bytes now stale

end Faceplate.Feed.Status
