import Faceplate.Feed.File

/-!
# The events feed reader

`faceplate_events.c`: a snapshot is a header and `key=value` lines, and it counts
only as a whole. Everything that is not accepted ends in `hide`, which clears the
snapshot and sets `console_locked`.
-/

namespace Faceplate.Feed.Events

open CString

/-- `FACEPLATE_EVENTS_MAX_BYTES`. -/
def maxBytes : ℕ := 8192

/-- `FACEPLATE_EVENTS_MAX_LINES`. -/
def maxLines : ℕ := 12

/-- `FACEPLATE_EVENTS_TEXT_MAX`. -/
def textMax : ℕ := 96

/-- `FACEPLATE_EVENTS_CODE_MAX`. -/
def codeMax : ℕ := 64

/-- `EVENTS_FILENAME`. -/
def filename : List UInt8 := lit "faceplate.events"

/-- `EVENTS_HEADER`. -/
def header : List UInt8 := lit "FACEPLATE_EVENTS_V1"

/-- `enum faceplate_events_visibility`. -/
inductive Visibility where
  | hidden
  | fresh
  | stale
  deriving DecidableEq, Repr

/-- `struct faceplate_event_line`. -/
structure EventLine where
  code : List UInt8
  text : List UInt8
  boottimeMs : ℕ
  deriving DecidableEq, Repr

/-- `struct faceplate_events_snapshot`. -/
structure Snapshot where
  visibility : Visibility
  consoleLocked : Bool
  updatedBoottimeMs : ℕ
  count : ℕ
  lines : List EventLine
  deriving DecidableEq, Repr

/-- A cleared entry. -/
def EventLine.empty : EventLine := ⟨[], [], 0⟩

/-- `hide`. -/
def hide : Snapshot := ⟨.hidden, true, 0, 0, List.replicate maxLines EventLine.empty⟩

/-- `token_valid`. -/
def tokenValid (value : List UInt8) (max : ℕ) : Bool :=
  charsOk (fun c => alnum c || c == 0x2e || c == 0x5f || c == 0x2d || c == 0x3a || c == 0x20)
    max value

/-- `code_valid`. -/
def codeValid (value : List UInt8) : Bool :=
  charsOk (fun c => (0x61 ≤ c && c ≤ 0x7a) || (0x30 ≤ c && c ≤ 0x39) || c == 0x2e ||
    c == 0x5f || c == 0x2d) codeMax value

/-- `split_key` with a key buffer of `keyCap` bytes. -/
def splitKey (line : List UInt8) (keyCap : ℕ) : Option (List UInt8 × List UInt8) :=
  match strchr 0x3d line with
  | none => none
  | some (key, value) => if key.isEmpty ∨ keyCap ≤ key.length + 1 then none else some (key, value)

/-- The key of an event field: `strchr` for an underscore, then
`sscanf(key, "e%lu_%15s", ..)`, then the bound on the index. -/
def eventKey (key : List UInt8) : Option (ℕ × List UInt8) :=
  if (strchr 0x5f key).isNone then none
  else
    match scanUnsigned key.tail with
    | some (index, _, 0x5f :: rest) =>
      let suffix := ((rest.dropWhile isSpace).takeWhile (!isSpace ·)).take 15
      if suffix.isEmpty ∨ maxLines ≤ index then none else some (index, suffix)
    | _ => none

/-- The locals of `parse_snapshot`. -/
structure Parse where
  snapshot : Snapshot
  declared : ℕ
  haveUpdated : Bool
  haveConsole : Bool
  haveCount : Bool

/-- Store into one of the lines. -/
def Parse.modifyLine (parse : Parse) (index : ℕ) (f : EventLine → EventLine) : Parse :=
  { parse with
    snapshot := { parse.snapshot with lines := parse.snapshot.lines.modify index f } }

/-- One round of the loop of `parse_snapshot`. -/
def parseLine (parse : Parse) (line : List UInt8) : Option Parse :=
  match splitKey line 32 with
  | none => none
  | some (key, value) =>
    if key = lit "updated_boottime_ms" then
      (parseU64 value).map fun updated =>
        { parse with
          snapshot := { parse.snapshot with updatedBoottimeMs := updated }, haveUpdated := true }
    else if key = lit "console" then
      if value = lit "locked" then
        some { parse with
          snapshot := { parse.snapshot with consoleLocked := true }, haveConsole := true }
      else if value = lit "unlocked" then
        some { parse with
          snapshot := { parse.snapshot with consoleLocked := false }, haveConsole := true }
      else none
    else if key = lit "count" then
      match parseU64 value with
      | none => none
      | some declared =>
        if maxLines < declared then none
        else some { parse with declared := declared, haveCount := true }
    else if key.head? = some 0x65 then
      match eventKey key with
      | none => none
      | some (index, suffix) =>
        if suffix = lit "boottime_ms" then
          (parseU64 value).map fun time => parse.modifyLine index ({ · with boottimeMs := time })
        else if suffix = lit "code" then
          if codeValid value then some (parse.modifyLine index ({ · with code := value })) else none
        else if suffix = lit "text" then
          if tokenValid value textMax then some (parse.modifyLine index ({ · with text := value }))
          else none
        else none
    else none

/-- The loop of `parse_snapshot`. -/
def parseLines : Parse → List (List UInt8) → Option Parse
  | parse, [] => some parse
  | parse, line :: rest => (parseLine parse line).bind fun parse => parseLines parse rest

/-- The checks of `parse_snapshot` behind its loop. -/
def finish (parse : Parse) : Option Snapshot :=
  if !parse.haveUpdated || !parse.haveConsole || !parse.haveCount then none
  else if (parse.snapshot.lines.take parse.declared).all
      fun line => !line.code.isEmpty && !line.text.isEmpty then
    some { parse.snapshot with count := parse.declared }
  else none

/-- `parse_snapshot` on a hidden snapshot; `alloc` tells whether `strdup` works. -/
def parseSnapshot (bytes : List UInt8) (alloc : Bool) : Option Snapshot :=
  if bytes.take (header.length + 1) ≠ header ++ [0x0a] then none
  else if !alloc then none
  else
    match tokens 0x0a bytes with
    | [] => none
    | first :: rest =>
      if first ≠ header then none
      else (parseLines ⟨hide, 0, false, false, false⟩ rest).bind finish

/-- The decision of `faceplate_events_read_at` on the bytes it has read. -/
def judge (bytes : List UInt8) (now stale : ℕ) (alloc : Bool) : Snapshot :=
  match parseSnapshot bytes alloc with
  | none => hide
  | some snapshot =>
    if now < snapshot.updatedBoottimeMs then hide
    else if stale < now - snapshot.updatedBoottimeMs then { snapshot with visibility := .stale }
    else { snapshot with visibility := .fresh }

/-- `faceplate_events_read_at` in an open directory; the visibility it returns is
the one in the snapshot. -/
def readAt (dir : Directory) (uid now stale : ℕ) (alloc : Bool) : Snapshot :=
  if stale = 0 then hide
  else
    match dir filename with
    | .missing => hide
    | .refused => hide
    | .opened file =>
      match readSnapshot maxBytes uid file with
      | none => hide
      | some bytes => judge bytes now stale alloc

/-- A snapshot read from a directory is either hidden or was accepted. -/
theorem readAt_hidden_or (dir : Directory) (uid now stale : ℕ) (alloc : Bool) :
    readAt dir uid now stale alloc = hide ∨
      (readAt dir uid now stale alloc).visibility ≠ .hidden := by
  unfold readAt
  split_ifs with hstale
  · exact Or.inl rfl
  · cases dir filename with
    | missing => exact Or.inl rfl
    | refused => exact Or.inl rfl
    | opened file =>
      cases hread : readSnapshot maxBytes uid file with
      | none => exact Or.inl (by simp only [hread])
      | some bytes =>
        simp only [hread]
        unfold judge
        cases parseSnapshot bytes alloc with
        | none => exact Or.inl rfl
        | some snapshot => simp only; split_ifs <;> simp

end Faceplate.Feed.Events
