import Faceplate.Feed.Sources
import Faceplate.Lib.Assignments

/-!
# Source manifests

`parse_manifest` of `faceplate_sources.c`: the lines of a manifest are copied into
fixed buffers, and the checks are made on the copies. The values that are checked
are thus functions of the last line of each field.
-/

namespace Faceplate.Feed

open CString Assignments

/-- The fields of a manifest. -/
inductive Field where
  | kind
  | path
  | user
  | stale
  deriving DecidableEq

/-- The field that a line assigns, by the prefixes of `parse_manifest`. -/
def fieldOf (line : List UInt8) : Option (Field × List UInt8) :=
  match stripPrefix (lit "kind=") line with
  | some value => some (.kind, value)
  | none =>
    match stripPrefix (lit "path=") line with
    | some value => some (.path, value)
    | none =>
      match stripPrefix (lit "user=") line with
      | some value => some (.user, value)
      | none => (stripPrefix (lit "stale_after_ms=") line).map fun value => (.stale, value)

/-- The locals of `parse_manifest`. -/
structure ManifestValues where
  kind : List UInt8
  path : List UInt8
  user : List UInt8
  stale : ℕ
  deriving DecidableEq

/-- `DEFAULT_STALE_MS`. -/
def defaultStaleMs : ℕ := 30000

/-- `MAX_MANIFEST`. -/
def maxManifest : ℕ := 1024

/-- Before any line. -/
def ManifestValues.initial : ManifestValues := ⟨[], [], [], defaultStaleMs⟩

/-- One round of the loop of `parse_manifest`. -/
def manifestLine (values : ManifestValues) (line : List UInt8) : Option ManifestValues :=
  match fieldOf line with
  | some (.kind, value) => some { values with kind := fit 32 value }
  | some (.path, value) => some { values with path := fit 256 value }
  | some (.user, value) => some { values with user := fit 64 value }
  | some (.stale, value) => (sourcesParseU64 value).map ({ values with stale := · })
  | none => if line.isEmpty = true ∨ line.head? = some 0x23 then some values else none

/-- The loop of `parse_manifest`. -/
def manifestLines : ManifestValues → List (List UInt8) → Option ManifestValues
  | values, [] => some values
  | values, line :: rest => (manifestLine values line).bind fun values => manifestLines values rest

/-- The checks of `parse_manifest` behind its loop. -/
def manifestChecks (values : ManifestValues) : Bool :=
  safeToken values.kind 24 && safeToken values.user 63 && (lit "/run/").isPrefixOf values.path &&
    safeToken values.path 255 && 1000 ≤ values.stale && values.stale ≤ 3600000

/-- How a kind is written. -/
def SourceKind.text : SourceKind → List UInt8
  | .dataplicity => lit "dataplicity"
  | .system => lit "system"
  | .events => lit "events"

/-- The comparisons of the kind. -/
def parseKind (kind : List UInt8) : Option SourceKind :=
  if kind = lit "dataplicity" then some .dataplicity
  else if kind = lit "system" then some .system
  else if kind = lit "events" then some .events
  else none

/-- The source that is stored for checked values; a missing user is retried later. -/
def sourceFrom (getpwnam : List UInt8 → Option ℕ) (values : ManifestValues) (kind : SourceKind) :
    Source :=
  match getpwnam values.user with
  | none => ⟨kind, values.path, values.user, 0, values.stale, false⟩
  | some uid => ⟨kind, values.path, values.user, uid, values.stale, true⟩

/-- `parse_manifest` on the bytes of the file. -/
def parseManifestFrom (getpwnam : List UInt8 → Option ℕ) (bytes : List UInt8) : Option Source :=
  match manifestLines ManifestValues.initial (tokens 0x0a bytes) with
  | none => none
  | some values =>
    if !manifestChecks values then none
    else (parseKind values.kind).map (sourceFrom getpwnam values)

/-- `parse_manifest`. -/
def parseManifest (dir : Directory) (name : List UInt8) (euid : ℕ)
    (getpwnam : List UInt8 → Option ℕ) : Option Source :=
  (readSafeFileAt dir name euid maxManifest).bind (parseManifestFrom getpwnam)

/-- What a text assigns, line by line. -/
def manifestLog (text : List UInt8) : List (Field × List UInt8) :=
  (text.splitOn 0x0a).filterMap fieldOf

/-- The locals after the lines of a log. -/
def valuesOf (log : List (Field × List UInt8)) : ManifestValues where
  kind := (last .kind log).elim [] (fit 32)
  path := (last .path log).elim [] (fit 256)
  user := (last .user log).elim [] (fit 64)
  stale := (last .stale log).elim defaultStaleMs fun value => (sourcesParseU64 value).getD 0

/-- A line that the loop takes: a comment, or an assignment, of a number if it is
the stale limit. -/
def LineOk (line : List UInt8) : Prop :=
  match fieldOf line with
  | some (.stale, value) => (sourcesParseU64 value).isSome = true
  | some _ => True
  | none => line.isEmpty = true ∨ line.head? = some 0x23

/-- One line, in terms of the log. -/
theorem manifestLine_iff {log : List (Field × List UInt8)} {line : List UInt8}
    {values : ManifestValues} :
    manifestLine (valuesOf log) line = some values ↔
      LineOk line ∧ values = valuesOf (log ++ (fieldOf line).toList) := by
  unfold manifestLine LineOk
  rcases hfield : fieldOf line with _ | ⟨field, value⟩
  · simp only [Option.toList_none, List.append_nil]
    split_ifs with hblank
    · simp only [hblank, true_and, Option.some.injEq]
      exact eq_comm
    · simp only [hblank, false_and]
  · have hsame := last_concat_self field log value
    have hother : ∀ field', field ≠ field' → last field' (log ++ [(field, value)]) =
        last field' log := fun field' h => last_concat_of_ne h log value
    simp only [Option.toList_some, valuesOf]
    cases field with
    | kind =>
      simp only [hsame, hother .path (by decide), hother .user (by decide),
        hother .stale (by decide), Option.elim_some, true_and, Option.some.injEq, eq_comm]
    | path =>
      simp only [hsame, hother .kind (by decide), hother .user (by decide),
        hother .stale (by decide), Option.elim_some, true_and, Option.some.injEq, eq_comm]
    | user =>
      simp only [hsame, hother .kind (by decide), hother .path (by decide),
        hother .stale (by decide), Option.elim_some, true_and, Option.some.injEq, eq_comm]
    | stale =>
      simp only [hsame, hother .kind (by decide), hother .path (by decide),
        hother .user (by decide), Option.elim_some]
      cases sourcesParseU64 value with
      | none => simp only [Option.map_none, reduceCtorEq, Option.isSome_none, Bool.false_eq_true,
          false_and]
      | some n => simp only [Option.map_some, Option.some.injEq, Option.isSome_some, true_and,
          Option.getD_some, eq_comm]

/-- The loop reads all lines exactly if it takes each, and is then where their
log leads. -/
theorem manifestLines_iff {log : List (Field × List UInt8)} {lines : List (List UInt8)}
    {values : ManifestValues} :
    manifestLines (valuesOf log) lines = some values ↔
      (∀ line ∈ lines, LineOk line) ∧ values = valuesOf (log ++ lines.filterMap fieldOf) := by
  induction lines generalizing log with
  | nil => simp [manifestLines, eq_comm]
  | cons line rest ih =>
    have hlog : log ++ (line :: rest).filterMap fieldOf =
        (log ++ (fieldOf line).toList) ++ rest.filterMap fieldOf := by
      cases hfield : fieldOf line <;> simp [hfield]
    simp only [manifestLines, Option.bind_eq_some_iff, manifestLine_iff, List.forall_mem_cons,
      and_assoc]
    rw [hlog]
    constructor
    · rintro ⟨_, hline, rfl, hrest⟩
      exact ⟨hline, ih.mp hrest⟩
    · rintro ⟨hline, hrest⟩
      exact ⟨_, hline, rfl, ih.mpr hrest⟩

/-- The tokens of a text assign what its lines up to the first NUL assign. -/
theorem filterMap_tokens (bytes : List UInt8) :
    (tokens 0x0a bytes).filterMap fieldOf = manifestLog (cstr bytes) := by
  have hempty : fieldOf [] = none := by decide
  unfold tokens manifestLog
  rw [List.filterMap_filter]
  refine List.filterMap_congr fun line _ => ?_
  cases line with
  | nil => simp [hempty]
  | cons c rest => simp

/-- The manifest is accepted with these values. -/
structure Accepted (bytes : List UInt8) (kind : SourceKind) : Prop where
  lines : ∀ line ∈ tokens 0x0a bytes, LineOk line
  checks : manifestChecks (valuesOf (manifestLog (cstr bytes))) = true
  kind : parseKind (valuesOf (manifestLog (cstr bytes))).kind = some kind

theorem parseManifestFrom_iff {getpwnam : List UInt8 → Option ℕ} {bytes : List UInt8}
    {source : Source} :
    parseManifestFrom getpwnam bytes = some source ↔ ∃ kind, Accepted bytes kind ∧
      source = sourceFrom getpwnam (valuesOf (manifestLog (cstr bytes))) kind := by
  have hinitial : ManifestValues.initial = valuesOf [] := rfl
  have hlines := fun values => @manifestLines_iff [] (tokens 0x0a bytes) values
  simp only [List.nil_append, filterMap_tokens] at hlines
  unfold parseManifestFrom
  rw [hinitial]
  cases hvalues : manifestLines (valuesOf []) (tokens 0x0a bytes) with
  | none =>
    refine iff_of_false (by simp) ?_
    rintro ⟨kind, ⟨hok, -, -⟩, -⟩
    have := (hlines _).mpr ⟨hok, rfl⟩
    simp [hvalues] at this
  | some values =>
    obtain ⟨hok, rfl⟩ := (hlines values).mp hvalues
    simp only
    by_cases hchecks : manifestChecks (valuesOf (manifestLog (cstr bytes))) = true
    · simp only [hchecks, Bool.not_true, Bool.false_eq_true, if_false, Option.map_eq_some_iff]
      constructor
      · rintro ⟨kind, hkind, rfl⟩
        exact ⟨kind, ⟨hok, hchecks, hkind⟩, rfl⟩
      · rintro ⟨kind, ⟨-, -, hkind⟩, rfl⟩
        exact ⟨kind, hkind, rfl⟩
    · simp only [Bool.not_eq_true] at hchecks
      simp only [hchecks, Bool.not_false, if_true]
      refine iff_of_false (by simp) ?_
      rintro ⟨kind, ⟨-, h, -⟩, -⟩
      simp [hchecks] at h

end Faceplate.Feed
