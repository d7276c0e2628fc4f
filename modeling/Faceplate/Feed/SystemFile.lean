import Faceplate.Feed.Confinement

/-!
# The system file

`refresh_system` parses into locals and copies them into the context at the very
end. As a log of assignments, the file either leaves the context alone or sets all
of the system fields to the last value of each key. Its numbers go through
`strtoull`, and the last theorem says what that lets through.
-/

namespace Faceplate.Feed

open CString Assignments

/-- The keys of the system file. -/
inductive SystemKey where
  | updated
  | uptime
  | hostname
  | osImage
  | primaryIp
  | buildChannel
  | raucSlot
  | raucImage
  | raucBoot
  | clockSynced
  deriving DecidableEq, Repr

/-- How a key is written. -/
def SystemKey.text : SystemKey → List UInt8
  | .updated => lit "updated_boottime_ms"
  | .uptime => lit "uptime_seconds"
  | .hostname => lit "hostname"
  | .osImage => lit "os_image"
  | .primaryIp => lit "primary_ip"
  | .buildChannel => lit "build_channel"
  | .raucSlot => lit "rauc_slot"
  | .raucImage => lit "rauc_image"
  | .raucBoot => lit "rauc_boot"
  | .clockSynced => lit "clock_synced"

/-- The keys with a number. -/
def SystemKey.isNumber : SystemKey → Bool
  | .updated | .uptime => true
  | _ => false

/-- All of the keys. -/
def SystemKey.all : List SystemKey :=
  [.updated, .uptime, .hostname, .osImage, .primaryIp, .buildChannel, .raucSlot, .raucImage,
    .raucBoot, .clockSynced]

/-- The key with a given text. -/
def systemKeyOf (text : List UInt8) : Option SystemKey := SystemKey.all.find? (·.text = text)

/-- The assignment that a line makes. -/
def systemField (line : List UInt8) : Option (SystemKey × List UInt8) :=
  (strchr 0x3d line).bind fun (text, value) => (systemKeyOf text).map (·, value)

/-- What lines assign, one after the other. -/
def systemLog (lines : List (List UInt8)) : List (SystemKey × List UInt8) :=
  lines.filterMap systemField

/-- The lines of the file behind its header. -/
def systemBody (bytes : List UInt8) : Option (List (List UInt8)) :=
  match tokens 0x0a bytes with
  | [] => none
  | first :: rest => if first = lit "FACEPLATE_SYSTEM_V1" then some rest else none

/-- A valid line: a known key with a safe value, in plain decimal for a number. -/
def ValidLine (line : List UInt8) : Prop :=
  ∃ key value, systemField line = some (key, value) ∧ safeToken value 63 = true ∧
    (key.isNumber = true → ∃ n < 2 ^ 64, Denotes value n)

/-- A line that the loop takes: for a number the scanner decides. -/
def TakenLine (line : List UInt8) : Prop :=
  ∃ key value, systemField line = some (key, value) ∧ safeToken value 63 = true ∧
    (key.isNumber = true → (sourcesParseU64 value).isSome = true)

/-- The last value of a key, cut to the field's buffer. -/
def textOf (log : List (SystemKey × List UInt8)) (key : SystemKey) (cap : ℕ) : List UInt8 :=
  (last key log).elim [] (fit cap)

/-- The last number of a key. -/
def numberOf (log : List (SystemKey × List UInt8)) (key : SystemKey) : ℕ :=
  (last key log).elim 0 digitsValue

/-- All system fields, from the last assignment of each key. -/
def setSystem (log : List (SystemKey × List UInt8)) (ctx : Context) : Context :=
  { ctx with
    hostname := textOf log .hostname 64
    ip := textOf log .primaryIp 48
    image := if (last .osImage log).isSome then textOf log .osImage 64 else textOf log .raucImage 64
    buildChannel := textOf log .buildChannel 24
    uptimeLabel := lit "Uptime " ++ decimal (numberOf log .uptime) ++ lit "s"
    raucSlot := textOf log .raucSlot 32
    raucBoot := textOf log .raucBoot 24
    raucUnhealthy := (last .raucSlot log).isSome &&
      (last .raucBoot log).elim false fun boot => !raucBootIsHealthy boot }

/-- A snapshot that may be shown: every line is valid, and the last time is present
and lies within the stale limit before now. -/
structure ShownAt (now stale : ℕ) (lines : List (List UInt8)) : Prop where
  lines_valid : ∀ line ∈ lines, ValidLine line
  updated : ∃ value n, last .updated (systemLog lines) = some value ∧ Denotes value n ∧
    0 < n ∧ n ≤ now ∧ now - n ≤ stale

/-- The file that `refresh_system` reads for a source. -/
def systemBytes (behind : List UInt8) (fs : FileSystem) (source : Source) :
    Option (List UInt8) :=
  match splitPath source with
  | none => none
  | some (path, file) =>
    match fs path with
    | none => none
    | some dir => readSafeFileAt dir (systemName behind file) source.uid 2048

/-- In a context without system fields, either nothing changes or a snapshot that
may be shown is stored whole. -/
def AllOrNothing (behind : List UInt8) (fs : FileSystem) (now : ℕ) (source : Source) : Prop :=
  ∀ ctx : Context, ctx.hostname = [] → ctx.ip = [] → ctx.image = [] →
    refreshSystem behind fs now source ctx = ctx ∨
    ∃ bytes lines, systemBytes behind fs source = some bytes ∧ systemBody bytes = some lines ∧
      ShownAt now source.staleMs lines ∧
      refreshSystem behind fs now source ctx = setSystem (systemLog lines) ctx

/-- The last time of the log, as the scanner reads it, lies within the stale limit
before now. -/
def Dated (now stale : ℕ) (log : List (SystemKey × List UInt8)) : Prop :=
  ∃ value n, last .updated log = some value ∧ sourcesParseU64 value = some n ∧
    0 < n ∧ n ≤ now ∧ now - n ≤ stale

/-- If the file is taken, its numbers are written in digits. -/
def PlainIfTaken (now stale : ℕ) (bytes : List UInt8) : Prop :=
  ∀ lines, systemBody bytes = some lines → (∀ line ∈ lines, TakenLine line) →
    Dated now stale (systemLog lines) →
    ∀ key value, (key, value) ∈ systemLog lines → key.isNumber = true →
      ∀ c ∈ value, isDigit c = true

theorem refreshSystem_eq {behind : List UInt8} {fs : FileSystem} {source : Source} {ctx : Context}
    (now : ℕ) (hhost : ctx.hostname = []) (hip : ctx.ip = []) (himage : ctx.image = []) :
    refreshSystem behind fs now source ctx = (systemBytes behind fs source).elim ctx fun bytes =>
      refreshSystemFrom bytes now source.staleMs ctx := by
  simp only [refreshSystem, systemBytes, hhost, hip, himage, List.isEmpty_nil, Bool.not_true,
    Bool.or_self, Bool.false_eq_true, if_false]
  cases splitPath source with
  | none => rfl
  | some parts =>
    cases hdir : fs parts.1 with
    | none => simp only [hdir, Option.elim_none]
    | some dir =>
      simp only [hdir]
      cases readSafeFileAt dir (systemName behind parts.2) source.uid 2048 <;> rfl

theorem systemKeyOf_iff {text : List UInt8} {key : SystemKey} :
    systemKeyOf text = some key ↔ text = key.text := by
  constructor
  · intro h
    have hfound := List.find?_some h
    exact (of_decide_eq_true hfound).symm
  · rintro rfl
    cases key <;> decide

/-- What an assignment does to the locals. -/
def assignSystem (values : SystemValues) : SystemKey → List UInt8 → Option SystemValues
  | .updated, value => (sourcesParseU64 value).map ({ values with updated := · })
  | .uptime, value => (sourcesParseU64 value).map ({ values with uptime := · })
  | .hostname, value => some { values with host := fit 64 value }
  | .osImage, value => some { values with os := fit 64 value }
  | .primaryIp, value => some { values with ip := fit 48 value }
  | .buildChannel, value => some { values with channel := fit 24 value }
  | .raucSlot, value => some { values with slot := fit 32 value }
  | .raucImage, value => some { values with image := fit 64 value }
  | .raucBoot, value => some { values with boot := fit 24 value }
  | .clockSynced, _ => some values

/-- The comparisons of `refresh_system` find the key. -/
theorem systemLine_eq (values : SystemValues) (line : List UInt8) :
    systemLine values line = (systemField line).bind fun (key, value) =>
      if safeToken value 63 = true then assignSystem values key value else none := by
  unfold systemLine systemField
  cases strchr 0x3d line with
  | none => rfl
  | some parts =>
    obtain ⟨text, value⟩ := parts
    simp only [Option.bind_some]
    by_cases hsafe : safeToken value 63 = true
    · simp only [hsafe, Bool.not_true, Bool.false_eq_true, if_false]
      cases hkey : systemKeyOf text with
      | none =>
        have hne : ∀ key ∈ SystemKey.all, text ≠ key.text := by
          rintro key - rfl
          rw [systemKeyOf_iff.mpr rfl] at hkey
          exact absurd hkey (by simp)
        simp only [SystemKey.all, List.forall_mem_cons, SystemKey.text] at hne
        simp only [hne, ne_eq, not_false_eq_true, if_false, if_true, Option.map_none,
          Option.bind_none]
      | some key =>
        obtain rfl := systemKeyOf_iff.mp hkey
        simp only [Option.map_some, Option.bind_some, hsafe, if_true]
        cases key <;> simp +decide only [assignSystem, if_true, if_false]
    · simp only [Bool.not_eq_true] at hsafe
      simp only [hsafe, Bool.not_false, if_true]
      cases systemKeyOf text <;> simp [hsafe]

/-- The locals after the lines of a log. -/
def systemValuesOf (log : List (SystemKey × List UInt8)) : SystemValues where
  host := textOf log .hostname 64
  os := textOf log .osImage 64
  ip := textOf log .primaryIp 48
  slot := textOf log .raucSlot 32
  image := textOf log .raucImage 64
  boot := textOf log .raucBoot 24
  channel := textOf log .buildChannel 24
  updated := (last .updated log).elim 0 fun value => (sourcesParseU64 value).getD 0
  uptime := (last .uptime log).elim 0 fun value => (sourcesParseU64 value).getD 0

/-- One line, in terms of the log. -/
theorem systemLine_iff {log : List (SystemKey × List UInt8)} {line : List UInt8}
    {values : SystemValues} :
    systemLine (systemValuesOf log) line = some values ↔
      TakenLine line ∧ values = systemValuesOf (log ++ (systemField line).toList) := by
  rw [systemLine_eq]
  unfold TakenLine
  rcases systemField line with _ | ⟨key, value⟩
  · simp
  have hassign : assignSystem (systemValuesOf log) key value = some values ↔
      (key.isNumber = true → (sourcesParseU64 value).isSome = true) ∧
        values = systemValuesOf (log ++ [(key, value)]) := by
    have hlast : ∀ key', last key' (log ++ [(key, value)]) =
        if key = key' then some value else last key' log := fun key' => last_concat key' log _
    cases key <;>
      simp only [assignSystem, systemValuesOf, textOf, hlast, SystemKey.isNumber, reduceCtorEq,
        if_true, if_false, Option.elim_some, Bool.false_eq_true, false_implies, true_implies,
        true_and, Option.some.injEq, @eq_comm _ values]
    all_goals cases sourcesParseU64 value <;> simp [eq_comm]
  by_cases hsafe : safeToken value 63 = true
  · simp [hsafe, hassign]
  · simp [hsafe]

/-- The loop reads all lines exactly if it takes each, and is then where their log
leads. -/
theorem systemLines_iff {log : List (SystemKey × List UInt8)} {lines : List (List UInt8)}
    {values : SystemValues} :
    systemLines (systemValuesOf log) lines = some values ↔
      (∀ line ∈ lines, TakenLine line) ∧ values = systemValuesOf (log ++ systemLog lines) := by
  induction lines generalizing log with
  | nil => simp [systemLines, systemLog, eq_comm]
  | cons line rest ih =>
    have hlog : log ++ systemLog (line :: rest) =
        (log ++ (systemField line).toList) ++ systemLog rest := by
      cases hfield : systemField line <;> simp [systemLog, hfield]
    simp only [systemLines, Option.bind_eq_some_iff, systemLine_iff, List.forall_mem_cons,
      and_assoc]
    rw [hlog]
    constructor
    · rintro ⟨_, hline, rfl, hrest⟩
      exact ⟨hline, ih.mp hrest⟩
    · rintro ⟨hline, hrest⟩
      exact ⟨_, hline, rfl, ih.mpr hrest⟩

theorem mem_systemLog {lines : List (List UInt8)} {entry : SystemKey × List UInt8}
    (h : entry ∈ systemLog lines) : ∃ line ∈ lines, systemField line = some entry :=
  List.mem_filterMap.mp h

/-- The values of lines that are taken are safe, and their numbers can be read. -/
theorem taken_entry {lines : List (List UInt8)} (htaken : ∀ line ∈ lines, TakenLine line)
    {key : SystemKey} {value : List UInt8} (h : (key, value) ∈ systemLog lines) :
    safeToken value 63 = true ∧ (key.isNumber = true → (sourcesParseU64 value).isSome = true) := by
  obtain ⟨line, hline, hfield⟩ := mem_systemLog h
  obtain ⟨key', value', hfield', hsafe, hnumber⟩ := htaken line hline
  obtain ⟨rfl, rfl⟩ := Prod.mk.inj (Option.some.inj (hfield'.symm.trans hfield))
  exact ⟨hsafe, hnumber⟩

/-- Past the loop only the date decides. -/
theorem refreshSystemFrom_of_taken {bytes : List UInt8} {lines : List (List UInt8)}
    (hbody : systemBody bytes = some lines) (htaken : ∀ line ∈ lines, TakenLine line)
    (now stale : ℕ) (ctx : Context) :
    refreshSystemFrom bytes now stale ctx =
      storeSystem now stale (systemValuesOf (systemLog lines)) ctx := by
  have hlines : systemLines SystemValues.initial lines =
      some (systemValuesOf (systemLog lines)) :=
    (@systemLines_iff [] lines _).mpr ⟨htaken, rfl⟩
  unfold systemBody at hbody
  unfold refreshSystemFrom
  cases htokens : tokens 0x0a bytes with
  | nil => simp [htokens] at hbody
  | cons first rest =>
    rw [htokens] at hbody
    simp only at hbody ⊢
    split_ifs at hbody with hfirst
    obtain rfl := Option.some.inj hbody
    simp only [hfirst, ne_eq, not_true_eq_false, if_false, hlines]

/-- Without a header, or with a line that is refused, nothing changes. -/
theorem refreshSystemFrom_of_refused {bytes : List UInt8}
    (h : ∀ lines, systemBody bytes = some lines → ¬ ∀ line ∈ lines, TakenLine line)
    (now stale : ℕ) (ctx : Context) : refreshSystemFrom bytes now stale ctx = ctx := by
  unfold systemBody at h
  unfold refreshSystemFrom
  cases htokens : tokens 0x0a bytes with
  | nil => rfl
  | cons first rest =>
    rw [htokens] at h
    simp only at h ⊢
    by_cases hfirst : first = lit "FACEPLATE_SYSTEM_V1"
    · simp only [hfirst, if_true, Option.some.injEq, forall_eq'] at h
      simp only [hfirst, ne_eq, not_true_eq_false, if_false]
      cases hlines : systemLines SystemValues.initial rest with
      | none => rfl
      | some values => exact absurd ((@systemLines_iff [] rest values).mp hlines).1 h
    · simp only [ne_eq, hfirst, not_false_eq_true, if_true]

/-- A snapshot that is not dated is not stored. -/
theorem storeSystem_of_not_dated {now stale : ℕ} {log : List (SystemKey × List UInt8)}
    (h : ¬ Dated now stale log) (ctx : Context) :
    storeSystem now stale (systemValuesOf log) ctx = ctx := by
  refine if_pos ?_
  by_contra hdate
  simp only [not_or, Nat.not_lt] at hdate
  obtain ⟨hpos, hpast, hfresh⟩ := hdate
  apply h
  cases hlast : last .updated log with
  | none => simp [systemValuesOf, hlast] at hpos
  | some value =>
    cases hread : sourcesParseU64 value with
    | none => simp [systemValuesOf, hlast, hread] at hpos
    | some n =>
      have hupdated : (systemValuesOf log).updated = n := by
        simp [systemValuesOf, hlast, hread]
      rw [hupdated] at hpos hpast hfresh
      exact ⟨value, n, hlast, hread, Nat.pos_of_ne_zero hpos, hpast, hfresh⟩

@[simp] theorem fit_textOf (log : List (SystemKey × List UInt8)) (key : SystemKey) (cap : ℕ) :
    fit cap (textOf log key cap) = textOf log key cap := by
  refine fit_eq_self ?_
  unfold textOf
  cases last key log with
  | none => exact Nat.zero_le _
  | some value => exact length_fit_le cap value

/-- A safe value leaves something in its buffer. -/
theorem isEmpty_textOf {log : List (SystemKey × List UInt8)} {key : SystemKey} {cap : ℕ}
    (hsafe : ∀ value, (key, value) ∈ log → safeToken value 63 = true) (hcap : 2 ≤ cap) :
    (textOf log key cap).isEmpty = !(last key log).isSome := by
  unfold textOf
  cases hlast : last key log with
  | none => rfl
  | some value =>
    have hvalue := hsafe value (mem_of_last hlast)
    simp only [safeToken, charsOk, Bool.and_eq_true, Bool.not_eq_true',
      List.isEmpty_eq_false_iff] at hvalue
    obtain ⟨⟨hne, -⟩, -⟩ := hvalue
    obtain ⟨cap', rfl⟩ : ∃ cap', cap = cap' + 2 := ⟨cap - 2, by omega⟩
    cases value with
    | nil => exact absurd rfl hne
    | cons c rest => simp [fit]

/-- The copy of a boot state says the same of its health. -/
theorem raucBootIsHealthy_fit (boot : List UInt8) :
    raucBootIsHealthy (fit 24 boot) = raucBootIsHealthy boot := by
  have hsame : ∀ word : List UInt8, word.length < 23 → (fit 24 boot = word ↔ boot = word) := by
    intro word hword
    constructor
    · rintro rfl
      exact (eq_of_length_fit hword).symm
    · rintro rfl
      exact fit_eq_self (Nat.le_of_lt hword)
  simp only [raucBootIsHealthy, hsame (lit "good") (by decide), hsame (lit "ok") (by decide)]

/-- A number of at most 64 bits fits into the label. -/
theorem fit_uptimeLabel {n : ℕ} (h : n < 2 ^ 64) :
    fit 32 (lit "Uptime " ++ decimal n ++ lit "s") = lit "Uptime " ++ decimal n ++ lit "s" := by
  refine fit_eq_self ?_
  have hlen := length_decimal_le h
  have hlabel : (lit "Uptime ").length = 7 := by decide
  have hunit : (lit "s").length = 1 := by decide
  simp only [List.length_append, hlabel, hunit]
  omega

/-- A dated log of safe values and plain numbers is stored as it stands. -/
theorem storeSystem_of_dated {now stale : ℕ} {log : List (SystemKey × List UInt8)}
    (hdated : Dated now stale log)
    (hsafe : ∀ key value, (key, value) ∈ log → safeToken value 63 = true)
    (hplain : ∀ key value, (key, value) ∈ log → key.isNumber = true →
      ∃ n < 2 ^ 64, Denotes value n ∧ sourcesParseU64 value = some n) (ctx : Context) :
    storeSystem now stale (systemValuesOf log) ctx = setSystem log ctx := by
  obtain ⟨value, n, hlast, hread, hpos, hpast, hfresh⟩ := hdated
  have hupdated : (systemValuesOf log).updated = n := by
    simp [systemValuesOf, hlast, hread]
  have huptime : (systemValuesOf log).uptime = numberOf log .uptime ∧
      numberOf log .uptime < 2 ^ 64 := by
    unfold systemValuesOf numberOf
    cases hup : last .uptime log with
    | none => exact ⟨rfl, by decide⟩
    | some text =>
      obtain ⟨m, hm, ⟨-, -, hvalue⟩, hscan⟩ := hplain _ _ (mem_of_last hup) rfl
      refine ⟨?_, ?_⟩
      · simp [hscan, hvalue]
      · rwa [Option.elim_some, hvalue]
  have hboot : (!(systemValuesOf log).boot.isEmpty && !raucBootIsHealthy (systemValuesOf log).boot) =
      (last .raucBoot log).elim false fun boot => !raucBootIsHealthy boot := by
    simp only [systemValuesOf, isEmpty_textOf (fun v hv => hsafe .raucBoot v hv) (by decide : 2 ≤ 24)]
    unfold textOf
    cases last .raucBoot log with
    | none => rfl
    | some boot => simp [raucBootIsHealthy_fit]
  unfold storeSystem
  rw [if_neg (by omega), huptime.1, fit_uptimeLabel huptime.2, Bool.and_assoc, hboot]
  have hos := isEmpty_textOf (fun v hv => hsafe .osImage v hv) (by decide : 2 ≤ 64)
  have hslot := isEmpty_textOf (fun v hv => hsafe .raucSlot v hv) (by decide : 2 ≤ 32)
  simp only [systemValuesOf, setSystem, fit_textOf, hos, hslot, Bool.not_not]
  cases last .osImage log <;> simp

/-- A number that is read and written in digits is below 2 ^ 64. -/
theorem plain_number {value : List UInt8} (hsome : (sourcesParseU64 value).isSome = true)
    (hdigits : ∀ c ∈ value, isDigit c = true) :
    ∃ n < 2 ^ 64, Denotes value n ∧ sourcesParseU64 value = some n := by
  obtain ⟨n, hn⟩ := Option.isSome_iff_exists.mp hsome
  have hdenotes := denotes_of_digits hn hdigits
  refine ⟨n, ?_, hdenotes, hn⟩
  obtain ⟨hne, -, hvalue⟩ := hdenotes
  unfold sourcesParseU64 at hn
  rw [scanUnsigned_of_digits hne hdigits] at hn
  by_cases hlarge : 2 ^ 64 ≤ digitsValue value
  · rw [if_pos hlarge] at hn
    exact absurd hn (by simp)
  · omega

/-- Lines with plain numbers that are taken are valid. -/
theorem validLine_of_taken {lines : List (List UInt8)} {line : List UInt8}
    (hline : line ∈ lines) (htaken : TakenLine line)
    (hplain : ∀ key value, (key, value) ∈ systemLog lines → key.isNumber = true →
      ∀ c ∈ value, isDigit c = true) : ValidLine line := by
  obtain ⟨key, value, hfield, hsafe, hnumber⟩ := htaken
  refine ⟨key, value, hfield, hsafe, fun hkey => ?_⟩
  have hmem : (key, value) ∈ systemLog lines := List.mem_filterMap.mpr ⟨line, hline, hfield⟩
  obtain ⟨n, hn, hdenotes, -⟩ := plain_number (hnumber hkey) (hplain key value hmem hkey)
  exact ⟨n, hn, hdenotes⟩

/-- If the numbers of a file that is taken are plain, it is stored whole or not at
all. -/
theorem refreshSystemFrom_of_plain {now stale : ℕ} {bytes : List UInt8}
    (hplain : PlainIfTaken now stale bytes) (ctx : Context) :
    refreshSystemFrom bytes now stale ctx = ctx ∨
    ∃ lines, systemBody bytes = some lines ∧ ShownAt now stale lines ∧
      refreshSystemFrom bytes now stale ctx = setSystem (systemLog lines) ctx := by
  by_cases htaken : ∃ lines, systemBody bytes = some lines ∧ ∀ line ∈ lines, TakenLine line
  · obtain ⟨lines, hbody, htaken⟩ := htaken
    rw [refreshSystemFrom_of_taken hbody htaken]
    by_cases hdated : Dated now stale (systemLog lines)
    · have hdigits := hplain lines hbody htaken hdated
      have hnumbers : ∀ key value, (key, value) ∈ systemLog lines → key.isNumber = true →
          ∃ n < 2 ^ 64, Denotes value n ∧ sourcesParseU64 value = some n := fun key value hmem hkey =>
        plain_number ((taken_entry htaken hmem).2 hkey) (hdigits key value hmem hkey)
      refine Or.inr ⟨lines, hbody, ⟨fun line hline => ?_, ?_⟩, ?_⟩
      · exact validLine_of_taken hline (htaken line hline) hdigits
      · obtain ⟨value, n, hlast, hread, hrange⟩ := hdated
        obtain ⟨m, -, hdenotes, hscan⟩ := hnumbers _ _ (mem_of_last hlast) rfl
        obtain rfl : m = n := Option.some.inj (hscan.symm.trans hread)
        exact ⟨value, m, hlast, hdenotes, hrange⟩
      · exact storeSystem_of_dated hdated (fun key value hmem => (taken_entry htaken hmem).1)
          hnumbers ctx
    · exact Or.inl (storeSystem_of_not_dated hdated ctx)
  · left
    refine refreshSystemFrom_of_refused (fun lines hbody h => ?_) now stale ctx
    exact htaken ⟨lines, hbody, h⟩

/-- Valid lines have their numbers in digits. -/
theorem ShownAt.plain {now stale : ℕ} {lines : List (List UInt8)} (h : ShownAt now stale lines)
    {key : SystemKey} {value : List UInt8} (hmem : (key, value) ∈ systemLog lines)
    (hkey : key.isNumber = true) : ∀ c ∈ value, isDigit c = true := by
  obtain ⟨line, hline, hfield⟩ := mem_systemLog hmem
  obtain ⟨key', value', hfield', -, hnumber⟩ := h.lines_valid line hline
  obtain ⟨rfl, rfl⟩ := Prod.mk.inj (Option.some.inj (hfield'.symm.trans hfield))
  obtain ⟨n, -, -, hdigits, -⟩ := hnumber hkey
  exact hdigits

/-- A snapshot that is stored shows in a cleared context. -/
theorem storeSystem_cleared_ne {now stale : ℕ} {log : List (SystemKey × List UInt8)}
    (hdated : Dated now stale log) :
    storeSystem now stale (systemValuesOf log) Context.cleared ≠ Context.cleared := by
  obtain ⟨value, n, hlast, hread, hpos, hpast, hfresh⟩ := hdated
  have hupdated : (systemValuesOf log).updated = n := by
    simp [systemValuesOf, hlast, hread]
  unfold storeSystem
  rw [if_neg (by omega)]
  intro h
  have hlabel := congrArg Context.uptimeLabel h
  simp [Context.cleared, lit, fit] at hlabel

/-- A refresh of the system fields is all or nothing exactly if the numbers of a
file that is taken are written in digits. -/
theorem allOrNothing_iff (behind : List UInt8) (fs : FileSystem) (now : ℕ) (source : Source) :
    AllOrNothing behind fs now source ↔
      ∀ bytes, systemBytes behind fs source = some bytes →
        PlainIfTaken now source.staleMs bytes := by
  constructor
  · intro h bytes hbytes lines hbody htaken hdated key value hmem hkey
    have hclear := h Context.cleared rfl rfl rfl
    rw [refreshSystem_eq now rfl rfl rfl, hbytes, Option.elim_some,
      refreshSystemFrom_of_taken hbody htaken] at hclear
    rcases hclear with hsame | ⟨bytes', lines', hbytes', hbody', hshown, -⟩
    · exact absurd hsame (storeSystem_cleared_ne hdated)
    · obtain rfl := Option.some.inj hbytes'
      obtain rfl := Option.some.inj (hbody.symm.trans hbody')
      exact hshown.plain hmem hkey
  · intro h ctx hhost hip himage
    rw [refreshSystem_eq now hhost hip himage]
    cases hbytes : systemBytes behind fs source with
    | none => exact Or.inl rfl
    | some bytes =>
      rcases refreshSystemFrom_of_plain (h bytes hbytes) ctx with hsame | ⟨lines, hbody, hshown, hset⟩
      · exact Or.inl hsame
      · exact Or.inr ⟨bytes, lines, rfl, hbody, hshown, hset⟩

/-- A system file whose time `strtoull` wraps to 5000. -/
def negativeSystemFile : List UInt8 :=
  lit "FACEPLATE_SYSTEM_V1\nhostname=a\nupdated_boottime_ms=-18446744073709546616\n"

/-- A private file of these bytes under every name. -/
def onlyFile (bytes : List UInt8) : FileSystem := fun _ => some fun _ =>
  .opened ⟨some ⟨true, 1, 0, 0o600, bytes.length⟩, bytes, true⟩

/-- It is stored, although its time is no plain number. -/
theorem negativeSystemFile_not_allOrNothing :
    ¬ AllOrNothing [] (onlyFile negativeSystemFile) 6000
      ⟨.system, lit "/run/system", lit "a", 0, 3000, true⟩ := by
  intro h
  rcases h Context.cleared rfl rfl rfl with hsame | ⟨bytes, lines, hbytes, hbody, hshown, -⟩
  · have hhost := congrArg Context.hostname hsame
    exact absurd hhost (by decide +kernel)
  · have hread : systemBytes [] (onlyFile negativeSystemFile)
        ⟨.system, lit "/run/system", lit "a", 0, 3000, true⟩ = some negativeSystemFile := by
      decide +kernel
    obtain rfl := Option.some.inj (hread.symm.trans hbytes)
    have hlines : systemBody negativeSystemFile =
        some [lit "hostname=a", lit "updated_boottime_ms=-18446744073709546616"] := by
      decide +kernel
    obtain rfl := Option.some.inj (hlines.symm.trans hbody)
    have hmem : (SystemKey.updated, lit "-18446744073709546616") ∈
        systemLog [lit "hostname=a", lit "updated_boottime_ms=-18446744073709546616"] := by
      decide +kernel
    exact absurd (hshown.plain hmem rfl 0x2d (by decide)) (by decide)

end Faceplate.Feed
