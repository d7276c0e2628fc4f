import Faceplate.Collector.Tokens

/-!
# From the collector to the display context

A snapshot whose values are all tokens fits into the collector's buffer and is
read back line by line. The reader keeps what it reads only as a whole and cuts
values to the sizes of its own buffers, which are not the collector's.
-/

namespace Faceplate.Collector

open CString Feed

/-- Every value that is written passed the check of its kind. -/
def WrittenOk (i : Inputs) : Prop := ∀ field ∈ fields i, tokenOk field.2 63 = true

/-- The lines whose values are beyond doubt add nothing to the check. -/
theorem writtenOk_iff (i : Inputs) : WrittenOk i ↔
    (i.raucVars.slot ≠ [] → tokenOk i.raucVars.slot 63 = true ∧
      (i.raucVars.image = [] ∨ tokenOk i.raucVars.image 63 = true) ∧
      (i.raucVars.boot = [] ∨ tokenOk i.raucVars.boot 63 = true)) := by
  have hup := tokenOk_decimal i.uptime.toNat_lt
  have hboottime := tokenOk_decimal i.boottime.toNat_lt
  have hsynced : tokenOk (if i.synced = true then lit "yes" else lit "unknown") 63 = true := by
    split_ifs <;> decide
  have hchannel : i.channel ≠ [] → tokenOk i.channel 63 = true := fun hne =>
    tokenOk_mono (by omega) ((channel_cases i).resolve_left hne)
  have hunknown := tokenOk_unknown
  simp only [WrittenOk, fields, List.forall_mem_append, List.forall_mem_cons, List.not_mem_nil,
    false_implies, implies_true, and_true, tokenOk_host, tokenOk_image, tokenOk_ip, hup, hsynced,
    hboottime, true_and]
  by_cases hslot : i.raucVars.slot = []
  · simpa [hslot] using hchannel
  · by_cases himage : i.raucVars.image = [] <;> by_cases hboot : i.raucVars.boot = [] <;>
      simp +contextual [hslot, himage, hboot, hunknown, hchannel]

/-- The keys of the snapshot. -/
def systemKeys : List (List UInt8) :=
  [lit "hostname", lit "os_image", lit "uptime_seconds", lit "clock_synced", lit "primary_ip",
    lit "build_channel", lit "rauc_slot", lit "rauc_image", lit "rauc_boot",
    lit "updated_boottime_ms"]

theorem key_mem_systemKeys (i : Inputs) : ∀ field ∈ fields i, field.1 ∈ systemKeys := by
  unfold fields systemKeys
  split_ifs <;> simp

theorem length_fields_le (i : Inputs) : (fields i).length ≤ 10 := by
  unfold fields
  split_ifs <;> simp

theorem systemKeys_ok : ∀ key ∈ systemKeys,
    key.length ≤ 19 ∧ 0x3d ∉ key ∧ ∀ c ∈ key, c ≠ 0x0a ∧ c ≠ 0 := by
  decide +kernel

theorem length_flatMap_le (bound : ℕ) (lines : List (List UInt8))
    (h : ∀ l ∈ lines, l.length ≤ bound) :
    (lines.flatMap (· ++ [0x0a])).length ≤ (bound + 1) * lines.length := by
  induction lines with
  | nil => simp
  | cons l rest ih =>
    have hl := h l List.mem_cons_self
    have hrest := ih fun m hm => h m (List.mem_cons_of_mem _ hm)
    rw [List.flatMap_cons, List.length_append, List.length_append, List.length_singleton,
      List.length_cons, Nat.mul_succ]
    omega

/-- A snapshot of tokens fits into the buffer. -/
theorem length_snapshot {i : Inputs} (h : WrittenOk i) :
    ((snapshotLines i).flatMap (· ++ [0x0a])).length < 1024 := by
  have hlines : ∀ l ∈ (fields i).map fieldLine, l.length ≤ 83 := by
    intro l hl
    obtain ⟨field, hfield, rfl⟩ := List.mem_map.mp hl
    have hkey := (systemKeys_ok _ (key_mem_systemKeys i field hfield)).1
    have hvalue := (tokenOk_iff.mp (h field hfield)).2.1
    simp only [fieldLine, List.length_append, List.length_cons]
    omega
  have hfields := length_fields_le i
  have hheader : (lit "FACEPLATE_SYSTEM_V1").length = 19 := rfl
  have hbody := length_flatMap_le 83 _ hlines
  rw [List.length_map] at hbody
  rw [snapshotLines, List.flatMap_cons, List.length_append, List.length_append, hheader,
    List.length_singleton]
  omega

theorem main_of_writtenOk {i : Inputs} (h : WrittenOk i) :
    main i = some ((snapshotLines i).flatMap (· ++ [0x0a])) := by
  unfold main
  rw [if_neg (Nat.not_le.mpr (length_snapshot h))]

/-- It is read back line by line. -/
theorem tokens_snapshot {i : Inputs} (h : WrittenOk i) :
    tokens 0x0a ((snapshotLines i).flatMap (· ++ [0x0a])) = snapshotLines i := by
  have hheader : ∀ c ∈ lit "FACEPLATE_SYSTEM_V1", c ≠ 0x0a ∧ c ≠ 0 := by decide +kernel
  refine tokens_flatMap (by decide) ?_ ?_
  · intro l hl
    rcases List.mem_cons.mp hl with rfl | hl
    · decide
    · obtain ⟨field, -, rfl⟩ := List.mem_map.mp hl
      simp [fieldLine]
  · intro l hl
    rcases List.mem_cons.mp hl with rfl | hl
    · exact hheader
    · obtain ⟨field, hfield, rfl⟩ := List.mem_map.mp hl
      have hkey := (systemKeys_ok _ (key_mem_systemKeys i field hfield)).2.2
      have hvalue := tokenOk_line (h field hfield)
      intro c hc
      rcases List.mem_append.mp hc with hc | hc
      · exact hkey c hc
      · rcases List.mem_cons.mp hc with rfl | hc
        · decide
        · exact hvalue c hc

theorem systemLines_append (values : SystemValues) (xs ys : List (List UInt8)) :
    systemLines values (xs ++ ys) = (systemLines values xs).bind (systemLines · ys) := by
  induction xs generalizing values with
  | nil => rfl
  | cons x xs ih =>
    simp only [List.cons_append, systemLines]
    cases systemLine values x with
    | none => rfl
    | some next => exact ih next

theorem sourcesParseU64_decimal {n : ℕ} (h : n < 2 ^ 64) :
    sourcesParseU64 (decimal n) = some n := by
  simp [sourcesParseU64, scanUnsigned_decimal h]

theorem splitField {key : List UInt8} (hkey : 0x3d ∉ key) (value : List UInt8) :
    strchr 0x3d (fieldLine (key, value)) = some (key, value) :=
  strchr_append hkey value

/-- What the reader has collected from the lines of a snapshot. -/
def readValues (i : Inputs) : SystemValues where
  host := fit 64 i.host
  os := fit 64 i.image
  ip := fit 48 i.ip
  slot := fit 32 i.raucVars.slot
  image := if i.raucVars.slot.isEmpty then [] else fit 64 i.raucVars.image
  boot :=
    if i.raucVars.slot.isEmpty then []
    else fit 24 (if i.raucVars.boot.isEmpty then lit "unknown" else i.raucVars.boot)
  channel := fit 24 i.channel
  updated := i.boottime.toNat
  uptime := i.uptime.toNat

section ReadBack

variable {values : SystemValues}

/-- The five lines that are always there. -/
theorem systemLines_base {host os ip synced : List UInt8} {uptime : ℕ}
    (hhost : tokenOk host 63 = true) (hos : tokenOk os 63 = true) (hip : tokenOk ip 63 = true)
    (hsynced : tokenOk synced 63 = true) (huptime : uptime < 2 ^ 64) :
    systemLines values ([(lit "hostname", host), (lit "os_image", os),
      (lit "uptime_seconds", decimal uptime), (lit "clock_synced", synced),
      (lit "primary_ip", ip)].map fieldLine) =
      some { values with
        host := fit 64 host, os := fit 64 os, uptime := uptime, ip := fit 48 ip } := by
  have hdecimal := tokenOk_decimal huptime
  rw [tokenOk_eq_safeToken] at hhost hos hip hsynced hdecimal
  simp +decide [systemLines, systemLine, splitField, hhost, hos, hip, hsynced, hdecimal,
    sourcesParseU64_decimal huptime]

/-- The optional line of the build channel. -/
theorem systemLines_channel {channel : List UInt8} (hinitial : values.channel = [])
    (hchannel : channel ≠ [] → tokenOk channel 63 = true) :
    systemLines values ((if channel.isEmpty then []
      else [(lit "build_channel", channel)]).map fieldLine) =
      some { values with channel := fit 24 channel } := by
  rw [tokenOk_eq_safeToken] at hchannel
  by_cases hempty : channel = []
  · obtain ⟨host, os, ip, slot, image, boot, stored, updated, uptime⟩ := values
    obtain rfl : stored = [] := hinitial
    simp [hempty, systemLines, fit]
  · simp +decide [hempty, systemLines, systemLine, splitField, hchannel hempty]

/-- The optional lines of the slot, its image and its boot status. -/
theorem systemLines_rauc {slot image boot : List UInt8} (hslot : values.slot = [])
    (himage : values.image = []) (hboot : values.boot = [])
    (hok : slot ≠ [] → tokenOk slot 63 = true ∧ (image = [] ∨ tokenOk image 63 = true) ∧
      (boot = [] ∨ tokenOk boot 63 = true)) :
    systemLines values ((if slot.isEmpty then []
      else [(lit "rauc_slot", slot)] ++
        (if image.isEmpty then [] else [(lit "rauc_image", image)]) ++
        [(lit "rauc_boot", if boot.isEmpty then lit "unknown" else boot)]).map fieldLine) =
      some { values with
        slot := fit 32 slot
        image := if slot.isEmpty then [] else fit 64 image
        boot :=
          if slot.isEmpty then [] else fit 24 (if boot.isEmpty then lit "unknown" else boot) } := by
  have hunknown : safeToken (lit "unknown") 63 = true := by decide
  simp only [tokenOk_eq_safeToken] at hok
  by_cases hempty : slot = []
  · obtain ⟨host, os, ip, slot', image', boot', channel, updated, uptime⟩ := values
    obtain rfl : slot' = [] := hslot
    obtain rfl : image' = [] := himage
    obtain rfl : boot' = [] := hboot
    simp [hempty, systemLines, fit]
  · obtain ⟨hslotOk, himageOk, hbootOk⟩ := hok hempty
    have hbootValue : safeToken (if boot = [] then lit "unknown" else boot) 63 = true := by
      by_cases hnone : boot = []
      · simp [hnone, hunknown]
      · simpa [hnone] using hbootOk.resolve_left hnone
    by_cases hnone : image = []
    · simp +decide [hempty, hnone, systemLines, systemLine, splitField, hslotOk, hbootValue, fit,
        himage]
    · simp +decide [hempty, hnone, systemLines, systemLine, splitField, hslotOk, hbootValue,
        himageOk.resolve_left hnone]

/-- The last line. -/
theorem systemLines_updated {updated : ℕ} (h : updated < 2 ^ 64) :
    systemLines values ([(lit "updated_boottime_ms", decimal updated)].map fieldLine) =
      some { values with updated := updated } := by
  have hdecimal := tokenOk_decimal h
  rw [tokenOk_eq_safeToken] at hdecimal
  simp +decide [systemLines, systemLine, splitField, hdecimal, sourcesParseU64_decimal h]

end ReadBack

/-- The reader accepts every line of a snapshot of tokens. -/
theorem systemLines_snapshot {i : Inputs} (h : WrittenOk i) :
    systemLines SystemValues.initial ((fields i).map fieldLine) = some (readValues i) := by
  have hsynced : tokenOk (if i.synced = true then lit "yes" else lit "unknown") 63 = true := by
    split_ifs <;> decide
  have hchannel : i.channel ≠ [] → tokenOk i.channel 63 = true := fun hne =>
    tokenOk_mono (by omega) ((channel_cases i).resolve_left hne)
  rw [fields, List.map_append, List.map_append, List.map_append, systemLines_append,
    systemLines_append, systemLines_append,
    systemLines_base (tokenOk_host i) (tokenOk_image i) (tokenOk_ip i) hsynced i.uptime.toNat_lt,
    Option.bind_some, systemLines_channel rfl hchannel, Option.bind_some,
    systemLines_rauc rfl rfl rfl ((writtenOk_iff i).mp h), Option.bind_some,
    systemLines_updated i.boottime.toNat_lt]
  rfl

/-- The directory the collector writes to. -/
def outputDir : List UInt8 := lit "/run/faceplate-system"

/-- The snapshot as `write_snapshot` leaves it: a regular file of the collector's
user with mode 0640. -/
def snapshotFile (uid : ℕ) (data : List UInt8) : File where
  stat := some ⟨true, 1, uid, 0o640, data.length⟩
  data := data
  eof := true

/-- A file system in which the snapshot has been written. -/
def snapshotFs (uid : ℕ) (data : List UInt8) : FileSystem := fun path =>
  if path = outputDir then
    some fun name => if name = lit "status" then .opened (snapshotFile uid data) else .missing
  else none

/-- The system source that names the collector's file. -/
def systemSource (uid stale : ℕ) : Source where
  kind := .system
  path := outputDir ++ lit "/status"
  user := lit "faceplate"
  uid := uid
  staleMs := stale
  ready := true

/-- The reader gets the bytes the collector wrote. -/
theorem refreshSystem_snapshot {data : List UInt8} (hne : data ≠ []) (hlen : data.length < 1024)
    (behind : List UInt8) (uid now stale : ℕ) :
    refreshSystem behind (snapshotFs uid data) now (systemSource uid stale) Context.cleared =
      refreshSystemFrom data now stale Context.cleared := by
  have hpos : 0 < data.length := List.length_pos_of_ne_nil hne
  have htake : data.take (2048 - 1) = data := List.take_of_length_le (by omega)
  have hread : readSafeFileAt
      (fun name => if name = lit "status" then .opened (snapshotFile uid data) else .missing)
      (lit "status") uid 2048 = some data := by
    simp only [readSafeFileAt, if_true, snapshotFile, htake]
    rw [if_pos]
    refine ⟨trivial, trivial, trivial, by decide, by omega, by omega, hne, trivial⟩
  have hdir : snapshotFs uid data outputDir = some fun name =>
      if name = lit "status" then .opened (snapshotFile uid data) else .missing := by
    simp [snapshotFs]
  have hsplit : splitPath (systemSource uid stale) = some (outputDir, lit "status") := rfl
  exact refreshSystem_of_read ⟨rfl, rfl, rfl⟩ hsplit hdir hread

/-- A snapshot dated like this is neither from the future nor stale. -/
def Fresh (updated now stale : ℕ) : Prop := 0 < updated ∧ updated ≤ now ∧ now - updated ≤ stale

/-- A snapshot of tokens is read as a whole. -/
theorem refresh_of_writtenOk {i : Inputs} (h : WrittenOk i) (now stale : ℕ) :
    refreshSystemFrom ((snapshotLines i).flatMap (· ++ [0x0a])) now stale Context.cleared =
      storeSystem now stale (readValues i) Context.cleared := by
  rw [refreshSystemFrom, tokens_snapshot h, snapshotLines]
  simp [systemLines_snapshot h]

end Faceplate.Collector
