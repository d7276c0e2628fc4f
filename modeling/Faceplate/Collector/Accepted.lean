import Mathlib.Data.List.TakeDrop
import Faceplate.Collector.RoundTrip

/-!
# What the collector accepted

The values the context should hold are those that passed the collector's checks.
They differ from the collector's variables where `json_token_in` has filled a
buffer with a string it then refused.
-/

namespace Faceplate.Collector

open CString Feed

/-- A string that `json_token_in` finds and lets through. -/
def accepted (raw : Option (List UInt8)) (cap : ℕ) : Option (List UInt8) :=
  raw.filter (tokenOk · (cap - 1))

/-- The accepted name of the booted slot: the top-level one, else the one in the
booted slot's object. -/
def acceptedSlotIn (json : List UInt8) : List UInt8 :=
  match accepted (jsonString json (lit "booted") 32) 32 with
  | some slot => slot
  | none =>
    match raucBootedSlotRange json with
    | none => []
    | some obj => (accepted (jsonString obj (lit "bootname") 32) 32).getD []

/-- The accepted boot status of the booted slot, or its default. -/
def acceptedBootIn (json : List UInt8) : List UInt8 :=
  match raucBootedSlotRange json with
  | none => lit "unknown"
  | some obj => (accepted (jsonString obj (lit "boot_status") 24) 24).getD (lit "unknown")

/-- The accepted slot name, empty if there is none. -/
def acceptedSlot (output : Option (List UInt8)) : List UInt8 :=
  match output with
  | none => []
  | some output => if output.isEmpty then [] else acceptedSlotIn (raucText output)

/-- The accepted boot status that goes with a slot; without a slot there is none. -/
def acceptedBoot (output : Option (List UInt8)) : List UInt8 :=
  match output with
  | none => []
  | some output =>
    if output.isEmpty ∨ acceptedSlotIn (raucText output) = [] then []
    else acceptedBootIn (raucText output)

/-- The snapshot is written, every value in it passed its check, and the context
read from it holds exactly the accepted values, whatever lies behind the name of
the file in memory. -/
def RoundTrips (i : Inputs) (uid now stale : ℕ) : Prop :=
  WrittenOk i ∧ ∃ data, main i = some data ∧ ∀ behind,
    let ctx :=
      refreshSystem behind (snapshotFs uid data) now (systemSource uid stale) Context.cleared
    ctx.hostname = i.host ∧ ctx.ip = i.ip ∧ ctx.image = i.image ∧ ctx.buildChannel = i.channel ∧
      ctx.raucSlot = acceptedSlot i.rauc ∧ ctx.raucBoot = acceptedBoot i.rauc

/-- A string that leaves no refused value behind: it is missing, empty or a token. -/
def Unspoiled (raw : Option (List UInt8)) : Prop := ∀ v ∈ raw, v = [] ∨ tokenOk v 63 = true

instance (raw : Option (List UInt8)) : Decidable (Unspoiled raw) :=
  inferInstanceAs (Decidable (∀ v ∈ raw, v = [] ∨ tokenOk v 63 = true))

/-- The strings of the booted slot's object that the snapshot takes over are
unspoiled: the boot name if there is no top-level one, and the version and boot
status if there is a slot name to write them under. -/
def RaucTextFits (json : List UInt8) : Prop :=
  ∀ obj ∈ raucBootedSlotRange json,
    (accepted (jsonString json (lit "booted") 32) 32 = none →
      Unspoiled (jsonString obj (lit "bootname") 32)) ∧
    (acceptedSlotIn json ≠ [] →
      Unspoiled (jsonString obj (lit "version") 64) ∧
        Unspoiled (jsonString obj (lit "boot_status") 24))

instance (json : List UInt8) : Decidable (RaucTextFits json) :=
  inferInstanceAs (Decidable (∀ obj ∈ raucBootedSlotRange json,
    (accepted (jsonString json (lit "booted") 32) 32 = none →
      Unspoiled (jsonString obj (lit "bootname") 32)) ∧
    (acceptedSlotIn json ≠ [] →
      Unspoiled (jsonString obj (lit "version") 64) ∧
        Unspoiled (jsonString obj (lit "boot_status") 24))))

/-- The same for the output of the command. -/
def RaucFits (output : Option (List UInt8)) : Prop :=
  ∀ text ∈ output, text ≠ [] → RaucTextFits (raucText text)

/-- The build channel, if it is a token for the collector, is short enough for
the reader. -/
def ChannelFits (file : Option (List UInt8)) : Prop :=
  ∀ content ∈ file, content ≠ [] →
    let line := cutLine (cstr (fgets 64 content).1)
    tokenOk line 31 = true → line.length ≤ 23

theorem length_of_jsonString {text key v : List UInt8} {cap : ℕ}
    (h : jsonString text key cap = some v) : v.length < cap := by
  unfold jsonString at h
  cases hfind : jsonFind (lit "\"" ++ key ++ lit "\":\"") text with
  | none => simp only [hfind, reduceCtorEq] at h
  | some found =>
    cases hquote : strchr 0x22 found with
    | none => simp only [hfind, hquote, reduceCtorEq] at h
    | some parts =>
      simp only [hfind, hquote] at h
      split_ifs at h with hlong
      rw [← Option.some.inj h]
      omega

/-- In a buffer of `json_token_in` the check for 63 characters is the check for
as many as fit. -/
theorem tokenOk_of_jsonString {text key v : List UInt8} {cap : ℕ} (hcap : cap ≤ 64)
    (h : jsonString text key cap = some v) : tokenOk v (cap - 1) = tokenOk v 63 := by
  have hlen := length_of_jsonString h
  rw [Bool.eq_iff_iff]
  exact ⟨tokenOk_mono (by omega), tokenOk_of_length_le (by omega)⟩

theorem jsonTokenIn_empty (text key : List UInt8) (cap : ℕ) :
    jsonTokenIn text key [] cap =
      ((accepted (jsonString text key cap) cap).isSome, (jsonString text key cap).getD []) := by
  unfold jsonTokenIn accepted
  cases jsonString text key cap with
  | none => rfl
  | some v => cases h : tokenOk v (cap - 1) <;> simp [Option.filter, h]

theorem accepted_some {raw : Option (List UInt8)} {cap : ℕ} {v : List UInt8}
    (h : accepted raw cap = some v) : raw = some v ∧ tokenOk v (cap - 1) = true :=
  Option.filter_eq_some_iff.mp h

theorem not_tokenOk_nil (max : ℕ) : tokenOk [] max = false := by
  simp [tokenOk, charsOk]

theorem unspoiled_iff {raw : Option (List UInt8)} :
    Unspoiled raw ↔ raw.getD [] = [] ∨ tokenOk (raw.getD []) 63 = true := by
  cases raw <;> simp [Unspoiled]

/-- An unspoiled string is accepted or empty. -/
theorem accepted_of_unspoiled {text key : List UInt8} {cap : ℕ} (hcap : cap ≤ 64)
    (h : Unspoiled (jsonString text key cap)) (d : List UInt8) :
    (accepted (jsonString text key cap) cap).getD d =
      if ((jsonString text key cap).getD []).isEmpty then d
      else (jsonString text key cap).getD [] := by
  cases hraw : jsonString text key cap with
  | none => rfl
  | some v =>
    have hsame := tokenOk_of_jsonString hcap hraw
    rcases h v hraw with rfl | hok
    · simp [accepted, Option.filter, not_tokenOk_nil]
    · have hne := (tokenOk_iff.mp hok).1
      simp [accepted, Option.filter, hsame, hok, hne]

/-- A spoiled string stays in its buffer. -/
theorem spoiled_ne_nil {raw : Option (List UInt8)} (h : ¬ Unspoiled raw) :
    raw.getD [] ≠ [] ∧ tokenOk (raw.getD []) 63 ≠ true :=
  not_or.mp fun hor => h (unspoiled_iff.mpr hor)

/-- The variables of a run of the command, in terms of the strings found. -/
theorem raucParse_eq (json : List UInt8) :
    raucParse json =
      let top := (accepted (jsonString json (lit "booted") 32) 32).getD []
      match raucBootedSlotRange json with
      | none => ⟨top, [], []⟩
      | some obj =>
        ⟨if top.isEmpty then (jsonString obj (lit "bootname") 32).getD [] else top,
          (jsonString obj (lit "version") 64).getD [],
          (jsonString obj (lit "boot_status") 24).getD []⟩ := by
  have htop : (if (accepted (jsonString json (lit "booted") 32) 32).isSome = true then
      (jsonString json (lit "booted") 32).getD [] else []) =
      (accepted (jsonString json (lit "booted") 32) 32).getD [] := by
    cases h : accepted (jsonString json (lit "booted") 32) 32 with
    | none => rfl
    | some v => simp [(accepted_some h).1]
  unfold raucParse
  simp only [jsonTokenIn_empty, htop]
  cases raucBootedSlotRange json with
  | none => rfl
  | some obj =>
    simp only
    split_ifs with hempty
    · rw [List.isEmpty_iff.mp hempty]
      simp [jsonTokenIn_empty]
    · rfl

theorem accepted_ne_nil {raw : Option (List UInt8)} {cap : ℕ} {v : List UInt8}
    (h : accepted raw cap = some v) : v ≠ [] :=
  (tokenOk_iff.mp (accepted_some h).2).1

/-- Unspoiled strings leave the accepted slot name in the buffer. -/
theorem slot_of_fits {json : List UInt8} (h : RaucTextFits json) :
    (raucParse json).slot = acceptedSlotIn json := by
  rw [raucParse_eq]
  unfold acceptedSlotIn
  cases hrange : raucBootedSlotRange json with
  | none => cases accepted (jsonString json (lit "booted") 32) 32 <;> rfl
  | some obj =>
    cases htop : accepted (jsonString json (lit "booted") 32) 32 with
    | some v => simp [accepted_ne_nil htop]
    | none =>
      have hnamed := accepted_of_unspoiled (by omega) ((h obj hrange).1 htop) []
      simp only [Option.getD_none, List.isEmpty_nil, if_true, hnamed]
      split_ifs with hempty
      · exact List.isEmpty_iff.mp hempty
      · rfl

/-- The values written for a slot are tokens exactly if its strings are unspoiled. -/
theorem raucParse_ok_iff (json : List UInt8) :
    ((raucParse json).slot ≠ [] → tokenOk (raucParse json).slot 63 = true ∧
      ((raucParse json).image = [] ∨ tokenOk (raucParse json).image 63 = true) ∧
      ((raucParse json).boot = [] ∨ tokenOk (raucParse json).boot 63 = true)) ↔
      RaucTextFits json := by
  rw [raucParse_eq]
  cases hrange : raucBootedSlotRange json with
  | none =>
    refine iff_of_true (fun hne => ?_) (by simp [RaucTextFits, hrange])
    cases htop : accepted (jsonString json (lit "booted") 32) 32 with
    | none => simp [htop] at hne
    | some v => simpa using tokenOk_mono (by omega) (accepted_some htop).2
  | some obj =>
    simp only [RaucTextFits, hrange, Option.mem_some_iff, forall_eq', acceptedSlotIn]
    cases htop : accepted (jsonString json (lit "booted") 32) 32 with
    | some v =>
      have hne := accepted_ne_nil htop
      have hok : tokenOk v 63 = true := tokenOk_mono (by omega) (accepted_some htop).2
      simp [hne, hok, unspoiled_iff]
    | none =>
      simp only [Option.getD_none, List.isEmpty_nil, if_true, forall_const]
      by_cases hnamed : Unspoiled (jsonString obj (lit "bootname") 32)
      · have hslot := accepted_of_unspoiled (by omega) hnamed []
        by_cases hempty : (jsonString obj (lit "bootname") 32).getD [] = []
        · simp [hslot, hempty, hnamed]
        · have hok := (unspoiled_iff.mp hnamed).resolve_left hempty
          simp [hslot, hempty, hnamed, hok, unspoiled_iff]
      · obtain ⟨hne, hbad⟩ := spoiled_ne_nil hnamed
        simp [hne, hbad, hnamed]

/-- The value of the boot status line is the accepted one. -/
theorem boot_of_fits {json : List UInt8} (h : RaucTextFits json)
    (hslot : acceptedSlotIn json ≠ []) :
    (if (raucParse json).boot.isEmpty then lit "unknown" else (raucParse json).boot) =
      acceptedBootIn json := by
  rw [raucParse_eq]
  unfold acceptedBootIn
  cases hrange : raucBootedSlotRange json with
  | none => rfl
  | some obj =>
    have hboot := ((h obj hrange).2 hslot).2
    exact (accepted_of_unspoiled (by omega) hboot (lit "unknown")).symm

/-- All written values are tokens exactly if the output of the command fits. -/
theorem writtenOk_iff_raucFits (i : Inputs) : WrittenOk i ↔ RaucFits i.rauc := by
  rw [writtenOk_iff]
  unfold Inputs.raucVars raucStatus RaucFits
  cases i.rauc with
  | none => simp
  | some output =>
    by_cases hempty : output = []
    · simp [hempty]
    · simpa [hempty] using raucParse_ok_iff (raucText output)

theorem raucVars_of_fits {i : Inputs} (h : RaucFits i.rauc) :
    i.raucVars.slot = acceptedSlot i.rauc ∧
      (if i.raucVars.slot.isEmpty then []
        else if i.raucVars.boot.isEmpty then lit "unknown" else i.raucVars.boot) =
        acceptedBoot i.rauc := by
  unfold Inputs.raucVars raucStatus acceptedSlot acceptedBoot
  cases hrauc : i.rauc with
  | none => exact ⟨rfl, rfl⟩
  | some output =>
    by_cases hempty : output = []
    · simp [hempty]
    · have hfits := h output hrauc hempty
      have hslot := slot_of_fits hfits
      simp only [List.isEmpty_iff, hempty, if_false, hslot, false_or]
      refine ⟨trivial, ?_⟩
      by_cases hnone : acceptedSlotIn (raucText output) = []
      · simp [hnone]
      · simpa [hnone] using boot_of_fits hfits hnone

/-- The build channel is kept whole exactly if it fits. -/
theorem channel_fits_iff (i : Inputs) :
    fit 24 i.channel = i.channel ↔ ChannelFits i.channelFile := by
  have hfit : fit 24 i.channel = i.channel ↔ i.channel.length ≤ 23 := by
    rw [fit, List.take_eq_self_iff]
  rw [hfit]
  unfold Inputs.channel buildChannel ChannelFits store
  cases i.channelFile with
  | none => simp
  | some content =>
    by_cases hempty : content = []
    · simp [hempty]
    · simp only [List.isEmpty_iff, hempty, if_false, Option.mem_some_iff, forall_eq', ne_eq,
        not_false_eq_true, forall_const]
      by_cases hok : tokenOk (cutLine (cstr (fgets 64 content).1)) 31 = true
      · have hlen := (tokenOk_iff.mp hok).2.1
        rw [if_pos ⟨hok, by omega⟩]
        simp [hok]
      · rw [if_neg fun h => hok h.1]
        simp [hok]

theorem length_of_accepted {raw : Option (List UInt8)} {cap : ℕ} {v : List UInt8}
    (h : accepted raw cap = some v) : v.length ≤ cap - 1 :=
  (tokenOk_iff.mp (accepted_some h).2).2.1

theorem length_acceptedSlot (output : Option (List UInt8)) : (acceptedSlot output).length ≤ 31 := by
  unfold acceptedSlot acceptedSlotIn
  cases output with
  | none => simp
  | some output =>
    simp only
    split_ifs with hempty
    · simp
    · cases htop : accepted (jsonString (raucText output) (lit "booted") 32) 32 with
      | some v => exact length_of_accepted htop
      | none =>
        cases raucBootedSlotRange (raucText output) with
        | none => simp
        | some obj =>
          cases hnamed : accepted (jsonString obj (lit "bootname") 32) 32 with
          | none => simp [hnamed]
          | some v => simpa [hnamed] using length_of_accepted hnamed

theorem length_acceptedBoot (output : Option (List UInt8)) : (acceptedBoot output).length ≤ 23 := by
  have hunknown : (lit "unknown").length ≤ 23 := by decide
  unfold acceptedBoot acceptedBootIn
  cases output with
  | none => simp
  | some output =>
    simp only
    split_ifs with hempty
    · simp
    · cases raucBootedSlotRange (raucText output) with
      | none => exact hunknown
      | some obj =>
        cases hboot : accepted (jsonString obj (lit "boot_status") 24) 24 with
        | none => simpa [hboot] using hunknown
        | some v => simpa [hboot] using length_of_accepted hboot

theorem fit_fit (cap : ℕ) (s : List UInt8) : fit cap (fit cap s) = fit cap s := by
  simp [fit, List.take_take]

theorem fit_of_tokenOk {s : List UInt8} (h : tokenOk s 63 = true) : fit 64 s = s :=
  fit_eq_self (tokenOk_iff.mp h).2.1

/-- What the reader stores from a fresh snapshot of tokens. -/
theorem storeSystem_fresh {i : Inputs} (h : RaucFits i.rauc) {now stale : ℕ}
    (hfresh : Fresh i.boottime.toNat now stale) :
    let ctx := storeSystem now stale (readValues i) Context.cleared
    ctx.hostname = i.host ∧ ctx.ip = i.ip ∧ ctx.image = i.image ∧
      ctx.buildChannel = fit 24 i.channel ∧ ctx.raucSlot = acceptedSlot i.rauc ∧
      ctx.raucBoot = acceptedBoot i.rauc := by
  obtain ⟨hpos, hpast, hlate⟩ := hfresh
  have hdate : ¬ (i.boottime.toNat = 0 ∨ now < i.boottime.toNat ∨
      stale < now - i.boottime.toNat) := by
    omega
  have himage := (tokenOk_iff.mp (tokenOk_image i)).1
  obtain ⟨hslot, hboot⟩ := raucVars_of_fits h
  have hslotLen := length_acceptedSlot i.rauc
  have hbootLen := length_acceptedBoot i.rauc
  simp only [storeSystem, readValues, hdate, if_false, fit_fit]
  refine ⟨fit_of_tokenOk (tokenOk_host i), fit_eq_self (length_ip i), ?_, trivial, ?_, ?_⟩
  · simp [fit_of_tokenOk (tokenOk_image i), himage]
  · rw [hslot]
    exact fit_eq_self hslotLen
  · rw [← hboot] at hbootLen ⊢
    by_cases hnone : i.raucVars.slot.isEmpty = true
    · simp [hnone, fit]
    · rw [if_neg hnone] at hbootLen ⊢
      rw [if_neg hnone, fit_fit]
      exact fit_eq_self hbootLen

/-- The round trip of a fresh snapshot: the context holds exactly what the
collector accepted if and only if the build channel is short enough and the
output of the command leaves no refused value behind. -/
theorem roundTrips_iff (i : Inputs) (uid : ℕ) {now stale : ℕ}
    (hfresh : Fresh i.boottime.toNat now stale) :
    RoundTrips i uid now stale ↔ ChannelFits i.channelFile ∧ RaucFits i.rauc := by
  have hread (h : RaucFits i.rauc) (behind : List UInt8) (uid : ℕ) :
      refreshSystem behind (snapshotFs uid ((snapshotLines i).flatMap (· ++ [0x0a]))) now
        (systemSource uid stale) Context.cleared =
        storeSystem now stale (readValues i) Context.cleared := by
    have hwritten := (writtenOk_iff_raucFits i).mpr h
    have hne : (snapshotLines i).flatMap (· ++ [0x0a]) ≠ [] := by
      simp [snapshotLines]
    rw [refreshSystem_snapshot hne (length_snapshot hwritten),
      refresh_of_writtenOk hwritten]
  constructor
  · rintro ⟨hwritten, data, hdata, hctx⟩
    obtain ⟨-, -, -, hchannel, -⟩ := hctx []
    have hrauc := (writtenOk_iff_raucFits i).mp hwritten
    obtain rfl := Option.some.inj ((main_of_writtenOk hwritten).symm.trans hdata)
    rw [hread hrauc] at hchannel
    obtain ⟨-, -, -, hstored, -⟩ := storeSystem_fresh hrauc hfresh
    exact ⟨(channel_fits_iff i).mp (hstored.symm.trans hchannel), hrauc⟩
  · rintro ⟨hchannel, hrauc⟩
    have hwritten := (writtenOk_iff_raucFits i).mpr hrauc
    refine ⟨hwritten, _, main_of_writtenOk hwritten, fun behind => ?_⟩
    rw [hread hrauc]
    obtain ⟨hhost, hip, himage, hstored, hslot, hboot⟩ := storeSystem_fresh hrauc hfresh
    exact ⟨hhost, hip, himage, hstored.trans ((channel_fits_iff i).mpr hchannel), hslot, hboot⟩

/-- A device with a system, a build channel, an address and a booted slot, five seconds up. -/
def deviceInputs : Inputs where
  osRelease := some (lit "ID=linux\nVERSION_ID=\"12.4\"\n")
  channelFile := some (lit "stable\n")
  interfaces := some [⟨lit "lo", some (127, 0, 0, 1)⟩, ⟨lit "eth0", some (10, 0, 0, 7)⟩]
  hostname := some (lit "kiosk-7")
  rauc := some (lit "\x7b\"booted\":\"A\",\"slots\":[\x7b\"s0\":\x7b\"state\":\"booted\"," ++
    lit "\"boot_status\":\"good\",\"version\":\"1.2\"\x7d\x7d]\x7d")
  uptime := 5
  synced := true
  boottime := 5000

/-- Its snapshot makes the round trip, with values that are all its own. -/
theorem roundTrips_device :
    (deviceInputs.host = lit "kiosk-7" ∧ deviceInputs.ip = lit "10.0.0.7" ∧
      deviceInputs.image = lit "12.4" ∧ deviceInputs.channel = lit "stable" ∧
      acceptedSlot deviceInputs.rauc = lit "A" ∧ acceptedBoot deviceInputs.rauc = lit "good") ∧
    Fresh deviceInputs.boottime.toNat 6000 30000 ∧ RoundTrips deviceInputs 0 6000 30000 := by
  have hfresh : Fresh deviceInputs.boottime.toNat 6000 30000 := by
    refine ⟨?_, ?_, ?_⟩ <;> decide
  refine ⟨by decide +kernel, hfresh, (roundTrips_iff deviceInputs 0 hfresh).mpr ⟨?_, ?_⟩⟩
  · rintro _ ⟨⟩ -
    decide +kernel
  · rintro _ ⟨⟩ -
    decide +kernel

/-- The booted slot has a boot status with a blank in it. -/
def blankStatusInputs : Inputs :=
  { deviceInputs with
    rauc := some (lit "\x7b\"booted\":\"A\",\"slots\":[\x7b\"s0\":\x7b\"state\":\"booted\"," ++
      lit "\"boot_status\":\"not good\"\x7d\x7d]\x7d") }

/-- A build channel of 26 characters. -/
def longChannelInputs : Inputs :=
  { deviceInputs with channelFile := some (lit "release-candidate-nightly1") }

/-- The context after the snapshot of these inputs has been read a second later. -/
def contextAfter (i : Inputs) : Option Context :=
  (main i).map fun data =>
    refreshSystem [] (snapshotFs 0 data) 6000 (systemSource 0 30000) Context.cleared

/-- The refused status makes the reader discard the snapshot, and the long
channel is cut. -/
theorem blankStatus_not_roundTrips :
    ¬ (∀ i uid now stale, Fresh i.boottime.toNat now stale → RoundTrips i uid now stale) ∧
      contextAfter blankStatusInputs = some Context.cleared ∧
      (contextAfter longChannelInputs).map (·.buildChannel) =
        some (lit "release-candidate-night") := by
  refine ⟨fun h => ?_, by decide +kernel, by decide +kernel⟩
  have hfresh : Fresh blankStatusInputs.boottime.toNat 6000 30000 := by
    refine ⟨?_, ?_, ?_⟩ <;> decide
  have hwritten := (h blankStatusInputs 0 6000 30000 hfresh).1
  unfold WrittenOk at hwritten
  exact absurd hwritten (by decide +kernel)

end Faceplate.Collector
