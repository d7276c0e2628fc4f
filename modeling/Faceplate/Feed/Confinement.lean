import Faceplate.Feed.Manifest

/-!
# What a manifest can point at

A manifest should name a file below `/run` and say what it means: the source holds
the values of its last lines. The checks of `parse_manifest` look at a prefix of
the path and at values already cut to their buffers; the last theorem says for
which manifests that is enough.
-/

namespace Faceplate.Feed

open CString Assignments

/-- One component of a path, from the directory reached so far. -/
def resolveStep (dir : List (List UInt8)) (component : List UInt8) : List (List UInt8) :=
  if component = [] ∨ component = lit "." then dir
  else if component = lit ".." then dir.dropLast
  else dir ++ [component]

/-- An absolute path with its `.` and `..` resolved. -/
def resolvePath (path : List UInt8) : List (List UInt8) :=
  (path.splitOn 0x2f).foldl resolveStep []

/-- The path lies strictly below `/run`. -/
def BelowRun (path : List UInt8) : Prop :=
  (resolvePath path).head? = some (lit "run") ∧ 2 ≤ (resolvePath path).length

instance (path : List UInt8) : Decidable (BelowRun path) :=
  inferInstanceAs (Decidable (_ ∧ _))

/-- The value is a plain decimal numeral of the number. -/
def Denotes (value : List UInt8) (n : ℕ) : Prop :=
  value ≠ [] ∧ (∀ c ∈ value, isDigit c = true) ∧ digitsValue value = n

/-- A source is below `/run` and says what the last lines of its manifest say. -/
structure Truthful (log : List (Field × List UInt8)) (source : Source) : Prop where
  below : BelowRun source.path
  kind : last .kind log = some source.kind.text
  path : last .path log = some source.path
  user : last .user log = some source.user
  stale : match last .stale log with
    | none => source.staleMs = defaultStaleMs
    | some value => Denotes value source.staleMs
  range : 1000 ≤ source.staleMs ∧ source.staleMs ≤ 3600000

/-- Whatever a manifest is accepted as tells the truth about it. -/
def Confined (getpwnam : List UInt8 → Option ℕ) (bytes : List UInt8) : Prop :=
  ∀ source, parseManifestFrom getpwnam bytes = some source → Truthful (manifestLog bytes) source

/-- The last values fit: the path resolves below `/run` and into its buffer, the
user into its own, and the stale limit is written in digits. -/
structure Fits (log : List (Field × List UInt8)) : Prop where
  path : ∀ value ∈ last .path log, BelowRun value ∧ value.length ≤ 255
  user : ∀ value ∈ last .user log, value.length ≤ 63
  stale : ∀ value ∈ last .stale log, ∀ c ∈ value, isDigit c = true

/-- Two values of which at most `cap` bytes of the first are kept: they are the same and
short, or the second is by chance the part of a longer one that is kept. -/
def SameKept (cap : ℕ) (part whole : Option (List UInt8)) : Prop :=
  ∃ value, whole = some value ∧ (part = some value ∧ value.length ≤ cap ∨
    value.length = cap ∧ ∃ more, part = some (value ++ more))

/-- The lines of a file with a NUL say the same as those of the part before it, which are
all that is parsed: the same kind, path and user, the path below `/run`, and in plain
decimal the stale limit that the scanner reads in that part. -/
structure NulFits (part whole : List (Field × List UInt8)) : Prop where
  kind : last .kind whole = last .kind part
  path : SameKept 255 (last .path part) (last .path whole)
  below : ∀ value ∈ last .path whole, BelowRun value
  user : SameKept 63 (last .user part) (last .user whole)
  stale : match last .stale whole with
    | none => (last .stale part).elim (some defaultStaleMs) sourcesParseU64 = some defaultStaleMs
    | some value => ∃ n, Denotes value n ∧
        (last .stale part).elim (some defaultStaleMs) sourcesParseU64 = some n

theorem sourceFrom_fields (getpwnam : List UInt8 → Option ℕ) (values : ManifestValues)
    (kind : SourceKind) :
    (sourceFrom getpwnam values kind).kind = kind ∧
      (sourceFrom getpwnam values kind).path = values.path ∧
      (sourceFrom getpwnam values kind).user = values.user ∧
      (sourceFrom getpwnam values kind).staleMs = values.stale := by
  unfold sourceFrom
  cases getpwnam values.user <;> simp

theorem parseKind_iff {value : List UInt8} {kind : SourceKind} :
    parseKind value = some kind ↔ value = kind.text := by
  constructor
  · intro h
    unfold parseKind at h
    split_ifs at h with hdataplicity hsystem hevents
    · rw [← Option.some.inj h, hdataplicity, SourceKind.text]
    · rw [← Option.some.inj h, hsystem, SourceKind.text]
    · rw [← Option.some.inj h, hevents, SourceKind.text]
  · rintro rfl
    cases kind <;> decide

/-- A copy that leaves room in its buffer is the whole value. -/
theorem eq_of_length_fit {cap : ℕ} {value : List UInt8} (h : (fit cap value).length < cap - 1) :
    fit cap value = value := by
  apply fit_eq_self
  unfold fit at h
  rw [List.length_take] at h
  omega

theorem length_kindText (kind : SourceKind) : kind.text.length < 31 := by
  cases kind <;> decide

/-- A number that was read from digits is what they denote. -/
theorem denotes_of_digits {value : List UInt8} {n : ℕ} (h : sourcesParseU64 value = some n)
    (hdigits : ∀ c ∈ value, isDigit c = true) : Denotes value n := by
  have hne : value ≠ [] := by
    rintro rfl
    have hempty : sourcesParseU64 [] = none := by decide
    simp [hempty] at h
  refine ⟨hne, hdigits, ?_⟩
  unfold sourcesParseU64 at h
  rw [scanUnsigned_of_digits hne hdigits] at h
  by_cases hlarge : 2 ^ 64 ≤ digitsValue value
  · simp only [hlarge, if_true] at h
    exact absurd h (by simp)
  · simp only [hlarge, if_false, Option.some.injEq] at h
    exact h

/-- The last number of an accepted manifest could be read. -/
theorem Accepted.stale {bytes : List UInt8} {kind : SourceKind} (h : Accepted bytes kind)
    {value : List UInt8} (hvalue : last .stale (manifestLog (cstr bytes)) = some value) :
    sourcesParseU64 value = some (valuesOf (manifestLog (cstr bytes))).stale := by
  have hmem := mem_of_last hvalue
  rw [← filterMap_tokens] at hmem
  obtain ⟨line, hline, hfield⟩ := List.mem_filterMap.mp hmem
  have hok := h.lines line hline
  unfold LineOk at hok
  rw [hfield] at hok
  obtain ⟨n, hn⟩ := Option.isSome_iff_exists.mp hok
  rw [hn]
  simp only [valuesOf, hvalue, Option.elim_some, hn, Option.getD_some]

/-- The part of the checks that the copies are used for. -/
theorem Accepted.checked {bytes : List UInt8} {kind : SourceKind} (h : Accepted bytes kind) :
    (valuesOf (manifestLog (cstr bytes))).user ≠ [] ∧
      (valuesOf (manifestLog (cstr bytes))).path ≠ [] ∧
      1000 ≤ (valuesOf (manifestLog (cstr bytes))).stale ∧
      (valuesOf (manifestLog (cstr bytes))).stale ≤ 3600000 := by
  have hchecks := h.checks
  simp only [manifestChecks, safeToken, charsOk, Bool.and_eq_true, Bool.not_eq_true',
    List.isEmpty_eq_false_iff, decide_eq_true_eq] at hchecks
  obtain ⟨⟨⟨⟨⟨-, ⟨⟨huser, -⟩, -⟩⟩, -⟩, ⟨⟨hpath, -⟩, -⟩⟩, hmin⟩, hmax⟩ := hchecks
  exact ⟨huser, hpath, hmin, hmax⟩

/-- A value that was copied is that of the last line. -/
theorem exists_last_of_ne_nil {field : Field} {log : List (Field × List UInt8)} {cap : ℕ}
    (h : (last field log).elim [] (fit cap) ≠ []) :
    ∃ value, last field log = some value ∧ (last field log).elim [] (fit cap) = fit cap value := by
  cases hlast : last field log with
  | none => simp [hlast] at h
  | some value => exact ⟨value, rfl, rfl⟩

/-- The kind of an accepted manifest was kept whole. -/
theorem Accepted.last_kind {bytes : List UInt8} {kind : SourceKind} (h : Accepted bytes kind) :
    last .kind (manifestLog (cstr bytes)) = some kind.text := by
  have hkind : (last .kind (manifestLog (cstr bytes))).elim [] (fit 32) = kind.text :=
    parseKind_iff.mp h.kind
  have hne : (last .kind (manifestLog (cstr bytes))).elim [] (fit 32) ≠ [] := by
    rw [hkind]
    cases kind <;> decide
  obtain ⟨value, hvalue, hfit⟩ := exists_last_of_ne_nil hne
  have hwhole : fit 32 value = value := by
    apply eq_of_length_fit
    rw [← hfit, hkind]
    exact length_kindText kind
  rw [hvalue, ← hkind, hfit, hwhole]

/-- A truthful source shows that the last values fit. -/
theorem Truthful.fits {log : List (Field × List UInt8)} {source : Source}
    (h : Truthful log source) (hpath : source.path.length ≤ 255)
    (huser : source.user.length ≤ 63) : Fits log := by
  refine ⟨fun value hvalue => ?_, fun value hvalue => ?_, fun value hvalue => ?_⟩
  · obtain rfl : value = source.path := Option.some.inj (hvalue.symm.trans h.path)
    exact ⟨h.below, hpath⟩
  · obtain rfl : value = source.user := Option.some.inj (hvalue.symm.trans h.user)
    exact huser
  · have hstale := h.stale
    rw [Option.mem_def.mp hvalue] at hstale
    exact hstale.2.1

/-- If the last values of an accepted manifest fit, its source is truthful. -/
theorem Accepted.truthful {bytes : List UInt8} {kind : SourceKind} (h : Accepted bytes kind)
    (getpwnam : List UInt8 → Option ℕ) (hfits : Fits (manifestLog (cstr bytes))) :
    Truthful (manifestLog (cstr bytes))
      (sourceFrom getpwnam (valuesOf (manifestLog (cstr bytes))) kind) := by
  have hstale := fun value => @Accepted.stale bytes kind h value
  have hkind := h.last_kind
  obtain ⟨huserNe, hpathNe, hrange⟩ := h.checked
  obtain ⟨hk, hp, hu, hs⟩ := sourceFrom_fields getpwnam (valuesOf (manifestLog (cstr bytes))) kind
  generalize sourceFrom getpwnam (valuesOf (manifestLog (cstr bytes))) kind = source at *
  generalize manifestLog (cstr bytes) = log at *
  obtain ⟨path, hpath, hpathFit⟩ := exists_last_of_ne_nil hpathNe
  obtain ⟨user, huser, huserFit⟩ := exists_last_of_ne_nil huserNe
  obtain ⟨hbelow, hpathLen⟩ := hfits.path path hpath
  have hstoredPath : source.path = path := by
    rw [hp, ← @fit_eq_self 256 path hpathLen]
    exact hpathFit
  have hstoredUser : source.user = user := by
    rw [hu, ← @fit_eq_self 64 user (hfits.user user huser)]
    exact huserFit
  refine ⟨hstoredPath ▸ hbelow, ?_, hstoredPath ▸ hpath, hstoredUser ▸ huser, ?_, hs ▸ hrange⟩
  · rw [hk]
    exact hkind
  · cases hlast : last .stale log with
    | none => simp only [hs, valuesOf, hlast, Option.elim_none]
    | some value => exact hs ▸ denotes_of_digits (hstale value hlast) (hfits.stale value hlast)

/-- For an accepted text, truth about the lines that were read is a matter of
their last values. -/
theorem truthful_iff_fits {bytes : List UInt8} {kind : SourceKind} (h : Accepted bytes kind)
    (getpwnam : List UInt8 → Option ℕ) :
    Truthful (manifestLog (cstr bytes))
        (sourceFrom getpwnam (valuesOf (manifestLog (cstr bytes))) kind) ↔
      Fits (manifestLog (cstr bytes)) := by
  obtain ⟨-, hp, hu, -⟩ := sourceFrom_fields getpwnam (valuesOf (manifestLog (cstr bytes))) kind
  have hcopied : ∀ cap field, ((last field (manifestLog (cstr bytes))).elim [] (fit cap)).length ≤
      cap - 1 := by
    intro cap field
    cases last field (manifestLog (cstr bytes)) with
    | none => exact Nat.zero_le _
    | some value => exact length_fit_le cap value
  constructor
  · intro ht
    exact ht.fits (hp ▸ hcopied 256 .path) (hu ▸ hcopied 64 .user)
  · exact h.truthful getpwnam

/-- What is kept of a value is what another one says. -/
theorem sameKept_iff {cap : ℕ} {part whole : Option (List UInt8)}
    (hne : part.elim [] (fit (cap + 1)) ≠ []) :
    whole = some (part.elim [] (fit (cap + 1))) ↔ SameKept cap part whole := by
  cases part with
  | none => exact absurd rfl hne
  | some value =>
    rw [Option.elim_some, fit, Nat.add_sub_cancel]
    constructor
    · rintro rfl
      refine ⟨_, rfl, ?_⟩
      by_cases hlen : value.length ≤ cap
      · left
        rw [List.take_of_length_le hlen]
        exact ⟨rfl, hlen⟩
      · right
        exact ⟨by rw [List.length_take]; omega, value.drop cap, by rw [List.take_append_drop]⟩
    · rintro ⟨kept, rfl, ⟨hpart, hlen⟩ | ⟨hlen, more, hpart⟩⟩
      · obtain rfl := Option.some.inj hpart
        rw [List.take_of_length_le hlen]
      · obtain rfl := Option.some.inj hpart
        rw [← hlen, List.take_left]

/-- The stale limit of an accepted manifest is what the scanner reads. -/
theorem Accepted.stale_eq {bytes : List UInt8} {kind : SourceKind} (h : Accepted bytes kind) :
    (last .stale (manifestLog (cstr bytes))).elim (some defaultStaleMs) sourcesParseU64 =
      some (valuesOf (manifestLog (cstr bytes))).stale := by
  cases hlast : last .stale (manifestLog (cstr bytes)) with
  | none => simp only [valuesOf, hlast, Option.elim_none]
  | some value =>
    rw [Option.elim_some]
    exact h.stale hlast

/-- For an accepted text, truth about the lines of the whole file is a matter of the lines
of both. -/
theorem truthful_iff_nulFits {bytes : List UInt8} {kind : SourceKind} (h : Accepted bytes kind)
    (getpwnam : List UInt8 → Option ℕ) :
    Truthful (manifestLog bytes)
        (sourceFrom getpwnam (valuesOf (manifestLog (cstr bytes))) kind) ↔
      NulFits (manifestLog (cstr bytes)) (manifestLog bytes) := by
  obtain ⟨huserNe, hpathNe, hrange⟩ := h.checked
  obtain ⟨hk, hp, hu, hs⟩ := sourceFrom_fields getpwnam (valuesOf (manifestLog (cstr bytes))) kind
  have hkind := h.last_kind
  have hstale := h.stale_eq
  have hpath := @sameKept_iff 255 _ (last .path (manifestLog bytes)) hpathNe
  have huser := @sameKept_iff 63 _ (last .user (manifestLog bytes)) huserNe
  constructor
  · intro ht
    refine ⟨?_, hpath.mp (ht.path.trans (congrArg some hp)), ?_,
      huser.mp (ht.user.trans (congrArg some hu)), ?_⟩
    · rw [ht.kind, hk, hkind]
    · intro value hvalue
      obtain rfl := Option.some.inj (hvalue.symm.trans ht.path)
      exact ht.below
    · have hdenotes := ht.stale
      rw [hs] at hdenotes
      rw [hstale]
      cases hlast : last .stale (manifestLog bytes) with
      | none =>
        rw [hlast] at hdenotes
        exact congrArg some hdenotes
      | some value =>
        rw [hlast] at hdenotes
        exact ⟨_, hdenotes, rfl⟩
  · intro hf
    have hlastPath := hpath.mpr hf.path
    refine ⟨?_, ?_, ?_, ?_, ?_, hs ▸ hrange⟩
    · rw [hp]
      exact hf.below _ hlastPath
    · rw [hf.kind, hkind, hk]
    · rw [hp]
      exact hlastPath
    · rw [hu]
      exact huser.mpr hf.user
    · have hread := hf.stale
      rw [hstale] at hread
      rw [hs]
      cases hlast : last .stale (manifestLog bytes) with
      | none =>
        rw [hlast] at hread
        exact Option.some.inj hread
      | some value =>
        rw [hlast] at hread
        obtain ⟨n, hdenotes, hn⟩ := hread
        rw [Option.some.inj hn]
        exact hdenotes

/-- A manifest is accepted truthfully exactly if its last values fit. Of a file with a NUL
the parser sees the part before it, and the lines of the whole file have to say the same. -/
theorem confined_iff_fits (getpwnam : List UInt8 → Option ℕ) (bytes : List UInt8) :
    Confined getpwnam bytes ↔ ∀ kind, Accepted bytes kind →
      if 0 ∈ bytes then NulFits (manifestLog (cstr bytes)) (manifestLog bytes)
      else Fits (manifestLog bytes) := by
  have hconfined : Confined getpwnam bytes ↔ ∀ kind, Accepted bytes kind →
      Truthful (manifestLog bytes)
        (sourceFrom getpwnam (valuesOf (manifestLog (cstr bytes))) kind) := by
    constructor
    · intro h kind hkind
      exact h _ (parseManifestFrom_iff.mpr ⟨kind, hkind, rfl⟩)
    · intro h source hsource
      obtain ⟨kind, hkind, rfl⟩ := parseManifestFrom_iff.mp hsource
      exact h kind hkind
  rw [hconfined]
  refine forall_congr' fun kind => forall_congr' fun hkind => ?_
  by_cases hzero : 0 ∈ bytes
  · rw [if_pos hzero]
    exact truthful_iff_nulFits hkind getpwnam
  · rw [if_neg hzero]
    have hiff := truthful_iff_fits hkind getpwnam
    rwa [cstr_of_zero_not_mem hzero] at hiff ⊢

/-- A path that leaves `/run`, by a component that is let through. -/
def escapingManifest : List UInt8 :=
  lit "kind=system\npath=/run/../etc/shadow\nuser=root\n"

/-- A user name of 64 characters, one more than is kept. -/
def longUserManifest : List UInt8 :=
  lit "kind=events\npath=/run/f\nuser=" ++ List.replicate 64 0x61 ++ [0x0a]

/-- A stale limit that `strtoull` wraps to 5000. -/
def signedStaleManifest : List UInt8 :=
  lit "kind=events\npath=/run/f\nuser=a\nstale_after_ms=-18446744073709546616\n"

/-- All three are accepted, and none truthfully. -/
theorem acceptedManifests_not_confined :
    ¬ Confined (fun _ => none) escapingManifest ∧ ¬ Confined (fun _ => none) longUserManifest ∧
      ¬ Confined (fun _ => none) signedStaleManifest := by
  refine ⟨fun h => ?_, fun h => ?_, fun h => ?_⟩
  · have ht := h ⟨.system, lit "/run/../etc/shadow", lit "root", 0, 30000, false⟩
      (by decide +kernel)
    exact absurd ht.below (by decide +kernel)
  · have ht := h ⟨.events, lit "/run/f", List.replicate 63 0x61, 0, 30000, false⟩
      (by decide +kernel)
    exact absurd ht.user (by decide +kernel)
  · have ht := h ⟨.events, lit "/run/f", lit "a", 0, 5000, false⟩ (by decide +kernel)
    have hlast : last .stale (manifestLog signedStaleManifest) =
        some (lit "-18446744073709546616") := by
      decide +kernel
    have hdigits := ht.stale
    rw [hlast] at hdigits
    exact absurd (hdigits.2.1 0x2d (by decide)) (by decide)

end Faceplate.Feed
