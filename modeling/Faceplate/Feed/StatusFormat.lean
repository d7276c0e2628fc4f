import Faceplate.Feed.Status

/-!
# The format of a status file

What `faceplate_status.c` accepts, said without its parser: the text of a status
file as a function of its three values, and what the values may be. The reader
shows a file exactly if it is such a text and its time is right.
-/

namespace Faceplate.Feed.Status

open CString

/-- How a connection is written. -/
def Connection.text : Connection → List UInt8
  | .connected => lit "connected"
  | .disconnected => lit "disconnected"
  | .unknown => lit "unknown"

/-- A line with its newline. -/
def terminate (line : List UInt8) : List UInt8 := line ++ [0x0a]

/-- The four lines of a status file. -/
def fileText (serial : List UInt8) (connection : Connection) (digits : List UInt8) : List UInt8 :=
  terminate (lit "FACEPLATE_STATUS_V1") ++ terminate (lit "serial=" ++ serial) ++
    terminate (lit "dataplicity=" ++ connection.text) ++
    terminate (lit "updated_boottime_ms=" ++ digits)

/-- A serial number: up to 64 letters, digits and marks. -/
def IsSerial (serial : List UInt8) : Prop :=
  1 ≤ serial.length ∧ serial.length ≤ serialMax ∧
    ∀ c ∈ serial, alnum c = true ∨ c ∈ lit "._:/-"

instance (serial : List UInt8) : Decidable (IsSerial serial) :=
  inferInstanceAs (Decidable (1 ≤ serial.length ∧ serial.length ≤ serialMax ∧
    ∀ c ∈ serial, alnum c = true ∨ c ∈ lit "._:/-"))

/-- The bytes are the status file of these values. -/
def InFormat (bytes serial : List UInt8) (connection : Connection) (updated : ℕ) : Prop :=
  ∃ digits, IsSerial serial ∧ IsNumeral digits updated ∧ bytes = fileText serial connection digits

theorem serialValid_iff (serial : List UInt8) : serialValid serial = true ↔ IsSerial serial := by
  have hmarks : lit "._:/-" = [0x2e, 0x5f, 0x3a, 0x2f, 0x2d] := by decide
  have hempty : serial.isEmpty = false ↔ 1 ≤ serial.length := by
    cases serial <;> simp
  simp only [serialValid, charsOk, IsSerial, hmarks, Bool.and_eq_true, Bool.not_eq_true',
    hempty, decide_eq_true_eq, List.all_eq_true, Bool.or_eq_true, beq_iff_eq, List.mem_cons,
    List.not_mem_nil, or_false, or_assoc, and_assoc]

theorem parseConnection_iff {value : List UInt8} {connection : Connection} :
    parseConnection value = some connection ↔ value = connection.text := by
  constructor
  · intro h
    unfold parseConnection at h
    split_ifs at h with hconnected hdisconnected hunknown
    · rw [← Option.some.inj h, hconnected, Connection.text]
    · rw [← Option.some.inj h, hdisconnected, Connection.text]
    · rw [← Option.some.inj h, hunknown, Connection.text]
  · rintro rfl
    cases connection <;> decide

/-- No value holds a newline. -/
theorem IsSerial.newline {serial : List UInt8} (h : IsSerial serial) : 0x0a ∉ serial := by
  intro hmem
  have hbad : ¬ (alnum 0x0a = true ∨ (0x0a : UInt8) ∈ lit "._:/-") := by decide
  exact hbad (h.2.2 _ hmem)

theorem Connection.newline_text (connection : Connection) : 0x0a ∉ connection.text := by
  cases connection <;> decide

/-- The parser takes exactly the texts of the format, and returns their values. -/
theorem parseSnapshot_iff {bytes : List UInt8} {snapshot : Snapshot} :
    parseSnapshot bytes = some snapshot ↔ ∃ serial connection updated,
      InFormat bytes serial connection updated ∧
        snapshot = ⟨.hidden, connection, serial, updated⟩ := by
  simp only [parseSnapshot, takeLine, Option.bind_eq_bind, Option.bind_none,
    Option.ite_none_left_eq_some, Option.bind_eq_some_iff, Prod.exists, strchr_eq_some_iff,
    stripPrefix_eq_some_iff, parseU64_iff, parseConnection_iff, Bool.not_eq_true',
    Bool.not_eq_false, serialValid_iff, ne_eq, not_not, Option.pure_def, Option.some.injEq]
  constructor
  · rintro ⟨_, _, ⟨rfl, -⟩, rfl, _, _, ⟨rfl, -⟩, serial, rfl, hserial, _, _, ⟨rfl, -⟩, _, rfl,
      connection, rfl, _, _, ⟨rfl, -⟩, digits, rfl, updated, hdigits, rfl, rfl⟩
    refine ⟨serial, connection, updated, ⟨digits, hserial, hdigits, ?_⟩, rfl⟩
    simp [fileText, terminate]
  · rintro ⟨serial, connection, updated, ⟨digits, hserial, hdigits, rfl⟩, rfl⟩
    refine ⟨lit "FACEPLATE_STATUS_V1", terminate (lit "serial=" ++ serial) ++
        terminate (lit "dataplicity=" ++ connection.text) ++
        terminate (lit "updated_boottime_ms=" ++ digits),
      ⟨by simp [fileText, terminate], by decide⟩, rfl, lit "serial=" ++ serial,
      terminate (lit "dataplicity=" ++ connection.text) ++
        terminate (lit "updated_boottime_ms=" ++ digits), ⟨by simp [terminate], ?_⟩, serial, rfl,
      hserial, lit "dataplicity=" ++ connection.text,
      terminate (lit "updated_boottime_ms=" ++ digits), ⟨by simp [terminate], ?_⟩, _, rfl,
      connection, rfl, lit "updated_boottime_ms=" ++ digits, [], ⟨by simp [terminate], ?_⟩, digits,
      rfl, updated, hdigits, rfl, rfl⟩
    · simpa [hserial.newline] using (by decide : (0x0a : UInt8) ∉ lit "serial=")
    · simpa [connection.newline_text] using (by decide : (0x0a : UInt8) ∉ lit "dataplicity=")
    · simpa [hdigits.newline] using (by decide : (0x0a : UInt8) ∉ lit "updated_boottime_ms=")

/-- In the format, a file has one meaning. -/
theorem parseSnapshot_of_inFormat {bytes serial : List UInt8} {connection : Connection}
    {updated : ℕ} (h : InFormat bytes serial connection updated) :
    parseSnapshot bytes = some ⟨.hidden, connection, serial, updated⟩ :=
  parseSnapshot_iff.mpr ⟨serial, connection, updated, h, rfl⟩

/-- What the reader shows of a text in the format. -/
theorem judge_of_inFormat {bytes serial : List UInt8} {connection : Connection} {updated : ℕ}
    (h : InFormat bytes serial connection updated) (now stale : ℕ) :
    judge bytes now stale =
      if now < updated then hide
      else if stale < now - updated then ⟨.stale, .unknown, serial, updated⟩
      else ⟨.fresh, connection, serial, updated⟩ := by
  unfold judge
  rw [parseSnapshot_of_inFormat h]

theorem judge_of_not_inFormat {bytes : List UInt8}
    (h : ¬ ∃ serial connection updated, InFormat bytes serial connection updated)
    (now stale : ℕ) : judge bytes now stale = hide := by
  unfold judge
  cases hparse : parseSnapshot bytes with
  | none => rfl
  | some snapshot =>
    obtain ⟨serial, connection, updated, hformat, -⟩ := parseSnapshot_iff.mp hparse
    exact absurd ⟨serial, connection, updated, hformat⟩ h

/-- A file that passes its checks is shown fresh or stale exactly if it is in the
format and its time is right; otherwise nothing of it is shown. -/
theorem readAt_eq_iff_inFormat {dir : Directory} {uid now stale : ℕ} {file : File}
    {bytes : List UInt8} (hfile : dir filename = .opened file)
    (hread : readSnapshot maxBytes uid file = some bytes) (hstale : 0 < stale) :
    (∀ serial connection updated,
      readAt dir uid now stale = ⟨.fresh, connection, serial, updated⟩ ↔
        InFormat bytes serial connection updated ∧ updated ≤ now ∧ now - updated ≤ stale) ∧
    (∀ serial connection updated,
      readAt dir uid now stale = ⟨.stale, connection, serial, updated⟩ ↔
        connection = .unknown ∧ (∃ written, InFormat bytes serial written updated) ∧
          updated ≤ now ∧ stale < now - updated) ∧
    (readAt dir uid now stale = hide ↔
      ¬ ∃ serial connection updated,
        InFormat bytes serial connection updated ∧ updated ≤ now) := by
  have hjudge : readAt dir uid now stale = judge bytes now stale := by
    simp only [readAt, hfile, hread, if_neg (Nat.ne_of_gt hstale)]
  rw [hjudge]
  by_cases hformat : ∃ serial connection updated, InFormat bytes serial connection updated
  · obtain ⟨serial, connection, updated, hformat⟩ := hformat
    have hunique : ∀ {s c u}, InFormat bytes s c u →
        connection = c ∧ serial = s ∧ updated = u := by
      intro s c u h
      have := (parseSnapshot_of_inFormat hformat).symm.trans (parseSnapshot_of_inFormat h)
      simpa using this
    rw [judge_of_inFormat hformat]
    refine ⟨fun s c u => ⟨fun h => ?_, fun h => ?_⟩, fun s c u => ⟨fun h => ?_, fun h => ?_⟩,
      ⟨fun h => ?_, fun h => ?_⟩⟩
    · split_ifs at h with hfuture hold
      · simp [hide] at h
      · simp at h
      · simp only [Snapshot.mk.injEq, true_and] at h
        obtain ⟨rfl, rfl, rfl⟩ := h
        exact ⟨hformat, by omega, by omega⟩
    · obtain ⟨h, hpast, hrecent⟩ := h
      obtain ⟨rfl, rfl, rfl⟩ := hunique h
      rw [if_neg (by omega), if_neg (by omega)]
    · split_ifs at h with hfuture hold
      · simp [hide] at h
      · simp only [Snapshot.mk.injEq, true_and] at h
        obtain ⟨rfl, rfl, rfl⟩ := h
        exact ⟨rfl, ⟨connection, hformat⟩, by omega, hold⟩
      · simp at h
    · obtain ⟨rfl, ⟨written, h⟩, hpast, hold⟩ := h
      obtain ⟨rfl, rfl, rfl⟩ := hunique h
      rw [if_neg (by omega), if_pos hold]
    · rintro ⟨s, c, u, hother, hpast⟩
      obtain ⟨rfl, rfl, rfl⟩ := hunique hother
      rw [if_neg (by omega)] at h
      split_ifs at h <;> simp [hide] at h
    · by_cases hfuture : now < updated
      · rw [if_pos hfuture]
      · exact absurd ⟨serial, connection, updated, hformat, by omega⟩ h
  · rw [judge_of_not_inFormat hformat]
    refine ⟨fun s c u => iff_of_false (by simp [hide]) ?_,
      fun s c u => iff_of_false (by simp [hide]) ?_, iff_of_true rfl ?_⟩
    · exact fun h => hformat ⟨s, c, u, h.1⟩
    · rintro ⟨-, ⟨written, h⟩, -⟩
      exact hformat ⟨s, written, u, h⟩
    · rintro ⟨s, c, u, h, -⟩
      exact hformat ⟨s, c, u, h⟩

/-- A directory with one status file of the given bytes. -/
def statusDir (bytes : List UInt8) : Directory :=
  fun _ => .opened ⟨some ⟨true, 1, 0, 0o640, bytes.length⟩, bytes, true⟩

/-- A file written at 5 ms is fresh at 7 ms. -/
theorem readAt_statusDir :
    readAt (statusDir (fileText (lit "a") .connected (lit "5"))) 0 7 3 =
      ⟨.fresh, .connected, lit "a", 5⟩ := by
  have hread : readSnapshot maxBytes 0 ⟨some ⟨true, 1, 0, 0o640,
      (fileText (lit "a") .connected (lit "5")).length⟩,
      fileText (lit "a") .connected (lit "5"), true⟩ =
        some (fileText (lit "a") .connected (lit "5")) := by
    decide +kernel
  have hspec := @readAt_eq_iff_inFormat (statusDir _) 0 7 3 _ _ rfl hread (by decide)
  exact (hspec.1 (lit "a") .connected 5).mpr
    ⟨⟨lit "5", by decide +kernel, by decide +kernel, rfl⟩, by decide, by decide⟩

end Faceplate.Feed.Status
