import Faceplate.Feed.Events
import Faceplate.Lib.Assignments

/-!
# The entries of an events file

What the loop of `parse_snapshot` in `faceplate_events.c` does, line by line: it
recognises a key, checks the value for it, and stores the value over what was
there. The state of the parser is then a function of the last value of each key.
-/

namespace Faceplate.Feed.Events

open CString Assignments

/-- The keys of an events file, one for each field that can be set. -/
inductive Key where
  | updated
  | console
  | count
  | boottime (i : Fin maxLines)
  | code (i : Fin maxLines)
  | text (i : Fin maxLines)
  deriving DecidableEq

/-- An entry: a key and the bytes of its value. -/
abbrev Entry := Key × List UInt8

/-- The field of a line that a suffix names. -/
def lineKey (i : Fin maxLines) (suffix : List UInt8) : Option Key :=
  if suffix = lit "boottime_ms" then some (.boottime i)
  else if suffix = lit "code" then some (.code i)
  else if suffix = lit "text" then some (.text i)
  else none

/-- The key that the comparisons of `parse_snapshot` recognise in a text. -/
def keyOf (key : List UInt8) : Option Key :=
  if key = lit "updated_boottime_ms" then some .updated
  else if key = lit "console" then some .console
  else if key = lit "count" then some .count
  else if key.head? = some 0x65 then
    match eventKey key with
    | none => none
    | some (index, suffix) => if h : index < maxLines then lineKey ⟨index, h⟩ suffix else none
  else none

/-- The entry a line is read as. -/
def entryOf (line : List UInt8) : Option Entry :=
  (splitKey line 32).bind fun (key, value) => (keyOf key).map fun k => (k, value)

/-- The values that a key may have. -/
def Key.Accepts : Key → List UInt8 → Prop
  | .updated, v | .boottime _, v => IsNumeral v (digitsValue v)
  | .console, v => v = lit "locked" ∨ v = lit "unlocked"
  | .count, v => IsNumeral v (digitsValue v) ∧ digitsValue v ≤ maxLines
  | .code _, v => codeValid v = true
  | .text _, v => tokenValid v textMax = true

instance : ∀ (k : Key) (v : List UInt8), Decidable (k.Accepts v)
  | .updated, v | .boottime _, v => inferInstanceAs (Decidable (IsNumeral v (digitsValue v)))
  | .console, v => inferInstanceAs (Decidable (v = lit "locked" ∨ v = lit "unlocked"))
  | .count, v =>
    inferInstanceAs (Decidable (IsNumeral v (digitsValue v) ∧ digitsValue v ≤ maxLines))
  | .code _, v => inferInstanceAs (Decidable (codeValid v = true))
  | .text _, v => inferInstanceAs (Decidable (tokenValid v textMax = true))

/-- The number in a value. -/
def numberOf (value : Option (List UInt8)) : ℕ := value.elim 0 digitsValue

/-- The line that entries leave at an index. -/
def lineOf (entries : List Entry) (i : Fin maxLines) : EventLine :=
  ⟨(last (.code i) entries).getD [], (last (.text i) entries).getD [],
    numberOf (last (.boottime i) entries)⟩

/-- The locals of `parse_snapshot` after it has stored these entries. -/
def parseOf (entries : List Entry) : Parse :=
  { snapshot :=
      ⟨.hidden, last .console entries ≠ some (lit "unlocked"),
        numberOf (last .updated entries), 0, List.ofFn (lineOf entries)⟩
    declared := numberOf (last .count entries)
    haveUpdated := (last .updated entries).isSome
    haveConsole := (last .console entries).isSome
    haveCount := (last .count entries).isSome }

/-- The start of the loop. -/
theorem parseOf_nil : parseOf [] = ⟨hide, 0, false, false, false⟩ := rfl

theorem map_parseU64 {α : Type} (v : List UInt8) (f : ℕ → α) :
    (parseU64 v).map f =
      if IsNumeral v (digitsValue v) then some (f (digitsValue v)) else none := by
  split_ifs with h
  · rw [parseU64_iff.mpr h]
    rfl
  · cases hparse : parseU64 v with
    | none => rfl
    | some n =>
      have hn := parseU64_iff.mp hparse
      rw [← hn.2.2.2.1] at hn
      exact absurd hn h

/-- A store into a line by an index below the bound. -/
theorem modifyLine_parseOf (entries entries' : List Entry) (i : Fin maxLines)
    (f : EventLine → EventLine) (hat : lineOf entries' i = f (lineOf entries i))
    (hother : ∀ j, j ≠ i → lineOf entries' j = lineOf entries j) :
    (List.ofFn (lineOf entries)).modify i f = List.ofFn (lineOf entries') := by
  refine List.ext_getElem (by simp) fun n h₁ h₂ => ?_
  rw [List.getElem_modify, List.getElem_ofFn, List.getElem_ofFn]
  have hn : n < maxLines := by simpa using h₂
  split_ifs with hi
  · rw [show (⟨n, hn⟩ : Fin maxLines) = i from Fin.ext hi.symm, hat]
  · refine (hother ⟨n, hn⟩ fun heq => hi ?_).symm
    rw [← heq]

/-- The step of the parser in terms of entries. -/
def Parse.assign (parse : Parse) : Entry → Parse
  | (.updated, v) =>
    { parse with
      snapshot := { parse.snapshot with updatedBoottimeMs := digitsValue v }, haveUpdated := true }
  | (.console, v) =>
    { parse with
      snapshot := { parse.snapshot with consoleLocked := v ≠ lit "unlocked" }, haveConsole := true }
  | (.count, v) => { parse with declared := digitsValue v, haveCount := true }
  | (.boottime i, v) => parse.modifyLine i ({ · with boottimeMs := digitsValue v })
  | (.code i, v) => parse.modifyLine i ({ · with code := v })
  | (.text i, v) => parse.modifyLine i ({ · with text := v })

/-- A store behind the check of its value. -/
def Parse.checked (parse : Parse) (entry : Entry) : Option Parse :=
  if entry.1.Accepts entry.2 then some (parse.assign entry) else none

theorem checked_of_accepts {k : Key} {v : List UInt8} (h : k.Accepts v) (parse : Parse) :
    parse.checked (k, v) = some (parse.assign (k, v)) := if_pos h

theorem checked_of_not_accepts {k : Key} {v : List UInt8} (h : ¬ k.Accepts v) (parse : Parse) :
    parse.checked (k, v) = none := if_neg h

theorem checked_console (parse : Parse) (v : List UInt8) :
    parse.checked (.console, v) =
      if v = lit "locked" then
        some { parse with
          snapshot := { parse.snapshot with consoleLocked := true }, haveConsole := true }
      else if v = lit "unlocked" then
        some { parse with
          snapshot := { parse.snapshot with consoleLocked := false }, haveConsole := true }
      else none := by
  by_cases hlocked : v = lit "locked"
  · have haccepts : Key.console.Accepts v := Or.inl hlocked
    rw [checked_of_accepts haccepts, if_pos hlocked, hlocked]
    rfl
  · rw [if_neg hlocked]
    by_cases hunlocked : v = lit "unlocked"
    · have haccepts : Key.console.Accepts v := Or.inr hunlocked
      rw [checked_of_accepts haccepts, if_pos hunlocked, hunlocked]
      rfl
    · have haccepts : ¬ Key.console.Accepts v := not_or.mpr ⟨hlocked, hunlocked⟩
      rw [checked_of_not_accepts haccepts, if_neg hunlocked]

theorem checked_count (parse : Parse) (v : List UInt8) :
    parse.checked (.count, v) =
      match parseU64 v with
      | none => none
      | some declared =>
        if maxLines < declared then none
        else some { parse with declared := declared, haveCount := true } := by
  have hread := map_parseU64 v id
  rw [Option.map_id_fun, id] at hread
  rw [hread]
  by_cases hvalue : IsNumeral v (digitsValue v)
  · simp only [hvalue, if_true, id]
    by_cases hmax : maxLines < digitsValue v
    · have haccepts : ¬ Key.count.Accepts v := fun h => Nat.not_le.mpr hmax h.2
      rw [if_pos hmax, checked_of_not_accepts haccepts]
    · have haccepts : Key.count.Accepts v := ⟨hvalue, Nat.not_lt.mp hmax⟩
      rw [if_neg hmax, checked_of_accepts haccepts]
      rfl
  · have haccepts : ¬ Key.count.Accepts v := fun h => hvalue h.1
    simp only [hvalue, if_false, checked_of_not_accepts haccepts]

theorem eventKey_lt {key suffix : List UInt8} {index : ℕ}
    (h : eventKey key = some (index, suffix)) :
    index < maxLines := by
  unfold eventKey at h
  split_ifs at h
  split at h
  · simp only at h
    split_ifs at h with hbad
    simp only [not_or, Option.some.injEq, Prod.mk.injEq] at hbad h
    omega
  · exact absurd h (by simp)

/-- One round of the loop: recognise the entry, check it, store it. -/
theorem parseLine_eq (parse : Parse) (line : List UInt8) :
    parseLine parse line = (entryOf line).bind parse.checked := by
  unfold parseLine entryOf
  cases splitKey line 32 with
  | none => rfl
  | some pair =>
    obtain ⟨key, value⟩ := pair
    simp only [Option.bind_some]
    unfold keyOf
    by_cases hupdated : key = lit "updated_boottime_ms"
    · simp only [hupdated, if_true]
      exact map_parseU64 value _
    by_cases hconsole : key = lit "console"
    · simp only [hconsole, if_true]
      exact (checked_console parse value).symm
    by_cases hcount : key = lit "count"
    · simp only [hcount, if_true]
      exact (checked_count parse value).symm
    simp only [hupdated, hconsole, hcount, if_false]
    by_cases hevent : key.head? = some 0x65
    · simp only [hevent, if_true]
      cases hkey : eventKey key with
      | none => rfl
      | some out =>
        obtain ⟨index, suffix⟩ := out
        simp only [eventKey_lt hkey, dif_pos]
        unfold lineKey
        by_cases htime : suffix = lit "boottime_ms"
        · simp only [htime, if_true]
          exact map_parseU64 value _
        by_cases hcode : suffix = lit "code"
        · simp only [hcode, if_true]
          rfl
        by_cases htext : suffix = lit "text"
        · simp only [htext, if_true]
          rfl
        simp only [htime, hcode, htext, if_false]
        rfl
    · simp only [hevent, if_false]
      rfl

/-- Storing an entry over what the earlier ones left. -/
theorem assign_parseOf (entries : List Entry) (entry : Entry) :
    (parseOf entries).assign entry = parseOf (entries ++ [entry]) := by
  obtain ⟨k, v⟩ := entry
  have hsame := last_concat_self k entries v
  have hother : ∀ k', k ≠ k' → last k' (entries ++ [(k, v)]) = last k' entries :=
    fun k' h => last_concat_of_ne h entries v
  cases k with
  | updated =>
    have hline : lineOf (entries ++ [(.updated, v)]) = lineOf entries := by
      funext i
      simp [lineOf, hother]
    simp [Parse.assign, parseOf, hsame, hother, hline, numberOf]
  | console =>
    have hline : lineOf (entries ++ [(.console, v)]) = lineOf entries := by
      funext i
      simp [lineOf, hother]
    simp [Parse.assign, parseOf, hsame, hother, hline]
  | count =>
    have hline : lineOf (entries ++ [(.count, v)]) = lineOf entries := by
      funext i
      simp [lineOf, hother]
    simp [Parse.assign, parseOf, hsame, hother, hline, numberOf]
  | boottime i =>
    have hmodify := modifyLine_parseOf entries (entries ++ [(.boottime i, v)]) i
      ({ · with boottimeMs := digitsValue v }) (by simp [lineOf, hsame, hother, numberOf])
      (fun j hj => by simp [lineOf, hother, Ne.symm hj])
    simp [Parse.assign, Parse.modifyLine, parseOf, hmodify, hother]
  | code i =>
    have hmodify := modifyLine_parseOf entries (entries ++ [(.code i, v)]) i
      ({ · with code := v }) (by simp [lineOf, hsame, hother])
      (fun j hj => by simp [lineOf, hother, Ne.symm hj])
    simp [Parse.assign, Parse.modifyLine, parseOf, hmodify, hother]
  | text i =>
    have hmodify := modifyLine_parseOf entries (entries ++ [(.text i, v)]) i
      ({ · with text := v }) (by simp [lineOf, hsame, hother])
      (fun j hj => by simp [lineOf, hother, Ne.symm hj])
    simp [Parse.assign, Parse.modifyLine, parseOf, hmodify, hother]

/-- Every entry has a value that its key may have. -/
def AllAccepted (entries : List Entry) : Prop := ∀ entry ∈ entries, entry.1.Accepts entry.2

instance (entries : List Entry) : Decidable (AllAccepted entries) :=
  inferInstanceAs (Decidable (∀ entry ∈ entries, entry.1.Accepts entry.2))

/-- The loop reads all lines exactly if each is an entry with an accepted value,
and then it is where these entries lead. -/
theorem parseLines_iff {before : List Entry} {lines : List (List UInt8)} {parse : Parse} :
    parseLines (parseOf before) lines = some parse ↔ ∃ entries,
      lines.map entryOf = entries.map some ∧ AllAccepted entries ∧
        parse = parseOf (before ++ entries) := by
  induction lines generalizing before with
  | nil =>
    simp only [parseLines, Option.some.injEq, List.map_nil]
    constructor
    · rintro rfl
      exact ⟨[], rfl, by simp [AllAccepted], by simp⟩
    · rintro ⟨entries, hentries, -, rfl⟩
      obtain rfl := List.map_eq_nil_iff.mp hentries.symm
      simp
  | cons line rest ih =>
    simp only [parseLines, parseLine_eq, List.map_cons]
    cases hentry : entryOf line with
    | none =>
      refine iff_of_false (by simp) ?_
      rintro ⟨entries, hentries, -⟩
      cases entries <;> simp at hentries
    | some entry =>
      by_cases haccepts : entry.1.Accepts entry.2
      · simp only [Option.bind_some, checked_of_accepts haccepts, assign_parseOf, ih]
        constructor
        · rintro ⟨entries, hentries, hall, rfl⟩
          refine ⟨entry :: entries, by simp [hentries], ?_, by simp⟩
          exact List.forall_mem_cons.mpr ⟨haccepts, hall⟩
        · rintro ⟨_ | ⟨first, entries⟩, hentries, hall, rfl⟩
          · simp at hentries
          · simp only [List.map_cons, List.cons.injEq, Option.some.injEq] at hentries
            obtain ⟨rfl, hentries⟩ := hentries
            exact ⟨entries, hentries, (List.forall_mem_cons.mp hall).2, by simp⟩
      · simp only [Option.bind_some, checked_of_not_accepts haccepts, Option.bind_none]
        refine iff_of_false (by simp) ?_
        rintro ⟨_ | ⟨first, entries⟩, hentries, hall, -⟩
        · simp at hentries
        · simp only [List.map_cons, List.cons.injEq, Option.some.injEq] at hentries
          obtain ⟨rfl, -⟩ := hentries
          exact haccepts (hall _ List.mem_cons_self)

/-- The entries say when they were written, how the console stands and how many
lines there are, and each of these lines has a code and a text. -/
def Complete (entries : List Entry) : Prop :=
  (last .updated entries).isSome ∧ (last .console entries).isSome ∧
    ∃ value ∈ last .count entries, ∀ i : Fin maxLines, i < digitsValue value →
      (last (.code i) entries).isSome ∧ (last (.text i) entries).isSome

/-- The snapshot that entries denote. -/
def snapshotOf (entries : List Entry) : Snapshot :=
  { (parseOf entries).snapshot with count := numberOf (last .count entries) }

theorem isEmpty_getD_last {entries : List Entry} {k : Key} (hall : AllAccepted entries)
    (hk : ∀ v, k.Accepts v → v ≠ []) :
    (!((last k entries).getD []).isEmpty) = (last k entries).isSome := by
  cases hlast : last k entries with
  | none => rfl
  | some v =>
    have := hk v (hall _ (mem_of_last hlast))
    simpa using this

theorem ne_nil_of_charsOk {allowed : UInt8 → Bool} {max : ℕ} {value : List UInt8}
    (h : charsOk allowed max value = true) : value ≠ [] := by
  rintro rfl
  simp [charsOk] at h

theorem mem_take_ofFn {α : Type*} {n d : ℕ} {f : Fin n → α} {a : α} :
    a ∈ (List.ofFn f).take d ↔ ∃ i : Fin n, i < d ∧ f i = a := by
  rw [List.mem_take_iff_getElem]
  constructor
  · rintro ⟨i, hi, rfl⟩
    rw [List.length_ofFn] at hi
    exact ⟨⟨i, by omega⟩, show i < d by omega, by simp⟩
  · rintro ⟨i, hi, rfl⟩
    have hlt := i.isLt
    refine ⟨i, ?_, by simp⟩
    rw [List.length_ofFn]
    omega

/-- The checks behind the loop ask for complete entries. -/
theorem finish_iff {entries : List Entry} (hall : AllAccepted entries) {snapshot : Snapshot} :
    finish (parseOf entries) = some snapshot ↔
      Complete entries ∧ snapshot = snapshotOf entries := by
  have hcode : ∀ i, (!((last (.code i) entries).getD []).isEmpty) =
      (last (.code i) entries).isSome :=
    fun i => isEmpty_getD_last hall fun v hv => ne_nil_of_charsOk hv
  have htext : ∀ i, (!((last (.text i) entries).getD []).isEmpty) =
      (last (.text i) entries).isSome :=
    fun i => isEmpty_getD_last hall fun v hv => ne_nil_of_charsOk hv
  have hlines : (((parseOf entries).snapshot.lines.take (parseOf entries).declared).all
      fun line => !line.code.isEmpty && !line.text.isEmpty) = true ↔
        ∀ i : Fin maxLines, i < numberOf (last .count entries) →
          (last (.code i) entries).isSome ∧ (last (.text i) entries).isSome := by
    simp only [parseOf, List.all_eq_true, mem_take_ofFn, Bool.and_eq_true, lineOf]
    constructor
    · intro h i hi
      have := h _ ⟨i, hi, rfl⟩
      rwa [hcode, htext] at this
    · rintro h _ ⟨i, hi, rfl⟩
      rw [hcode, htext]
      exact h i hi
  unfold finish Complete
  rw [if_congr hlines rfl rfl]
  cases hupdated : last .updated entries with
  | none => simp [parseOf, hupdated]
  | some updated =>
    cases hconsole : last .console entries with
    | none => simp [parseOf, hconsole]
    | some console =>
      cases hcount : last .count entries with
      | none => simp [parseOf, hcount]
      | some count =>
        simp only [snapshotOf, parseOf, hupdated, hconsole, hcount, Option.isSome_some,
          Bool.not_true, Bool.or_self, Bool.false_eq_true, if_false, Option.ite_none_right_eq_some,
          Option.some.injEq, Option.mem_some_iff, true_and, exists_eq_left', numberOf,
          Option.elim_some]
        exact and_congr_right fun _ => eq_comm

end Faceplate.Feed.Events
