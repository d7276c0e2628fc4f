import Faceplate.Feed.Entries

/-!
# The format of an events file

The format of `faceplate_events.c` as its writer means it: entries, each key
written in one way, up to the last byte. The parser reads up to the first NUL and
takes other spellings of an event key too. It is exact on the files where neither
makes a difference.
-/

namespace Faceplate.Feed.Events

open CString Assignments

/-- How a key is written. -/
def Key.spelling : Key → List UInt8
  | .updated => lit "updated_boottime_ms"
  | .console => lit "console"
  | .count => lit "count"
  | .boottime i => lit "e" ++ decimal i ++ lit "_boottime_ms"
  | .code i => lit "e" ++ decimal i ++ lit "_code"
  | .text i => lit "e" ++ decimal i ++ lit "_text"

/-- How an entry is written. -/
def lineText (entry : Entry) : List UInt8 := entry.1.spelling ++ 0x3d :: entry.2

/-- The bytes are the header line and these entries, a line each, with nothing but
empty lines between them. -/
structure InFormat (bytes : List UInt8) (entries : List Entry) : Prop where
  text : ∃ body, bytes = header ++ 0x0a :: body ∧
    (body.splitOn 0x0a).filter (!·.isEmpty) = entries.map lineText
  accepted : AllAccepted entries
  complete : Complete entries

/-- The parser finds the header and these entries, reading up to the first NUL. -/
structure Readable (bytes : List UInt8) (entries : List Entry) : Prop where
  text : ∃ body, bytes = header ++ 0x0a :: body ∧
    (tokens 0x0a body).map entryOf = entries.map some
  accepted : AllAccepted entries
  complete : Complete entries

/-- What the parser needs to know of a spelling. -/
theorem spelling_ok (k : Key) :
    (0 ∉ k.spelling ∧ 0x0a ∉ k.spelling ∧ 0x3d ∉ k.spelling) ∧
      k.spelling.isEmpty = false ∧ k.spelling.length + 1 < 32 ∧ keyOf k.spelling = some k := by
  cases k with
  | updated => decide +kernel
  | console => decide +kernel
  | count => decide +kernel
  | boottime i => revert i; decide +kernel
  | code i => revert i; decide +kernel
  | text i => revert i; decide +kernel

theorem splitKey_lineText (entry : Entry) :
    splitKey (lineText entry) 32 = some (entry.1.spelling, entry.2) := by
  obtain ⟨⟨-, -, hequals⟩, hne, hlen, -⟩ := spelling_ok entry.1
  unfold splitKey lineText
  rw [strchr_append hequals]
  simp only [hne, Bool.false_eq_true, false_or]
  rw [if_neg (by omega)]

theorem eq_of_splitKey {line key value : List UInt8} {keyCap : ℕ}
    (h : splitKey line keyCap = some (key, value)) : line = key ++ 0x3d :: value := by
  unfold splitKey at h
  split at h
  · exact absurd h (by simp)
  · rename_i key₀ value₀ hstrchr
    split_ifs at h
    simp only [Option.some.injEq, Prod.mk.injEq] at h
    obtain ⟨rfl, rfl⟩ := h
    exact (strchr_eq_some_iff.mp hstrchr).1

theorem entryOf_eq_some_iff {line : List UInt8} {entry : Entry} :
    entryOf line = some entry ↔
      ∃ key, splitKey line 32 = some (key, entry.2) ∧ keyOf key = some entry.1 := by
  obtain ⟨k, v⟩ := entry
  simp only [entryOf, Option.bind_eq_some_iff, Option.map_eq_some_iff, Prod.exists, Prod.mk.injEq]
  constructor
  · rintro ⟨key, _, hsplit, _, hk, rfl, rfl⟩
    exact ⟨key, hsplit, hk⟩
  · rintro ⟨key, hsplit, hk⟩
    exact ⟨key, v, hsplit, k, hk, rfl, rfl⟩

/-- An entry is recognised in what is written for it. -/
theorem entryOf_lineText (entry : Entry) : entryOf (lineText entry) = some entry :=
  entryOf_eq_some_iff.mpr ⟨_, splitKey_lineText entry, (spelling_ok entry.1).2.2.2⟩

theorem not_mem_of_charsOk {allowed : UInt8 → Bool} {max : ℕ} {value : List UInt8} {c : UInt8}
    (h : charsOk allowed max value = true) (hc : allowed c = false) : c ∉ value := by
  simp only [charsOk, Bool.and_eq_true, List.all_eq_true] at h
  intro hmem
  rw [h.2 c hmem] at hc
  exact absurd hc (by decide)

/-- An accepted value has no NUL. -/
theorem zero_not_mem_of_accepts {k : Key} {v : List UInt8} (h : k.Accepts v) : 0 ∉ v := by
  have hnumeral : ∀ n, IsNumeral v n → 0 ∉ v := by
    intro n hn hmem
    exact absurd (hn.2.2.1 _ hmem) (by decide)
  cases k with
  | updated => exact hnumeral _ h
  | console =>
    rcases h with rfl | rfl
    · decide
    · decide
  | count => exact hnumeral _ h.1
  | boottime i => exact hnumeral _ h
  | code i => exact not_mem_of_charsOk h (by decide)
  | text i => exact not_mem_of_charsOk h (by decide)

/-- A file in the format has no NUL. -/
theorem InFormat.zero_not_mem {bytes : List UInt8} {entries : List Entry}
    (h : InFormat bytes entries) : 0 ∉ bytes := by
  obtain ⟨body, rfl, hlines⟩ := h.text
  intro hmem
  rcases List.mem_append.mp hmem with hmem | hmem
  · exact absurd hmem (by decide)
  rcases List.mem_cons.mp hmem with hmem | hmem
  · exact absurd hmem (by decide)
  rcases @mem_line 0x0a _ _ hmem with hmem | ⟨line, hline, hmem⟩
  · exact absurd hmem (by decide)
  rw [hlines] at hline
  obtain ⟨entry, hentry, rfl⟩ := List.mem_map.mp hline
  rcases List.mem_append.mp hmem with hmem | hmem
  · exact (spelling_ok entry.1).1.1 hmem
  rcases List.mem_cons.mp hmem with hmem | hmem
  · exact absurd hmem (by decide)
  · exact zero_not_mem_of_accepts (h.accepted entry hentry) hmem

/-- The text of a file as far as the parser goes, in lines that are not empty. -/
theorem tokens_header (body : List UInt8) :
    tokens 0x0a (header ++ 0x0a :: body) = header :: tokens 0x0a body :=
  tokens_line (by decide) (by decide) (by decide) (by decide) body

/-- The parser accepts what is readable, and returns what its entries denote. -/
theorem parseSnapshot_iff {bytes : List UInt8} {snapshot : Snapshot} :
    parseSnapshot bytes true = some snapshot ↔ ∃ entries,
      Readable bytes entries ∧ snapshot = snapshotOf entries := by
  have hstart : bytes.take (header.length + 1) = header ++ [0x0a] ↔
      ∃ body, bytes = header ++ 0x0a :: body := by
    constructor
    · intro h
      refine ⟨bytes.drop (header.length + 1), ?_⟩
      rw [← List.singleton_append, ← List.append_assoc, ← h, List.take_append_drop]
    · rintro ⟨body, rfl⟩
      rw [← List.singleton_append, ← List.append_assoc]
      exact List.take_left' (by decide)
  unfold parseSnapshot
  by_cases hbytes : ∃ body, bytes = header ++ 0x0a :: body
  · rw [if_neg (not_not.mpr (hstart.mpr hbytes))]
    obtain ⟨body, rfl⟩ := hbytes
    simp only [tokens_header, Bool.not_true, Bool.false_eq_true, if_false, ne_eq, not_true_eq_false,
      Option.bind_eq_some_iff, ← parseOf_nil, parseLines_iff, List.nil_append]
    constructor
    · rintro ⟨_, ⟨entries, hentries, hall, rfl⟩, hfinish⟩
      obtain ⟨hcomplete, rfl⟩ := (finish_iff hall).mp hfinish
      exact ⟨entries, ⟨⟨body, rfl, hentries⟩, hall, hcomplete⟩, rfl⟩
    · rintro ⟨entries, ⟨⟨body', hbody, hentries⟩, hall, hcomplete⟩, rfl⟩
      obtain rfl : body = body' := by simpa using hbody
      exact ⟨_, ⟨entries, hentries, hall, rfl⟩, (finish_iff hall).mpr ⟨hcomplete, rfl⟩⟩
  · rw [if_pos fun h => hbytes (hstart.mp h)]
    refine iff_of_false (by simp) ?_
    rintro ⟨entries, ⟨⟨body, hbody, -⟩, -, -⟩, -⟩
    exact hbytes ⟨body, hbody⟩

/-- The keys on the lines of a file, as the parser splits them. -/
def keyTexts (bytes : List UInt8) : List (List UInt8) :=
  (tokens 0x0a bytes).filterMap fun line => (splitKey line 32).map Prod.fst

/-- A file without NUL that spells every key in the one way. -/
def Plain (bytes : List UInt8) : Prop :=
  0 ∉ bytes ∧ ∀ key ∈ keyTexts bytes, ∀ k, keyOf key = some k → key = k.spelling

/-- What is in the format is readable. -/
theorem InFormat.readable {bytes : List UInt8} {entries : List Entry}
    (h : InFormat bytes entries) : Readable bytes entries := by
  have hzero := h.zero_not_mem
  obtain ⟨body, rfl, hlines⟩ := h.text
  refine ⟨⟨body, rfl, ?_⟩, h.accepted, h.complete⟩
  have hbody : 0 ∉ body := fun hmem =>
    hzero (List.mem_append_right _ (List.mem_cons_of_mem _ hmem))
  rw [tokens_of_zero_not_mem hbody, hlines, List.map_map]
  exact List.map_congr_left fun entry _ => entryOf_lineText entry

/-- What is in the format is spelled in the one way. -/
theorem InFormat.plain {bytes : List UInt8} {entries : List Entry}
    (h : InFormat bytes entries) : Plain bytes := by
  have hzero := h.zero_not_mem
  refine ⟨hzero, fun key hkey k hk => ?_⟩
  obtain ⟨body, rfl, hlines⟩ := h.text
  have hbody : 0 ∉ body := fun hmem =>
    hzero (List.mem_append_right _ (List.mem_cons_of_mem _ hmem))
  obtain ⟨line, hline, hsplit⟩ := List.mem_filterMap.mp hkey
  obtain ⟨⟨key', value⟩, hsplit', hfst⟩ := Option.map_eq_some_iff.mp hsplit
  obtain rfl : key' = key := hfst
  rw [tokens_header, tokens_of_zero_not_mem hbody, hlines] at hline
  rcases List.mem_cons.mp hline with rfl | hline
  · have hheader : splitKey header 32 = none := by decide
    rw [hheader] at hsplit'
    exact absurd hsplit' (by simp)
  · obtain ⟨entry, -, rfl⟩ := List.mem_map.mp hline
    rw [splitKey_lineText, Option.some.injEq, Prod.mk.injEq] at hsplit'
    rw [← hsplit'.1, (spelling_ok entry.1).2.2.2, Option.some.injEq] at hk
    rw [← hsplit'.1, hk]

/-- Lines that are entries in the one spelling are what is written for them. -/
theorem lines_eq_map {lines : List (List UInt8)} {entries : List Entry}
    (hlines : lines.map entryOf = entries.map some)
    (hline : ∀ line ∈ lines, ∀ entry, entryOf line = some entry → line = lineText entry) :
    lines = entries.map lineText := by
  induction lines generalizing entries with
  | nil =>
    rw [List.map_eq_nil_iff.mp hlines.symm]
    rfl
  | cons line rest ih =>
    cases entries with
    | nil => exact absurd hlines (by simp)
    | cons entry entries =>
      simp only [List.map_cons, List.cons.injEq] at hlines
      obtain ⟨hfirst, hrest⟩ := hlines
      rw [List.map_cons, ← hline line List.mem_cons_self entry hfirst,
        ← ih hrest fun l hl => hline l (List.mem_cons_of_mem _ hl)]

/-- A readable file that is spelled in the one way is in the format. -/
theorem Readable.inFormat {bytes : List UInt8} {entries : List Entry}
    (h : Readable bytes entries) (hplain : Plain bytes) : InFormat bytes entries := by
  obtain ⟨hzero, hkeys⟩ := hplain
  obtain ⟨body, rfl, hlines⟩ := h.text
  refine ⟨⟨body, rfl, ?_⟩, h.accepted, h.complete⟩
  have hbody : 0 ∉ body := fun hmem =>
    hzero (List.mem_append_right _ (List.mem_cons_of_mem _ hmem))
  rw [← tokens_of_zero_not_mem hbody]
  refine lines_eq_map hlines fun line hline entry hentry => ?_
  obtain ⟨key, hsplit, hk⟩ := entryOf_eq_some_iff.mp hentry
  have hmem : key ∈ keyTexts (header ++ 0x0a :: body) := by
    rw [keyTexts, tokens_header]
    exact List.mem_filterMap.mpr ⟨line, List.mem_cons_of_mem _ hline, by rw [hsplit]; rfl⟩
  rw [eq_of_splitKey hsplit, hkeys key hmem entry.1 hk]
  rfl

/-- The parser is exact on a file: it accepts it only in the format, the snapshot
is what its entries denote, and no two keys on its lines set the same field. -/
structure Exact (bytes : List UInt8) : Prop where
  accepts : (∃ snapshot, parseSnapshot bytes true = some snapshot) ↔
    ∃ entries, InFormat bytes entries
  values : ∀ snapshot entries, parseSnapshot bytes true = some snapshot →
    InFormat bytes entries → snapshot = snapshotOf entries
  fields : ∀ snapshot, parseSnapshot bytes true = some snapshot →
    ∀ key ∈ keyTexts bytes, ∀ key' ∈ keyTexts bytes, ∀ k,
      keyOf key = some k → keyOf key' = some k → key = key'

/-- A file is read as one list of entries. -/
theorem Readable.unique {bytes : List UInt8} {entries entries' : List Entry}
    (h : Readable bytes entries) (h' : Readable bytes entries') : entries = entries' := by
  obtain ⟨body, rfl, hlines⟩ := h.text
  obtain ⟨body', hbody, hlines'⟩ := h'.text
  obtain rfl : body = body' := by simpa using hbody
  have hinj : Function.Injective (some : Entry → Option Entry) := fun _ _ h => Option.some.inj h
  exact List.map_injective_iff.mpr hinj (hlines.symm.trans hlines')

/-- The parser is exact on a file exactly if the file has no NUL and spells its
keys in the one way, or is not readable anyway. -/
theorem exact_iff_plain (bytes : List UInt8) :
    Exact bytes ↔ Plain bytes ∨ ¬ ∃ entries, Readable bytes entries := by
  constructor
  · intro h
    by_cases hread : ∃ entries, Readable bytes entries
    · obtain ⟨entries, hread⟩ := hread
      obtain ⟨entries', hformat⟩ :=
        h.accepts.mp ⟨_, parseSnapshot_iff.mpr ⟨entries, hread, rfl⟩⟩
      exact Or.inl hformat.plain
    · exact Or.inr hread
  · intro h
    have hformat : ∀ entries, Readable bytes entries → InFormat bytes entries := by
      intro entries hread
      rcases h with hplain | hnot
      · exact hread.inFormat hplain
      · exact absurd ⟨entries, hread⟩ hnot
    refine ⟨⟨?_, ?_⟩, ?_, ?_⟩
    · rintro ⟨snapshot, hsnapshot⟩
      obtain ⟨entries, hread, -⟩ := parseSnapshot_iff.mp hsnapshot
      exact ⟨entries, hformat entries hread⟩
    · rintro ⟨entries, hentries⟩
      exact ⟨_, parseSnapshot_iff.mpr ⟨entries, hentries.readable, rfl⟩⟩
    · intro snapshot entries hsnapshot hentries
      obtain ⟨entries', hread, rfl⟩ := parseSnapshot_iff.mp hsnapshot
      rw [hread.unique hentries.readable]
    · intro snapshot hsnapshot key hkey key' hkey' k hk hk'
      obtain ⟨entries, hread, -⟩ := parseSnapshot_iff.mp hsnapshot
      have hplain := (hformat entries hread).plain
      rw [hplain.2 key hkey k hk, hplain.2 key' hkey' k hk']

/-- A complete file with a NUL and more behind it. -/
def trailingNul : List UInt8 :=
  lit "FACEPLATE_EVENTS_V1\nupdated_boottime_ms=1\nconsole=locked\ncount=0\n" ++ 0 :: lit "x"

/-- A complete file whose one line has the index `00`. -/
def paddedIndex : List UInt8 :=
  lit "FACEPLATE_EVENTS_V1\nupdated_boottime_ms=1\nconsole=locked\ncount=1\n" ++
    lit "e0_text=a\ne00_code=b\n"

/-- Both are accepted, and neither is in the format. -/
theorem trailingNul_paddedIndex_not_exact : ¬ Exact trailingNul ∧ ¬ Exact paddedIndex := by
  constructor
  · intro h
    have haccepted : (parseSnapshot trailingNul true).isSome = true := by decide +kernel
    obtain ⟨entries, hformat⟩ := h.accepts.mp (Option.isSome_iff_exists.mp haccepted)
    exact hformat.zero_not_mem (by decide +kernel)
  · intro h
    have haccepted : (parseSnapshot paddedIndex true).isSome = true := by decide +kernel
    obtain ⟨entries, hformat⟩ := h.accepts.mp (Option.isSome_iff_exists.mp haccepted)
    have hspell := hformat.plain.2 (lit "e00_code") (by decide +kernel)
      (.code ⟨0, by decide⟩) (by decide +kernel)
    exact absurd hspell (by decide +kernel)

end Faceplate.Feed.Events
