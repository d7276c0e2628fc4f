import Mathlib.Data.List.Induction
import Mathlib.Data.List.Infix
import Mathlib.Data.List.Nodup
import Faceplate.Lib.CString

/-!
# The files of the issue text

`misc/issue.c` collects the text from the files and directories of a search path. A file
is ignored if a file of the same base name has been opened before, which takes precedence.
The base names are kept in an array of `MAX_FILES` entries, of which one stays free, and the
text is cut to `ISSUE_MAX_SIZE`.
-/

namespace Faceplate.Misc

open CString

/-- `ISSUE_MAX_SIZE`. -/
def issueMaxSize : ℕ := 256 * 1024

/-- `MAX_FILES`. -/
def maxFiles : ℕ := 64

/-- `CHUNK_SIZE`. -/
def chunkSize : ℕ := 4096

/-- The files as they are while the text is collected: whether a path is there and is a
directory, what `glob` finds for `*.issue` in a directory, and what can be opened and read
under a path. -/
structure IssueFiles where
  stat : List UInt8 → Option Bool
  glob : List UInt8 → List (List UInt8)
  fopen : List UInt8 → Option (List UInt8)

/-- `bname`. -/
def bname (path : List UInt8) : List UInt8 :=
  match strrchr 0x2f path with
  | none => path
  | some (_, file) => file

/-- `struct issue_parser`, with the text and the paths that have been opened. -/
structure IssueParser where
  limit : ℕ
  parsed : List (List UInt8)
  room : parsed.length ≤ maxFiles - 1
  out : List UInt8
  opened : List (List UInt8)

namespace IssueParser

/-- Nothing has been read. -/
def start : IssueParser := ⟨issueMaxSize, [], Nat.zero_le _, [], []⟩

/-- `is_masked`. -/
def isMasked (parser : IssueParser) (path : List UInt8) : Bool :=
  parser.parsed.contains (bname path)

/-- `add_parsed_file`. -/
def addParsedFile (parser : IssueParser) (path : List UInt8) : IssueParser :=
  if h : parser.parsed.length < maxFiles - 1 then
    { parser with
      parsed := parser.parsed ++ [bname path]
      room := by rw [List.length_append]; exact h }
  else parser

/-- The loop that reads a file in chunks, for at most so many rounds. -/
def readChunks : ℕ → List UInt8 → IssueParser → IssueParser
  | 0, _, parser => parser
  | rounds + 1, rest, parser =>
    if parser.limit = 0 then parser
    else
      let chunk := if chunkSize > parser.limit then parser.limit else chunkSize
      let buf := rest.take chunk
      if buf.length = 0 then parser
      else
        readChunks rounds (rest.drop chunk)
          { parser with out := parser.out ++ buf, limit := parser.limit - buf.length }

/-- `append_file`. Each round but the last reads at least one byte. -/
def appendFile (files : IssueFiles) (parser : IssueParser) (path : List UInt8) : IssueParser :=
  if parser.limit = 0 then parser
  else if parser.isMasked path then parser
  else
    match files.fopen path with
    | none => parser
    | some content =>
      readChunks (content.length + 1) content
        { parser.addParsedFile path with opened := parser.opened ++ [path] }

/-- The loop of `append_dir`. -/
def appendFiles (files : IssueFiles) : List (List UInt8) → IssueParser → IssueParser
  | [], parser => parser
  | path :: paths, parser =>
    if parser.limit = 0 then parser else appendFiles files paths (parser.appendFile files path)

/-- The loop of `collect_issue_text` over the entries of the search path. -/
def appendEntries (files : IssueFiles) : List (List UInt8) → IssueParser → IssueParser
  | [], parser => parser
  | entry :: entries, parser =>
    if parser.limit = 0 then parser
    else
      match files.stat entry with
      | none => appendEntries files entries parser
      | some true => appendEntries files entries (appendFiles files (files.glob entry) parser)
      | some false => appendEntries files entries (parser.appendFile files entry)

end IssueParser

/-- The entries of a search path, by `strtok_r`. -/
def searchEntries (searchPath : List UInt8) : List (List UInt8) := tokens 0x3a searchPath

/-- The parser at the end of `collect_issue_text`. -/
def collected (files : IssueFiles) (searchPath : List UInt8) : IssueParser :=
  IssueParser.appendEntries files (searchEntries searchPath) .start

/-- `collect_issue_text`. -/
def collectIssueText (files : IssueFiles) (searchPath : List UInt8) : Option (List UInt8) :=
  if searchPath = [] then none
  else if (collected files searchPath).out = [] then none
  else some (collected files searchPath).out

/-! ## The files in search order -/

/-- The files that the entries of a search path stand for, in search order. -/
def candidates (files : IssueFiles) (entries : List (List UInt8)) : List (List UInt8) :=
  entries.flatMap fun entry =>
    match files.stat entry with
    | none => []
    | some true => files.glob entry
    | some false => [entry]

namespace IssueParser

variable {files : IssueFiles}

theorem appendFile_of_limit {parser : IssueParser} (h : parser.limit = 0) (path : List UInt8) :
    parser.appendFile files path = parser := if_pos h

theorem foldl_appendFile_of_limit {parser : IssueParser} (h : parser.limit = 0)
    (paths : List (List UInt8)) : paths.foldl (appendFile files) parser = parser := by
  induction paths with
  | nil => rfl
  | cons path paths ih => rw [List.foldl_cons, appendFile_of_limit h, ih]

/-- That a loop ends when the limit is used up makes no difference. -/
theorem appendFiles_eq (paths : List (List UInt8)) (parser : IssueParser) :
    appendFiles files paths parser = paths.foldl (appendFile files) parser := by
  induction paths generalizing parser with
  | nil => rfl
  | cons path paths ih =>
    rw [appendFiles, List.foldl_cons]
    split_ifs with hlimit
    · rw [appendFile_of_limit hlimit, foldl_appendFile_of_limit hlimit]
    · exact ih _

theorem appendEntries_eq (entries : List (List UInt8)) (parser : IssueParser) :
    appendEntries files entries parser =
      (candidates files entries).foldl (appendFile files) parser := by
  induction entries generalizing parser with
  | nil => rfl
  | cons entry entries ih =>
    rw [appendEntries, candidates, List.flatMap_cons, List.foldl_append]
    split_ifs with hlimit
    · rw [foldl_appendFile_of_limit hlimit, foldl_appendFile_of_limit hlimit]
    · cases files.stat entry with
      | none => exact ih _
      | some dir =>
        cases dir with
        | false => exact ih _
        | true =>
          dsimp only
          rw [ih, appendFiles_eq]
          rfl

/-- The loop over the chunks reads the file up to the limit. -/
theorem readChunks_eq (rounds : ℕ) (rest : List UInt8) (parser : IssueParser)
    (hrounds : rest.length < rounds) :
    readChunks rounds rest parser =
      { parser with
        out := parser.out ++ rest.take parser.limit
        limit := parser.limit - rest.length } := by
  induction rounds generalizing rest parser with
  | zero => omega
  | succ rounds ih =>
    rw [readChunks]
    by_cases hlimit : parser.limit = 0
    · rw [if_pos hlimit]
      obtain ⟨limit, parsed, room, out, opened⟩ := parser
      obtain rfl : limit = 0 := hlimit
      simp
    rw [if_neg hlimit]
    dsimp only
    set chunk := if chunkSize > parser.limit then parser.limit else chunkSize with hchunk
    have hpos : 0 < chunk ∧ chunk ≤ parser.limit := by
      have : chunkSize = 4096 := rfl
      rw [hchunk]
      split_ifs <;> omega
    by_cases hnone : (rest.take chunk).length = 0
    · rw [if_pos hnone]
      have hrest : rest = [] := by
        rw [List.length_take] at hnone
        exact List.length_eq_zero_iff.mp (by omega)
      subst hrest
      simp
    · rw [if_neg hnone, ih _ _ (by rw [List.length_drop]; rw [List.length_take] at hnone; omega)]
      have htake : rest.take chunk ++
          (rest.drop chunk).take (parser.limit - (rest.take chunk).length) =
          rest.take parser.limit := by
        by_cases hshort : rest.length ≤ chunk
        · rw [List.drop_eq_nil_of_le hshort, List.take_nil, List.append_nil,
            List.take_of_length_le hshort, List.take_of_length_le (Nat.le_trans hshort hpos.2)]
        · have hlength : (rest.take chunk).length = chunk := by
            rw [List.length_take]
            omega
          rw [hlength, ← List.take_add, Nat.add_sub_cancel' hpos.2]
      have hlimit' : parser.limit - (rest.take chunk).length - (rest.drop chunk).length =
          parser.limit - rest.length := by
        rw [List.length_take, List.length_drop]
        omega
      rw [List.append_assoc, htake, hlimit']

theorem appendFile_of_masked {parser : IssueParser} {path : List UInt8}
    (h : parser.isMasked path = true) : parser.appendFile files path = parser := by
  unfold appendFile
  split_ifs <;> rfl

theorem appendFile_of_fopen_none {parser : IssueParser} {path : List UInt8}
    (h : files.fopen path = none) : parser.appendFile files path = parser := by
  unfold appendFile
  split_ifs
  · rfl
  · rfl
  · rw [h]

/-- A file that is not masked is appended up to the limit. -/
theorem appendFile_of_fopen {parser : IssueParser} {path content : List UInt8}
    (hlimit : parser.limit ≠ 0) (hmasked : parser.isMasked path = false)
    (h : files.fopen path = some content) :
    parser.appendFile files path =
      { parser.addParsedFile path with
        opened := parser.opened ++ [path]
        out := parser.out ++ content.take parser.limit
        limit := parser.limit - content.length } := by
  have hadd : (parser.addParsedFile path).out = parser.out ∧
      (parser.addParsedFile path).limit = parser.limit := by
    unfold addParsedFile
    split_ifs <;> exact ⟨rfl, rfl⟩
  rw [appendFile, if_neg hlimit, if_neg (by simp [hmasked]), h]
  dsimp only
  rw [readChunks_eq _ _ _ (Nat.lt_succ_self _), hadd.1, hadd.2]

/-- What is opened stays on record. -/
theorem opened_appendFile (parser : IssueParser) (path : List UInt8) :
    parser.opened <+: (parser.appendFile files path).opened := by
  by_cases hlimit : parser.limit = 0
  · rw [appendFile_of_limit hlimit]
  cases hmasked : parser.isMasked path with
  | true =>
    rw [appendFile_of_masked hmasked]
  | false =>
    cases hopen : files.fopen path with
    | none =>
      rw [appendFile_of_fopen_none hopen]
    | some content =>
      rw [appendFile_of_fopen hlimit hmasked hopen]
      exact List.prefix_append _ _

/-- What is appended is taken from the limit. -/
theorem length_appendFile (parser : IssueParser) (path : List UInt8) :
    (parser.appendFile files path).out.length + (parser.appendFile files path).limit =
      parser.out.length + parser.limit := by
  by_cases hlimit : parser.limit = 0
  · rw [appendFile_of_limit hlimit]
  cases hmasked : parser.isMasked path with
  | true => rw [appendFile_of_masked hmasked]
  | false =>
    cases hopen : files.fopen path with
    | none => rw [appendFile_of_fopen_none hopen]
    | some content =>
      rw [appendFile_of_fopen hlimit hmasked hopen]
      simp only [List.length_append, List.length_take]
      omega

/-- However many files there are, the text never exceeds the limit. -/
theorem length_foldl_le (paths : List (List UInt8)) :
    (paths.foldl (appendFile files) start).out.length ≤ issueMaxSize := by
  have hsum : (paths.foldl (appendFile files) start).out.length +
      (paths.foldl (appendFile files) start).limit = issueMaxSize := by
    induction paths using List.reverseRecOn with
    | nil => exact Nat.zero_add issueMaxSize
    | append_singleton paths path ih =>
      rw [List.foldl_append, List.foldl_cons, List.foldl_nil, length_appendFile, ih]
  omega

end IssueParser

/-! ## Masking by name -/

/-- The contents of some files, one behind the other. -/
def contents (files : IssueFiles) (paths : List (List UInt8)) : List UInt8 :=
  paths.flatMap fun path => (files.fopen path).getD []

/-- Names are compared byte by byte. -/
local instance lawfulBEq_name : LawfulBEq (List UInt8) := inferInstance

/-- The files that can be opened and are the first of their base names. -/
def firstOpened (files : IssueFiles) (paths : List (List UInt8)) : List (List UInt8) :=
  paths.foldl (fun firsts path =>
    if (files.fopen path).isSome ∧ bname path ∉ firsts.map bname then firsts ++ [path]
    else firsts) []

theorem firstOpened_concat (files : IssueFiles) (paths : List (List UInt8)) (path : List UInt8) :
    firstOpened files (paths ++ [path]) =
      if (files.fopen path).isSome ∧ bname path ∉ (firstOpened files paths).map bname then
        firstOpened files paths ++ [path]
      else firstOpened files paths := by
  rw [firstOpened, List.foldl_append]
  rfl

theorem nodup_firstOpened (files : IssueFiles) (paths : List (List UInt8)) :
    ((firstOpened files paths).map bname).Nodup := by
  induction paths using List.reverseRecOn with
  | nil => exact List.nodup_nil
  | append_singleton paths path ih =>
    rw [firstOpened_concat]
    split_ifs with hfirst
    · rw [List.map_append, List.map_singleton, ← List.concat_eq_append, List.nodup_concat]
      exact ⟨hfirst.2, ih⟩
    · exact ih

/-- Every base name under which something can be opened is among the first ones. -/
theorem bname_mem_firstOpened {files : IssueFiles} {paths : List (List UInt8)}
    {path : List UInt8} (hmem : path ∈ paths) (hopen : (files.fopen path).isSome) :
    bname path ∈ (firstOpened files paths).map bname := by
  induction paths using List.reverseRecOn with
  | nil => simp at hmem
  | append_singleton paths last ih =>
    rw [firstOpened_concat]
    rcases List.mem_append.mp hmem with hmem | hmem
    · split_ifs
      · rw [List.map_append]
        exact List.mem_append_left _ (ih hmem)
      · exact ih hmem
    · obtain rfl := List.mem_singleton.mp hmem
      split_ifs with hfirst
      · simp
      · by_contra hnot
        exact hfirst ⟨hopen, hnot⟩

/-- The first of its base name that can be opened. -/
theorem find?_of_mem_firstOpened {files : IssueFiles} {paths : List (List UInt8)}
    {path : List UInt8} (h : path ∈ firstOpened files paths) :
    paths.find? (fun other => (files.fopen other).isSome && bname other == bname path) =
      some path := by
  induction paths using List.reverseRecOn with
  | nil => simp [firstOpened] at h
  | append_singleton paths last ih =>
    rw [firstOpened_concat] at h
    rw [List.find?_append]
    split_ifs at h with hfirst
    · rcases List.mem_append.mp h with h | h
      · rw [ih h]
        rfl
      · obtain rfl := List.mem_singleton.mp h
        have hnone : paths.find? (fun other => (files.fopen other).isSome &&
            bname other == bname path) = none := by
          rw [List.find?_eq_none]
          intro other hother hboth
          obtain ⟨hopen, hsame⟩ := Bool.and_eq_true_iff.mp hboth
          have hmem := bname_mem_firstOpened hother hopen
          rw [beq_iff_eq.mp hsame] at hmem
          exact hfirst.2 hmem
        rw [hnone]
        simp [hfirst.1]
    · rw [ih h]
      rfl

/-- Each base name contributes one file at most, the first that can be opened; each that can
be opened does unless the limit is used up; and the text is what has been opened, cut to the
limit. -/
structure MaskedByName (files : IssueFiles) (paths : List (List UInt8)) (parser : IssueParser) :
    Prop where
  once : (parser.opened.map bname).Nodup
  first : ∀ path ∈ parser.opened, paths.find? (fun other =>
    (files.fopen other).isSome && bname other == bname path) = some path
  all : parser.limit = 0 ∨ ∀ path ∈ paths, (files.fopen path).isSome →
    bname path ∈ parser.opened.map bname
  text : parser.out = (contents files parser.opened).take issueMaxSize
  le : parser.out.length ≤ issueMaxSize

/-- A file comes too late to be masked: something has been opened under its base name, but
this name is not among those that are kept, and the limit is not used up. -/
def TooLate (files : IssueFiles) (before : List (List UInt8)) (path : List UInt8) : Prop :=
  (files.fopen path).isSome ∧ bname path ∈ (firstOpened files before).map bname ∧
    bname path ∉ ((firstOpened files before).map bname).take (maxFiles - 1) ∧
    (contents files (firstOpened files before)).length < issueMaxSize

/-- No file of the search comes too late. -/
def NoneTooLate (files : IssueFiles) (paths : List (List UInt8)) : Prop :=
  ∀ before path after, paths = before ++ path :: after → ¬ TooLate files before path

theorem noneTooLate_concat {files : IssueFiles} {paths : List (List UInt8)}
    {path : List UInt8} : NoneTooLate files (paths ++ [path]) ↔
      NoneTooLate files paths ∧ ¬ TooLate files paths path := by
  constructor
  · intro h
    refine ⟨?_, h paths path [] rfl⟩
    rintro before other after rfl
    exact h before other (after ++ [path]) (by simp)
  · rintro ⟨hpaths, hlast⟩ before other after hsplit
    rcases List.eq_nil_or_concat' after with rfl | ⟨after, last, rfl⟩
    · obtain ⟨rfl, hsame⟩ := List.append_inj' hsplit rfl
      obtain rfl := (List.cons.inj hsame).1
      exact hlast
    · have hsplit' : paths ++ [path] = (before ++ other :: after) ++ [last] := by
        rw [hsplit]
        simp
      exact hpaths before other after (List.append_inj' hsplit' rfl).1

/-! ## The run -/

/-- The parser behind some files, none of which came too late. -/
structure IssueParser.Behind (files : IssueFiles) (paths : List (List UInt8))
    (parser : IssueParser) : Prop where
  opened : parser.opened <+: firstOpened files paths
  all : parser.limit = 0 ∨ parser.opened = firstOpened files paths
  out : parser.out = (contents files parser.opened).take issueMaxSize
  limit : parser.limit = issueMaxSize - (contents files parser.opened).length
  parsed : parser.parsed = (parser.opened.map bname).take (maxFiles - 1)

theorem IssueParser.behind_start (files : IssueFiles) : start.Behind files [] :=
  ⟨List.prefix_refl _, .inr rfl, rfl, rfl, rfl⟩

theorem prefix_firstOpened_concat (files : IssueFiles) (paths : List (List UInt8))
    (path : List UInt8) : firstOpened files paths <+: firstOpened files (paths ++ [path]) := by
  rw [firstOpened_concat]
  split_ifs
  · exact List.prefix_append _ _
  · exact List.prefix_refl _

namespace IssueParser

/-- A file that does not come too late is masked if and only if its base name has been
opened. -/
theorem Behind.step {files : IssueFiles} {paths : List (List UInt8)} {parser : IssueParser}
    (h : parser.Behind files paths) {path : List UInt8} (hlate : ¬ TooLate files paths path) :
    (parser.appendFile files path).Behind files (paths ++ [path]) := by
  by_cases hlimit : parser.limit = 0
  · rw [appendFile_of_limit hlimit]
    exact ⟨h.opened.trans (prefix_firstOpened_concat files paths path), .inl hlimit, h.out,
      h.limit, h.parsed⟩
  have hall : parser.opened = firstOpened files paths := h.all.resolve_left hlimit
  have hroom : (contents files (firstOpened files paths)).length < issueMaxSize := by
    have := h.limit
    rw [hall] at this
    omega
  have hsame : firstOpened files (paths ++ [path]) = firstOpened files paths →
      parser.Behind files (paths ++ [path]) := fun hfirsts =>
    ⟨hfirsts ▸ h.opened, .inr (hfirsts ▸ hall), h.out, h.limit, h.parsed⟩
  cases hopen : files.fopen path with
  | none =>
    rw [appendFile_of_fopen_none hopen]
    refine hsame ?_
    rw [firstOpened_concat, if_neg]
    simp [hopen]
  | some content =>
    have hisSome : (files.fopen path).isSome := by simp [hopen]
    by_cases hseen : bname path ∈ (firstOpened files paths).map bname
    · have hkept : bname path ∈ parser.parsed := by
        rw [h.parsed, hall]
        by_contra hnot
        exact hlate ⟨hisSome, hseen, hnot, hroom⟩
      rw [appendFile_of_masked (by simpa [isMasked] using hkept)]
      refine hsame ?_
      rw [firstOpened_concat, if_neg]
      exact fun hboth => hboth.2 hseen
    · have hmasked : parser.isMasked path = false := by
        have hnot : bname path ∉ parser.parsed := by
          rw [h.parsed, hall]
          exact fun hmem => hseen (List.mem_of_mem_take hmem)
        simpa [isMasked] using hnot
      have hfirsts : firstOpened files (paths ++ [path]) = firstOpened files paths ++ [path] := by
        rw [firstOpened_concat, if_pos ⟨hisSome, hseen⟩]
      have hcontents : contents files (parser.opened ++ [path]) =
          contents files parser.opened ++ content := by
        simp [contents, hopen]
      have hlim := h.limit
      rw [appendFile_of_fopen hlimit hmasked hopen]
      refine ⟨?_, .inr ?_, ?_, ?_, ?_⟩
      · rw [hfirsts, hall]
      · rw [hfirsts, hall]
      · change parser.out ++ content.take parser.limit = _
        rw [hcontents, h.out, List.take_append, ← hlim]
      · change parser.limit - content.length = _
        rw [hcontents, List.length_append]
        omega
      · change (parser.addParsedFile path).parsed = _
        rw [List.map_append, List.map_singleton]
        unfold addParsedFile
        split_ifs with hfew
        · change parser.parsed ++ [bname path] = _
          rw [h.parsed, List.length_take] at hfew
          rw [h.parsed, List.take_of_length_le (by omega), List.take_of_length_le]
          rw [List.length_append, List.length_singleton]
          omega
        · rw [h.parsed, List.length_take] at hfew
          rw [h.parsed, List.take_append_of_le_length (by omega)]

/-- A file that comes too late is opened although its base name has been. -/
theorem Behind.not_nodup {files : IssueFiles} {paths : List (List UInt8)} {parser : IssueParser}
    (h : parser.Behind files paths) {path : List UInt8} (hlate : TooLate files paths path) :
    ¬ ((parser.appendFile files path).opened.map bname).Nodup := by
  obtain ⟨hisSome, hseen, hnot, hroom⟩ := hlate
  obtain ⟨content, hopen⟩ := Option.isSome_iff_exists.mp hisSome
  have hlimit : parser.limit ≠ 0 := by
    intro hzero
    have hlen := h.opened.length_le
    have hle : (contents files parser.opened).length ≤
        (contents files (firstOpened files paths)).length := by
      obtain ⟨rest, hrest⟩ := h.opened
      rw [← hrest, contents, contents, List.flatMap_append, List.length_append]
      exact Nat.le_add_right _ _
    have := h.limit
    omega
  have hall : parser.opened = firstOpened files paths := h.all.resolve_left hlimit
  have hmasked : parser.isMasked path = false := by
    have hparsed : bname path ∉ parser.parsed := by
      rw [h.parsed, hall]
      exact hnot
    simpa [isMasked] using hparsed
  rw [appendFile_of_fopen hlimit hmasked hopen]
  change ¬ ((parser.opened ++ [path]).map bname).Nodup
  rw [hall, List.map_append, List.map_singleton, ← List.concat_eq_append, List.nodup_concat]
  exact fun hboth => hboth.1 hseen

/-- Where no file comes too late the run keeps its invariant. -/
theorem behind_foldl {files : IssueFiles} {paths : List (List UInt8)}
    (h : NoneTooLate files paths) :
    (paths.foldl (appendFile files) start).Behind files paths := by
  induction paths using List.reverseRecOn with
  | nil => exact behind_start files
  | append_singleton paths path ih =>
    obtain ⟨hpaths, hlast⟩ := noneTooLate_concat.mp h
    rw [List.foldl_append]
    exact (ih hpaths).step hlast

/-- Where one does, a base name is opened twice. -/
theorem not_nodup_foldl {files : IssueFiles} {paths : List (List UInt8)}
    (h : ¬ NoneTooLate files paths) :
    ¬ ((paths.foldl (appendFile files) start).opened.map bname).Nodup := by
  induction paths using List.reverseRecOn with
  | nil =>
    refine absurd ?_ h
    intro before path after hsplit
    simp at hsplit
  | append_singleton paths path ih =>
    rw [List.foldl_append]
    by_cases hpaths : NoneTooLate files paths
    · have hlast : TooLate files paths path := by
        by_contra hlast
        exact h (noneTooLate_concat.mpr ⟨hpaths, hlast⟩)
      exact (behind_foldl hpaths).not_nodup hlast
    · intro hnodup
      have hpre : (paths.foldl (appendFile files) start).opened <+:
          ((paths.foldl (appendFile files) start).appendFile files path).opened :=
        opened_appendFile _ path
      exact ih hpaths (hnodup.sublist (hpre.sublist.map bname))

end IssueParser

/-- The invariant says that files are masked by name. -/
theorem maskedByName_of_behind {files : IssueFiles} {paths : List (List UInt8)} {parser : IssueParser}
    (h : parser.Behind files paths) : MaskedByName files paths parser where
  once := (nodup_firstOpened files paths).sublist (h.opened.sublist.map bname)
  first path hpath := find?_of_mem_firstOpened (h.opened.subset hpath)
  all := h.all.imp_right fun hall path hpath hopen => by
    rw [hall]
    exact bname_mem_firstOpened hpath hopen
  text := h.out
  le := by
    rw [h.out]
    exact List.length_take_le _ _

theorem length_collected_le (files : IssueFiles) (searchPath : List UInt8) :
    (collected files searchPath).out.length ≤ issueMaxSize := by
  rw [collected, IssueParser.appendEntries_eq]
  exact IssueParser.length_foldl_le _

/-- Masking is by base name if and only if no file comes too late. -/
theorem maskedByName_iff (files : IssueFiles) (searchPath : List UInt8) :
    MaskedByName files (candidates files (searchEntries searchPath))
        (collected files searchPath) ↔
      NoneTooLate files (candidates files (searchEntries searchPath)) := by
  rw [collected, IssueParser.appendEntries_eq]
  constructor
  · intro h
    by_contra hlate
    exact IssueParser.not_nodup_foldl hlate h.once
  · intro h
    exact maskedByName_of_behind (IssueParser.behind_foldl h)

/-- Two directories with 64 files of the same names. -/
def twoDirectories : IssueFiles where
  stat path := if path = lit "/etc/issue.d" ∨ path = lit "/run/issue.d" then some true else none
  glob dir := (List.range 64).map fun i =>
    dir ++ lit "/" ++ [UInt8.ofNat (0x30 + i / 10), UInt8.ofNat (0x30 + i % 10)] ++ lit ".issue"
  fopen _ := some (lit "x")

/-- The last of the names is not kept, and its second file is read as well. -/
theorem twoDirectories_not_maskedByName :
    ¬ MaskedByName twoDirectories
      (candidates twoDirectories (searchEntries (lit "/etc/issue.d:/run/issue.d")))
      (collected twoDirectories (lit "/etc/issue.d:/run/issue.d")) := fun h =>
  absurd h.once (by decide +kernel)

end Faceplate.Misc
