import Faceplate.Lib.Runs
import Faceplate.Conf.Basic

/-!
# The lines of a configuration file

What a file means line by line, for options whose callbacks may do anything with the memory
of the user. `bufferEntries`, which goes through the bytes, finds the same entries.
-/

namespace Faceplate.Conf

open CString

/-- What a line says: nothing, or a key and perhaps a value. A comment starts at the first
`#`, and a value behind the first `=`. -/
def lineEntry (line : List UInt8) : Option (Str × Option Str) :=
  let text := line.takeWhile (· != 0x23)
  let key := stripSpaces (cstr (text.takeWhile (· != 0x3d)))
  let value := if 0x3d ∈ text then some ((text.dropWhile (· != 0x3d)).drop 1) else none
  if key = [] then none else some (key, value.map fun value => stripSpaces (cstr value))

/-- The entries of a file, line by line. -/
def fileEntries (content : List UInt8) : List (Str × Option Str) :=
  (content.splitOn 0x0a).filterMap lineEntry

/-- `struct conf_option` as files see it: a callback gets the sign of the key, the value and
all of the user's memory. -/
structure FileOption (σ : Type*) where
  longName : Option Str
  hasArg : Bool
  locked : Bool
  parse : Option (Bool → Option Str → σ → ℤ × σ)
  file : Option (Bool → Option Str → σ → ℤ × σ)
  aftercheck : Option (σ → ℤ × σ)

namespace FileOption

variable {σ : Type*}

/-- Whether a key names the option, and with which sign. -/
def namedBy (opt : FileOption σ) (key : Str) : Option Bool :=
  match opt.longName with
  | none => none
  | some name => if key = lit "no-" ++ name then some false else if key = name then some true
    else none

/-- What `parse_kv_pair` does with the option that a key names. -/
def assign (opt : FileOption σ) (on : Bool) (value : Option Str) (conf : σ) : ℤ × σ :=
  if opt.locked then (0, conf)
  else
    match opt.file with
    | some file => file on value conf
    | none =>
      if opt.hasArg ≠ value.isSome then (eagain, conf)
      else
        match opt.parse with
        | some parse => parse on value conf
        | none => (0, conf)

/-- `parse_kv_pair`. -/
def parseKvPair : List (FileOption σ) → Str → Option Str → σ → ℤ × σ
  | [], _, _, conf => (eagain, conf)
  | opt :: opts, key, value, conf =>
    match opt.namedBy key with
    | none => parseKvPair opts key value conf
    | some on => opt.assign on value conf

/-- The memory after an entry. -/
def step (opts : List (FileOption σ)) (conf : σ) (entry : Str × Option Str) : σ :=
  (parseKvPair opts entry.1 entry.2 conf).2

/-- An entry is understood, or is at most reported. -/
def Soft (opts : List (FileOption σ)) (conf : σ) (entry : Str × Option Str) : Prop :=
  (parseKvPair opts entry.1 entry.2 conf).1 = 0 ∨
    (parseKvPair opts entry.1 entry.2 conf).1 = eagain

/-- A key names no option, or one that is locked. -/
def ignores : List (FileOption σ) → Str → Bool
  | [], _ => true
  | opt :: opts, key => if (opt.namedBy key).isSome then opt.locked else ignores opts key

/-- The first option that a key names, and it is not locked. -/
structure Known (opts : List (FileOption σ)) (key : Str) (opt : FileOption σ) (on : Bool) :
    Prop where
  first : ∃ before later, opts = before ++ opt :: later ∧ ∀ o ∈ before, o.namedBy key = none
  named : opt.namedBy key = some on
  unlocked : opt.locked = false

/-- What an entry does to such an option: its callback for files gets the value, or else its
type does, if there is a value exactly where the type takes one. -/
inductive Does (opts : List (FileOption σ)) (entry : Str × Option Str) (conf : σ) : ℤ × σ → Prop
  | file {opt : FileOption σ} {on : Bool} {file : Bool → Option Str → σ → ℤ × σ}
      (h : Known opts entry.1 opt on) (hfile : opt.file = some file) :
      Does opts entry conf (file on entry.2 conf)
  | refused {opt : FileOption σ} {on : Bool} (h : Known opts entry.1 opt on)
      (hfile : opt.file = none) (harg : opt.hasArg ≠ entry.2.isSome) :
      Does opts entry conf (eagain, conf)
  | parsed {opt : FileOption σ} {on : Bool} {parse : Bool → Option Str → σ → ℤ × σ}
      (h : Known opts entry.1 opt on) (hfile : opt.file = none)
      (harg : opt.hasArg = entry.2.isSome) (hparse : opt.parse = some parse) :
      Does opts entry conf (parse on entry.2 conf)
  | unparsed {opt : FileOption σ} {on : Bool} (h : Known opts entry.1 opt on)
      (hfile : opt.file = none) (harg : opt.hasArg = entry.2.isSome) (hparse : opt.parse = none) :
      Does opts entry conf (0, conf)

/-- The loop of `parse_buffer`, over entries. -/
def parseEntries (opts : List (FileOption σ)) : List (Str × Option Str) → σ → ℤ × σ
  | [], conf => (0, conf)
  | entry :: entries, conf =>
    let (ret, conf) := parseKvPair opts entry.1 entry.2 conf
    if ret ≠ 0 ∧ ret ≠ eagain then (ret, conf) else parseEntries opts entries conf

/-- The afterchecks at the end of `parse_buffer`. -/
def checks : List (FileOption σ) → σ → ℤ × σ
  | [], conf => (0, conf)
  | opt :: opts, conf =>
    match opt.aftercheck with
    | none => checks opts conf
    | some check =>
      let (ret, conf) := check conf
      if ret < 0 then (ret, conf) else checks opts conf

/-- A file by its entries. -/
def parseFile (opts : List (FileOption σ)) (content : List UInt8) (conf : σ) : ℤ × σ :=
  let (ret, conf) := parseEntries opts (fileEntries content) conf
  if ret ≠ 0 then (ret, conf) else checks opts conf

variable {opts : List (FileOption σ)}

/-! ## What happens to the entries -/

/-- A key that is ignored has no effect. -/
theorem parseKvPair_of_ignores {key : Str} (h : ignores opts key = true) (value : Option Str)
    (conf : σ) : ((parseKvPair opts key value conf).1 = 0 ∨
      (parseKvPair opts key value conf).1 = eagain) ∧
    (parseKvPair opts key value conf).2 = conf := by
  induction opts with
  | nil => exact ⟨.inr rfl, rfl⟩
  | cons opt opts ih =>
    unfold ignores at h
    cases hmatch : opt.namedBy key with
    | none =>
      have hrest : parseKvPair (opt :: opts) key value conf = parseKvPair opts key value conf := by
        simp only [parseKvPair, hmatch]
      rw [hrest]
      exact ih (by simpa [hmatch] using h)
    | some on =>
      have hlocked : opt.locked = true := by simpa [hmatch] using h
      have hassign : parseKvPair (opt :: opts) key value conf = (0, conf) := by
        simp only [parseKvPair, hmatch, assign, hlocked, if_true]
      rw [hassign]
      exact ⟨.inl rfl, rfl⟩

/-- A key that is not ignored names an option first that is not locked, and the entry is for
this option. -/
theorem exists_known {key : Str} (h : ignores opts key = false) (value : Option Str) (conf : σ) :
    ∃ opt on, Known opts key opt on ∧
      parseKvPair opts key value conf = opt.assign on value conf := by
  induction opts with
  | nil => simp [ignores] at h
  | cons opt opts ih =>
    unfold ignores at h
    cases hmatch : opt.namedBy key with
    | none =>
      obtain ⟨found, on, ⟨⟨before, later, rfl, hbefore⟩, hnamed, hunlocked⟩, hassign⟩ :=
        ih (by simpa [hmatch] using h)
      refine ⟨found, on, ⟨⟨opt :: before, later, rfl, ?_⟩, hnamed, hunlocked⟩, ?_⟩
      · intro o ho
        rcases List.mem_cons.mp ho with rfl | ho
        · exact hmatch
        · exact hbefore o ho
      · rw [← hassign]
        simp only [parseKvPair, hmatch]
    | some on =>
      have hunlocked : opt.locked = false := by simpa [hmatch] using h
      exact ⟨opt, on, ⟨⟨[], opts, rfl, by simp⟩, hmatch, hunlocked⟩,
        by simp only [parseKvPair, hmatch]⟩

/-- What `parse_kv_pair` does with the entries that are not ignored. -/
theorem does_parseKvPair {entry : Str × Option Str} (h : ignores opts entry.1 = false) (conf : σ) :
    Does opts entry conf (parseKvPair opts entry.1 entry.2 conf) := by
  obtain ⟨opt, on, hknown, hassign⟩ := exists_known h entry.2 conf
  rw [hassign, assign, if_neg (by simp [hknown.unlocked])]
  cases hfile : opt.file with
  | some file => exact .file hknown hfile
  | none =>
    by_cases harg : opt.hasArg ≠ entry.2.isSome
    · simp only [if_pos harg]
      exact .refused hknown hfile harg
    · simp only [if_neg harg]
      cases hparse : opt.parse with
      | some parse => exact .parsed hknown hfile (not_not.mp harg) hparse
      | none => exact .unparsed hknown hfile (not_not.mp harg) hparse

/-- Entries whose keys are ignored can be left out. -/
theorem parseEntries_filter (entries : List (Str × Option Str)) (conf : σ) :
    parseEntries opts (entries.filter fun entry => !ignores opts entry.1) conf =
      parseEntries opts entries conf := by
  induction entries generalizing conf with
  | nil => rfl
  | cons entry entries ih =>
    cases hignored : ignores opts entry.1 with
    | true =>
      obtain ⟨hret, hconf⟩ := parseKvPair_of_ignores hignored entry.2 conf
      have hsoft : ¬ ((parseKvPair opts entry.1 entry.2 conf).1 ≠ 0 ∧
          (parseKvPair opts entry.1 entry.2 conf).1 ≠ eagain) := by tauto
      rw [List.filter_cons_of_neg (by simp [hignored]), ih]
      conv_rhs => unfold parseEntries
      simp only [if_neg hsoft, hconf]
    | false =>
      rw [List.filter_cons_of_pos (by simp [hignored])]
      unfold parseEntries
      simp only [ih]

/-- All entries are gone through in order, or all up to the first one with a hard error. -/
theorem parseEntries_cases (entries : List (Str × Option Str)) (conf : σ) :
    (Runs.Along (step opts) (Soft opts) conf entries ∧
        parseEntries opts entries conf = (0, Runs.run (step opts) conf entries)) ∨
      ∃ before entry later, entries = before ++ entry :: later ∧
        Runs.Along (step opts) (Soft opts) conf before ∧
        ¬ Soft opts (Runs.run (step opts) conf before) entry ∧
        parseEntries opts entries conf =
          parseKvPair opts entry.1 entry.2 (Runs.run (step opts) conf before) := by
  induction entries generalizing conf with
  | nil => exact .inl ⟨trivial, rfl⟩
  | cons entry entries ih =>
    by_cases hsoft : Soft opts conf entry
    · have hnot : ¬ ((parseKvPair opts entry.1 entry.2 conf).1 ≠ 0 ∧
          (parseKvPair opts entry.1 entry.2 conf).1 ≠ eagain) := by
        unfold Soft at hsoft
        tauto
      have hnext : parseEntries opts (entry :: entries) conf =
          parseEntries opts entries (step opts conf entry) := by
        conv_lhs => unfold parseEntries
        simp only [if_neg hnot, step]
      rw [hnext]
      obtain ⟨hrest, hresult⟩ | ⟨before, last, later, heq, hbefore, hhard, hresult⟩ :=
        ih (step opts conf entry)
      · exact .inl ⟨⟨hsoft, hrest⟩, hresult⟩
      · exact .inr ⟨entry :: before, last, later, by rw [heq, List.cons_append],
          ⟨hsoft, hbefore⟩, hhard, hresult⟩
    · right
      refine ⟨[], entry, entries, rfl, trivial, hsoft, ?_⟩
      unfold Soft at hsoft
      push Not at hsoft
      simp only [parseEntries, if_pos hsoft, Runs.run_nil]

end FileOption

/-! ## The entries of a buffer -/

/-- The entry of a key and a value as they stand in a line. -/
def fieldsEntry (key : List UInt8) (value : Option (List UInt8)) : Option (Str × Option Str) :=
  if stripSpaces (cstr key) = [] then none
  else some (stripSpaces (cstr key), value.map fun value => stripSpaces (cstr value))

/-- A value with the `=` before it. -/
def valueText : Option (List UInt8) → List UInt8
  | none => []
  | some value => 0x3d :: value

/-- A list up to the first occurrence of an element. -/
theorem exists_until (c : UInt8) (s : List UInt8) : ∃ before tail, s = before ++ tail ∧
    c ∉ before ∧ (tail = [] ∨ ∃ rest, tail = c :: rest) := by
  refine ⟨s.takeWhile (· != c), s.dropWhile (· != c), List.takeWhile_append_dropWhile.symm,
    fun hmem => ?_, ?_⟩
  · simpa using List.mem_takeWhile_imp hmem
  · cases htail : s.dropWhile (· != c) with
    | nil => exact .inl rfl
    | cons d rest =>
      right
      have hd := List.head?_dropWhile_not (· != c) s
      rw [htail] at hd
      exact ⟨rest, by simpa using hd⟩

/-- A line is made of a key, perhaps a value, and perhaps a comment. -/
structure LineParts (line key : List UInt8) (value : Option (List UInt8))
    (comment : List UInt8) : Prop where
  text : line = key ++ valueText value ++ comment
  key : 0x23 ∉ key ∧ 0x3d ∉ key
  value : 0x23 ∉ valueText value
  comment : comment = [] ∨ ∃ rest, comment = 0x23 :: rest

theorem exists_lineParts (line : List UInt8) :
    ∃ key value comment, LineParts line key value comment := by
  obtain ⟨text, comment, rfl, htext, hcomment⟩ := exists_until 0x23 line
  obtain ⟨key, tail, rfl, hkey, rfl | ⟨value, rfl⟩⟩ := exists_until 0x3d text
  · exact ⟨key, none, comment, by simp [valueText], ⟨by simpa using htext, hkey⟩,
      List.not_mem_nil, hcomment⟩
  · simp only [List.mem_append, not_or] at htext
    exact ⟨key, some value, comment, by simp [valueText], ⟨htext.1, hkey⟩, htext.2, hcomment⟩

variable {line key comment tail : List UInt8} {value : Option (List UInt8)}

/-- Where a prefix passes a test and the rest does not start with such an element, the
test stops between them. -/
theorem takeWhile_stops {p : UInt8 → Bool} {before : List UInt8} (hbefore : ∀ c ∈ before, p c)
    (htail : ∀ c ∈ tail.head?, p c = false) :
    (before ++ tail).takeWhile p = before ∧ (before ++ tail).dropWhile p = tail := by
  rw [List.takeWhile_append_of_pos hbefore, List.dropWhile_append_of_pos hbefore]
  cases tail with
  | nil => simp
  | cons c rest =>
    have hc : p c = false := htail c rfl
    simp [hc]

theorem takeWhile_until {c : UInt8} {before : List UInt8} (hbefore : c ∉ before)
    (htail : tail = [] ∨ ∃ rest, tail = c :: rest) :
    (before ++ tail).takeWhile (· != c) = before ∧
      (before ++ tail).dropWhile (· != c) = tail := by
  refine takeWhile_stops (fun d hd => ?_) fun d hd => ?_
  · simp only [bne_iff_ne, ne_eq]
    rintro rfl
    exact hbefore hd
  · obtain rfl | ⟨rest, rfl⟩ := htail
    · cases hd
    · simpa using hd.symm

/-- The entry of a line is the one of its parts. -/
theorem LineParts.entry (h : LineParts line key value comment) :
    lineEntry line = fieldsEntry key value := by
  have htext : 0x23 ∉ key ++ valueText value := by
    simpa using ⟨h.key.1, h.value⟩
  have hvalue : valueText value = [] ∨ ∃ rest, valueText value = 0x3d :: rest := by
    cases value with
    | none => exact .inl rfl
    | some value => exact .inr ⟨value, rfl⟩
  have hsplit := takeWhile_until h.key.2 hvalue
  unfold lineEntry fieldsEntry
  simp only [h.text, (takeWhile_until htext h.comment).1, hsplit.1, hsplit.2]
  cases value with
  | none => simp [valueText, h.key.2]
  | some value => simp [valueText]

/-- Lines that follow a newline. -/
theorem fileEntries_cons {rest : List UInt8} (h : 0x0a ∉ line) :
    fileEntries (line ++ 0x0a :: rest) = (lineEntry line).toList ++ fileEntries rest := by
  unfold fileEntries
  rw [List.splitOn_append_cons_self_of_not_mem h, List.filterMap_cons]
  cases lineEntry line with
  | none => rfl
  | some entry => rfl

/-- The last line. -/
theorem fileEntries_last (h : 0x0a ∉ line) : fileEntries line = (lineEntry line).toList := by
  unfold fileEntries
  rw [List.splitOn_eq_singleton h]
  cases hentry : lineEntry line with
  | none => simp [hentry]
  | some entry => simp [hentry]

@[simp] theorem fileEntries_nil : fileEntries [] = [] := by
  decide

/-- The entries of the first line and of the lines behind it. -/
theorem fileEntries_line (h : 0x0a ∉ line) (htail : tail = [] ∨ ∃ rest, tail = 0x0a :: rest) :
    fileEntries (line ++ tail) = (lineEntry line).toList ++ fileEntries (tail.drop 1) := by
  obtain rfl | ⟨rest, rfl⟩ := htail
  · rw [List.append_nil, fileEntries_last h, List.drop_nil, fileEntries_nil, List.append_nil]
  · exact fileEntries_cons h

/-- What stands behind the key and the value of a line: nothing, a comment or a newline. -/
theorem LineParts.behind (h : LineParts line key value comment)
    (htail : tail = [] ∨ ∃ rest, tail = 0x0a :: rest) :
    ∀ c ∈ (comment ++ tail).head?, c = 0x23 ∨ c = 0x0a := by
  obtain hnil | ⟨rest, hrest⟩ := h.comment
  · obtain rfl | ⟨rest, rfl⟩ := htail
    · simp [hnil]
    · simp [hnil]
  · simp [hrest]

/-- The comment and the end of the line are skipped. -/
theorem LineParts.skip (h : LineParts line key value comment) (hline : 0x0a ∉ line)
    (htail : tail = [] ∨ ∃ rest, tail = 0x0a :: rest) :
    skipLine (comment ++ tail) = tail.drop 1 := by
  have hcomment : 0x0a ∉ comment := fun hmem => hline (by simp [h.text, hmem])
  rw [skipLine, (takeWhile_until hcomment htail).2]

/-- `splitLine` finds the parts of the first line. -/
theorem LineParts.splitLine (h : LineParts line key value comment) (hline : 0x0a ∉ line)
    (htail : tail = [] ∨ ∃ rest, tail = 0x0a :: rest) :
    splitLine (line ++ tail) = (key, value, tail.drop 1) := by
  have hskip := h.skip hline htail
  have hbehind := h.behind htail
  rw [h.text] at hline ⊢
  simp only [List.mem_append, not_or] at hline
  have hkey : ∀ c ∈ key, (c != 0x0a && c != 0x23 && c != 0x3d) = true := fun c hc => by
    have hnewline : c ≠ 0x0a := fun heq => hline.1.1 (heq ▸ hc)
    have hcomment : c ≠ 0x23 := fun heq => h.key.1 (heq ▸ hc)
    have hvalue : c ≠ 0x3d := fun heq => h.key.2 (heq ▸ hc)
    simp [hnewline, hcomment, hvalue]
  cases hval : value with
  | none =>
    have htake := (@takeWhile_stops (comment ++ tail) _ _ hkey fun c hc => by
      obtain rfl | rfl := hbehind c hc <;> rfl).1
    have hdrop : (key ++ (comment ++ tail)).drop key.length = comment ++ tail :=
      List.drop_left
    have hhead : ∀ rest, comment ++ tail ≠ 0x3d :: rest := fun rest heq => by
      have hc := hbehind 0x3d (by rw [heq]; rfl)
      revert hc
      decide
    unfold Conf.splitLine
    simp only [valueText, List.append_nil, List.append_assoc, htake, hdrop]
    rw [hskip]
  | some val =>
    have hval' : ∀ c ∈ val, (c != 0x0a && c != 0x23) = true := fun c hc => by
      have hnewline : c ≠ 0x0a := fun heq => hline.1.2 (by simp [hval, valueText, heq ▸ hc])
      have hcomment : c ≠ 0x23 := fun heq => h.value (by simp [hval, valueText, heq ▸ hc])
      simp [hnewline, hcomment]
    have htake := (@takeWhile_stops (0x3d :: (val ++ (comment ++ tail))) _ _ hkey
      fun c hc => by
        obtain rfl : 0x3d = c := by simpa using hc
        rfl).1
    have htake' := (@takeWhile_stops (comment ++ tail) _ _ hval' fun c hc => by
      obtain rfl | rfl := hbehind c hc <;> rfl).1
    unfold Conf.splitLine
    simp only [valueText, List.append_assoc, List.cons_append, htake, List.drop_left, htake',
      hskip]

/-- `bufferEntries` finds the entries of all lines. -/
theorem bufferEntries_eq {n : ℕ} {content : List UInt8} (hn : content.length ≤ n) :
    bufferEntries n content = fileEntries content := by
  induction n generalizing content with
  | zero =>
    obtain rfl := List.length_eq_zero_iff.mp (Nat.le_zero.mp hn)
    rfl
  | succ n ih =>
    cases hcontent : content with
    | nil => rfl
    | cons c cs =>
      rw [← hcontent]
      obtain ⟨line, tail, heq, hline, htail⟩ := exists_until 0x0a content
      obtain ⟨key, value, comment, hparts⟩ := exists_lineParts line
      have hsplit := hparts.splitLine hline htail
      have hrest : bufferEntries n (tail.drop 1) = fileEntries (tail.drop 1) := by
        refine ih ?_
        have hlen := congrArg List.length heq
        have hpos := congrArg List.length hcontent
        simp only [List.length_append, List.length_cons, List.length_drop] at hlen hpos ⊢
        omega
      have hentries := fileEntries_line hline htail
      rw [← heq, hparts.entry, ← hrest] at hentries
      rw [hentries]
      have hunfold : bufferEntries (n + 1) content =
          if stripSpaces (cstr key) = [] then bufferEntries n (tail.drop 1)
          else (stripSpaces (cstr key), value.map fun value => stripSpaces (cstr value)) ::
            bufferEntries n (tail.drop 1) := by
        rw [hcontent, bufferEntries, ← hcontent, heq, hsplit]
        intro h
        cases h
      rw [hunfold, fieldsEntry]
      split_ifs <;> rfl

/-! ## Contexts -/

namespace ConfCtx

variable {Φ V : Type*} [DecidableEq Φ]

/-- An option of a context as files see it. -/
def fileOption (ctx : ConfCtx Φ V) (o : ConfOption Φ V) (i : ℕ) : FileOption (Φ → V) where
  longName := o.longName
  hasArg := o.type.hasArg
  locked := ctx.locked i
  parse := some fun on arg conf =>
    let (ret, value) := o.type.parse.run on arg (conf o.mem)
    (ret, Function.update conf o.mem value)
  file := o.file.map fun file on arg conf =>
    let (ret, value) := file.run on arg (conf o.mem)
    (ret, Function.update conf o.mem value)
  aftercheck := o.aftercheck.map fun _ => o.check none

/-- The options of a context as files see them. -/
def fileOptions (ctx : ConfCtx Φ V) : List (FileOption (Φ → V)) :=
  ctx.opts.zipIdx.map fun (o, i) => ctx.fileOption o i

theorem parseKvPair_fileOption (ctx : ConfCtx Φ V) (opts : List (ConfOption Φ V × ℕ)) (key : Str)
    (value : Option Str) (conf : Φ → V) :
    FileOption.parseKvPair (opts.map fun (o, i) => ctx.fileOption o i) key value conf =
      match opts.findSome? fun (o, i) => (o.matches key).map fun on => (i, o, on) with
      | none => (eagain, conf)
      | some (i, o, on) => (ctx.fileOption o i).assign on value conf := by
  induction opts with
  | nil => rfl
  | cons opt opts ih =>
    obtain ⟨o, i⟩ := opt
    have hnamed : (ctx.fileOption o i).namedBy key = o.matches key := rfl
    cases hmatch : o.matches key with
    | none =>
      simp only [List.map_cons, FileOption.parseKvPair, List.findSome?_cons, hnamed, hmatch,
        Option.map_none]
      exact ih
    | some on =>
      simp only [List.map_cons, FileOption.parseKvPair, List.findSome?_cons, hnamed, hmatch,
        Option.map_some]

/-- A line locks nothing. -/
theorem fileOptions_parseKvPair (ctx : ConfCtx Φ V) (key : Str) (value : Option Str) :
    (ctx.parseKvPair key value).2.fileOptions = ctx.fileOptions := by
  have hkept : ∀ conf, ({ ctx with conf := conf } : ConfCtx Φ V).fileOptions =
      ctx.fileOptions := fun _ => rfl
  unfold parseKvPair
  split
  · rfl
  · split_ifs
    · rfl
    · split
      · exact hkept _
      · rfl
    · split
      · exact hkept _
      · exact hkept _

/-- A key and a value have the same effect on both. -/
theorem parseKvPair_fileOptions (ctx : ConfCtx Φ V) (key : Str) (value : Option Str) :
    FileOption.parseKvPair ctx.fileOptions key value ctx.conf =
      ((ctx.parseKvPair key value).1, (ctx.parseKvPair key value).2.conf) := by
  rw [fileOptions, parseKvPair_fileOption]
  unfold parseKvPair findKey
  cases ctx.opts.zipIdx.findSome? fun (o, i) => (o.matches key).map fun on => (i, o, on) with
  | none => rfl
  | some found =>
    obtain ⟨i, o, on⟩ := found
    cases hlocked : ctx.locked i with
    | true => simp [FileOption.assign, fileOption, hlocked]
    | false =>
      cases hfile : o.file with
      | some file => simp [FileOption.assign, fileOption, hlocked, hfile, parseInto, set]
      | none =>
        by_cases harg : o.type.hasArg = value.isSome
        · simp [FileOption.assign, fileOption, hlocked, hfile, harg, parseInto, set]
        · simp [FileOption.assign, fileOption, hlocked, hfile, harg]

theorem parseEntries_fileOptions (ctx : ConfCtx Φ V) (entries : List (Str × Option Str)) :
    FileOption.parseEntries ctx.fileOptions entries ctx.conf =
        ((ctx.parseEntries entries).1, (ctx.parseEntries entries).2.conf) ∧
      (ctx.parseEntries entries).2.fileOptions = ctx.fileOptions := by
  induction entries generalizing ctx with
  | nil => exact ⟨rfl, rfl⟩
  | cons entry entries ih =>
    obtain ⟨key, value⟩ := entry
    have hopts := ctx.fileOptions_parseKvPair key value
    unfold FileOption.parseEntries parseEntries
    simp only [ctx.parseKvPair_fileOptions key value]
    split_ifs with hret
    · exact ⟨rfl, hopts⟩
    · have hrest := ih (ctx.parseKvPair key value).2
      rwa [hopts] at hrest

theorem checks_fileOption (ctx : ConfCtx Φ V) (opts : List (ConfOption Φ V × ℕ)) (conf : Φ → V) :
    FileOption.checks (opts.map fun (o, i) => ctx.fileOption o i) conf =
      (if (runChecks (opts.map Prod.fst) none conf).1 < 0
        then (runChecks (opts.map Prod.fst) none conf).1 else 0,
        (runChecks (opts.map Prod.fst) none conf).2.2) := by
  induction opts generalizing conf with
  | nil => rfl
  | cons opt opts ih =>
    obtain ⟨o, i⟩ := opt
    simp only [List.map_cons, FileOption.checks, runChecks, fileOption]
    cases hcheck : o.aftercheck with
    | none =>
      simp only [Option.map_none, ConfOption.check, hcheck]
      exact ih conf
    | some check =>
      simp only [Option.map_some]
      by_cases hret : (o.check none conf).1 < 0
      · simp only [if_pos hret]
      · simp only [if_neg hret]
        exact ih (o.check none conf).2

/-- `parse_buffer` of a context goes through the entries of all lines. -/
theorem parseBuffer_fileOptions (ctx : ConfCtx Φ V) (content : List UInt8) :
    FileOption.parseFile ctx.fileOptions content ctx.conf =
      ((ctx.parseBuffer content).1, (ctx.parseBuffer content).2.conf) := by
  obtain ⟨hentries, hopts⟩ := ctx.parseEntries_fileOptions (fileEntries content)
  unfold FileOption.parseFile parseBuffer
  have hzip : ∀ opts : List (ConfOption Φ V), opts.zipIdx.map Prod.fst = opts := fun opts => by
    simp
  have hchecks : FileOption.checks ctx.fileOptions (ctx.parseEntries (fileEntries content)).2.conf =
      (if (check none (ctx.parseEntries (fileEntries content)).2).1 < 0
        then (check none (ctx.parseEntries (fileEntries content)).2).1 else 0,
        (check none (ctx.parseEntries (fileEntries content)).2).2.2.conf) := by
    rw [← hopts, fileOptions, checks_fileOption, hzip]
    rfl
  simp only [bufferEntries_eq le_rfl, hentries, hchecks]
  split_ifs <;> rfl

end ConfCtx

end Faceplate.Conf
