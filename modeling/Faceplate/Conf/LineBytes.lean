import Mathlib.Tactic.SplitIfs
import Faceplate.Lib.Writes
import Faceplate.Conf.FileLines

/-!
# A configuration file in memory

`parse_buffer` cuts its lines in place: it writes a NUL behind keys and values, also behind
the last byte of the file, and over the blanks at their ends. Memory is a list of bytes; a
read or write outside of it is undefined.
-/

namespace Faceplate.Conf

open CString Writes

/-- A loop over at most `len` bytes that stops at one of some kind: where it stops, and how
many bytes are left. -/
def scan (stop : UInt8 → Bool) (mem : List UInt8) : ℕ → ℕ → Option (ℕ × ℕ)
  | line, 0 => some (line, 0)
  | line, len + 1 => do
    let c ← mem[line]?
    if stop c then some (line, len + 1) else scan stop mem (line + 1) len

/-- The string at the front of a memory, unless the memory ends before it does. -/
def readString : List UInt8 → Option Str
  | [] => none
  | c :: mem => if c = 0 then some [] else (readString mem).map (c :: ·)

/-- The first loop of `strip_spaces`: how many blanks there are. -/
def skipBlanks : List UInt8 → Option ℕ
  | [] => none
  | c :: mem => if blank c then (skipBlanks mem).map (· + 1) else some 0

/-- The last loop of `strip_spaces`. -/
def trimTail (mem : List UInt8) : ℕ → Option (List UInt8)
  | 0 => do
    let c ← mem[0]?
    if blank c then none else some mem
  | tail + 1 => do
    let c ← mem[tail + 1]?
    if blank c then
      let mem ← write mem (tail + 1) 0
      trimTail mem tail
    else some mem

/-- `strip_spaces`, with the memory and the new `*buf`. -/
def stripSpacesAt (mem : List UInt8) (buf : ℕ) : Option (List UInt8 × ℕ) := do
  let lead ← skipBlanks (mem.drop buf)
  let s ← readString (mem.drop (buf + lead))
  if s = [] then some (mem, buf + lead)
  else
    let mem ← trimTail mem (buf + lead + s.length - 1)
    some (mem, buf + lead)

/-- What `parse_line` does where a key or a value stops: a NUL is written there and a comment
skipped, and the line is done, unless it stops at another byte. -/
def cutLine (mem : List UInt8) (line len : ℕ) : Option (Option (List UInt8 × ℕ × ℕ)) :=
  if len = 0 then do
    let mem ← write mem line 0
    some (some (mem, line, len))
  else do
    let c ← mem[line]?
    if c = 0x0a then
      let mem ← write mem line 0
      some (some (mem, line, len))
    else if c = 0x23 then
      let mem ← write mem line 0
      let (line, len) ← scan (· == 0x0a) mem line len
      some (some (mem, line, len))
    else some none

/-- What `parse_line` returns, with the memory and what it leaves in `*buf` and `*size`. -/
structure LineEnd (σ : Type) where
  ret : ℤ
  conf : σ
  mem : List UInt8
  buf : Option ℕ
  size : ℕ

section Lines

variable {σ : Type} (opts : List (FileOption σ))

/-- The value that goes to `parse_kv_pair`. -/
def stripValue (mem : List UInt8) : Option ℕ → Option (List UInt8 × Option Str)
  | none => some (mem, none)
  | some value => do
    let (mem, value) ← stripSpacesAt mem value
    let text ← readString (mem.drop value)
    some (mem, some text)

/-- The end of `parse_line`. -/
def nextLine (conf : σ) (mem : List UInt8) (line len : ℕ) : LineEnd σ :=
  if len = 0 then ⟨0, conf, mem, none, 0⟩ else ⟨0, conf, mem, some (line + 1), len - 1⟩

/-- `parse_line` from the label `done` on. -/
def finishLine (conf : σ) (buf size : ℕ) (mem : List UInt8) (value : Option ℕ) (line len : ℕ) :
    Option (LineEnd σ) := do
  let (mem, key) ← stripSpacesAt mem buf
  let klen ← (readString (mem.drop key)).map List.length
  if klen > 0 then
    let (mem, value) ← stripValue mem value
    let key ← readString (mem.drop key)
    let (ret, conf) := FileOption.parseKvPair opts key value conf
    if ret ≠ 0 ∧ ret ≠ eagain then some ⟨ret, conf, mem, some buf, size⟩
    else some (nextLine conf mem line len)
  else some (nextLine conf mem line len)

/-- `parse_line`. -/
def parseLine (conf : σ) (mem : List UInt8) (buf size : ℕ) : Option (LineEnd σ) := do
  let (line, len) ← scan (fun c => c == 0x0a || c == 0x23 || c == 0x3d) mem buf size
  match ← cutLine mem line len with
  | some (mem, line, len) => finishLine opts conf buf size mem none line len
  | none =>
    let c ← mem[line]?
    if c ≠ 0x3d then some ⟨efault, conf, mem, some buf, size⟩
    else
      let mem ← write mem line 0
      let value := line + 1
      let (line, len) ← scan (fun c => c == 0x0a || c == 0x23) mem value (len - 1)
      match ← cutLine mem line len with
      | some (mem, line, len) => finishLine opts conf buf size mem (some value) line len
      | none => some ⟨efault, conf, mem, some buf, size⟩

/-- The loop of `parse_buffer`, for at most `n` lines. -/
def parseLines : ℕ → σ → List UInt8 → Option ℕ → ℕ → Option (ℤ × σ × List UInt8)
  | n, conf, mem, buf, size =>
    if size = 0 then some (0, conf, mem)
    else
      match n with
      | 0 => none
      | n + 1 => do
        let buf ← buf
        let next ← parseLine opts conf mem buf size
        if next.ret ≠ 0 then some (next.ret, next.conf, next.mem)
        else parseLines n next.conf next.mem next.buf next.size

/-- `parse_buffer` of a buffer at the front of the memory. A line takes at least one byte, so
that there are at most `size` of them. -/
def parseBufferAt (mem : List UInt8) (size : ℕ) (conf : σ) : Option (ℤ × σ × List UInt8) := do
  let (ret, conf, mem) ← parseLines opts size conf mem (some 0) size
  if ret ≠ 0 then some (ret, conf, mem)
  else
    let (ret, conf) := FileOption.checks opts conf
    some (ret, conf, mem)

end Lines

/-! ## The loops -/

variable {pre rest : List UInt8}

@[simp] theorem getElem?_at (pre rest : List UInt8) (c : UInt8) :
    (pre ++ c :: rest)[pre.length]? = some c := by
  simp

/-- A loop stops behind the bytes that it passes. -/
theorem scan_eq (stop : UInt8 → Bool) (seg tail more : List UInt8) (pre : List UInt8)
    (hseg : ∀ c ∈ seg, stop c = false) (htail : ∀ c ∈ tail.head?, stop c = true) :
    scan stop (pre ++ (seg ++ (tail ++ more))) pre.length (seg.length + tail.length) =
      some (pre.length + seg.length, tail.length) := by
  induction seg generalizing pre with
  | nil =>
    cases tail with
    | nil => simp [scan]
    | cons c tail => simp [scan, htail c rfl]
  | cons c seg ih =>
    have hc : stop c = false := hseg c List.mem_cons_self
    have hrest := ih (pre ++ [c]) fun d hd => hseg d (List.mem_cons_of_mem c hd)
    have hlen : (c :: seg).length + tail.length = seg.length + tail.length + 1 := by
      simp only [List.length_cons]
      omega
    rw [hlen, scan]
    simp only [List.cons_append, getElem?_at, Option.bind_eq_bind, Option.bind_some, hc,
      Bool.false_eq_true, if_false]
    simp only [List.append_assoc, List.singleton_append, List.length_append, List.length_cons,
      List.length_nil] at hrest
    rw [hrest]
    congr 2
    simp only [List.length_cons]
    omega

/-- A string is read up to its NUL. -/
theorem readString_eq {s : Str} (hs : 0 ∉ s) (rest : List UInt8) :
    readString (s ++ 0 :: rest) = some s := by
  induction s with
  | nil => rfl
  | cons c s ih =>
    simp only [List.mem_cons, not_or] at hs
    rw [List.cons_append, readString, if_neg (Ne.symm hs.1), ih hs.2, Option.map_some]

/-- Blanks in front are skipped. -/
theorem skipBlanks_eq (s rest : List UInt8) :
    skipBlanks (s ++ 0 :: rest) = some (s.takeWhile blank).length := by
  induction s with
  | nil => rfl
  | cons c s ih =>
    cases hc : blank c with
    | true => simp [skipBlanks, hc, ih]
    | false => simp [skipBlanks, hc]

/-- The last loop of `strip_spaces` ends at a byte that is no blank. -/
theorem trimTail_stop {mem : List UInt8} {tail : ℕ} {c : UInt8} (hget : mem[tail]? = some c)
    (hc : blank c = false) : trimTail mem tail = some mem := by
  cases tail with
  | zero => simp [trimTail, hget, hc]
  | succ tail => simp [trimTail, hget, hc]

/-- Blanks at the end are overwritten. -/
theorem trimTail_eq (pre s rest : List UInt8) (hs : s.rdropWhile blank ≠ []) :
    ∃ n, (s.rdropWhile blank).length + n = s.length ∧
      trimTail (pre ++ (s ++ rest)) (pre.length + s.length - 1) =
        some (pre ++ (s.rdropWhile blank ++ (List.replicate n 0 ++ rest))) := by
  induction s using List.reverseRecOn generalizing rest with
  | nil => exact absurd rfl hs
  | append_singleton s c ih =>
    have hindex : pre.length + (s ++ [c]).length - 1 = (pre ++ s).length := by
      simp only [List.length_append, List.length_singleton]
      omega
    have hmem : pre ++ (s ++ [c] ++ rest) = (pre ++ s) ++ c :: rest := by simp
    have hget := getElem?_at (pre ++ s) rest c
    rw [hindex, hmem]
    cases hc : blank c with
    | false =>
      have hkeep : (s ++ [c]).rdropWhile blank = s ++ [c] :=
        List.rdropWhile_concat_neg _ _ _ (by simp [hc])
      rw [hkeep, trimTail_stop hget hc]
      exact ⟨0, rfl, by simp⟩
    | true =>
      rw [List.rdropWhile_concat_pos _ _ _ hc] at hs ⊢
      obtain ⟨n, hlen, htrim⟩ := ih (0 :: rest) hs
      refine ⟨n + 1, by simp; omega, ?_⟩
      have hpos := List.length_pos_of_ne_nil hs
      have hwrite := write_append (pre ++ s) rest c 0
      obtain ⟨k, hk⟩ : ∃ k, (pre ++ s).length = k + 1 :=
        Nat.exists_eq_succ_of_ne_zero (by simp only [List.length_append]; omega)
      have hprev : pre.length + s.length - 1 = k := by
        simp only [List.length_append] at hk
        omega
      rw [hprev, ← List.append_assoc] at htrim
      rw [hk] at hget hwrite ⊢
      rw [trimTail]
      simp only [hget, Option.bind_eq_bind, Option.bind_some, hc, if_true, hwrite, htrim]
      simp [List.replicate_succ']

/-- `strip_spaces` of a string with blanks before its body. -/
theorem stripSpacesAt_body (pre lead : List UInt8) {body : Str} (hlead : ∀ c ∈ lead, blank c)
    (hbody : ∀ c ∈ body.head?, blank c = false) (hzero : 0 ∉ body) : ∃ body' : List UInt8,
    body'.length = body.length ∧ ∀ rest,
      stripSpacesAt (pre ++ (lead ++ (body ++ 0 :: rest))) pre.length =
          some (pre ++ (lead ++ (body' ++ 0 :: rest)), pre.length + lead.length) ∧
        readString (body' ++ 0 :: rest) = some (body.rdropWhile blank) := by
  have hskip : ∀ rest, skipBlanks ((pre ++ (lead ++ (body ++ 0 :: rest))).drop pre.length) =
      some lead.length := fun rest => by
    have htake := (takeWhile_stops hlead hbody).1
    rw [List.drop_left, ← List.append_assoc, skipBlanks_eq, htake]
  have hread : ∀ rest, readString ((pre ++ (lead ++ (body ++ 0 :: rest))).drop
      (pre.length + lead.length)) = some body := fun rest => by
    rw [← List.drop_drop, List.drop_left, List.drop_left, readString_eq hzero]
  by_cases hempty : body = []
  · subst hempty
    refine ⟨[], rfl, fun rest => ⟨?_, rfl⟩⟩
    simp only [stripSpacesAt, hskip, hread, Option.bind_eq_bind, Option.bind_some, if_true]
  · have hstripped : body.rdropWhile blank ≠ [] := by
      rw [Ne, List.rdropWhile_eq_nil_iff]
      obtain ⟨c, t, rfl⟩ := List.exists_cons_of_ne_nil hempty
      intro hall
      exact absurd (hall c List.mem_cons_self) (by simp [hbody c rfl])
    have hnot : 0 ∉ body.rdropWhile blank := fun hmem =>
      hzero ((List.rdropWhile_prefix blank body).subset hmem)
    obtain ⟨n, hlen, -⟩ := trimTail_eq (pre ++ lead) body [] hstripped
    refine ⟨body.rdropWhile blank ++ List.replicate n 0, by simpa using hlen, fun rest => ⟨?_, ?_⟩⟩
    · obtain ⟨n', hlen', htrim⟩ := trimTail_eq (pre ++ lead) body (0 :: rest) hstripped
      obtain rfl : n' = n := by omega
      rw [List.length_append, List.append_assoc] at htrim
      simp only [stripSpacesAt, hskip, hread, Option.bind_eq_bind, Option.bind_some, hempty,
        if_false, htrim, List.append_assoc]
    · have hnext : ∃ more, List.replicate n (0 : UInt8) ++ 0 :: rest = 0 :: more := by
        cases n with
        | zero => exact ⟨rest, rfl⟩
        | succ n => exact ⟨_, rfl⟩
      obtain ⟨more, hmore⟩ := hnext
      rw [List.append_assoc, hmore, readString_eq hnot]

/-- What `strip_spaces` finds in a field does not depend on what follows, and it changes
nothing behind the field. -/
theorem stripSpacesAt_eq (pre field : List UInt8) : ∃ field' : List UInt8, ∃ lead : ℕ,
    field'.length = field.length ∧ ∀ rest,
      stripSpacesAt (pre ++ (field ++ 0 :: rest)) pre.length =
          some (pre ++ (field' ++ 0 :: rest), pre.length + lead) ∧
        readString ((pre ++ (field' ++ 0 :: rest)).drop (pre.length + lead)) =
          some (stripSpaces (cstr field)) := by
  obtain ⟨s, tail, rfl, hs, htail⟩ := exists_until 0 field
  have hcstr : cstr (s ++ tail) = s := by
    refine (takeWhile_stops (fun c hc => ?_) fun c hc => ?_).1
    · simp only [decide_eq_true_eq]
      rintro rfl
      exact hs hc
    · obtain rfl | ⟨rest, rfl⟩ := htail
      · cases hc
      · simpa using hc.symm
  have hbody : ∀ c ∈ (s.dropWhile blank).head?, blank c = false := fun c hc => by
    have := List.head?_dropWhile_not blank s
    rw [hc] at this
    simpa using this
  have hlead : ∀ c ∈ s.takeWhile blank, blank c := fun c hc => List.mem_takeWhile_imp hc
  have htext : s.takeWhile blank ++ s.dropWhile blank = s := List.takeWhile_append_dropWhile
  have hzero : 0 ∉ s.dropWhile blank := fun hmem => hs (htext ▸ List.mem_append_right _ hmem)
  obtain ⟨body', hlen, hstrip⟩ := stripSpacesAt_body pre _ hlead hbody hzero
  have hnext : ∀ rest, ∃ more, tail ++ 0 :: rest = 0 :: more := fun rest => by
    obtain rfl | ⟨more, rfl⟩ := htail
    · exact ⟨rest, rfl⟩
    · exact ⟨_, rfl⟩
  refine ⟨s.takeWhile blank ++ (body' ++ tail), (s.takeWhile blank).length, ?_, fun rest => ?_⟩
  · have := congrArg List.length htext
    simp only [List.length_append] at this ⊢
    omega
  · obtain ⟨more, hmore⟩ := hnext rest
    obtain ⟨hat, hread⟩ := hstrip more
    rw [← List.append_assoc (s.takeWhile blank), htext] at hat
    simp only [List.append_assoc, hmore, hat, hcstr, stripSpaces, true_and]
    rw [← List.drop_drop, List.drop_left, List.drop_left, hread]

/-! ## One line -/

/-- A line is cut where its key or its value ends: behind the NUL, what is left of the
comment, and the lines that follow, is unchanged. -/
theorem cutLine_eq (pre comment tail : List UInt8) (byte : UInt8)
    (hcomment : comment = [] ∨ ∃ rest, comment = 0x23 :: rest) (hline : 0x0a ∉ comment)
    (htail : tail = [] ∨ ∃ rest, tail = 0x0a :: rest) :
    cutLine (pre ++ (comment ++ (tail ++ [byte]))) pre.length (comment.length + tail.length) =
      some (some (pre ++ (0 :: (comment ++ (tail ++ [byte])).tail),
        pre.length + comment.length, tail.length)) := by
  obtain rfl | ⟨rest, rfl⟩ := hcomment
  · obtain rfl | ⟨rest, rfl⟩ := htail
    · simp [cutLine]
    · simp [cutLine]
  · have hscan := scan_eq (· == 0x0a) (0 :: rest) tail [byte] pre
      (fun c hc => by
        obtain rfl | hc := List.mem_cons.mp hc
        · rfl
        · simp only [beq_eq_false_iff_ne, ne_eq]
          rintro rfl
          exact hline (List.mem_cons_of_mem _ hc))
      fun c hc => by
        obtain rfl | ⟨rest, rfl⟩ := htail
        · cases hc
        · simpa using hc.symm
    have hlen : (0x23 :: rest).length + tail.length ≠ 0 := by simp
    have hother : (0x23 : UInt8) ≠ 0x0a := by decide
    simp only [List.length_cons, List.cons_append] at hscan hlen ⊢
    simp only [cutLine, if_neg hlen, getElem?_at, Option.bind_eq_bind, Option.bind_some,
      if_neg hother, if_true, write_append, hscan, List.tail_cons]

/-- A value starts at a `=`. -/
theorem cutLine_value (pre rest : List UInt8) (n : ℕ) :
    cutLine (pre ++ 0x3d :: rest) pre.length (n + 1) = some none := by
  have hnewline : (0x3d : UInt8) ≠ 0x0a := by decide
  have hother : (0x3d : UInt8) ≠ 0x23 := by decide
  simp only [cutLine, Nat.succ_ne_zero, if_false, getElem?_at, Option.bind_eq_bind,
    Option.bind_some, if_neg hnewline, if_neg hother]

variable {σ : Type} (opts : List (FileOption σ))

/-- What a line means: the result and the memory of the user. -/
def lineResult (entry : Option (Str × Option Str)) (conf : σ) : ℤ × σ :=
  match entry with
  | none => (0, conf)
  | some entry => FileOption.parseKvPair opts entry.1 entry.2 conf

/-- Where `parse_line` ends with that result. -/
def lineEnd (result : ℤ × σ) (buf size : ℕ) (mem : List UInt8) (line len : ℕ) : LineEnd σ :=
  if result.1 ≠ 0 ∧ result.1 ≠ eagain then ⟨result.1, result.2, mem, some buf, size⟩
  else nextLine result.2 mem line len

/-- Key and value as they stand in memory once the line is cut. -/
def cutFields (key : List UInt8) : Option (List UInt8) → List UInt8
  | none => key
  | some value => key ++ 0 :: value

theorem finishLine_eq (pre key rest : List UInt8) (value : Option (List UInt8)) (conf : σ)
    (size line len : ℕ) : ∃ fields : List UInt8, fields.length = (cutFields key value).length ∧
      finishLine opts conf pre.length size (pre ++ (cutFields key value ++ 0 :: rest))
          (value.map fun _ => pre.length + key.length + 1) line len =
        some (lineEnd (lineResult opts (fieldsEntry key value) conf) pre.length size
          (pre ++ (fields ++ 0 :: rest)) line len) := by
  obtain ⟨key', lead, hlen, hstrip⟩ := stripSpacesAt_eq pre key
  by_cases hempty : stripSpaces (cstr key) = []
  · -- without a key nothing is done with the value
    have hkey : ∀ behind, finishLine opts conf pre.length size
        (pre ++ (key ++ 0 :: behind)) (value.map fun _ => pre.length + key.length + 1) line len =
          some (nextLine conf (pre ++ (key' ++ 0 :: behind)) line len) := fun behind => by
      obtain ⟨hat, hread⟩ := hstrip behind
      simp only [finishLine, hat, Option.bind_eq_bind, Option.bind_some, hread, hempty,
        Option.map_some, List.length_nil, lt_self_iff_false, gt_iff_lt, if_false]
    have hresult : lineResult opts (fieldsEntry key value) conf = (0, conf) := by
      simp only [fieldsEntry, if_pos hempty, lineResult]
    rw [hresult]
    cases value with
    | none => exact ⟨key', hlen, hkey rest⟩
    | some value =>
      refine ⟨key' ++ 0 :: value, by simp [cutFields, hlen], ?_⟩
      simp only [cutFields, List.append_assoc, List.cons_append]
      exact hkey (value ++ 0 :: rest)
  · have hpos : (stripSpaces (cstr key)).length > 0 := List.length_pos_of_ne_nil hempty
    cases value with
    | none =>
      obtain ⟨hat, hread⟩ := hstrip rest
      refine ⟨key', hlen, ?_⟩
      simp only [finishLine, cutFields, Option.map_none, hat, Option.bind_eq_bind,
        Option.bind_some, hread, Option.map_some, if_pos hpos, stripValue, lineResult,
        fieldsEntry, if_neg hempty, lineEnd]
      split_ifs <;> rfl
    | some value =>
      obtain ⟨value', lead', hlen', hstrip'⟩ := stripSpacesAt_eq (pre ++ (key' ++ [0])) value
      obtain ⟨hat, hread⟩ := hstrip (value ++ 0 :: rest)
      obtain ⟨hat', hread'⟩ := hstrip' rest
      have hreadKey := (hstrip (value' ++ 0 :: rest)).2
      have hvalue : (pre ++ (key' ++ [0])).length = pre.length + key.length + 1 := by
        simp only [List.length_append, List.length_singleton, hlen]
        omega
      rw [hvalue] at hat' hread'
      simp only [List.append_assoc, List.singleton_append] at hat' hread'
      refine ⟨key' ++ 0 :: value', by simp [cutFields, hlen, hlen'], ?_⟩
      simp only [finishLine, cutFields, Option.map_some, List.append_assoc, List.cons_append, hat,
        Option.bind_eq_bind, Option.bind_some, hread, if_pos hpos, stripValue, hat', hread',
        hreadKey, lineResult, fieldsEntry, if_neg hempty, lineEnd]
      split_ifs <;> rfl

variable {key comment tail : List UInt8} {byte : UInt8}

/-- A byte that is neither a newline nor a `#`. -/
def Plain (c : UInt8) : Prop := c ≠ 0x0a ∧ c ≠ 0x23

theorem Plain.not_stop {c : UInt8} (h : Plain c) : (c == 0x0a || c == 0x23) = false := by
  simp [h.1, h.2]

/-- A line without a value is cut behind its key. -/
theorem parseLine_key (pre : List UInt8) (byte : UInt8) (conf : σ)
    (hkey : ∀ c ∈ key, Plain c ∧ c ≠ 0x3d)
    (hcomment : comment = [] ∨ ∃ rest, comment = 0x23 :: rest) (hline : 0x0a ∉ comment)
    (htail : tail = [] ∨ ∃ rest, tail = 0x0a :: rest)
    (hbehind : ∀ c ∈ (comment ++ tail).head?, c = 0x23 ∨ c = 0x0a) :
    parseLine opts conf (pre ++ (key ++ (comment ++ (tail ++ [byte])))) pre.length
        (key.length + (comment.length + tail.length)) =
      finishLine opts conf pre.length (key.length + (comment.length + tail.length))
        (pre ++ (key ++ 0 :: (comment ++ (tail ++ [byte])).tail)) none
        (pre.length + key.length + comment.length) tail.length := by
  have hscan := scan_eq (fun c => c == 0x0a || c == 0x23 || c == 0x3d) key
    (comment ++ tail) [byte] pre (fun c hc => by simp [(hkey c hc).1.not_stop, (hkey c hc).2])
    fun c hc => by obtain rfl | rfl := hbehind c hc <;> rfl
  have hcut := cutLine_eq (pre ++ key) comment tail byte hcomment hline htail
  simp only [List.length_append, List.append_assoc] at hscan hcut
  simp only [parseLine, hscan, hcut, Option.bind_eq_bind, Option.bind_some]

/-- A line with a value is cut behind its key and behind its value. -/
theorem parseLine_value (pre : List UInt8) (byte : UInt8) (conf : σ) {value : List UInt8}
    (hkey : ∀ c ∈ key, Plain c ∧ c ≠ 0x3d) (hvalue : ∀ c ∈ value, Plain c)
    (hcomment : comment = [] ∨ ∃ rest, comment = 0x23 :: rest) (hline : 0x0a ∉ comment)
    (htail : tail = [] ∨ ∃ rest, tail = 0x0a :: rest)
    (hbehind : ∀ c ∈ (comment ++ tail).head?, c = 0x23 ∨ c = 0x0a) :
    parseLine opts conf (pre ++ (key ++ 0x3d :: (value ++ (comment ++ (tail ++ [byte])))))
        pre.length (key.length + (value.length + (comment.length + tail.length) + 1)) =
      finishLine opts conf pre.length
        (key.length + (value.length + (comment.length + tail.length) + 1))
        (pre ++ (key ++ 0 :: (value ++ 0 :: (comment ++ (tail ++ [byte])).tail)))
        (some (pre.length + key.length + 1))
        (pre.length + key.length + 1 + value.length + comment.length) tail.length := by
  have hscan := scan_eq (fun c => c == 0x0a || c == 0x23 || c == 0x3d) key
    (0x3d :: (value ++ (comment ++ tail))) [byte] pre
    (fun c hc => by simp [(hkey c hc).1.not_stop, (hkey c hc).2])
    fun c hc => by
      obtain rfl : 0x3d = c := by simpa using hc
      rfl
  have hstop := cutLine_value (pre ++ key) (value ++ (comment ++ (tail ++ [byte])))
    (value.length + (comment.length + tail.length))
  have hget := getElem?_at (pre ++ key) (value ++ (comment ++ (tail ++ [byte]))) 0x3d
  have hwrite := write_append (pre ++ key) (value ++ (comment ++ (tail ++ [byte]))) 0x3d 0
  have hscan' := scan_eq (fun c => c == 0x0a || c == 0x23) value (comment ++ tail) [byte]
    (pre ++ (key ++ [0])) (fun c hc => (hvalue c hc).not_stop)
    fun c hc => by obtain rfl | rfl := hbehind c hc <;> rfl
  have hcut := cutLine_eq (pre ++ (key ++ 0 :: value)) comment tail byte hcomment hline htail
  have hline : (pre ++ (key ++ 0 :: value)).length = pre.length + key.length + 1 + value.length := by
    simp only [List.length_append, List.length_cons]
    omega
  have hvalue : (pre ++ (key ++ [0])).length = pre.length + key.length + 1 := by
    simp only [List.length_append, List.length_singleton]
    omega
  rw [hline] at hcut
  rw [hvalue] at hscan'
  simp only [List.length_append, List.length_cons, List.append_assoc, List.cons_append,
    List.nil_append] at hscan hcut hscan' hget hwrite hstop
  simp only [parseLine, hscan, hstop, hget, hwrite, Option.bind_eq_bind, Option.bind_some, ne_eq,
    not_true_eq_false, if_false, Nat.add_sub_cancel, hscan', hcut]

/-- One line of a buffer: its entry goes to `parse_kv_pair`, and the lines behind it stay as
they are. -/
theorem parseLine_eq (pre line tail : List UInt8) (byte : UInt8) (conf : σ)
    (hline : 0x0a ∉ line) (htail : tail = [] ∨ ∃ rest, tail = 0x0a :: rest) :
    ∃ front, front.length = pre.length + line.length + 1 ∧
      parseLine opts conf (pre ++ (line ++ (tail ++ [byte]))) pre.length
          (line.length + tail.length) =
        some (lineEnd (lineResult opts (lineEntry line) conf) pre.length
          (line.length + tail.length) (front ++ (tail ++ [byte]).tail)
          (pre.length + line.length) tail.length) := by
  obtain ⟨key, value, comment, hparts⟩ := exists_lineParts line
  have hbehind := hparts.behind htail
  rw [hparts.entry]
  have htext := hparts.text
  subst htext
  simp only [List.mem_append, not_or] at hline
  have hkey : ∀ c ∈ key, Plain c ∧ c ≠ 0x3d := fun c hc =>
    ⟨⟨fun heq => hline.1.1 (heq ▸ hc), fun heq => hparts.key.1 (heq ▸ hc)⟩,
      fun heq => hparts.key.2 (heq ▸ hc)⟩
  obtain ⟨shifted, hshifted, hrest⟩ : ∃ shifted : List UInt8, shifted.length = comment.length ∧
      (comment ++ (tail ++ [byte])).tail = shifted ++ (tail ++ [byte]).tail := by
    obtain ⟨c, more, hmore⟩ := List.exists_cons_of_ne_nil (List.append_ne_nil_of_right_ne_nil
      tail (List.cons_ne_nil byte []))
    refine ⟨(comment ++ [c]).tail, by simp, ?_⟩
    rw [hmore]
    cases comment with
    | nil => rfl
    | cons d comment => simp
  cases value with
  | none =>
    obtain ⟨fields, hlen, hdone⟩ := finishLine_eq opts pre key
      (shifted ++ (tail ++ [byte]).tail) none conf (key.length + (comment.length + tail.length))
      (pre.length + key.length + comment.length) tail.length
    have hcut := parseLine_key opts pre byte conf hkey hparts.comment hline.2 htail
      hbehind
    have hline : (key ++ valueText none ++ comment).length = key.length + comment.length := by
      simp [valueText]
    refine ⟨pre ++ (fields ++ 0 :: shifted), ?_, ?_⟩
    · simp only [cutFields] at hlen
      simp only [hline, List.length_append, List.length_cons]
      omega
    · simp only [cutFields, Option.map_none] at hdone
      simp only [hline, Nat.add_assoc] at hcut hdone ⊢
      rw [hrest] at hcut
      simp only [valueText, List.append_nil, List.append_assoc, hcut, hdone, List.cons_append]
  | some value =>
    obtain ⟨fields, hlen, hdone⟩ := finishLine_eq opts pre key
      (shifted ++ (tail ++ [byte]).tail) (some value) conf
      (key.length + (value.length + (comment.length + tail.length) + 1))
      (pre.length + key.length + 1 + value.length + comment.length) tail.length
    have hvalue : ∀ c ∈ value, Plain c := fun c hc =>
      ⟨fun heq => hline.1.2 (by simp [valueText, heq ▸ hc]),
        fun heq => hparts.value (by simp [valueText, heq ▸ hc])⟩
    have hcut := parseLine_value opts pre byte conf hkey hvalue hparts.comment hline.2
      htail hbehind
    have hline : (key ++ valueText (some value) ++ comment).length =
        key.length + 1 + value.length + comment.length := by
      simp only [valueText, List.length_append, List.length_cons]
      omega
    have hsize : key.length + 1 + value.length + comment.length + tail.length =
        key.length + (value.length + (comment.length + tail.length) + 1) := by
      omega
    refine ⟨pre ++ (fields ++ 0 :: shifted), ?_, ?_⟩
    · simp only [cutFields, List.length_append, List.length_cons] at hlen
      simp only [hline, List.length_append, List.length_cons]
      omega
    · simp only [cutFields, Option.map_some, List.append_assoc, List.cons_append] at hdone
      have hend : pre.length + (key.length + 1 + value.length + comment.length) =
          pre.length + key.length + 1 + value.length + comment.length := by
        omega
      rw [hrest] at hcut
      rw [hline, hsize, hend]
      simp only [valueText, List.append_assoc, List.cons_append, hcut, hdone]

/-! ## The whole buffer -/

/-- A line that is done goes on with what follows it. -/
theorem parseEntries_toList (entry : Option (Str × Option Str)) (entries : List (Str × Option Str))
    (conf : σ) : FileOption.parseEntries opts (entry.toList ++ entries) conf =
      if (lineResult opts entry conf).1 ≠ 0 ∧ (lineResult opts entry conf).1 ≠ eagain then
        lineResult opts entry conf
      else FileOption.parseEntries opts entries (lineResult opts entry conf).2 := by
  cases entry with
  | none => rfl
  | some entry => rfl

/-- The lines that are left are all gone through. -/
theorem parseLines_eq {n : ℕ} {content : List UInt8} (hn : content.length ≤ n)
    (pre : List UInt8) (byte : UInt8) (conf : σ) :
    ∃ mem, mem.length = pre.length + content.length + 1 ∧
      parseLines opts n conf (pre ++ (content ++ [byte])) (some pre.length) content.length =
        some ((FileOption.parseEntries opts (fileEntries content) conf).1,
          (FileOption.parseEntries opts (fileEntries content) conf).2, mem) := by
  induction n generalizing content pre conf with
  | zero =>
    obtain rfl := List.length_eq_zero_iff.mp (Nat.le_zero.mp hn)
    exact ⟨pre ++ [byte], by simp, by simp [parseLines, fileEntries_nil, FileOption.parseEntries]⟩
  | succ n ih =>
    by_cases hempty : content.length = 0
    · obtain rfl := List.length_eq_zero_iff.mp hempty
      exact ⟨pre ++ [byte], by simp, by simp [parseLines, fileEntries_nil,
        FileOption.parseEntries]⟩
    · obtain ⟨line, tail, heq, hline, htail⟩ := exists_until 0x0a content
      obtain ⟨front, hfront, hparse⟩ := parseLine_eq opts pre line tail byte conf hline htail
      have hlen : content.length = line.length + tail.length := by rw [heq, List.length_append]
      have hentries := fileEntries_line hline htail
      rw [← heq] at hentries
      rw [hentries, parseEntries_toList]
      have hround : parseLines opts (n + 1) conf (pre ++ (content ++ [byte])) (some pre.length)
          content.length =
            let result := lineResult opts (lineEntry line) conf
            let last := lineEnd result pre.length content.length
              (front ++ (tail ++ [byte]).tail) (pre.length + line.length) tail.length
            if last.ret ≠ 0 then some (last.ret, last.conf, last.mem)
            else parseLines opts n last.conf last.mem last.buf last.size := by
        rw [parseLines, if_neg hempty]
        simp only [Option.bind_eq_bind, Option.bind_some]
        rw [hlen]
        conv_lhs => rw [heq]
        simp only [List.append_assoc, hparse, Option.bind_some]
      rw [hround]
      by_cases hhard : (lineResult opts (lineEntry line) conf).1 ≠ 0 ∧
          (lineResult opts (lineEntry line) conf).1 ≠ eagain
      · refine ⟨front ++ (tail ++ [byte]).tail, ?_, ?_⟩
        · simp only [List.length_append, List.length_tail, hfront, List.length_singleton]
          omega
        · simp only [lineEnd, if_pos hhard]
          exact if_pos hhard.1
      · simp only [lineEnd, if_neg hhard]
        obtain rfl | ⟨rest, rfl⟩ := htail
        · refine ⟨front, by simp [hfront, hlen], ?_⟩
          cases n <;> simp [nextLine, parseLines, FileOption.parseEntries]
        · obtain ⟨mem, hmem, hrest⟩ := @ih rest
            (by simp only [List.length_cons] at hlen; omega) front
            (lineResult opts (lineEntry line) conf).2
          refine ⟨mem, ?_, ?_⟩
          · rw [hmem, hfront, hlen, List.length_cons]
            omega
          · rw [hfront] at hrest
            simpa [nextLine] using hrest

/-- `parse_buffer` in memory does what the entries of the file say. -/
theorem parseBufferAt_eq (content : List UInt8) (byte : UInt8) (conf : σ) :
    ∃ mem, mem.length = content.length + 1 ∧
      parseBufferAt opts (content ++ [byte]) content.length conf =
        some ((FileOption.parseFile opts content conf).1,
          (FileOption.parseFile opts content conf).2, mem) := by
  obtain ⟨mem, hmem, hlines⟩ := parseLines_eq opts (le_refl content.length) [] byte conf
  simp only [List.nil_append, List.length_nil, Nat.zero_add] at hmem hlines
  refine ⟨mem, hmem, ?_⟩
  simp only [parseBufferAt, hlines, Option.bind_eq_bind, Option.bind_some, FileOption.parseFile]
  split_ifs <;> rfl

/-- `parse_buffer` in memory is the one of the context. -/
theorem parseBufferAt_fileOptions {Φ V : Type} [DecidableEq Φ] (ctx : ConfCtx Φ V)
    (content : List UInt8) (byte : UInt8) : ∃ mem,
      parseBufferAt ctx.fileOptions (content ++ [byte]) content.length ctx.conf =
        some ((ctx.parseBuffer content).1, (ctx.parseBuffer content).2.conf, mem) := by
  obtain ⟨mem, -, heq⟩ := parseBufferAt_eq ctx.fileOptions content byte ctx.conf
  rw [ctx.parseBuffer_fileOptions content] at heq
  exact ⟨mem, heq⟩

/-- `parse_buffer` reads and writes its buffer and the one byte behind it only. It goes
through the lines in order, where those of options that are locked or unknown count for
nothing and each of the others is for the first option that its key names; with all of them
done it comes to the afterchecks, and else it stops at the first hard error, whatever
follows. -/
theorem parseBufferAt_exact (content : List UInt8) (byte : UInt8) (conf : σ) :
    let entries := (fileEntries content).filter fun entry =>
      !FileOption.ignores opts entry.1
    ∃ ret last mem, mem.length = content.length + 1 ∧
      parseBufferAt opts (content ++ [byte]) content.length conf = some (ret, last, mem) ∧
      ((Runs.Along (FileOption.step opts) (FileOption.Soft opts) conf entries ∧
          (ret, last) = FileOption.checks opts (Runs.run (FileOption.step opts) conf entries)) ∨
        ∃ before entry later, entries = before ++ entry :: later ∧
          Runs.Along (FileOption.step opts) (FileOption.Soft opts) conf before ∧
          ¬ FileOption.Soft opts (Runs.run (FileOption.step opts) conf before) entry ∧
          (ret, last) = FileOption.parseKvPair opts entry.1 entry.2
            (Runs.run (FileOption.step opts) conf before)) ∧
      ∀ entry ∈ entries, ∀ conf, FileOption.Does opts entry conf
        (FileOption.parseKvPair opts entry.1 entry.2 conf) := by
  intro entries
  obtain ⟨mem, hmem, hbuffer⟩ := parseBufferAt_eq opts content byte conf
  have hdoes : ∀ entry ∈ entries, ∀ conf, FileOption.Does opts entry conf
      (FileOption.parseKvPair opts entry.1 entry.2 conf) := fun entry hentry conf =>
    FileOption.does_parseKvPair (by simpa using (List.mem_filter.mp hentry).2) conf
  refine ⟨_, _, mem, hmem, hbuffer, ?_, hdoes⟩
  unfold FileOption.parseFile
  rw [← FileOption.parseEntries_filter]
  obtain ⟨hsoft, hresult⟩ | ⟨before, entry, later, heq, hsoft, hhard, hresult⟩ :=
    @FileOption.parseEntries_cases _ opts entries conf
  · rw [hresult]
    exact .inl ⟨hsoft, rfl⟩
  · have hfails : (FileOption.parseKvPair opts entry.1 entry.2
        (Runs.run (FileOption.step opts) conf before)).1 ≠ 0 := fun hret => hhard (.inl hret)
    rw [hresult]
    refine .inr ⟨before, entry, later, heq, hsoft, hhard, ?_⟩
    simp only [if_pos hfails]

end Faceplate.Conf
