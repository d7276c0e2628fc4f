import Faceplate.Lib.Scan
import Faceplate.Misc.IpList
import Faceplate.Misc.IssueEscapes

/-!
# Expanding the issue text

`expand_issue` goes through the text with a pointer, from one backslash to the next; the
escapes advance the pointer over their parameters. What it prints is a function of the text
that follows the pointer, and an escape sequence with its argument part is printed as it
would be alone. Hence two texts can be expanded one after the other, if the cut between
them does not fall inside an escape sequence.
-/

namespace Faceplate.Misc

open CString Scan

/-! ## The scanner -/

section Scanner

variable (facts : IssueFacts) (raw : List UInt8)

/-- The letters without a parameter, of the `switch` in `expand_issue`. -/
def plainEscape (code : UInt8) : Except IssueFault (List UInt8) :=
  match code with
  | 0x5c => .ok [0x5c]
  | 0x73 => .ok facts.sysname.text
  | 0x6e => .ok facts.nodename.text
  | 0x72 => .ok facts.release.text
  | 0x76 => .ok facts.version.text
  | 0x6d => .ok facts.machine.text
  | 0x6f => .ok (if facts.domainname.text ≠ [] then facts.domainname.text else lit "(none)")
  | 0x64 => .ok facts.datebuf.text
  | 0x74 => .ok facts.timebuf.text
  | 0x6c => .ok (ttyShort facts)
  | 0x61 => expandAllIp facts true
  | 0x41 => expandAllIp facts false
  | _ => .ok []

/-- The loop of `get_parameter`: what has been kept of the parameter, and the place of the
brace that closes it, or the end of the text. -/
def parameterLoop (len : ℕ) : ℕ → ℕ → List UInt8 → Except IssueFault (List UInt8 × ℕ)
  | 0, _, _ => .error .unended
  | rounds + 1, pos, param =>
    if pos < raw.length then do
      let c ← peek .outside raw pos
      if c ≠ 0x7d then
        parameterLoop len rounds (pos + 1) (if param.length < len - 1 then param ++ [c] else param)
      else return (param, pos)
    else return (param, pos)

/-- `get_parameter`. -/
def getParameter (len pos : ℕ) : Except IssueFault (Option (List UInt8) × ℕ) :=
  if len = 0 ∨ pos ≥ raw.length then .ok (none, pos)
  else do
    let c ← peek .outside raw pos
    if c ≠ 0x7b then return (none, pos)
    let (param, pos) ← parameterLoop raw len (raw.length + 1) (pos + 1) []
    return (some param, if pos < raw.length then pos + 1 else pos)

/-- The loop of `write_literal`. -/
def writeLiteral : ℕ → ℕ → ℕ → List UInt8 → Except IssueFault (List UInt8)
  | 0, _, _, _ => .error .unended
  | rounds + 1, pos, stop, out =>
    if pos < stop then do
      match ← memchr .outside raw 0x0a pos (stop - pos) with
      | none => return out ++ (← slice .outside raw pos (stop - pos))
      | some nl =>
        let line ← slice .outside raw pos (nl - pos)
        writeLiteral rounds (nl + 1) stop (out ++ line ++ [0x0d, 0x0a])
    else return out

/-- `expand_os_release`. -/
def expandOsRelease (pos : ℕ) : Except IssueFault (List UInt8 × ℕ) := do
  let (fieldName, pos) ← getParameter raw 64 pos
  return (osReleaseText facts fieldName, pos)

/-- `expand_color`. -/
def expandColor (pos : ℕ) : Except IssueFault (List UInt8 × ℕ) := do
  let (colorName, pos) ← getParameter raw 16 pos
  return (colorText colorName, pos)

/-- `expand_ip`. -/
def expandIp (ipv6 : Bool) (pos : ℕ) : Except IssueFault (List UInt8 × ℕ) := do
  let (interfaceName, pos) ← getParameter raw 16 pos
  return (ipText facts ipv6 interfaceName, pos)

/-- The `switch` over the letter of an escape, with the place behind it. -/
def expandEscape (code : UInt8) (pos : ℕ) : Except IssueFault (List UInt8 × ℕ) :=
  match code with
  | 0x53 => expandOsRelease facts raw pos
  | 0x65 => expandColor raw pos
  | 0x34 => expandIp facts raw false pos
  | 0x36 => expandIp facts raw true pos
  | _ => return (← plainEscape facts code, pos)

/-- The loop of `expand_issue`. -/
def expandLoop : ℕ → ℕ → List UInt8 → Except IssueFault (List UInt8)
  | 0, _, _ => .error .unended
  | rounds + 1, pos, out =>
    if pos < raw.length then do
      match ← memchr .outside raw 0x5c pos (raw.length - pos) with
      | none => writeLiteral raw (raw.length + 1) pos raw.length out
      | some esc =>
        let out ← writeLiteral raw (raw.length + 1) pos esc out
        if esc + 1 ≥ raw.length then return out
        let code ← peek .outside raw (esc + 1)
        let (text, pos) ← expandEscape facts raw code (esc + 2)
        expandLoop rounds pos (out ++ text)
    else return out

/-- `expand_issue`; the stream that is written to is there. -/
def expandIssue : Except IssueFault (List UInt8) := expandLoop facts raw (raw.length + 1) 0 []

end Scanner

/-! ## The text that follows -/

/-- The size of the buffer for the parameter of an escape that may have one. -/
def parameterSize : UInt8 → Option ℕ
  | 0x53 => some 64
  | 0x65 => some 16
  | 0x34 => some 16
  | 0x36 => some 16
  | _ => none

/-- What an escape prints, given its parameter. -/
def escapeText (facts : IssueFacts) (code : UInt8) (param : Option (List UInt8)) :
    Except IssueFault (List UInt8) :=
  match code with
  | 0x53 => .ok (osReleaseText facts param)
  | 0x65 => .ok (colorText param)
  | 0x34 => .ok (ipText facts false param)
  | 0x36 => .ok (ipText facts true param)
  | _ => plainEscape facts code

/-- A byte outside of the escapes. -/
def crlf (c : UInt8) : List UInt8 := if c = 0x0a then [0x0d, 0x0a] else [c]

/-- The argument part of an escape, from the text behind its letter. -/
def argument (code : UInt8) (text : List UInt8) : List UInt8 :=
  match parameterSize code, text with
  | some _, 0x7b :: rest => 0x7b :: rest.take ((rest.takeWhile (· ≠ 0x7d)).length + 1)
  | _, _ => []

/-- The parameter in an argument part, as far as it fits. -/
def parameter (code : UInt8) (arg : List UInt8) : Option (List UInt8) :=
  match parameterSize code, arg with
  | some len, _ :: rest => some ((rest.takeWhile (· ≠ 0x7d)).take (len - 1))
  | _, _ => none

/-- What the expansion prints. -/
def expandText (facts : IssueFacts) : List UInt8 → Except IssueFault (List UInt8)
  | [] => .ok []
  | c :: text =>
    if c ≠ 0x5c then (expandText facts text).map (crlf c ++ ·)
    else
      match text with
      | [] => .ok []
      | code :: text => do
        let arg := argument code text
        let shown ← escapeText facts code (parameter code arg)
        (expandText facts (text.drop arg.length)).map (shown ++ ·)
  termination_by text => text.length

section

variable (facts : IssueFacts)

@[simp] theorem expandText_nil : expandText facts [] = .ok [] := by
  rw [expandText]

@[simp] theorem expandText_backslash : expandText facts [0x5c] = .ok [] := by
  rw [expandText, if_neg (by simp)]

theorem expandText_byte {c : UInt8} (hc : c ≠ 0x5c) (text : List UInt8) :
    expandText facts (c :: text) = (expandText facts text).map (crlf c ++ ·) := by
  cases text with
  | nil => rw [expandText.eq_2, if_pos hc]
  | cons d text => rw [expandText, if_pos hc]

theorem expandText_escape (code : UInt8) (text : List UInt8) :
    expandText facts (0x5c :: code :: text) =
      (escapeText facts code (parameter code (argument code text))).bind fun shown =>
        (expandText facts (text.drop (argument code text).length)).map (shown ++ ·) := by
  rw [expandText, if_neg (by simp)]
  rfl

end

/-- The argument part stands at the front of the text behind the letter. -/
theorem argument_append_drop (code : UInt8) (text : List UInt8) :
    argument code text ++ text.drop (argument code text).length = text := by
  refine List.prefix_iff_eq_append.mp ?_
  unfold argument
  split
  · exact (List.prefix_cons_inj _).mpr (List.take_prefix _ _)
  · exact List.nil_prefix

/-! ## The parameter -/

/-- What is cut already is not cut again. -/
theorem take_append_take (n : ℕ) (s t : List UInt8) :
    (s.take n ++ t).take n = (s ++ t).take n := by
  rw [List.take_append, List.take_append, List.take_take, Nat.min_self, List.length_take]
  congr 2
  omega

/-- The loop stops in front of the brace or at the end. -/
theorem parameterLoop_append (len rounds : ℕ) (pre text param : List UInt8)
    (hrounds : text.length < rounds) (hparam : param.length ≤ len - 1) :
    parameterLoop (pre ++ text) len rounds pre.length param =
      .ok ((param ++ text.takeWhile (· ≠ 0x7d)).take (len - 1),
        pre.length + (text.takeWhile (· ≠ 0x7d)).length) := by
  induction text generalizing rounds pre param with
  | nil =>
    obtain ⟨rounds, rfl⟩ : ∃ n, rounds = n + 1 := ⟨rounds - 1, by omega⟩
    rw [parameterLoop, if_neg (by simp), List.takeWhile_nil, List.append_nil,
      List.take_of_length_le hparam]
    rfl
  | cons c text ih =>
    obtain ⟨rounds, rfl⟩ : ∃ n, rounds = n + 1 := ⟨rounds - 1, by omega⟩
    rw [parameterLoop, if_pos (by simp), peek_append]
    by_cases hc : c = 0x7d
    · have hstop : (c :: text).takeWhile (· ≠ 0x7d) = [] := by simp [hc]
      rw [hstop, List.append_nil, List.take_of_length_le hparam]
      exact if_neg (not_not_intro hc)
    · have hgo : (c :: text).takeWhile (· ≠ 0x7d) = c :: text.takeWhile (· ≠ 0x7d) := by
        simp [hc]
      have hkeep : (if param.length < len - 1 then param ++ [c] else param) =
          (param ++ [c]).take (len - 1) := by
        split_ifs with hroom
        · rw [List.take_of_length_le]
          rw [List.length_append]
          exact hroom
        · rw [List.take_append_of_le_length (by omega), List.take_of_length_le hparam]
      have hnext := ih rounds (pre ++ [c]) ((param ++ [c]).take (len - 1)) (by simpa using hrounds)
        (List.length_take_le _ _)
      rw [List.append_assoc, List.length_append, List.length_singleton] at hnext
      refine (if_pos hc).trans ?_
      rw [hkeep]
      refine hnext.trans ?_
      rw [hgo]
      congr 2
      · rw [take_append_take, List.append_assoc]
        rfl
      · rw [List.length_cons]
        omega

/-- The argument part has the whole parameter. -/
theorem takeWhile_take (p : UInt8 → Bool) (s : List UInt8) :
    (s.take ((s.takeWhile p).length + 1)).takeWhile p = s.takeWhile p := by
  induction s with
  | nil => rfl
  | cons c s ih =>
    rw [List.takeWhile_cons]
    split_ifs with hc
    · rw [List.length_cons, List.take_succ_cons, List.takeWhile_cons_of_pos hc, ih]
    · rw [List.length_nil, List.take_succ_cons, List.takeWhile_cons_of_neg hc]

/-- The parameter is read from the argument part, and the pointer advances over it. -/
theorem getParameter_append {code : UInt8} {len : ℕ} (hsize : parameterSize code = some len)
    (pre text : List UInt8) :
    getParameter (pre ++ text) len pre.length =
      .ok (parameter code (argument code text), pre.length + (argument code text).length) := by
  have hlen : len ≠ 0 := by
    rintro rfl
    revert hsize
    unfold parameterSize
    split <;> simp
  cases text with
  | nil =>
    rw [getParameter, if_pos (Or.inr (by simp))]
    simp [parameter, argument]
  | cons c rest =>
    rw [getParameter, if_neg (by simp [hlen]), peek_append]
    by_cases hc : c = 0x7b
    · subst hc
      have hloop := parameterLoop_append len ((pre ++ 0x7b :: rest).length + 1)
        (pre ++ [0x7b]) rest [] (by simp; omega) (by simp)
      have harg : argument code (0x7b :: rest) =
          0x7b :: rest.take ((rest.takeWhile (· ≠ 0x7d)).length + 1) := by
        simp only [argument, hsize]
      have hparam : parameter code (argument code (0x7b :: rest)) =
          some ((rest.takeWhile (· ≠ 0x7d)).take (len - 1)) := by
        rw [harg]
        simp only [parameter, hsize, takeWhile_take]
      have hle := (List.takeWhile_sublist (· ≠ 0x7d) (l := rest)).length_le
      have hplace : (pre ++ [0x7b]).length = pre.length + 1 := by simp
      rw [List.append_assoc, List.singleton_append, hplace, List.nil_append] at hloop
      simp only [bind, Except.bind, ne_eq, not_true_eq_false, if_false, hloop, hparam]
      rw [harg, List.length_cons, List.length_take]
      congr 2
      simp only [List.length_append, List.length_cons, ne_eq] at hle ⊢
      split_ifs <;> omega
    · have harg : argument code (c :: rest) = [] := by
        simp [argument, hsize, hc]
      have hparam : parameter code [] = none := by
        simp [parameter, hsize]
      rw [harg, hparam]
      exact if_pos hc

/-! ## Literal text -/

/-- Bytes outside of the escapes. -/
def crlfText (s : List UInt8) : List UInt8 := s.flatMap crlf

theorem crlfText_of_notMem {s : List UInt8} (h : 0x0a ∉ s) : crlfText s = s := by
  have hcrlf : ∀ c ∈ s, crlf c = [c] := fun c hc => if_neg (ne_of_mem_of_not_mem hc h)
  rw [crlfText, List.flatMap_congr hcrlf]
  exact List.flatMap_singleton' s

/-- Literal text is printed line by line. -/
theorem writeLiteral_append (rounds : ℕ) (pre s rest out : List UInt8)
    (hrounds : s.length < rounds) :
    writeLiteral (pre ++ s ++ rest) rounds pre.length (pre.length + s.length) out =
      .ok (out ++ crlfText s) := by
  induction rounds generalizing pre s out with
  | zero => omega
  | succ rounds ih =>
    by_cases hs : s = []
    · subst hs
      rw [writeLiteral, if_neg (by simp), crlfText, List.flatMap_nil, List.append_nil]
      rfl
    · have hpos := List.length_pos_of_ne_nil hs
      rw [writeLiteral, if_pos (by omega), Nat.add_sub_cancel_left]
      by_cases hnl : 0x0a ∈ s
      · obtain ⟨before, after, rfl, hbefore⟩ := List.eq_append_cons_of_mem hnl
        have hnext := ih (pre ++ (before ++ [0x0a])) after (out ++ before ++ [0x0d, 0x0a])
          (by simp at hrounds; omega)
        have hwhole : pre ++ (before ++ 0x0a :: after) ++ rest =
            pre ++ (before ++ [0x0a]) ++ after ++ rest := by simp
        have hline : slice IssueFault.outside (pre ++ (before ++ 0x0a :: after) ++ rest)
            pre.length before.length = .ok before := by
          have h := slice_append IssueFault.outside pre before (0x0a :: after ++ rest)
          simpa only [List.append_assoc] using h
        rw [memchr_some _ hbefore]
        have htext : crlfText (before ++ 0x0a :: after) =
            before ++ [0x0d, 0x0a] ++ crlfText after := by
          rw [crlfText, List.flatMap_append, ← crlfText, crlfText_of_notMem hbefore]
          simp [crlfText, crlf]
        simp only [bind, Except.bind, Nat.add_sub_cancel_left, hline]
        rw [htext, hwhole]
        refine Eq.trans ?_ (hnext.trans ?_)
        · congr 1 <;> simp <;> omega
        · simp only [List.append_assoc]
      · rw [memchr_none _ hnl]
        simp only [bind, Except.bind]
        rw [slice_append, crlfText_of_notMem hnl]
        rfl

/-! ## The scanner prints the text that follows -/

/-- An escape prints its text and advances over its argument part. -/
theorem expandEscape_append (facts : IssueFacts) (code : UInt8) (pre text : List UInt8) :
    expandEscape facts (pre ++ text) code pre.length =
      (escapeText facts code (parameter code (argument code text))).map
        (·, pre.length + (argument code text).length) := by
  unfold expandEscape escapeText
  split
  · rw [expandOsRelease, getParameter_append (rfl : parameterSize 0x53 = some 64)]
    rfl
  · rw [expandColor, getParameter_append (rfl : parameterSize 0x65 = some 16)]
    rfl
  · rw [expandIp, getParameter_append (rfl : parameterSize 0x34 = some 16)]
    rfl
  · rw [expandIp, getParameter_append (rfl : parameterSize 0x36 = some 16)]
    rfl
  · have harg : argument code text = [] := by
      simp [argument, parameterSize, *]
    rw [harg]
    rfl

theorem expandText_literal (facts : IssueFacts) {s : List UInt8} (h : 0x5c ∉ s)
    (text : List UInt8) :
    expandText facts (s ++ text) = (expandText facts text).map (crlfText s ++ ·) := by
  induction s with
  | nil =>
    rw [List.nil_append]
    cases expandText facts text <;> rfl
  | cons c s ih =>
    obtain ⟨hc, hs⟩ := not_or.mp (mt List.mem_cons.mpr h)
    rw [List.cons_append, expandText_byte facts (Ne.symm hc), ih hs]
    cases expandText facts text with
    | error e => rfl
    | ok shown => simp [Except.map, crlfText]

/-- The loop prints the text that follows the pointer. -/
theorem expandLoop_append (facts : IssueFacts) (rounds : ℕ) (pre text out : List UInt8)
    (hrounds : text.length < rounds) :
    expandLoop facts (pre ++ text) rounds pre.length out =
      (expandText facts text).map (out ++ ·) := by
  induction rounds generalizing pre text out with
  | zero => omega
  | succ rounds ih =>
    by_cases htext : text = []
    · subst htext
      rw [expandLoop, if_neg (by simp), expandText_nil, Except.map, List.append_nil]
      rfl
    · have hpos := List.length_pos_of_ne_nil htext
      have hsize : (pre ++ text).length - pre.length = text.length := by simp
      have hwhole : pre ++ text ++ [] = pre ++ text := List.append_nil _
      rw [expandLoop, if_pos (by simpa using hpos), hsize]
      by_cases hesc : 0x5c ∈ text
      · obtain ⟨before, after, rfl, hbefore⟩ := List.eq_append_cons_of_mem hesc
        have hfound := memchr_some IssueFault.outside hbefore after pre []
        have hline := writeLiteral_append ((pre ++ (before ++ 0x5c :: after)).length + 1) pre before
          (0x5c :: after) out (by simp; omega)
        rw [hwhole] at hfound
        rw [List.append_assoc] at hline
        rw [expandText_literal facts hbefore]
        simp only [hfound, hline, bind, Except.bind]
        cases after with
        | nil =>
          rw [if_pos (by simp [Nat.add_assoc]), expandText_backslash]
          simp [Except.map]
          rfl
        | cons code rest =>
          have hcode : peek IssueFault.outside (pre ++ (before ++ 0x5c :: code :: rest))
              (pre.length + before.length + 1) = .ok code := by
            have h := peek_append IssueFault.outside (pre ++ (before ++ [0x5c])) code rest
            simpa [Nat.add_assoc] using h
          have hescape := expandEscape_append facts code (pre ++ (before ++ [0x5c, code])) rest
          have hplace : (pre ++ (before ++ [0x5c, code])).length =
              pre.length + before.length + 2 := by simp [Nat.add_assoc]
          have hraw : pre ++ (before ++ [0x5c, code]) ++ rest =
              pre ++ (before ++ 0x5c :: code :: rest) := by simp
          rw [hplace, hraw] at hescape
          rw [if_neg (by simp; omega), expandText_escape]
          simp only [hcode, hescape]
          cases escapeText facts code (parameter code (argument code rest)) with
          | error e => rfl
          | ok shown =>
            have hnext := ih (pre ++ (before ++ [0x5c, code]) ++ argument code rest)
              (rest.drop (argument code rest).length) (out ++ crlfText before ++ shown)
              (by simp at hrounds ⊢; omega)
            rw [List.append_assoc, argument_append_drop, hraw, List.length_append, hplace] at hnext
            refine hnext.trans ?_
            simp only [Except.bind]
            cases expandText facts (rest.drop (argument code rest).length) with
            | error e => rfl
            | ok last => simp [Except.map]
      · have hnone := memchr_none IssueFault.outside hesc pre []
        have hlast := writeLiteral_append ((pre ++ text).length + 1) pre text [] out
          (by rw [List.length_append]; omega)
        have hshown := expandText_literal facts hesc []
        rw [hwhole] at hnone hlast
        rw [List.append_nil, expandText_nil] at hshown
        rw [hnone, hshown, List.length_append]
        rw [List.length_append] at hlast
        refine hlast.trans ?_
        simp [Except.map]

theorem expandIssue_eq (facts : IssueFacts) (raw : List UInt8) :
    expandIssue facts raw = expandText facts raw := by
  have h := expandLoop_append facts (raw.length + 1) [] raw [] (Nat.lt_succ_self _)
  refine h.trans ?_
  cases expandText facts raw <;> rfl

/-! ## Cuts -/

/-- Behind the letter of an escape stand this argument part and this text. The part is empty
if the letter takes no parameter or no brace follows. Otherwise it goes to the first brace
that closes it, or to the end of the text if there is none. -/
inductive IsArgument (code : UInt8) : List UInt8 → List UInt8 → Prop
  | plain (rest : List UInt8) (hcode : parameterSize code = none) : IsArgument code [] rest
  | absent {rest : List UInt8} (hrest : rest.head? ≠ some 0x7b) : IsArgument code [] rest
  | closed {body : List UInt8} (rest : List UInt8) (hcode : parameterSize code ≠ none)
      (hbody : 0x7d ∉ body) : IsArgument code (0x7b :: (body ++ [0x7d])) rest
  | unclosed {body : List UInt8} (hcode : parameterSize code ≠ none) (hbody : 0x7d ∉ body) :
      IsArgument code (0x7b :: body) []

/-- The cut between two texts does not fall inside an escape sequence of the whole: the first
one consists of other bytes and of whole escape sequences. A backslash at the very end is an
escape sequence of its own. -/
inductive CutsOutside : List UInt8 → List UInt8 → Prop
  | front (b : List UInt8) : CutsOutside [] b
  | byte {c : UInt8} {a b : List UInt8} (hc : c ≠ 0x5c) (tail : CutsOutside a b) :
      CutsOutside (c :: a) b
  | escape {code : UInt8} {arg a b : List UInt8} (harg : IsArgument code arg (a ++ b))
      (tail : CutsOutside a b) : CutsOutside (0x5c :: code :: (arg ++ a)) b
  | backslash : CutsOutside [0x5c] []

theorem takeWhile_closed {body : List UInt8} (h : 0x7d ∉ body) (rest : List UInt8) :
    (body ++ 0x7d :: rest).takeWhile (· ≠ 0x7d) = body := by
  have hall : ∀ c ∈ body, decide (c ≠ 0x7d) = true := fun c hc =>
    decide_eq_true (ne_of_mem_of_not_mem hc h)
  rw [List.takeWhile_append_of_pos hall]
  simp

theorem IsArgument.argument_eq {code : UInt8} {arg rest : List UInt8}
    (h : IsArgument code arg rest) : argument code (arg ++ rest) = arg := by
  cases h with
  | plain _ hcode => simp [argument, hcode]
  | absent hrest =>
    rw [List.nil_append]
    unfold argument
    split
    · exact absurd rfl hrest
    · rfl
  | @closed body _ hcode hbody =>
    obtain ⟨len, hlen⟩ := Option.ne_none_iff_exists'.mp hcode
    simp only [argument, hlen, List.cons_append, List.append_assoc, List.nil_append]
    rw [takeWhile_closed hbody, List.take_append, List.take_of_length_le (Nat.le_succ _)]
    simp
  | @unclosed body hcode hbody =>
    obtain ⟨len, hlen⟩ := Option.ne_none_iff_exists'.mp hcode
    simp only [argument, hlen, List.append_nil]
    have hall : body.takeWhile (· ≠ 0x7d) = body := by
      rw [List.takeWhile_eq_self_iff]
      exact fun c hc => decide_eq_true (ne_of_mem_of_not_mem hc hbody)
    rw [hall, List.take_of_length_le (Nat.le_succ _)]

/-- An argument part does not change when the text behind it ends earlier. -/
theorem IsArgument.of_append {code : UInt8} {arg a b : List UInt8}
    (h : IsArgument code arg (a ++ b)) : IsArgument code arg a := by
  generalize hrest : a ++ b = rest at h
  cases h with
  | plain _ hcode => exact .plain _ hcode
  | absent hhead =>
    subst hrest
    apply IsArgument.absent
    intro ha
    exact hhead (by rw [List.head?_append, ha, Option.some_or])
  | closed _ hcode hbody => exact .closed _ hcode hbody
  | unclosed hcode hbody =>
    obtain ⟨rfl, -⟩ := List.append_eq_nil_iff.mp hrest
    exact .unclosed hcode hbody

theorem expandText_arg (facts : IssueFacts) {code : UInt8} {arg rest : List UInt8}
    (h : IsArgument code arg rest) :
    expandText facts (0x5c :: code :: (arg ++ rest)) =
      (escapeText facts code (parameter code arg)).bind fun shown =>
        (expandText facts rest).map (shown ++ ·) := by
  rw [expandText_escape, h.argument_eq, List.drop_left]

/-- Two texts are expanded one after the other. -/
theorem expandText_append (facts : IssueFacts) {a b : List UInt8} (h : CutsOutside a b) :
    expandText facts (a ++ b) =
      (expandText facts a).bind fun x => (expandText facts b).map (x ++ ·) := by
  induction h with
  | front b =>
    rw [List.nil_append, expandText_nil, Except.bind]
    cases expandText facts b <;> rfl
  | @byte c a b hc tail ih =>
    rw [List.cons_append, expandText_byte facts hc, expandText_byte facts hc, ih]
    cases expandText facts a with
    | error e => rfl
    | ok x =>
      cases expandText facts b with
      | error e => rfl
      | ok y => simp [Except.map, Except.bind]
  | @escape code arg a b harg tail ih =>
    have hwhole : 0x5c :: code :: (arg ++ a) ++ b = 0x5c :: code :: (arg ++ (a ++ b)) := by simp
    rw [hwhole, expandText_arg facts harg, expandText_arg facts harg.of_append, ih]
    cases escapeText facts code (parameter code arg) with
    | error e => rfl
    | ok shown =>
      cases expandText facts a with
      | error e => rfl
      | ok x =>
        cases expandText facts b with
        | error e => rfl
        | ok y => simp [Except.map, Except.bind]
  | backslash =>
    rw [List.append_nil, expandText_backslash, expandText_nil]
    rfl

/-! ## Failures -/

/-- The lists of addresses stay in their buffer. -/
def IssueFacts.ListsFit (facts : IssueFacts) : Prop :=
  ∀ book, facts.genBook = some book → ∀ filter, book.FitsBuffer filter

theorem readString_error {mem : List (Option UInt8)} {e : IssueFault}
    (h : readString mem = .error e) : e = .list := by
  induction mem with
  | nil => exact (Except.error.inj h).symm
  | cons cell mem ih =>
    cases cell with
    | none => exact (Except.error.inj h).symm
    | some c =>
      rw [readString] at h
      split_ifs at h
      cases hmem : readString mem with
      | error e' =>
        rw [hmem] at h
        obtain rfl := Except.error.inj h
        exact ih hmem
      | ok s =>
        rw [hmem] at h
        cases h

/-- A string that ends in memory is read up to its NUL. -/
theorem readString_terminated {text : List UInt8} (h : 0 ∉ text) (rest : List (Option UInt8)) :
    readString (text.map some ++ some 0 :: rest) = .ok text := by
  induction text with
  | nil => rfl
  | cons c text ih =>
    obtain ⟨hc, htext⟩ := not_or.mp (mt List.mem_cons.mpr h)
    rw [List.map_cons, List.cons_append, readString, if_neg (Ne.symm hc), ih htext]
    rfl

/-- The list of addresses can be printed if it stays in its buffer. -/
theorem expandAllIp_error {facts : IssueFacts} {filter : Bool} {e : IssueFault}
    (h : expandAllIp facts filter = .error e) : e = .list ∧ ¬ facts.ListsFit := by
  unfold expandAllIp at h
  cases hbook : facts.genBook with
  | none =>
    rw [hbook] at h
    cases h
  | some book =>
    simp only [hbook] at h
    constructor
    · cases hp : issueNetworkGetAllIp book filter with
      | none =>
        simp only [hp] at h
        exact (Except.error.inj h).symm
      | some p =>
        simp only [hp] at h
        exact readString_error h
    · intro hfit
      obtain ⟨p, hp, -, text, rest, hout, hzero, -⟩ :=
        listsBounded_of_fits (hfit book hbook filter)
      simp only [hp, hout, readString_terminated hzero] at h
      cases h

theorem escapeText_error {facts : IssueFacts} {code : UInt8} {param : Option (List UInt8)}
    {e : IssueFault} (h : escapeText facts code param = .error e) :
    e = .list ∧ ¬ facts.ListsFit := by
  unfold escapeText at h
  split at h
  all_goals try cases h
  unfold plainEscape at h
  split at h
  all_goals first | exact expandAllIp_error h | cases h

/-- The expansion can only fail over a list of addresses. -/
theorem expandText_error {facts : IssueFacts} {text : List UInt8} {e : IssueFault}
    (h : expandText facts text = .error e) : e = .list ∧ ¬ facts.ListsFit := by
  induction text using expandText.induct with
  | case1 =>
    rw [expandText_nil] at h
    cases h
  | case2 c text hc ih =>
    rw [expandText_byte facts hc] at h
    cases htext : expandText facts text with
    | error e' =>
      rw [htext] at h
      obtain rfl := Except.error.inj h
      exact ih htext
    | ok shown =>
      rw [htext] at h
      cases h
  | case3 c hc =>
    obtain rfl := not_not.mp hc
    rw [expandText_backslash] at h
    cases h
  | case4 c hc code text arg ih =>
    obtain rfl := not_not.mp hc
    rw [expandText_escape] at h
    cases hescape : escapeText facts code (parameter code (argument code text)) with
    | error e' =>
      rw [hescape] at h
      obtain rfl := Except.error.inj h
      exact escapeText_error hescape
    | ok shown =>
      rw [hescape, Except.bind] at h
      cases htext : expandText facts (text.drop (argument code text).length) with
      | error e' =>
        rw [htext] at h
        obtain rfl := Except.error.inj h
        exact ih htext
      | ok last =>
        rw [htext] at h
        cases h

/-- The expansion of two texts is that of the first and that of the second, if the cut
between them does not fall inside an escape sequence. Text without backslashes is kept but
for its newlines. The expansion of every text ends and reads nothing outside of it; it fails
only if a list of addresses leaves its buffer. -/
theorem expandIssue_homomorphism (facts : IssueFacts) :
    (∀ a b, CutsOutside a b → expandIssue facts (a ++ b) = do
      let x ← expandIssue facts a
      let y ← expandIssue facts b
      return x ++ y) ∧
    (∀ text, 0x5c ∉ text → expandIssue facts text = .ok (text.flatMap crlf)) ∧
    ∀ text, expandIssue facts text ≠ .error .outside ∧ expandIssue facts text ≠ .error .unended ∧
      (facts.ListsFit → ∃ out, expandIssue facts text = .ok out) := by
  refine ⟨fun a b hcut => ?_, fun text htext => ?_, fun text => ?_⟩
  · rw [expandIssue_eq, expandIssue_eq, expandIssue_eq, expandText_append facts hcut]
    cases expandText facts a with
    | error e => rfl
    | ok x => cases expandText facts b <;> rfl
  · have h := expandText_literal facts htext []
    rw [List.append_nil, expandText_nil] at h
    rw [expandIssue_eq, h, Except.map, List.append_nil, crlfText]
  · rw [expandIssue_eq]
    cases h : expandText facts text with
    | error e =>
      obtain ⟨rfl, hlists⟩ := expandText_error h
      exact ⟨by simp, by simp, fun hfit => absurd hfit hlists⟩
    | ok out => exact ⟨by simp, by simp, fun _ => ⟨out, rfl⟩⟩

/-- A panel whose system has an identifier. -/
def panelFacts : IssueFacts where
  sysname := ⟨lit "Linux", by decide +kernel, by decide +kernel⟩
  nodename := ⟨lit "panel", by decide +kernel, by decide +kernel⟩
  release := ⟨lit "6.6.0", by decide +kernel, by decide +kernel⟩
  version := ⟨lit "#1 SMP", by decide +kernel, by decide +kernel⟩
  machine := ⟨lit "x86_64", by decide +kernel, by decide +kernel⟩
  domainname := CharArray.empty (by decide)
  datebuf := ⟨lit "2025-01-31", by decide +kernel, by decide +kernel⟩
  timebuf := ⟨lit "12:00:00", by decide +kernel, by decide +kernel⟩
  ptyName := ⟨lit "/dev/tty1", by decide +kernel⟩
  etcOsRelease := some (lit "NAME=\"Panel OS\"\nID=panel\n")
  usrLibOsRelease := none
  genBook := none

theorem expandIssue_homomorphism_panel :
    expandIssue panelFacts (lit "\\S{NAME}" ++ lit " \\l\n") = .ok (lit "Panel OS tty1\x0d\n") := by
  have hcut : CutsOutside (lit "\\S{NAME}") (lit " \\l\n") := by
    have harg : IsArgument 0x53 (lit "{NAME}") (lit " \\l\n") :=
      .closed (lit " \\l\n") (by decide) (by decide +kernel : 0x7d ∉ lit "NAME")
    have hfirst : lit "\\S{NAME}" = 0x5c :: 0x53 :: (lit "{NAME}" ++ []) := by decide +kernel
    rw [hfirst]
    exact .escape harg (.front _)
  rw [(expandIssue_homomorphism panelFacts).1 _ _ hcut]
  decide +kernel

end Faceplate.Misc
