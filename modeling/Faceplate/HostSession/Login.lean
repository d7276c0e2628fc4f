import Mathlib.Data.List.GetD
import Faceplate.HostSession.RoundTrip

/-!
# What the login process gets

The helper's side of `misc/host_session.c` behind the parser: `run_login` builds
the program, the arguments and the environment of `execve`. Of the job it takes
the terminal type, and that only if it is short and plain.
-/

namespace Faceplate.HostSession

open CString

/-- The helper and its kernel: the helper's own environment, and the outcome of
each check and system call on the way to `execve`. -/
structure Host where
  getenv : List UInt8 → Option (List UInt8)
  peerAllowed : Bool
  alloc : Bool
  ptySlave : Bool
  forked : Bool
  /-- `setsid` succeeds, or fails with `EPERM`. -/
  setsid : Bool
  setCtty : Bool
  dup2 : Bool

/-- The arguments of `execve`. -/
structure Exec where
  program : List UInt8
  argv : List (List UInt8)
  envp : List (List UInt8)
  deriving DecidableEq

/-- `login_binary`. -/
def loginBinary (getenv : List UInt8 → Option (List UInt8)) : List UInt8 :=
  match getenv (lit "FACEPLATE_HOST_LOGIN_BIN") with
  | none => lit "/bin/login"
  | some bin =>
    if bin ≠ [] ∧ (getenv (lit "FACEPLATE_HOST_LOGIN_SKIP_CGROUP")).isSome then bin
    else lit "/bin/login"

/-- The size of `term` in `run_login`. -/
def termMax : ℕ := 48

/-- The entries of `envp` behind the terminal type. -/
def fixedEnv : List (List UInt8) :=
  [lit "PATH=/usr/sbin:/usr/bin:/sbin:/bin", lit "HOME=/", lit "SHELL=/bin/sh"]

/-- `run_login`, up to its `execve`; `none` is `_exit(127)`. -/
def runLogin (host : Host) (mem : List UInt8) (env : List (Option ℕ)) : Option Exec :=
  if !host.setsid then none
  else if !host.setCtty then none
  else if !host.dup2 then none
  else
    let bin := loginBinary host.getenv
    some ⟨bin, [bin, lit "-p"], fit termMax (sanitizedTerm mem env).1 :: fixedEnv⟩

/-- `faceplate_host_session_serve_one` on the bytes it received: what its child
executes, if it gets there. -/
def serveOne (host : Host) (bytes beyond : List UInt8) : Option Exec :=
  if !host.peerAllowed then none
  else if bytes.length < 12 then none
  else
    match (unpackJob (bytes ++ beyond) bytes.length host.alloc).1 with
    | .error _ => none
    | .ok job =>
      if !host.ptySlave then none
      else if !host.forked then none
      else runLogin host (bytes ++ beyond) job.env

/-- The first entry that begins with `TERM=`. -/
def firstTerm (env : List Str) : Option Str := env.find? fun s => (lit "TERM=").isPrefixOf s.bytes

/-- A terminal type that is let through. -/
def PlainTerm (v : List UInt8) : Prop := 1 ≤ v.length ∧ v.length ≤ 32 ∧ ∀ c ∈ v, termChar c = true

instance (v : List UInt8) : Decidable (PlainTerm v) :=
  inferInstanceAs (Decidable (1 ≤ v.length ∧ v.length ≤ 32 ∧ ∀ c ∈ v, termChar c = true))

/-- The terminal type of the login process, from the entry that names one. -/
def loginTerm : Option Str → List UInt8
  | none => defaultTerm
  | some s => if PlainTerm (s.bytes.drop 5) then s.bytes.drop 5 else defaultTerm

theorem plainTerm_loginTerm (entry : Option Str) : PlainTerm (loginTerm entry) := by
  have hdefault : PlainTerm defaultTerm := by decide +kernel
  cases entry with
  | none => exact hdefault
  | some s =>
    by_cases hplain : PlainTerm (s.bytes.drop 5)
    · simp only [loginTerm, hplain, if_true]
    · simpa only [loginTerm, hplain, if_false] using hdefault

theorem byteAt_eq_zero_iff {mem : List UInt8} {p : ℕ} :
    byteAt mem p = 0 ↔ cstr (mem.drop p) = [] := by
  unfold byteAt
  by_cases hp : p < mem.length
  · rw [List.drop_eq_getElem_cons hp, cstr_cons, List.getD_eq_getElem _ _ hp]
    split_ifs with hzero <;> simp [hzero]
  · have hle : mem.length ≤ p := by omega
    rw [List.drop_eq_nil_of_le hle, List.getD_eq_default _ _ hle]
    exact iff_of_true rfl rfl

theorem cstr_drop_of_ne_zero {mem : List UInt8} {p : ℕ} (h : byteAt mem p ≠ 0) :
    cstr (mem.drop p) = byteAt mem p :: cstr (mem.drop (p + 1)) := by
  have hp : p < mem.length := by
    by_contra hge
    exact h (by simp [byteAt, Nat.not_lt.mp hge])
  have hbyte : byteAt mem p = mem[p] := List.getD_eq_getElem _ _ hp
  rw [List.drop_eq_getElem_cons hp, cstr_cons, if_neg (hbyte ▸ h), hbyte]

/-- `strncmp` sees a prefix exactly if the string has it. -/
theorem hasPrefix_iff (mem : List UInt8) {pat : List UInt8} (hpat : 0 ∉ pat) (p : ℕ) :
    (hasPrefix mem pat p).1 = pat.isPrefixOf (cstr (mem.drop p)) := by
  induction pat generalizing p with
  | nil => simp [hasPrefix]
  | cons c rest ih =>
    simp only [List.mem_cons, not_or] at hpat
    unfold hasPrefix
    by_cases hc : byteAt mem p = c
    · have hne : byteAt mem p ≠ 0 := hc ▸ Ne.symm hpat.1
      rw [if_pos hc, cstr_drop_of_ne_zero hne]
      simp [hc, ih hpat.2 (p + 1)]
    · rw [if_neg hc]
      by_cases hzero : byteAt mem p = 0
      · rw [byteAt_eq_zero_iff.mp hzero]
        rfl
      · rw [cstr_drop_of_ne_zero hzero]
        simp [List.isPrefixOf, Ne.symm hc]

/-- The value behind a prefix is the string without it. -/
theorem cstr_behind {mem pat : List UInt8} (hpat : 0 ∉ pat) {p : ℕ}
    (h : (hasPrefix mem pat p).1 = true) :
    cstr (mem.drop (p + pat.length)) = (cstr (mem.drop p)).drop pat.length := by
  induction pat generalizing p with
  | nil => simp
  | cons c rest ih =>
    simp only [List.mem_cons, not_or] at hpat
    unfold hasPrefix at h
    split_ifs at h with hc
    have hne : byteAt mem p ≠ 0 := hc ▸ Ne.symm hpat.1
    rw [cstr_drop_of_ne_zero hne, List.length_cons, List.drop_succ_cons, ← ih hpat.2 h]
    congr 2
    omega

/-- The search finds the value of the first entry. -/
theorem findTerm_eq (mem : List UInt8) (env : List (Option ℕ)) :
    (findTerm mem env).1.map (fun p => cstr (mem.drop p)) =
      (firstTerm (vectorStrings mem env)).map (·.bytes.drop 5) := by
  have hlit : 0 ∉ lit "TERM=" := by decide
  induction env with
  | nil => rfl
  | cons entry rest ih =>
    cases entry with
    | none => rfl
    | some p =>
      have hprefix := hasPrefix_iff mem hlit p
      unfold findTerm vectorStrings firstTerm
      rw [List.find?_cons]
      simp only [stringAt]
      rw [← hprefix]
      cases hfound : (hasPrefix mem (lit "TERM=") p).1 with
      | false =>
        simp only [Bool.false_eq_true, if_false]
        exact ih
      | true =>
        simp only [if_true, Option.map_some]
        exact congrArg some (cstr_behind hlit hfound)

theorem checkTerm_iff (v : List UInt8) : (checkTerm v).1 = true ↔ ∀ c ∈ v, termChar c = true := by
  induction v with
  | nil => simp [checkTerm]
  | cons c rest ih =>
    unfold checkTerm
    split_ifs with hc
    · simpa [hc] using ih
    · simp [hc]

/-- `sanitized_term` writes the terminal type that the first entry names. -/
theorem sanitizedTerm_eq (mem : List UInt8) (env : List (Option ℕ)) :
    (sanitizedTerm mem env).1 = lit "TERM=" ++ loginTerm (firstTerm (vectorStrings mem env)) := by
  have hfind := findTerm_eq mem env
  unfold sanitizedTerm
  rcases hfound : findTerm mem env with ⟨_ | p, reads⟩
  · rw [hfound] at hfind
    rw [Option.map_eq_none_iff.mp hfind.symm]
    rfl
  · rw [hfound] at hfind
    obtain ⟨s, hs, hvalue⟩ := Option.map_eq_some_iff.mp hfind.symm
    have hvalue : s.bytes.drop 5 = cstr (mem.drop p) := hvalue
    have hcheck := checkTerm_iff (cstr (mem.drop p))
    rw [hs]
    simp only [loginTerm, hvalue]
    by_cases hlen : (cstr (mem.drop p)).length < 1 ∨ 32 < (cstr (mem.drop p)).length
    · have hnot : ¬ PlainTerm (cstr (mem.drop p)) := fun hplain => by
        have := hplain.1
        have := hplain.2.1
        omega
      simp only [hlen, hnot, if_true, if_false]
    · by_cases hok : (checkTerm (cstr (mem.drop p))).1 = true
      · have hplain : PlainTerm (cstr (mem.drop p)) := ⟨by omega, by omega, hcheck.mp hok⟩
        simp only [hlen, hok, hplain, if_true, if_false]
      · have hnot : ¬ PlainTerm (cstr (mem.drop p)) := fun hplain => hok (hcheck.mpr hplain.2.2)
        simp only [hlen, hok, hnot, if_false, Bool.false_eq_true]

/-- The buffer of `run_login` holds every such text whole. -/
theorem length_sanitizedTerm (mem : List UInt8) (env : List (Option ℕ)) :
    (sanitizedTerm mem env).1.length + 1 ≤ termMax := by
  rw [sanitizedTerm_eq, List.length_append]
  have hlen := (plainTerm_loginTerm (firstTerm (vectorStrings mem env))).2.1
  have hlit : (lit "TERM=").length = 5 := rfl
  unfold termMax
  omega

/-- What `run_login` executes, if it gets that far. -/
theorem runLogin_eq (host : Host) (mem : List UInt8) (env : List (Option ℕ)) :
    runLogin host mem env =
      if host.setsid && host.setCtty && host.dup2 then
        some ⟨loginBinary host.getenv, [loginBinary host.getenv, lit "-p"],
          (lit "TERM=" ++ loginTerm (firstTerm (vectorStrings mem env))) :: fixedEnv⟩
      else none := by
  have hfit : fit termMax (sanitizedTerm mem env).1 = (sanitizedTerm mem env).1 :=
    fit_eq_self (Nat.le_sub_of_add_le (length_sanitizedTerm mem env))
  rw [sanitizedTerm_eq] at hfit
  unfold runLogin
  cases host.setsid <;> cases host.setCtty <;> cases host.dup2 <;>
    simp [hfit, sanitizedTerm_eq]

/-- What is executed for a connection is what `run_login` makes of the accepted job. -/
theorem serveOne_eq_some_iff {host : Host} {bytes beyond : List UInt8} {exec : Exec} :
    serveOne host bytes beyond = some exec ↔
      (host.peerAllowed = true ∧ 12 ≤ bytes.length ∧ host.ptySlave = true ∧
        host.forked = true) ∧
      ∃ job, (unpackJob (bytes ++ beyond) bytes.length host.alloc).1 = .ok job ∧
        runLogin host (bytes ++ beyond) job.env = some exec := by
  unfold serveOne
  cases hjob : (unpackJob (bytes ++ beyond) bytes.length host.alloc).1 with
  | error e =>
    constructor
    · intro h
      split_ifs at h
    · rintro ⟨-, job, hok, -⟩
      cases hok
  | ok job =>
    simp only [Except.ok.injEq, exists_eq_left']
    by_cases hlen : bytes.length < 12
    · have hnot : ¬12 ≤ bytes.length := by omega
      simp [hlen, hnot]
    · have hle : 12 ≤ bytes.length := by omega
      cases host.peerAllowed <;> cases host.ptySlave <;> cases host.forked <;> simp [hlen, hle]

/-- Two jobs with the same first `TERM=` entry give the same `execve`. Once the terminal is
set up it is reached, with the terminal type, short and plain and whole in its buffer, and
the fixed entries for an environment. Nothing else is executed for a connection. -/
theorem runLogin_only_firstTerm (host : Host) (mem mem' : List UInt8) (job job' : Job) :
    (firstTerm (vectorStrings mem job.env) = firstTerm (vectorStrings mem' job'.env) →
      runLogin host mem job.env = runLogin host mem' job'.env) ∧
    runLogin host mem job.env =
      (if host.setsid && host.setCtty && host.dup2 then
        some ⟨loginBinary host.getenv, [loginBinary host.getenv, lit "-p"],
          (lit "TERM=" ++ loginTerm (firstTerm (vectorStrings mem job.env))) :: fixedEnv⟩
      else none) ∧
    PlainTerm (loginTerm (firstTerm (vectorStrings mem job.env))) ∧
    (sanitizedTerm mem job.env).1.length + 1 ≤ termMax ∧
    ∀ bytes beyond exec, serveOne host bytes beyond = some exec ↔
      (host.peerAllowed = true ∧ 12 ≤ bytes.length ∧ host.ptySlave = true ∧
        host.forked = true) ∧
      ∃ job, (unpackJob (bytes ++ beyond) bytes.length host.alloc).1 = .ok job ∧
        runLogin host (bytes ++ beyond) job.env = some exec := by
  refine ⟨?_, runLogin_eq host mem job.env, plainTerm_loginTerm _,
    length_sanitizedTerm mem job.env, fun bytes beyond exec => serveOne_eq_some_iff⟩
  intro hterm
  rw [runLogin_eq, runLogin_eq, hterm]

/-- A helper on which every step succeeds. -/
def plainHost : Host :=
  ⟨fun _ => none, true, true, true, true, true, true, true⟩

/-- A second entry and another one beside it make no difference. -/
theorem runLogin_only_firstTerm_second :
    runLogin plainHost (lit "TERM=xterm" ++ [0]) [some 0, none] =
      runLogin plainHost (lit "LD_PRELOAD=x" ++ [0] ++ lit "TERM=xterm" ++ [0] ++ lit "TERM=b")
        [some 0, some 13, some 24, none] :=
  (runLogin_only_firstTerm plainHost (lit "TERM=xterm" ++ [0])
    (lit "LD_PRELOAD=x" ++ [0] ++ lit "TERM=xterm" ++ [0] ++ lit "TERM=b") ⟨[], [some 0, none]⟩
    ⟨[], [some 0, some 13, some 24, none]⟩).1 (by decide)

end Faceplate.HostSession
