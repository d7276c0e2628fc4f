import Faceplate.HostSession.Pack

/-!
# The packet round trip

The packer has no limits, the parser has its own on both counts, and the
receiver reads once into a fixed buffer. A job comes back whole exactly if it
stays within all of them, whatever stands behind the receive buffer.
-/

namespace Faceplate.HostSession

open CString

/-- The strings of a vector, up to its `NULL`. -/
def vectorStrings (mem : List UInt8) : List (Option ℕ) → List Str
  | [] | none :: _ => []
  | some p :: rest => stringAt mem p :: vectorStrings mem rest

@[simp] theorem vectorStrings_nullTerminated (mem : List UInt8) (ptrs : List ℕ) :
    vectorStrings mem (nullTerminated ptrs) = ptrs.map (stringAt mem) := by
  induction ptrs with
  | nil => rfl
  | cons p rest ih =>
    rw [List.map_cons, ← ih]
    rfl

theorem stringAt_eq {mem rest : List UInt8} {s : Str} {p : ℕ}
    (h : mem.drop p = s.terminated ++ rest) : stringAt mem p = s := by
  unfold stringAt
  congr 1
  rw [h, cstr_terminated]

theorem strlen_terminated {mem rest : List UInt8} {s : Str} {p : ℕ}
    (h : mem.drop p = s.terminated ++ rest) : strlen (mem.drop p) = s.bytes.length := by
  rw [strlen, h, cstr_terminated]

theorem drop_terminated {mem rest : List UInt8} {s : Str} {p : ℕ}
    (h : mem.drop p = s.terminated ++ rest) : mem.drop (p + s.bytes.length + 1) = rest := by
  rw [Nat.add_assoc, ← List.drop_drop, h, ← Str.length_terminated, List.drop_left]

/-- Strings that stand in memory as they were packed are read back. -/
theorem readVector_strings {mem post : List UInt8} {stop p : ℕ} {ss : List Str}
    (hmem : mem.drop p = ss.flatMap Str.terminated ++ post)
    (hstop : p + (ss.flatMap Str.terminated).length ≤ stop) :
    ∃ ptrs, (readVector mem stop ss.length p).1 =
        some (ptrs, p + (ss.flatMap Str.terminated).length) ∧ ptrs.map (stringAt mem) = ss := by
  induction ss generalizing p with
  | nil => exact ⟨[], rfl, rfl⟩
  | cons s rest ih =>
    rw [List.flatMap_cons, List.append_assoc] at hmem
    rw [List.flatMap_cons, List.length_append, Str.length_terminated] at hstop ⊢
    have hlen := strlen_terminated hmem
    obtain ⟨ptrs, hptrs, hstrings⟩ := ih (drop_terminated hmem) (by omega)
    refine ⟨p :: ptrs, ?_, ?_⟩
    · rw [List.length_cons, readVector_of_lt (by omega), hlen]
      simp only [hptrs, Option.map_some, Option.some.injEq, Prod.mk.injEq, true_and]
      omega
    · rw [List.map_cons, hstrings, stringAt_eq hmem]

/-- If a string is cut off in front of its NUL, what follows the memory shows. -/
theorem not_cut {r missing : List UInt8} {s : Str} (hsplit : s.terminated = r ++ missing)
    (hread : ∀ beyond, cstr (r ++ beyond) = s.bytes) : missing = [] := by
  by_contra hne
  have hbytes : s.bytes = r ++ missing.dropLast := by
    have := congrArg List.dropLast hsplit
    rwa [Str.terminated, List.dropLast_concat, List.dropLast_append_of_ne_nil hne] at this
  have hzero : 0 ∉ r := fun h => s.noNul (hbytes ▸ List.mem_append_left _ h)
  have hplain : cstr (r ++ [1]) = r ++ [1] := by
    apply cstr_of_zero_not_mem
    simp [hzero]
  have hempty : cstr (r ++ []) = r := by
    rw [List.append_nil]
    exact cstr_of_zero_not_mem hzero
  have heq : r ++ [1] = r := by
    rw [← hplain, hread, ← hread [], hempty]
  simp at heq

/-- Only the whole of the strings can be read back whatever follows: a part `r` of
them that is always read as all of them is all of them. -/
theorem readVector_whole {mem : List UInt8 → List UInt8} {r missing : List UInt8} {p : ℕ}
    {ss : List Str} (hmem : ∀ beyond, (mem beyond).drop p = r ++ beyond)
    (hsplit : ss.flatMap Str.terminated = r ++ missing)
    (hread : ∀ beyond, ∃ ptrs q,
      (readVector (mem beyond) (p + r.length) ss.length p).1 = some (ptrs, q) ∧
        ptrs.map (stringAt (mem beyond)) = ss) : missing = [] := by
  induction ss generalizing p r with
  | nil => exact (List.append_eq_nil_iff.mp hsplit.symm).2
  | cons s rest ih =>
    have hne : 0 < r.length := by
      obtain ⟨ptrs, q, hptrs, -⟩ := hread []
      by_contra hzero
      rw [List.length_cons, readVector_of_le (by omega)] at hptrs
      exact absurd hptrs (by simp)
    have hstep : ∀ beyond, cstr (r ++ beyond) = s.bytes ∧ ∃ ptrs q,
        (readVector (mem beyond) (p + r.length) rest.length
          (p + strlen (r ++ beyond) + 1)).1 = some (ptrs, q) ∧
          ptrs.map (stringAt (mem beyond)) = rest := by
      intro beyond
      obtain ⟨ptrs, q, hptrs, hstrings⟩ := hread beyond
      rw [List.length_cons, readVector_of_lt (by omega), hmem] at hptrs
      simp only [Option.map_eq_some_iff, Prod.mk.injEq, Prod.exists] at hptrs
      obtain ⟨ptrs', q', hrest, rfl, rfl⟩ := hptrs
      obtain ⟨hfirst, hstrings⟩ := List.cons.inj hstrings
      refine ⟨?_, ptrs', q', hrest, hstrings⟩
      rw [← hmem, ← hfirst]
      rfl
    rw [List.flatMap_cons] at hsplit
    obtain ⟨tail, rfl, htail⟩ : ∃ tail, r = s.terminated ++ tail ∧
        rest.flatMap Str.terminated = tail ++ missing := by
      rcases List.append_eq_append_iff.mp hsplit with ⟨tail, hr, htail⟩ | ⟨cut, hs, hmissing⟩
      · exact ⟨tail, hr, htail⟩
      · have hcut := not_cut hs fun beyond => (hstep beyond).1
        subst hcut
        exact ⟨[], by simpa using hs.symm, by simpa using hmissing.symm⟩
    refine ih (p := p + s.bytes.length + 1) (fun beyond => ?_) htail fun beyond => ?_
    · apply drop_terminated
      rw [hmem, List.append_assoc]
    · obtain ⟨hfirst, ptrs, q, hptrs, hstrings⟩ := hstep beyond
      refine ⟨ptrs, q, ?_, hstrings⟩
      rw [strlen, hfirst] at hptrs
      rw [← hptrs, List.length_append, Str.length_terminated]
      congr 2
      omega

/-- Both vectors of a job, read as one. -/
theorem readVector_both {mem : List UInt8} {stop a b p q q' : ℕ} {ptrs ptrs' : List ℕ}
    (hfirst : (readVector mem stop a p).1 = some (ptrs, q))
    (hsecond : (readVector mem stop b q).1 = some (ptrs', q')) :
    (readVector mem stop (a + b) p).1 = some (ptrs ++ ptrs', q') := by
  induction a generalizing p ptrs with
  | zero =>
    simp only [readVector, Option.some.injEq, Prod.mk.injEq] at hfirst
    obtain ⟨rfl, rfl⟩ := hfirst
    rw [Nat.zero_add, hsecond, List.nil_append]
  | succ a ih =>
    rw [Nat.succ_add]
    rcases Nat.lt_or_ge p stop with hp | hp
    · rw [readVector_of_lt hp] at hfirst ⊢
      simp only [Option.map_eq_some_iff, Prod.mk.injEq, Prod.exists] at hfirst
      obtain ⟨rest, q₀, hrest, rfl, rfl⟩ := hfirst
      simp only [ih hrest, Option.map_some, List.cons_append]
    · rw [readVector_of_le hp] at hfirst
      exact absurd hfirst (by simp)

/-- What acceptance says about the packet's header. -/
theorem unpackJob_header {mem : List UInt8} {len : ℕ} {alloc : Bool} {job : Job}
    (h : (unpackJob mem len alloc).1 = .ok job) :
    12 ≤ len ∧ headerOk mem = true ∧ alloc = true := by
  unfold unpackJob at h
  split_ifs at h with hlen hheader halloc
  simp only [Bool.not_eq_true, Bool.not_eq_false'] at hheader halloc
  exact ⟨by omega, by simpa using hheader, by simpa using halloc⟩

theorem unpackJob_of_vectors {mem : List UInt8} {len p q : ℕ} {argv env : List ℕ}
    (hlen : 12 ≤ len) (hheader : headerOk mem = true)
    (hargv : (readVector mem len (word32 mem 4) 12).1 = some (argv, p))
    (henv : (readVector mem len (word32 mem 8) p).1 = some (env, q)) :
    (unpackJob mem len true).1 = .ok ⟨nullTerminated argv, nullTerminated env⟩ := by
  unfold unpackJob
  rw [if_neg (by omega)]
  simp only [hheader, Bool.not_true, Bool.false_eq_true, if_false]
  rcases hfirst : readVector mem len (word32 mem 4) 12 with ⟨out, reads⟩
  rcases hsecond : readVector mem len (word32 mem 8) p with ⟨out', reads'⟩
  rw [hfirst] at hargv
  rw [hsecond] at henv
  simp only at hargv henv
  subst hargv henv
  simp only [hsecond]

/-- The header as the parser sees it. -/
theorem words_packHeader (argc envc : ℕ) (rest : List UInt8) :
    word32 (packHeader argc envc ++ rest) 0 = hostLoginMagic ∧
      word32 (packHeader argc envc ++ rest) 4 = argc % 2 ^ 32 ∧
      word32 (packHeader argc envc ++ rest) 8 = envc % 2 ^ 32 := by
  refine ⟨?_, ?_, ?_⟩
  · apply word32_bytes32 (by decide) _ (bytes32 (argc % 2 ^ 32) ++ bytes32 (envc % 2 ^ 32) ++ rest)
    simp [packHeader]
  · apply word32_bytes32 (Nat.mod_lt _ (by decide)) _ (bytes32 (envc % 2 ^ 32) ++ rest)
    simp [packHeader, bytes32]
  · apply word32_bytes32 (Nat.mod_lt _ (by decide)) _ rest
    simp [packHeader, bytes32]

theorem headerOk_packHeader (argc envc : ℕ) (rest : List UInt8) :
    headerOk (packHeader argc envc ++ rest) = true ↔
      argc % 2 ^ 32 ≠ 0 ∧ argc % 2 ^ 32 ≤ 64 ∧ envc % 2 ^ 32 ≤ 512 := by
  obtain ⟨hmagic, hword4, hword8⟩ := words_packHeader argc envc rest
  simp only [headerOk, hmagic, hword4, hword8, decide_eq_true_eq, true_and]

/-- The parser accepts the received bytes and finds the packed strings, whatever
the memory behind the receive buffer holds. -/
def RoundTrips (argv environ : List Str) (bytes : List UInt8) (alloc : Bool) : Prop :=
  ∀ beyond, ∃ job, (unpackJob (bytes ++ beyond) bytes.length alloc).1 = .ok job ∧
    vectorStrings (bytes ++ beyond) job.argv = argv ∧
    vectorStrings (bytes ++ beyond) job.env = environ

/-- The bytes of a packet, header first. -/
def packetOf (argv environ : List Str) : List UInt8 :=
  packHeader argv.length environ.length ++ (argv ++ environ).flatMap Str.terminated

/-- A job within the parser's limits whose packet is received whole comes back. -/
theorem roundTrips_of_whole {argv environ : List Str} (hne : argv ≠ [])
    (hargc : argv.length ≤ 64) (henvc : environ.length ≤ 512) :
    RoundTrips argv environ (packetOf argv environ) true := by
  intro beyond
  have hpos := List.length_pos_of_ne_nil hne
  have hargcMod : argv.length % 2 ^ 32 = argv.length := Nat.mod_eq_of_lt (by omega)
  have henvcMod : environ.length % 2 ^ 32 = environ.length := Nat.mod_eq_of_lt (by omega)
  have hlen : (packetOf argv environ).length =
      12 + (argv.flatMap Str.terminated).length + (environ.flatMap Str.terminated).length := by
    simp only [packetOf, List.length_append, length_packHeader, List.flatMap_append]
    omega
  have hmem : packetOf argv environ ++ beyond = packHeader argv.length environ.length ++
      (argv.flatMap Str.terminated ++ (environ.flatMap Str.terminated ++ beyond)) := by
    simp only [packetOf, List.flatMap_append, List.append_assoc]
  rw [hmem]
  generalize hrest : argv.flatMap Str.terminated ++ (environ.flatMap Str.terminated ++ beyond) =
    rest
  obtain ⟨-, hword4, hword8⟩ := words_packHeader argv.length environ.length rest
  have hheader := (headerOk_packHeader argv.length environ.length rest).mpr (by omega)
  have hdrop : (packHeader argv.length environ.length ++ rest).drop 12 =
      argv.flatMap Str.terminated ++ (environ.flatMap Str.terminated ++ beyond) := by
    rw [← length_packHeader argv.length environ.length, List.drop_left, hrest]
  generalize packHeader argv.length environ.length ++ rest = mem at *
  have hdrop' : mem.drop (12 + (argv.flatMap Str.terminated).length) =
      environ.flatMap Str.terminated ++ beyond := by
    rw [← List.drop_drop, hdrop, List.drop_left]
  obtain ⟨ptrs, hptrs, hargv⟩ := readVector_strings hdrop (Nat.le.intro hlen.symm)
  obtain ⟨ptrs', hptrs', henv⟩ := readVector_strings hdrop' (Nat.le_of_eq hlen.symm)
  rw [← hargcMod, ← hword4] at hptrs
  rw [← henvcMod, ← hword8] at hptrs'
  refine ⟨_, unpackJob_of_vectors (by omega) hheader hptrs hptrs', ?_, ?_⟩
  · rw [vectorStrings_nullTerminated, hargv]
  · rw [vectorStrings_nullTerminated, henv]

/-- What comes back whole was received whole and kept to the parser's limits. -/
theorem whole_of_roundTrips {argv environ : List Str} {n : ℕ} {alloc : Bool}
    (h : RoundTrips argv environ ((packetOf argv environ).take n) alloc) :
    alloc = true ∧ argv.length ≤ 64 ∧ environ.length ≤ 512 ∧
      (packetOf argv environ).length ≤ n := by
  have hstart : 12 ≤ n := by
    obtain ⟨job, hjob, -, -⟩ := h []
    have := (unpackJob_header hjob).1
    rw [List.length_take] at this
    omega
  have hbytes : (packetOf argv environ).take n = packHeader argv.length environ.length ++
      ((argv ++ environ).flatMap Str.terminated).take (n - 12) := by
    rw [packetOf, List.take_append, length_packHeader, List.take_of_length_le hstart]
  have hread : ∀ beyond, alloc = true ∧ argv.length ≤ 64 ∧ environ.length ≤ 512 ∧ ∃ ptrs q,
      (readVector ((packetOf argv environ).take n ++ beyond)
        (12 + (((argv ++ environ).flatMap Str.terminated).take (n - 12)).length)
        (argv ++ environ).length 12).1 = some (ptrs, q) ∧
      ptrs.map (stringAt ((packetOf argv environ).take n ++ beyond)) = argv ++ environ := by
    intro beyond
    obtain ⟨job, hjob, hargv, henv⟩ := h beyond
    obtain ⟨-, hheader, halloc⟩ := unpackJob_header hjob
    obtain ⟨ptrs, p, ptrs', q, hptrs, hptrs', rfl, -⟩ := unpackJob_ok hjob
    obtain ⟨-, hword4, hword8⟩ := words_packHeader argv.length environ.length
      (((argv ++ environ).flatMap Str.terminated).take (n - 12) ++ beyond)
    rw [hbytes, List.append_assoc, headerOk_packHeader] at hheader
    rw [← List.append_assoc, ← hbytes] at hword4 hword8
    rw [vectorStrings_nullTerminated] at hargv henv
    have hargc : argv.length = word32 ((packetOf argv environ).take n ++ beyond) 4 := by
      rw [← (readVector_some hptrs).1, ← hargv, List.length_map]
    have henvc : environ.length = word32 ((packetOf argv environ).take n ++ beyond) 8 := by
      rw [← (readVector_some hptrs').1, ← henv, List.length_map]
    refine ⟨halloc, by omega, by omega, ptrs ++ ptrs', q, ?_, ?_⟩
    · rw [List.length_append, hargc, henvc, ← readVector_both hptrs hptrs', hbytes,
        List.length_append, length_packHeader]
    · rw [List.map_append, hargv, henv]
  obtain ⟨halloc, hargc, henvc, -⟩ := hread []
  refine ⟨halloc, hargc, henvc, ?_⟩
  have hmissing := readVector_whole (fun beyond => by
    rw [hbytes, List.append_assoc, ← length_packHeader argv.length environ.length, List.drop_left])
    (List.take_append_drop (n - 12) _).symm fun beyond => (hread beyond).2.2.2
  rw [List.drop_eq_nil_iff] at hmissing
  rw [packetOf, List.length_append, length_packHeader]
  omega

/-- A packed job comes back exactly if it keeps to the limits of the parser and
its packet is received whole. -/
theorem roundTrips_iff_within_limits {realloc : ℕ → Bool} {argv environ : List Str}
    {packet : List UInt8} (hok : packJob realloc argv environ = .ok packet) (delivered : ℕ)
    (alloc : Bool) :
    RoundTrips argv environ (received packet delivered) alloc ↔
      alloc = true ∧ argv.length ≤ 64 ∧ environ.length ≤ 512 ∧
        packet.length ≤ receiveMax ∧ packet.length ≤ delivered := by
  obtain ⟨hne, hpacket⟩ := packJob_ok hok
  obtain rfl : packet = packetOf argv environ := hpacket
  constructor
  · intro h
    obtain ⟨halloc, hargc, henvc, hlen⟩ := whole_of_roundTrips h
    exact ⟨halloc, hargc, henvc, by omega, by omega⟩
  · rintro ⟨rfl, hargc, henvc, hmax, hdelivered⟩
    rw [received, List.take_of_length_le (by omega)]
    exact roundTrips_of_whole hne hargc henvc

/-- The empty string. -/
def emptyStr : Str := ⟨[], by simp⟩

/-- Two empty arguments and an empty environment entry come back. -/
theorem roundTrips_emptyStr :
    RoundTrips [emptyStr, emptyStr] [emptyStr]
      (received (packetOf [emptyStr, emptyStr] [emptyStr]) 15) true :=
  (roundTrips_iff_within_limits (packJob_unlimited (by decide)) 15 true).mpr (by decide)

/-- Sixty-five empty arguments are packed and delivered, and refused. -/
theorem manyArguments_not_roundTrips :
    packJob (fun _ => true) (List.replicate 65 emptyStr) [] =
        .ok (packetOf (List.replicate 65 emptyStr) []) ∧
      ¬ RoundTrips (List.replicate 65 emptyStr) []
        (received (packetOf (List.replicate 65 emptyStr) []) 77) true := by
  refine ⟨packJob_unlimited (by decide), fun h => ?_⟩
  have hargc := (whole_of_roundTrips h).2.1
  simp at hargc

end Faceplate.HostSession
