import Faceplate.HostSession.Bounds

/-!
# Packing and receiving a job

The client's side of `misc/host_session.c`: the strings of the two vectors are
appended to a growing buffer, and the header is moved in front of them at the
end. The packet has no limit of its own; the receiver reads once, into 65536
bytes. A vector that is `NULL` counts as empty, for `argv` as for `environ`.
-/

namespace Faceplate.HostSession

open CString

/-- The heap buffer of `pack_job`: what has been written, within its size. -/
structure Buffer where
  bytes : List UInt8
  cap : ℕ
  fits : bytes.length ≤ cap

/-- The loop of `append_cstr` that doubles the size until `need` bytes fit. -/
def growCap (need ncap : ℕ) : ℕ :=
  if 0 < ncap ∧ ncap < need then growCap need (2 * ncap) else ncap
termination_by need - ncap

theorem growCap_ge {need ncap : ℕ} (hpos : 0 < ncap) : need ≤ growCap need ncap := by
  induction ncap using growCap.induct need with
  | case1 ncap hlt ih =>
    rw [growCap, if_pos hlt]
    exact ih (by omega)
  | case2 ncap hge =>
    rw [growCap, if_neg hge]
    omega

/-- The size `append_cstr` starts doubling from. -/
def startCap (cap : ℕ) : ℕ := if cap = 0 then 256 else cap

theorem startCap_pos (cap : ℕ) : 0 < startCap cap := by
  unfold startCap
  split_ifs <;> omega

/-- `append_cstr`; `realloc` tells which sizes can be had. -/
def appendCstr (realloc : ℕ → Bool) (buf : Buffer) (s : Str) : Except Errno Buffer :=
  let need := buf.bytes.length + s.terminated.length
  if h : need ≤ buf.cap then
    .ok ⟨buf.bytes ++ s.terminated, buf.cap, List.length_append ▸ h⟩
  else if realloc (growCap need (startCap buf.cap)) then
    .ok ⟨buf.bytes ++ s.terminated, growCap need (startCap buf.cap),
      List.length_append ▸ growCap_ge (startCap_pos buf.cap)⟩
  else .error .nomem

/-- The loops of `pack_job` over its vectors. -/
def appendAll (realloc : ℕ → Bool) : Buffer → List Str → Except Errno Buffer
  | buf, [] => .ok buf
  | buf, s :: rest =>
    match appendCstr realloc buf s with
    | .error e => .error e
    | .ok buf => appendAll realloc buf rest

/-- `memcpy` of a `uint32_t` into the buffer. -/
def bytes32 (n : ℕ) : List UInt8 :=
  [n.toUInt8, (n / 2 ^ 8).toUInt8, (n / 2 ^ 16).toUInt8, (n / 2 ^ 24).toUInt8]

/-- The header of `pack_job`. Its counters have 32 bits. -/
def packHeader (argc envc : ℕ) : List UInt8 :=
  bytes32 hostLoginMagic ++ bytes32 (argc % 2 ^ 32) ++ bytes32 (envc % 2 ^ 32)

/-- `pack_job`: the packet, or the error. -/
def packJob (realloc : ℕ → Bool) (argv environ : List Str) : Except Errno (List UInt8) :=
  if argv.isEmpty then .error .inval
  else
    match appendAll realloc ⟨[], 0, Nat.zero_le 0⟩ argv with
    | .error e => .error e
    | .ok buf =>
      match appendAll realloc buf environ with
      | .error e => .error e
      | .ok buf =>
        if 12 + buf.bytes.length ≤ buf.cap ∨ realloc (12 + buf.bytes.length) then
          .ok (packHeader argv.length environ.length ++ buf.bytes)
        else .error .nomem

/-- The size of the buffer in `faceplate_host_session_serve_one`. -/
def receiveMax : ℕ := 65536

/-- What `recv_fd` stores of a packet of which the socket delivers `delivered`
bytes to one `recvmsg`. -/
def received (packet : List UInt8) (delivered : ℕ) : List UInt8 :=
  packet.take (min delivered receiveMax)

theorem appendCstr_ok {realloc : ℕ → Bool} {buf buf' : Buffer} {s : Str}
    (hok : appendCstr realloc buf s = .ok buf') : buf'.bytes = buf.bytes ++ s.terminated := by
  unfold appendCstr at hok
  simp only at hok
  split_ifs at hok
  · rw [← Except.ok.inj hok]
  · rw [← Except.ok.inj hok]

theorem appendAll_ok {realloc : ℕ → Bool} {buf buf' : Buffer} {ss : List Str}
    (hok : appendAll realloc buf ss = .ok buf') :
    buf'.bytes = buf.bytes ++ ss.flatMap Str.terminated := by
  induction ss generalizing buf with
  | nil =>
    rw [← Except.ok.inj hok]
    simp
  | cons s rest ih =>
    unfold appendAll at hok
    cases hs : appendCstr realloc buf s with
    | error e => simp [hs] at hok
    | ok mid =>
      rw [hs] at hok
      rw [ih hok, appendCstr_ok hs, List.flatMap_cons, List.append_assoc]

/-- A packed job is its header and its strings, each with its NUL. -/
theorem packJob_ok {realloc : ℕ → Bool} {argv environ : List Str} {packet : List UInt8}
    (hok : packJob realloc argv environ = .ok packet) :
    argv ≠ [] ∧ packet = packHeader argv.length environ.length ++
      (argv ++ environ).flatMap Str.terminated := by
  unfold packJob at hok
  split_ifs at hok with hempty
  have hne : argv ≠ [] := by
    simpa using hempty
  refine ⟨hne, ?_⟩
  cases hargv : appendAll realloc ⟨[], 0, Nat.zero_le 0⟩ argv with
  | error e => simp [hargv] at hok
  | ok mid =>
    cases henv : appendAll realloc mid environ with
    | error e => simp [hargv, henv] at hok
    | ok buf =>
      simp only [hargv, henv] at hok
      split_ifs at hok
      rw [← Except.ok.inj hok, appendAll_ok henv, appendAll_ok hargv, List.nil_append,
        List.flatMap_append]

/-- With enough memory every job can be packed: no limit applies. -/
theorem packJob_unlimited {argv environ : List Str} (hne : argv ≠ []) :
    packJob (fun _ => true) argv environ = .ok (packHeader argv.length environ.length ++
      (argv ++ environ).flatMap Str.terminated) := by
  have happend : ∀ buf s, ∃ buf', appendCstr (fun _ => true) buf s = .ok buf' := by
    intro buf s
    unfold appendCstr
    simp only [if_true]
    split_ifs
    · exact ⟨_, rfl⟩
    · exact ⟨_, rfl⟩
  have hall : ∀ ss buf, ∃ buf', appendAll (fun _ => true) buf ss = .ok buf' := by
    intro ss
    induction ss with
    | nil => exact fun buf => ⟨buf, rfl⟩
    | cons s rest ih =>
      intro buf
      obtain ⟨mid, hmid⟩ := happend buf s
      obtain ⟨last, hlast⟩ := ih mid
      exact ⟨last, by simp only [appendAll, hmid, hlast]⟩
  obtain ⟨mid, hmid⟩ := hall argv ⟨[], 0, Nat.zero_le 0⟩
  obtain ⟨buf, hbuf⟩ := hall environ mid
  have hok : packJob (fun _ => true) argv environ =
      .ok (packHeader argv.length environ.length ++ buf.bytes) := by
    simp [packJob, hne, hmid, hbuf]
  rw [hok, (packJob_ok hok).2]

theorem length_packHeader (argc envc : ℕ) : (packHeader argc envc).length = 12 := rfl

/-- A word that was stored is read back. -/
theorem word32_bytes32 {n : ℕ} (hn : n < 2 ^ 32) (mem rest : List UInt8) (i : ℕ)
    (h : mem.drop i = bytes32 n ++ rest) : word32 mem i = n := by
  have hbyte : ∀ k, byteAt mem (i + k) = (bytes32 n ++ rest).getD k 0 := by
    intro k
    rw [← h, List.getD_eq_getElem?_getD, List.getElem?_drop]
    rfl
  have h0 := hbyte 0
  simp only [word32, Nat.add_zero] at h0 ⊢
  rw [h0, hbyte 1, hbyte 2, hbyte 3]
  simp only [bytes32, List.cons_append, List.getD_cons_zero, List.getD_cons_succ, Nat.toUInt8,
    UInt8.toNat_ofNat']
  omega

end Faceplate.HostSession
