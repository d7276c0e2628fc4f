import Faceplate.Lib.CString

/-!
# The host-session packet

`misc/host_session.c` receives one packet: a header of three little-endian
words, then `argc + envc` strings, each with its NUL. The parser works in place,
so a vector entry is the offset of its string in the receive buffer. Every
function that reads the buffer also returns the offsets it read, in order.
-/

namespace Faceplate.HostSession

open CString

/-- `FACEPLATE_HOST_LOGIN_MAGIC`. -/
def hostLoginMagic : ℕ := 0x314c5046

/-- The errors of the parser: `-EINVAL` and `-ENOMEM`. -/
inductive Errno where
  | inval
  | nomem
  deriving DecidableEq, Repr

/-- The byte at an offset. What lies behind the modelled memory reads as NUL. -/
def byteAt (mem : List UInt8) (i : ℕ) : UInt8 := mem.getD i 0

/-- `memcpy` of a `uint32_t` out of the buffer. -/
def word32 (mem : List UInt8) (i : ℕ) : ℕ :=
  (byteAt mem i).toNat + 2 ^ 8 * (byteAt mem (i + 1)).toNat +
    2 ^ 16 * (byteAt mem (i + 2)).toNat + 2 ^ 24 * (byteAt mem (i + 3)).toNat

/-- The result of `unpack_job`: the two vectors as allocated, with `none` for the
terminating `NULL`. -/
structure Job where
  argv : List (Option ℕ)
  env : List (Option ℕ)
  deriving DecidableEq, Repr

/-- A loop of `unpack_job` over one vector: `count` strings from offset `p` on,
none of which may start at or behind `stop`. Returns the entries and the offset
behind the last string. -/
def readVector (mem : List UInt8) (stop : ℕ) : ℕ → ℕ → Option (List ℕ × ℕ) × List ℕ
  | 0, p => (some ([], p), [])
  | count + 1, p =>
    if stop ≤ p then (none, [])
    else
      let n := strlen (mem.drop p)
      let (rest, reads) := readVector mem stop count (p + n + 1)
      (rest.map fun (ptrs, q) => (p :: ptrs, q), List.range' p (n + 1) ++ reads)

/-- A vector of `calloc(n + 1, ..)` whose first `n` entries have been stored. -/
def nullTerminated (ptrs : List ℕ) : List (Option ℕ) := ptrs.map some ++ [none]

/-- The header check of `unpack_job`. -/
def headerOk (mem : List UInt8) : Bool :=
  word32 mem 0 = hostLoginMagic ∧ word32 mem 4 ≠ 0 ∧ word32 mem 4 ≤ 64 ∧ word32 mem 8 ≤ 512

/-- `unpack_job`; `alloc` tells whether both vectors could be allocated. -/
def unpackJob (mem : List UInt8) (len : ℕ) (alloc : Bool) : Except Errno Job × List ℕ :=
  if len < 12 then (.error .inval, [])
  else
    let header := List.range' 0 12
    if !headerOk mem then (.error .inval, header)
    else if !alloc then (.error .nomem, header)
    else
      match readVector mem len (word32 mem 4) 12 with
      | (none, reads) => (.error .inval, header ++ reads)
      | (some (argv, p), reads) =>
        match readVector mem len (word32 mem 8) p with
        | (none, reads') => (.error .inval, header ++ reads ++ reads')
        | (some (env, _), reads') =>
          (.ok ⟨nullTerminated argv, nullTerminated env⟩, header ++ reads ++ reads')

/-- `strncmp` of the string at `p` with a literal of that length: reading stops
behind the first byte that differs. -/
def hasPrefix (mem : List UInt8) : List UInt8 → ℕ → Bool × List ℕ
  | [], _ => (true, [])
  | c :: rest, p =>
    if byteAt mem p = c then
      let (found, reads) := hasPrefix mem rest (p + 1)
      (found, p :: reads)
    else (false, [p])

/-- The search of `sanitized_term` for the first `TERM=` entry. -/
def findTerm (mem : List UInt8) : List (Option ℕ) → Option ℕ × List ℕ
  | [] | none :: _ => (none, [])
  | some p :: rest =>
    let (found, reads) := hasPrefix mem (lit "TERM=") p
    if found then (some (p + 5), reads)
    else
      let (value, reads') := findTerm mem rest
      (value, reads ++ reads')

/-- The characters `sanitized_term` lets through. -/
def termChar (c : UInt8) : Bool :=
  (0x41 ≤ c && c ≤ 0x5a) || (0x61 ≤ c && c ≤ 0x7a) || (0x30 ≤ c && c ≤ 0x39) ||
    c == 0x2e || c == 0x2d || c == 0x5f

/-- The value used when the environment has no acceptable one. -/
def defaultTerm : List UInt8 := lit "vt220"

/-- The check loop over the characters of `v`: whether all pass, and how many are
read, the NUL included. -/
def checkTerm : List UInt8 → Bool × ℕ
  | [] => (true, 1)
  | c :: rest =>
    if termChar c then
      let (ok, n) := checkTerm rest
      (ok, n + 1)
    else (false, 1)

/-- `sanitized_term`: the text of the buffer and the offsets read. -/
def sanitizedTerm (mem : List UInt8) (env : List (Option ℕ)) : List UInt8 × List ℕ :=
  let (found, reads) := findTerm mem env
  match found with
  | none => (lit "TERM=" ++ defaultTerm, reads)
  | some p =>
    let v := cstr (mem.drop p)
    let measured := List.range' p (v.length + 1)
    if v.length < 1 ∨ 32 < v.length then (lit "TERM=" ++ defaultTerm, reads ++ measured)
    else
      let (ok, n) := checkTerm v
      let checked := List.range' p n
      if ok then (lit "TERM=" ++ v, reads ++ measured ++ checked ++ measured)
      else (lit "TERM=" ++ defaultTerm, reads ++ measured ++ checked)

end Faceplate.HostSession
