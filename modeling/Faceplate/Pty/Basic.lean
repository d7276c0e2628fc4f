import Mathlib.Data.Int.Notation
import Faceplate.Shl.Ring

/-!
# The pseudo terminal `kmscon_pty`

The master side of a login session, from `misc/pty.c`: the write ring, the mask
its fd is registered with, and the respawn counter. What the kernel answers is an
argument: the result of each `write`, the pid of the forked child, the clock.
Every function returns the new object together with the bytes it handed to the
kernel. The byte type is arbitrary, since no function looks at a byte.
-/

namespace Faceplate

variable {α : Type*}

/-- `MAX_RETRY_TIME`, in seconds. -/
def maxRetryTime : ℤ := 2

/-- `MAX_RETRY_COUNT`. -/
def maxRetryCount : ℕ := 5

/-- The limit of `read_buf` on reads in one call. -/
def readBufSteps : ℕ := 50

/-- `-EINVAL`. -/
def einval : ℤ := -22

/-- `-EALREADY`. -/
def ealready : ℤ := -114

/-- The event mask of a registered fd. -/
structure EvMask where
  readable : Bool
  writeable : Bool
  et : Bool
  deriving DecidableEq, Repr

namespace EvMask

/-- `EV_READABLE | EV_ET`. -/
def read : EvMask := ⟨true, false, true⟩

/-- `EV_READABLE | EV_WRITEABLE | EV_ET`. -/
def readWrite : EvMask := ⟨true, true, true⟩

end EvMask

/-- What `write` on the master returns: a number of bytes, `EWOULDBLOCK`, or
another error. -/
inductive WriteResult where
  | accepted (n : ℕ)
  | wouldBlock
  | failed
  deriving DecidableEq, Repr

/-- One call of `kmscon_pty_write`: its bytes, the kernel's answer if the call
gets to ask, and the number of ring entries that can still be allocated. -/
structure WriteCall (α : Type*) where
  u8 : List α
  result : WriteResult
  mem : ℕ

/-- `struct kmscon_pty`. `fd` is `none` for `-1` and `efd` is `none` for `NULL`. -/
structure Pty (α : Type*) where
  fd : Option ℕ
  child : ℕ
  efd : Option EvMask
  msgbuf : Ring α
  oneshot : Bool
  lastSpawnTime : ℤ
  retryCount : ℕ

namespace Pty

/-- `kmscon_pty_new` at time `now`, followed by the `oneshot` argument of
`kmscon_pty_set_conf`. -/
def new (oneshot : Bool) (now : ℤ) : Pty α where
  fd := none
  child := 0
  efd := none
  msgbuf := Ring.new
  oneshot := oneshot
  lastSpawnTime := now
  retryCount := 0

/-- `pty_is_open`. -/
def isOpen (pty : Pty α) : Bool := pty.fd.isSome

/-- `ev_fd_update` on the source of the master; there is nothing to update
without one. -/
def evFdUpdate (pty : Pty α) (mask : EvMask) : Pty α :=
  { pty with efd := pty.efd.map fun _ => mask }

/-- `kmscon_pty_open`. `spawned` holds the master and the pid of the child when
every step up to the `fork` succeeds; a failing step undoes the earlier ones. -/
def kmsconPtyOpen (pty : Pty α) (spawned : Option (ℕ × ℕ)) (err : ℤ) : ℤ × Pty α :=
  if pty.isOpen then (ealready, pty)
  else
    match spawned with
    | none => (err, { pty with efd := none })
    | some (master, pid) =>
      (0, { pty with fd := some master, child := pid, efd := some EvMask.read })

/-- `kmscon_pty_close`. -/
def kmsconPtyClose (pty : Pty α) : Pty α :=
  if pty.isOpen then { pty with efd := none, fd := none } else pty

/-- The `buf:` label of `kmscon_pty_write`. -/
def buffer (pty : Pty α) (mem : ℕ) (u8 : List α) : Pty α :=
  { pty with msgbuf := (pty.msgbuf.write mem u8).2 }

/-- `kmscon_pty_write`. Bytes that already wait go first, so a non-empty ring
sends the new ones straight to its end, without a change of the mask. -/
def kmsconPtyWrite (pty : Pty α) (call : WriteCall α) : ℤ × Pty α × List α :=
  if !pty.isOpen || call.u8.isEmpty then (einval, pty, [])
  else if !pty.msgbuf.isEmpty then (0, pty.buffer call.mem call.u8, [])
  else
    match call.result with
    | .failed => (-1, pty, [])
    | .wouldBlock => (0, (pty.evFdUpdate EvMask.readWrite).buffer call.mem call.u8, [])
    | .accepted n =>
      if call.u8.length ≤ n then (0, pty, call.u8)
      else
        (0, (pty.evFdUpdate EvMask.readWrite).buffer call.mem (call.u8.drop n), call.u8.take n)

/-- `send_buf`, one list element for each answer of the kernel; a `write` past
the end of the list would block. The caller ignores the result code. -/
def sendBuf : List WriteResult → Pty α → Pty α × List α
  | results, pty =>
    match pty.msgbuf.peek 0, results with
    | none, _ => (pty.evFdUpdate EvMask.read, [])
    | some _, [] => (pty, [])
    | some buf, .accepted n :: rest =>
      let ret := min n buf.length
      if ret = 0 then (pty, [])
      else
        let out := sendBuf rest { pty with msgbuf := pty.msgbuf.drop ret }
        (out.1, buf.take ret ++ out.2)
    | some _, .wouldBlock :: _ => (pty, [])
    | some _, .failed :: _ => (pty, [])

/-- The writes an input callback makes while it handles one chunk. -/
def inputCb : List (WriteCall α) → Pty α → Pty α × List α
  | [], pty => (pty, [])
  | call :: rest, pty =>
    let (_, pty, sent) := pty.kmsconPtyWrite call
    let out := inputCb rest pty
    (out.1, sent ++ out.2)

/-- The loop of `read_buf`. Each element is one successful `read` with the writes
of its callback; the list ends where a `read` returns no data. The flag says
that the loop has used up all its steps. -/
def readLoop : ℕ → List (List (WriteCall α)) → Pty α → Bool × Pty α × List α
  | 0, _, pty => (true, pty, [])
  | _ + 1, [], pty => (false, pty, [])
  | num + 1, calls :: rest, pty =>
    let (pty, sent) := inputCb calls pty
    let out := readLoop num rest pty
    (out.1, out.2.1, sent ++ out.2.2)

/-- `read_buf`. -/
def readBuf (reads : List (List (WriteCall α))) (pty : Pty α) : Pty α × List α :=
  let (busy, pty, sent) := readLoop readBufSteps reads pty
  if busy then
    (pty.evFdUpdate (if pty.msgbuf.isEmpty then EvMask.read else EvMask.readWrite), sent)
  else (pty, sent)

/-- `pty_input` for the readiness bits that do something. -/
def ptyInput (pty : Pty α) (writeable readable : Bool) (results : List WriteResult)
    (reads : List (List (WriteCall α))) : Pty α × List α :=
  let (pty, sent) := if writeable then sendBuf results pty else (pty, [])
  let (pty, sent') := if readable then readBuf reads pty else (pty, [])
  (pty, sent ++ sent')

/-- `sig_child` at time `now`, with the restart flag of the exit callback if it
is called. The callback is the last thing the handler does. -/
def sigChild (pty : Pty α) (pid : ℕ) (now : ℤ) : Option Bool × Pty α :=
  if pid ≠ pty.child then (none, pty)
  else if pty.retryCount = maxRetryCount then (some false, pty)
  else if pty.oneshot then (some false, pty)
  else if now - pty.lastSpawnTime < maxRetryTime then
    (some true, { pty with retryCount := pty.retryCount + 1, lastSpawnTime := now })
  else (some true, { pty with retryCount := 0 })

end Pty

end Faceplate
