import Mathlib.Data.List.Basic
import Mathlib.Logic.Function.Basic
import Mathlib.Data.Int.Notation

/-!
# The event loop

File descriptor sources of `shl/eloop.c` and one round of `ev_eloop_dispatch`. A source
is an object in memory under its address, which `malloc` may give out again once it is
freed. A callback is the list of calls that it makes, with the answers of the kernel to
them. An access to freed memory, by the loop or by a callback, is recorded as a fault.
-/

namespace Faceplate.Shl

/-- The bits of an event mask of a source. -/
structure EvBits where
  readable : Bool
  writeable : Bool
  hup : Bool
  err : Bool
  et : Bool
  deriving DecidableEq, Repr

/-- The events that `epoll_wait` reports. -/
structure EpollEvents where
  epollin : Bool
  epollout : Bool
  epollerr : Bool
  epollhup : Bool
  deriving DecidableEq, Repr

/-- `convert_mask`. -/
def convertMask (events : EpollEvents) : EvBits where
  readable := events.epollin
  writeable := events.epollout
  hup := events.epollhup
  err := events.epollerr
  et := false

/-- `struct ev_fd`. A callback and its data are known by number, and so is a loop. -/
structure Source where
  ref : ℕ
  fd : ℕ
  mask : EvBits
  cb : Option ℕ
  data : ℕ
  enabled : Bool
  loop : Option ℕ
  deriving DecidableEq, Repr

/-- `data.ptr` of a cached event: the loop itself for its idle descriptor, or a source. -/
inductive Entry where
  | null
  | idle
  | source (a : ℕ)
  deriving DecidableEq, Repr

/-- A call of a callback. -/
structure Call where
  source : ℕ
  cb : ℕ
  mask : EvBits
  data : ℕ
  deriving DecidableEq, Repr

/-- The loop that is looked at here. -/
def thisLoop : ℕ := 0

/-- `struct ev_eloop` with the memory of the sources. `curFds` holds the first
`cur_fds_cnt` cached events. `calls` and `removed` record the callbacks that were called
in this round and the sources that were removed from this loop in it. -/
structure Loop where
  heap : ℕ → Option Source
  curFds : List (Entry × EpollEvents)
  curFdsSize : ℕ
  dispatching : Bool
  exit : Bool
  calls : List Call
  removed : List ℕ
  fault : Bool

namespace Loop

/-- Follow a pointer. -/
def access (loop : Loop) (a : ℕ) (f : Source → Loop) : Loop :=
  match loop.heap a with
  | none => { loop with fault := true }
  | some src => f src

/-- Write a source. -/
def put (loop : Loop) (a : ℕ) (src : Source) : Loop :=
  { loop with heap := Function.update loop.heap a (some src) }

/-- `free`. -/
def free (loop : Loop) (a : ℕ) : Loop := { loop with heap := Function.update loop.heap a none }

/-- `ev_fd_new`, in memory that `malloc` has returned. -/
def evFdNew (loop : Loop) (a fd : ℕ) (mask : EvBits) (cb : Option ℕ) (data : ℕ) : Loop :=
  loop.put a ⟨1, fd, mask, cb, data, true, none⟩

/-- `ev_fd_ref`. -/
def evFdRef (loop : Loop) (a : ℕ) : Loop :=
  loop.access a fun src => if src.ref = 0 then loop else loop.put a { src with ref := src.ref + 1 }

/-- `ev_fd_unref`. -/
def evFdUnref (loop : Loop) (a : ℕ) : Loop :=
  loop.access a fun src =>
    if src.ref = 0 then loop
    else if src.ref - 1 ≠ 0 then loop.put a { src with ref := src.ref - 1 }
    else loop.free a

/-- `ev_fd_enable`; `ok` is the answer of `epoll_ctl`, which is asked for a bound source. -/
def evFdEnable (loop : Loop) (a : ℕ) (ok : Bool) : Loop :=
  loop.access a fun src =>
    if src.enabled then loop
    else if src.loop.isSome && !ok then loop
    else loop.put a { src with enabled := true }

/-- `ev_fd_disable`. -/
def evFdDisable (loop : Loop) (a : ℕ) : Loop :=
  loop.access a fun src => if !src.enabled then loop else loop.put a { src with enabled := false }

/-- `ev_fd_update`. -/
def evFdUpdate (loop : Loop) (a : ℕ) (mask : EvBits) (ok : Bool) : Loop :=
  loop.access a fun src =>
    if src.mask = mask ∧ mask.et = false then loop
    else if src.enabled && src.loop.isSome && !ok then loop
    else loop.put a { src with mask := mask }

/-- `ev_fd_set_cb_data`. -/
def evFdSetCbData (loop : Loop) (a : ℕ) (cb : Option ℕ) (data : ℕ) : Loop :=
  loop.access a fun src => loop.put a { src with cb := cb, data := data }

/-- `ev_eloop_add_fd`, to any loop. -/
def evEloopAddFd (loop : Loop) (target a : ℕ) (ok : Bool) : Loop :=
  loop.access a fun src =>
    if src.loop.isSome then loop
    else if src.enabled && !ok then loop
    else (loop.put a { src with loop := some target }).evFdRef a

/-- Cached events of a source are dropped. -/
def clearEntry (a : ℕ) (event : Entry × EpollEvents) : Entry × EpollEvents :=
  if event.1 = .source a then (.null, event.2) else event

/-- `ev_eloop_rm_fd`, from any loop. -/
def evEloopRmFd (loop : Loop) (a : ℕ) : Loop :=
  loop.access a fun src =>
    match src.loop with
    | none => loop
    | some target =>
      let loop :=
        if target = thisLoop ∧ loop.dispatching = true then
          { loop with curFds := loop.curFds.map (clearEntry a), removed := a :: loop.removed }
        else loop
      (loop.put a { src with loop := none }).evFdUnref a

/-- `ev_eloop_new_fd`, in memory that `malloc` has returned. -/
def evEloopNewFd (loop : Loop) (target a fd : ℕ) (mask : EvBits) (cb : Option ℕ) (data : ℕ)
    (ok : Bool) : Loop :=
  ((loop.evFdNew a fd mask cb data).evEloopAddFd target a ok).evFdUnref a

end Loop

/-- A call that a callback makes. -/
inductive Op where
  | fdNew (a fd : ℕ) (mask : EvBits) (cb : Option ℕ) (data : ℕ)
  | newFd (target a fd : ℕ) (mask : EvBits) (cb : Option ℕ) (data : ℕ) (ok : Bool)
  | addFd (target a : ℕ) (ok : Bool)
  | rmFd (a : ℕ)
  | enable (a : ℕ) (ok : Bool)
  | disable (a : ℕ)
  | update (a : ℕ) (mask : EvBits) (ok : Bool)
  | setCbData (a : ℕ) (cb : Option ℕ) (data : ℕ)
  | ref (a : ℕ)
  | unref (a : ℕ)
  deriving DecidableEq, Repr

namespace Loop

/-- One call. -/
def apply (loop : Loop) : Op → Loop
  | .fdNew a fd mask cb data => loop.evFdNew a fd mask cb data
  | .newFd target a fd mask cb data ok => loop.evEloopNewFd target a fd mask cb data ok
  | .addFd target a ok => loop.evEloopAddFd target a ok
  | .rmFd a => loop.evEloopRmFd a
  | .enable a ok => loop.evFdEnable a ok
  | .disable a => loop.evFdDisable a
  | .update a mask ok => loop.evFdUpdate a mask ok
  | .setCbData a cb data => loop.evFdSetCbData a cb data
  | .ref a => loop.evFdRef a
  | .unref a => loop.evFdUnref a

/-- The calls of a callback. -/
def applyAll (loop : Loop) (ops : List Op) : Loop := ops.foldl apply loop

/-- The call that a ready source leads to, if it has a callback and is enabled. -/
def callOf (a : ℕ) (events : EpollEvents) (src : Source) : Option Call :=
  match src.cb with
  | none => none
  | some cb => if !src.enabled then none else some ⟨a, cb, convertMask events, src.data⟩

/-- One round of the loop of `ev_eloop_dispatch`, for the cached event `i`. `behave`
tells what the callback of each round does; for the loop itself these are its idlers. -/
def turn (behave : ℕ → List Op) (i : ℕ) (loop : Loop) : Loop :=
  match loop.curFds[i]? with
  | none => loop
  | some (.null, _) => loop
  | some (.idle, _) => loop.applyAll (behave i)
  | some (.source a, events) =>
    loop.access a fun src =>
      match callOf a events src with
      | none => loop
      | some call => { loop with calls := loop.calls ++ [call] }.applyAll (behave i)

/-- The first rounds of the loop. -/
def turns (behave : ℕ → List Op) : ℕ → Loop → Loop
  | 0, loop => loop
  | n + 1, loop => turn behave n (turns behave n loop)

/-- What `epoll_wait` returns. -/
inductive Wait where
  | events (batch : List (Entry × EpollEvents))
  | interrupted
  | failed (errno : ℤ)

/-- The cached events are replaced by a batch. -/
def beginBatch (loop : Loop) (batch : List (Entry × EpollEvents)) : Loop :=
  { loop with curFds := batch, calls := [], removed := [] }

/-- Up to `epoll_wait`; `pres` are the calls of the hook before it. -/
def prepare (pres : List Op) (loop : Loop) : Loop := { loop with dispatching := true }.applyAll pres

/-- A cache that was filled is doubled; `mem` says whether it can be reallocated. -/
def grow (mem : Bool) (count : ℕ) (loop : Loop) : Loop :=
  if count = loop.curFdsSize ∧ mem = true then { loop with curFdsSize := loop.curFdsSize * 2 }
  else loop

/-- `ev_eloop_dispatch`; `posts` are the calls of the hook behind it. -/
def evEloopDispatch (pres : List Op) (wait : Wait) (behave : ℕ → List Op) (mem : Bool)
    (posts : List Op) (loop : Loop) : ℤ × Loop :=
  if loop.exit then (-22, loop)
  else if loop.dispatching then (-95, loop)
  else
    let loop := loop.prepare pres
    let (ret, loop) :=
      match wait with
      | .interrupted => (0, loop)
      | .failed errno => (-errno, loop)
      | .events batch =>
        let batch := batch.take loop.curFdsSize
        (0, (turns behave batch.length (loop.beginBatch batch)).grow mem batch.length)
    (ret, { loop.applyAll posts with dispatching := false })

end Loop

end Faceplate.Shl
