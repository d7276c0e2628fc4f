import Faceplate.Lib.Dlist
import Faceplate.Lib.Walk

/-!
# Hooks

`shl/hook.h` keeps callbacks in a list and runs them in order. A callback may use the hook
that it is called from in any way: the hook has a saved position, which the removal of an
entry moves on, and a flag for a hook that is to be freed when the call is over. A program
is a sequence of actions; those between the start of a call and its end are what the
callbacks do, and with the action `ret` the one that runs returns. A hook is not NULL.
-/

namespace Faceplate.Shl

open Dlist

/-- `struct shl_hook`. The head of its list is the node that it is the data of. -/
structure ShlHook where
  num : UInt32
  curEntry : Option ℕ
  dead : Bool

/-- `struct shl_hook_entry`, with a serial number, which nothing reads: an address may be used
again. The callback 0 is NULL. -/
structure ShlHookEntry where
  cb : ℕ
  data : ℕ
  oneshot : Bool
  serial : ℕ

/-- What a list node is part of. -/
inductive HookData where
  | head (hook : ShlHook)
  | entry (entry : ShlHookEntry)

/-- An entry and its address. -/
abbrev HookCell := ℕ × ShlHookEntry

/-- The local variables of a `shl_hook_call` whose callback runs. -/
structure HookFrame where
  entry : ℕ
  oneshot : Bool

/-- The memory of a hook and its entries, and the calls that run, the innermost one first.
Nothing reads the rest: the number of entries made so far, what has happened to the list, how
often the hook has been asked to be freed, and how often it has been freed. -/
structure HookState where
  heap : Heap (Node HookData)
  running : List HookFrame
  allocated : ℕ
  log : List (Walk.Event HookCell)
  requests : ℕ
  frees : ℕ

section Model

/-- The hook at an address. -/
def HookState.hookAt (s : HookState) (hook : ℕ) : Option ShlHook := do
  match ← dataOf s.heap hook with
  | .head h => return h
  | .entry _ => none

/-- The entry at an address. -/
def HookState.entryAt (s : HookState) (a : ℕ) : Option ShlHookEntry := do
  match ← dataOf s.heap a with
  | .head _ => none
  | .entry entry => return entry

/-- Write the fields of a hook. -/
def HookState.setHook (s : HookState) (hook : ℕ) (h : ShlHook) : Option HookState :=
  (setData s.heap hook (.head h)).map fun heap => { s with heap := heap }

variable (malloc : Malloc) (hook : ℕ)

/-- `shl_hook_new`, in memory that is empty. -/
def shlHookNew : Option (ℕ × HookState) :=
  (malloc.addr []).map fun a =>
    (a, ⟨AList.singleton a ⟨some a, some a, .head ⟨0, none, false⟩⟩, [], 0, [], 0, 0⟩)

/-- The loop of `shl_hook_free`. -/
def shlHookFreeLoop : ℕ → Heap (Node HookData) → Option (Heap (Node HookData))
  | 0, _ => none
  | fuel + 1, heap => do
    let next ← nextOf heap hook
    if next = hook then return heap
    else
      let last ← prevOf heap hook
      let heap ← unlink heap last
      let heap ← heap.free last
      shlHookFreeLoop fuel heap

/-- `shl_hook_free`. -/
def shlHookFree (s : HookState) : Option HookState := do
  let h ← s.hookAt hook
  if h.curEntry.isSome then s.setHook hook { h with dead := true }
  else
    let heap ← shlHookFreeLoop hook s.heap.keys.length s.heap
    let heap ← heap.free hook
    return { s with heap := heap, frees := s.frees + 1 }

/-- `shl_hook_num`. -/
def shlHookNum (s : HookState) : Option UInt32 := (s.hookAt hook).map ShlHook.num

/-- `shl_hook_add`; it is `-EINVAL` without a callback and `-ENOMEM` without memory. -/
def shlHookAdd (cb data : ℕ) (oneshot : Bool) (s : HookState) : Option (ℤ × HookState) :=
  if cb = 0 then some (-22, s)
  else
    match malloc.addr s.heap.keys with
    | none => some (-12, s)
    | some a => do
      let entry : ShlHookEntry := ⟨cb, data, oneshot, s.allocated⟩
      let heap ← linkTail (s.heap.insert a ⟨none, none, .entry entry⟩) hook a
      let s := { s with
        heap := heap, allocated := s.allocated + 1
        log := s.log ++ [Walk.Event.insert (a, entry)] }
      let h ← s.hookAt hook
      let s ← s.setHook hook { h with num := h.num + 1 }
      return (0, s)

/-- An entry has this callback and this data. -/
def ShlHookEntry.Is (entry : ShlHookEntry) (cb data : ℕ) : Prop :=
  entry.cb = cb ∧ entry.data = data

instance (entry : ShlHookEntry) (cb data : ℕ) : Decidable (entry.Is cb data) :=
  inferInstanceAs (Decidable (_ ∧ _))

/-- The first entry from `start` on that has this callback and this data, in the direction of
a pointer. -/
def HookState.find (s : HookState) (along : ℕ → Option ℕ) (cb data start : ℕ) :
    Option (Option ℕ) :=
  seek along (fun a => (s.entryAt a).map fun entry => decide (entry.Is cb data)) hook
    s.heap.keys.length start

/-- `shl_hook_add_single`. -/
def shlHookAddSingle (cb data : ℕ) (oneshot : Bool) (s : HookState) :
    Option (ℤ × HookState) :=
  if cb = 0 then some (-22, s)
  else do
    let first ← nextOf s.heap hook
    match ← s.find hook (nextOf s.heap) cb data first with
    | some _ => return (0, s)
    | none => shlHookAdd malloc hook cb data oneshot s

/-- The position moves on from an entry that is to be removed. -/
def ShlHook.leave (h : ShlHook) (heap : Heap (Node HookData)) (iter : ℕ) : Option ShlHook :=
  if h.curEntry = some iter then
    (nextOf heap iter).map fun next => { h with curEntry := some next }
  else some h

/-- What `shl_hook_rm` and `shl_hook_rm_all` do with an entry that is to be removed. -/
def hookRemove (iter : ℕ) (entry : ShlHookEntry) (s : HookState) : Option HookState := do
  let h ← s.hookAt hook
  let h ← h.leave s.heap iter
  let s ← s.setHook hook h
  let heap ← unlink s.heap iter
  let heap ← heap.free iter
  let s := { s with heap := heap, log := s.log ++ [Walk.Event.remove (iter, entry)] }
  let h ← s.hookAt hook
  s.setHook hook { h with num := h.num - 1 }

/-- `shl_hook_rm`. -/
def shlHookRm (cb data : ℕ) (s : HookState) : Option HookState :=
  if cb = 0 then some s
  else do
    let last ← prevOf s.heap hook
    match ← s.find hook (prevOf s.heap) cb data last with
    | none => return s
    | some iter => do
      let entry ← s.entryAt iter
      hookRemove hook iter entry s

/-- The loop of `shl_hook_rm_all`. -/
def shlHookRmAllLoop (cb data : ℕ) : ℕ → ℕ → ℕ → HookState → Option HookState
  | 0, _, _, _ => none
  | fuel + 1, iter, tmp, s =>
    if iter = hook then some s
    else do
      let entry ← s.entryAt iter
      let s ← if entry.Is cb data then hookRemove hook iter entry s else some s
      let prev ← prevOf s.heap tmp
      shlHookRmAllLoop cb data fuel tmp prev s

/-- `shl_hook_rm_all`. -/
def shlHookRmAll (cb data : ℕ) (s : HookState) : Option HookState :=
  if cb = 0 then some s
  else do
    let iter ← prevOf s.heap hook
    let tmp ← prevOf s.heap iter
    shlHookRmAllLoop hook cb data s.heap.keys.length iter tmp s

/-- The loop of `shl_hook_call`, from its condition to the next callback or to the end of the
function. -/
def shlHookCallLoop (s : HookState) : Option HookState := do
  let h ← s.hookAt hook
  let cur ← h.curEntry
  if cur = hook then
    let s ← s.setHook hook { h with curEntry := none }
    if h.dead then shlHookFree hook s else return s
  else
    let entry ← s.entryAt cur
    let next ← nextOf s.heap cur
    let s ← s.setHook hook { h with curEntry := some next }
    let heap ← if entry.oneshot then unlink s.heap cur else some s.heap
    return { s with
      heap := heap, running := ⟨cur, entry.oneshot⟩ :: s.running
      log := s.log ++ [Walk.Event.visit (cur, entry)] }

/-- `shl_hook_call`, up to the first callback. -/
def shlHookCall (s : HookState) : Option HookState := do
  let h ← s.hookAt hook
  if h.curEntry.isSome then return s
  else
    let first ← nextOf s.heap hook
    let s ← s.setHook hook { h with curEntry := some first }
    shlHookCallLoop hook s

/-- `shl_hook_call`, when a callback has returned. -/
def shlHookReturn (s : HookState) : Option HookState :=
  match s.running with
  | [] => some s
  | frame :: running =>
    let s := { s with running := running }
    if frame.oneshot then do
      let heap ← s.heap.free frame.entry
      let s := { s with heap := heap }
      let h ← s.hookAt hook
      let s ← s.setHook hook { h with num := h.num - 1 }
      shlHookCallLoop hook s
    else shlHookCallLoop hook s

/-! ## Programs -/

/-- What a program or a callback does. -/
inductive HookAct where
  | add (cb data : ℕ) (oneshot : Bool)
  | addSingle (cb data : ℕ) (oneshot : Bool)
  | rm (cb data : ℕ)
  | rmAll (cb data : ℕ)
  | call
  | free
  | ret
  deriving DecidableEq

/-- The action may add an entry. -/
def HookAct.adds : HookAct → Bool
  | add .. => true
  | addSingle .. => true
  | _ => false

/-- One action. Where no callback runs there is none to return. -/
def HookState.act (s : HookState) : HookAct → Option HookState
  | .add cb data oneshot => (shlHookAdd malloc hook cb data oneshot s).map Prod.snd
  | .addSingle cb data oneshot => (shlHookAddSingle malloc hook cb data oneshot s).map Prod.snd
  | .rm cb data => shlHookRm hook cb data s
  | .rmAll cb data => shlHookRmAll hook cb data s
  | .call => shlHookCall hook s
  | .free => shlHookFree hook { s with requests := s.requests + 1 }
  | .ret => shlHookReturn hook s

/-- Actions, as long as something holds. -/
def HookState.runWhile (going : HookState → Bool) : List HookAct → HookState → Option HookState
  | [], s => some s
  | act :: acts, s =>
    if going s then (s.act malloc hook act).bind (runWhile going acts) else some s

/-- A program that uses a hook until it has been freed. -/
def HookState.run (acts : List HookAct) (s : HookState) : Option HookState :=
  s.runWhile malloc hook (fun s => decide (hook ∈ s.heap)) acts

/-- What callbacks do until the call is over. -/
def HookState.during (acts : List HookAct) (s : HookState) : Option HookState :=
  s.runWhile malloc hook (fun s => !s.running.isEmpty) acts

end Model

end Faceplate.Shl
