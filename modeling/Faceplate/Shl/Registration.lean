import Faceplate.Lib.Claims
import Faceplate.Lib.Runs
import Faceplate.Shl.Dispatch

/-!
# Sources and the epoll set

A source that is bound to a loop and enabled is registered in the epoll set of the loop,
under its descriptor and with its mask. The operations on sources keep this up with
`epoll_ctl`, which may fail, and they undo what they have written when it does. Other
sources with the same descriptor get in the way: the kernel does not register it twice.
-/

namespace Faceplate.Shl

open Claims Function Runs

/-- The events in `struct epoll_event`, as they are registered. -/
structure EpollInterest where
  epollin : Bool
  epollout : Bool
  epollet : Bool
  deriving DecidableEq, Repr

/-- The events that a mask stands for. -/
def interest (mask : EvBits) : EpollInterest := ⟨mask.readable, mask.writeable, mask.et⟩

/-- The epoll sets of the loops: what is registered for a loop and a descriptor, with
`data.ptr`. -/
abbrev EpollSets : Type := ℕ × ℕ → Option (ℕ × EpollInterest)

/-- The sources, and the kernel's side of them. -/
structure Epoll where
  loop : Loop
  sets : EpollSets

/-! ## The system call -/

section Ctl

variable (sets : EpollSets) (a : ℕ) (src : Source) (ok : Bool)

/-- `fd_epoll_add`. `EPOLL_CTL_ADD` fails for a descriptor that is registered; otherwise it
succeeds if `ok` says so. -/
def fdEpollAdd : Bool × EpollSets :=
  match src.loop with
  | none => (true, sets)
  | some l =>
    if ok && (sets (l, src.fd)).isNone then
      (true, update sets (l, src.fd) (some (a, interest src.mask)))
    else (false, sets)

/-- `fd_epoll_remove`, with `EPOLL_CTL_DEL`. -/
def fdEpollRemove : EpollSets :=
  match src.loop with
  | none => sets
  | some l => update sets (l, src.fd) none

/-- `fd_epoll_update`. `EPOLL_CTL_MOD` fails for a descriptor that is not registered;
otherwise it succeeds if `ok` says so. -/
def fdEpollUpdate : Bool × EpollSets :=
  match src.loop with
  | none => (true, sets)
  | some l =>
    if ok && (sets (l, src.fd)).isSome then
      (true, update sets (l, src.fd) (some (a, interest src.mask)))
    else (false, sets)

end Ctl

/-! ## The operations -/

namespace Epoll

/-- Look at a source. -/
def look {τ : Type} (ep : Epoll) (a : ℕ) (absent : τ) (f : Source → τ) : τ :=
  match ep.loop.heap a with
  | none => absent
  | some src => f src

/-- What an operation asks of `epoll_ctl`: the answer, which is good if there is nothing to
ask, and the sets behind it. -/
def ctl (ep : Epoll) : Op → Bool × EpollSets
  | .newFd target a fd mask cb data ok =>
    fdEpollAdd ep.sets a ⟨1, fd, mask, cb, data, true, some target⟩ ok
  | .addFd target a ok => ep.look a (true, ep.sets) fun src =>
    if src.loop.isSome || !src.enabled then (true, ep.sets)
    else fdEpollAdd ep.sets a { src with loop := some target } ok
  | .rmFd a => ep.look a (true, ep.sets) fun src =>
    (true, if src.enabled then fdEpollRemove ep.sets src else ep.sets)
  | .enable a ok => ep.look a (true, ep.sets) fun src =>
    if src.enabled then (true, ep.sets) else fdEpollAdd ep.sets a src ok
  | .disable a => ep.look a (true, ep.sets) fun src =>
    (true, if src.enabled then fdEpollRemove ep.sets src else ep.sets)
  | .update a mask ok => ep.look a (true, ep.sets) fun src =>
    if src.mask = mask ∧ mask.et = false ∨ !src.enabled then (true, ep.sets)
    else fdEpollUpdate ep.sets a { src with mask := mask } ok
  | .fdNew .. | .setCbData .. | .ref _ | .unref _ => (true, ep.sets)

end Epoll

/-- An operation with the answer of the kernel. -/
def Op.answered (op : Op) (ok : Bool) : Op :=
  match op with
  | .newFd target a fd mask cb data _ => .newFd target a fd mask cb data ok
  | .addFd target a _ => .addFd target a ok
  | .enable a _ => .enable a ok
  | .update a mask _ => .update a mask ok
  | op => op

namespace Epoll

/-- One operation, on the sources and on the sets. -/
def step (ep : Epoll) (op : Op) : Epoll :=
  ⟨ep.loop.apply (op.answered (ep.ctl op).1), (ep.ctl op).2⟩

/-- What the operation returns: `-EINVAL` for a source that is bound already, and `-EFAULT`
if `epoll_ctl` fails. -/
def ret (ep : Epoll) (op : Op) : ℤ :=
  let bound :=
    match op with
    | .addFd _ a _ => ep.look a false fun src => src.loop.isSome
    | _ => false
  if bound then -22 else if (ep.ctl op).1 then 0 else -14

/-- There is no source yet, and nothing is registered. -/
def start (loop : Loop) : Epoll := ⟨{ loop with heap := fun _ => none }, fun _ => none⟩

end Epoll

/-! ## What sources claim -/

/-- What a source has registered. -/
def Source.claim (src : Source) : Option ((ℕ × ℕ) × EpollInterest) :=
  if src.enabled then src.loop.map fun l => ((l, src.fd), interest src.mask) else none

namespace Loop

variable {loop : Loop} {a : ℕ} {src : Source}

/-- What the sources have registered. -/
def claims (loop : Loop) (a : ℕ) : Option ((ℕ × ℕ) × EpollInterest) :=
  (loop.heap a).bind Source.claim

theorem claims_of_some (hsrc : loop.heap a = some src) : loop.claims a = src.claim := by
  rw [claims, hsrc, Option.bind_some]

theorem claims_put (a : ℕ) (new : Source) :
    (loop.put a new).claims = update loop.claims a new.claim := by
  funext b
  by_cases hb : b = a
  · subst hb
    simp [claims, put]
  · simp [claims, put, hb]

theorem claims_free (a : ℕ) : (loop.free a).claims = update loop.claims a none := by
  funext b
  by_cases hb : b = a
  · subst hb
    simp [claims, free]
  · simp [claims, free, hb]

/-- A source is written and keeps what it has registered. -/
theorem claims_put_of_eq (hsrc : loop.heap a = some src) {new : Source}
    (hnew : new.claim = src.claim) : (loop.put a new).claims = loop.claims := by
  rw [claims_put, hnew, ← claims_of_some hsrc, update_eq_self]

theorem claims_evFdRef (a : ℕ) : (loop.evFdRef a).claims = loop.claims := by
  unfold evFdRef access
  cases hsrc : loop.heap a with
  | none => rfl
  | some src =>
    simp only
    split_ifs
    · rfl
    · exact claims_put_of_eq hsrc rfl

/-- A reference is dropped that is not the last one of a registered source. -/
theorem claims_evFdUnref (hsrc : loop.heap a = some src) (hlast : src.claim = none ∨ 1 < src.ref) :
    (loop.evFdUnref a).claims = loop.claims := by
  rw [evFdUnref, access_of_some hsrc]
  split_ifs with hzero hmore
  · rfl
  · exact claims_put_of_eq hsrc rfl
  · have hclaim : src.claim = none := hlast.resolve_right (by omega)
    rw [claims_free, ← hclaim, ← claims_of_some hsrc, update_eq_self]

/-- A source is added where the kernel has let it. -/
theorem claims_evEloopAddFd (hsrc : loop.heap a = some src) (hloop : src.loop = none)
    (target : ℕ) (ok : Bool) (hok : src.enabled = true → ok = true) :
    (loop.evEloopAddFd target a ok).claims =
      update loop.claims a { src with loop := some target }.claim := by
  have hgood : ¬ (src.enabled && !ok) = true := by
    cases hsrc' : src.enabled with
    | false => simp
    | true => simp [hok hsrc']
  rw [evEloopAddFd, access_of_some hsrc, if_neg (by simp [hloop]), if_neg hgood, claims_evFdRef,
    claims_put]

/-- A source that is not bound any more has nothing registered, even if it is freed. -/
theorem claims_unbind (a : ℕ) (src : Source) :
    ((loop.put a { src with loop := none }).evFdUnref a).claims = update loop.claims a none := by
  have hput : (loop.put a { src with loop := none }).heap a = some { src with loop := none } :=
    update_self a _ _
  have hclaim : { src with loop := none }.claim = none := by simp [Source.claim]
  rw [claims_evFdUnref hput (Or.inl hclaim), claims_put, hclaim]

/-- What memory is behind a source that has been made and added, or freed again. -/
theorem heap_evEloopNewFd (target a fd : ℕ) (mask : EvBits) (cb : Option ℕ) (data : ℕ)
    (ok : Bool) :
    (loop.evEloopNewFd target a fd mask cb data ok).heap = update loop.heap a
      (if ok then some ⟨1, fd, mask, cb, data, true, some target⟩ else none) := by
  cases ok <;>
    simp [evEloopNewFd, evFdNew, evEloopAddFd, evFdRef, evFdUnref, access, put, free]

end Loop

/-! ## What the sets have -/

section Steps

variable {sets : EpollSets} {claims : ℕ → Option ((ℕ × ℕ) × EpollInterest)} {a : ℕ} {src : Source}

/-- A source that has nothing registered is added, or nothing happens. -/
theorem tracks_fdEpollAdd (h : Tracks sets claims) (ha : claims a = none) (src : Source)
    (ok : Bool) :
    ((fdEpollAdd sets a src ok).1 = true →
      Tracks (fdEpollAdd sets a src ok).2 (update claims a { src with enabled := true }.claim)) ∧
    ((fdEpollAdd sets a src ok).1 = false → (fdEpollAdd sets a src ok).2 = sets) := by
  obtain hloop | ⟨l, hloop⟩ := Option.eq_none_or_eq_some src.loop
  · have hclaim : { src with enabled := true }.claim = none := by simp [Source.claim, hloop]
    rw [hclaim]
    simp only [fdEpollAdd, hloop]
    exact ⟨fun _ => h.keep ha, fun _ => trivial⟩
  · have hclaim : { src with enabled := true }.claim = some ((l, src.fd), interest src.mask) := by
      simp [Source.claim, hloop]
    rw [hclaim]
    simp only [fdEpollAdd, hloop]
    split_ifs with hfree
    · have hnone : sets (l, src.fd) = none := by
        simpa using (Bool.and_eq_true_iff.mp hfree).2
      exact ⟨fun _ => h.claim ha hnone, by simp⟩
    · exact ⟨by simp, fun _ => rfl⟩

/-- What an enabled source has registered is removed. -/
theorem tracks_fdEpollRemove (h : Tracks sets claims) (ha : claims a = src.claim)
    (henabled : src.enabled = true) : Tracks (fdEpollRemove sets src) (update claims a none) := by
  obtain hloop | ⟨l, hloop⟩ := Option.eq_none_or_eq_some src.loop
  · have hclaim : src.claim = none := by simp [Source.claim, hloop]
    simp only [fdEpollRemove, hloop]
    exact h.keep (ha.trans hclaim)
  · have hclaim : src.claim = some ((l, src.fd), interest src.mask) := by
      simp [Source.claim, hloop, henabled]
    simp only [fdEpollRemove, hloop]
    exact h.drop (ha.trans hclaim)

/-- What an enabled source has registered gets another mask, or nothing happens. -/
theorem tracks_fdEpollUpdate (h : Tracks sets claims) (ha : claims a = src.claim)
    (henabled : src.enabled = true) (mask : EvBits) (ok : Bool) :
    ((fdEpollUpdate sets a { src with mask := mask } ok).1 = true →
      Tracks (fdEpollUpdate sets a { src with mask := mask } ok).2
        (update claims a { src with mask := mask }.claim)) ∧
    ((fdEpollUpdate sets a { src with mask := mask } ok).1 = false →
      (fdEpollUpdate sets a { src with mask := mask } ok).2 = sets) := by
  obtain hloop | ⟨l, hloop⟩ := Option.eq_none_or_eq_some src.loop
  · have hclaim : { src with mask := mask }.claim = none := by simp [Source.claim, hloop]
    have hold : src.claim = none := by simp [Source.claim, hloop]
    rw [hclaim]
    simp only [fdEpollUpdate, hloop]
    exact ⟨fun _ => h.keep (ha.trans hold), fun _ => trivial⟩
  · have hclaim : { src with mask := mask }.claim = some ((l, src.fd), interest mask) := by
      simp [Source.claim, hloop, henabled]
    have hold : src.claim = some ((l, src.fd), interest src.mask) := by
      simp [Source.claim, hloop, henabled]
    rw [hclaim]
    simp only [fdEpollUpdate, hloop]
    split_ifs
    · exact ⟨fun _ => h.revalue (ha.trans hold) _, by simp⟩
    · exact ⟨by simp, fun _ => rfl⟩

/-- The kernel is not asked for a source that is not bound. -/
theorem isSome_of_fdEpollAdd {ok : Bool} (h : (fdEpollAdd sets a src ok).1 = false) :
    src.loop.isSome = true := by
  obtain hloop | ⟨l, hloop⟩ := Option.eq_none_or_eq_some src.loop
  · simp [fdEpollAdd, hloop] at h
  · rw [hloop, Option.isSome_some]

theorem isSome_of_fdEpollUpdate {ok : Bool} (h : (fdEpollUpdate sets a src ok).1 = false) :
    src.loop.isSome = true := by
  obtain hloop | ⟨l, hloop⟩ := Option.eq_none_or_eq_some src.loop
  · simp [fdEpollUpdate, hloop] at h
  · rw [hloop, Option.isSome_some]

end Steps

namespace Epoll

variable {ep : Epoll} {a : ℕ} {src : Source}

theorem look_of_some {τ : Type} (hsrc : ep.loop.heap a = some src) (absent : τ) (f : Source → τ) :
    ep.look a absent f = f src := by
  rw [look, hsrc]

/-- What the sets have is what the sources have registered. -/
def InStep (ep : Epoll) : Prop := Tracks ep.sets ep.loop.claims

/-- Either the operation is good, and the sets follow the sources, or it fails, and nothing
has changed. -/
def Good (ep : Epoll) (op : Op) : Prop :=
  (ep.step op).InStep ∧
    ((ep.ctl op).1 = false → (ep.step op).loop.heap = ep.loop.heap ∧ (ep.step op).sets = ep.sets)

/-- What has to be shown of an operation, for each answer of the kernel. -/
theorem good_of_ctl (h : ep.InStep) {op : Op}
    (hgood : (ep.ctl op).1 = true →
      Tracks (ep.ctl op).2 (ep.loop.apply (op.answered true)).claims)
    (hbad : (ep.ctl op).1 = false →
      (ep.ctl op).2 = ep.sets ∧ (ep.loop.apply (op.answered false)).heap = ep.loop.heap) :
    ep.Good op := by
  unfold Good InStep step
  cases hanswer : (ep.ctl op).1 with
  | true => exact ⟨hgood hanswer, by simp⟩
  | false =>
    obtain ⟨hsets, hheap⟩ := hbad hanswer
    have hclaims : (ep.loop.apply (op.answered false)).claims = ep.loop.claims := by
      unfold Loop.claims
      rw [hheap]
    refine ⟨?_, fun _ => ⟨hheap, hsets⟩⟩
    simp only
    rw [hclaims, hsets]
    exact h

/-- An operation that leaves the kernel alone and what is registered as it is. -/
theorem good_of_claims (h : ep.InStep) {op : Op} (hctl : ep.ctl op = (true, ep.sets))
    (hclaims : (ep.loop.apply (op.answered true)).claims = ep.loop.claims) : ep.Good op := by
  apply good_of_ctl h
  · intro _
    rw [hctl, hclaims]
    exact h
  · rw [hctl]
    simp

/-- A source is added to the set of its loop, with the others as they are. -/
theorem good_of_add (h : ep.InStep) {op : Op} (ha : ep.loop.claims a = none) {ok : Bool}
    (hctl : ep.ctl op = fdEpollAdd ep.sets a src ok)
    (hgood : (ep.loop.apply (op.answered true)).claims =
      update ep.loop.claims a { src with enabled := true }.claim)
    (hbad : src.loop.isSome = true → (ep.loop.apply (op.answered false)).heap = ep.loop.heap) :
    ep.Good op := by
  obtain ⟨hadded, hsets⟩ := tracks_fdEpollAdd h ha src ok
  apply good_of_ctl h
  · rw [hctl, hgood]
    exact hadded
  · rw [hctl]
    exact fun hanswer => ⟨hsets hanswer, hbad (isSome_of_fdEpollAdd hanswer)⟩

theorem good_enable (h : ep.InStep) (hsrc : ep.loop.heap a = some src) (ok : Bool) :
    ep.Good (.enable a ok) := by
  have hctl : ep.ctl (.enable a ok) =
      if src.enabled then (true, ep.sets) else fdEpollAdd ep.sets a src ok :=
    look_of_some hsrc _ _
  cases henabled : src.enabled with
  | true =>
    rw [henabled, if_pos rfl] at hctl
    apply good_of_claims h hctl
    simp only [Op.answered, Loop.apply, Loop.evFdEnable, Loop.access_of_some hsrc, henabled, if_true]
  | false =>
    rw [henabled, if_neg Bool.false_ne_true] at hctl
    have hclaim : ep.loop.claims a = none := by
      rw [Loop.claims_of_some hsrc, Source.claim, henabled]
      simp
    apply good_of_add h hclaim hctl
    · simp [Op.answered, Loop.apply, Loop.evFdEnable, Loop.access_of_some hsrc, henabled,
        Loop.claims_put]
    · intro hbound
      simp [Op.answered, Loop.apply, Loop.evFdEnable, Loop.access_of_some hsrc, henabled, hbound]

theorem good_addFd (h : ep.InStep) (hsrc : ep.loop.heap a = some src) (target : ℕ) (ok : Bool) :
    ep.Good (.addFd target a ok) := by
  have hctl : ep.ctl (.addFd target a ok) =
      if src.loop.isSome || !src.enabled then (true, ep.sets)
      else fdEpollAdd ep.sets a { src with loop := some target } ok := look_of_some hsrc _ _
  have happly : ∀ answer, ep.loop.apply ((Op.addFd target a ok).answered answer) =
      ep.loop.evEloopAddFd target a answer := fun _ => rfl
  obtain hloop | ⟨l, hloop⟩ := Option.eq_none_or_eq_some src.loop
  · have hclaim : ep.loop.claims a = none := by
      rw [Loop.claims_of_some hsrc, Source.claim, hloop]
      simp
    have hadd := Loop.claims_evEloopAddFd hsrc hloop target true fun _ => rfl
    cases henabled : src.enabled with
    | true =>
      rw [hloop, henabled, if_neg (by simp)] at hctl
      apply good_of_add h hclaim hctl
      · rw [happly, hadd, henabled]
      · intro _
        rw [happly]
        simp [Loop.evEloopAddFd, Loop.access_of_some hsrc, hloop, henabled]
    | false =>
      rw [hloop, henabled, if_pos (by simp)] at hctl
      apply good_of_claims h hctl
      have hsame : { src with loop := some target }.claim = ep.loop.claims a := by
        rw [hclaim]
        simp [Source.claim, henabled]
      rw [happly, hadd, hsame, update_eq_self]
  · rw [hloop, Option.isSome_some, Bool.true_or, if_pos rfl] at hctl
    apply good_of_claims h hctl
    rw [happly]
    simp [Loop.evEloopAddFd, Loop.access_of_some hsrc, hloop]

/-- What a source has registered is removed, and the source has nothing more. -/
theorem good_of_remove (h : ep.InStep) (hsrc : ep.loop.heap a = some src) {op : Op}
    (hctl : ep.ctl op = (true, if src.enabled then fdEpollRemove ep.sets src else ep.sets))
    (hclaims : (ep.loop.apply (op.answered true)).claims = update ep.loop.claims a none) :
    ep.Good op := by
  have ha := Loop.claims_of_some hsrc
  apply good_of_ctl h
  · intro _
    rw [hctl, hclaims]
    split_ifs with henabled
    · exact tracks_fdEpollRemove h ha henabled
    · refine h.keep (ha.trans ?_)
      rw [Source.claim, if_neg henabled]
  · rw [hctl]
    simp

theorem good_disable (h : ep.InStep) (hsrc : ep.loop.heap a = some src) : ep.Good (.disable a) := by
  have hctl : ep.ctl (.disable a) =
      (true, if src.enabled then fdEpollRemove ep.sets src else ep.sets) := look_of_some hsrc _ _
  apply good_of_remove h hsrc hctl
  have happly : ep.loop.apply ((Op.disable a).answered true) = ep.loop.evFdDisable a := rfl
  rw [happly, Loop.evFdDisable, Loop.access_of_some hsrc]
  split_ifs with henabled
  · have hnone : none = ep.loop.claims a := by
      rw [Loop.claims_of_some hsrc, Source.claim, if_neg (by simpa using henabled)]
    rw [hnone, update_eq_self]
  · rw [Loop.claims_put]
    rfl

theorem good_rmFd (h : ep.InStep) (hsrc : ep.loop.heap a = some src) : ep.Good (.rmFd a) := by
  have hctl : ep.ctl (.rmFd a) =
      (true, if src.enabled then fdEpollRemove ep.sets src else ep.sets) := look_of_some hsrc _ _
  apply good_of_remove h hsrc hctl
  have happly : ep.loop.apply ((Op.rmFd a).answered true) = ep.loop.evEloopRmFd a := rfl
  rw [happly, Loop.evEloopRmFd, Loop.access_of_some hsrc]
  obtain hloop | ⟨l, hloop⟩ := Option.eq_none_or_eq_some src.loop
  · have hnone : none = ep.loop.claims a := by
      rw [Loop.claims_of_some hsrc, Source.claim, hloop]
      simp
    simp only [hloop]
    rw [hnone, update_eq_self]
  · simp only [hloop]
    rw [Loop.claims_unbind]
    split_ifs <;> rfl

theorem good_update (h : ep.InStep) (hsrc : ep.loop.heap a = some src) (mask : EvBits)
    (ok : Bool) : ep.Good (.update a mask ok) := by
  have hctl : ep.ctl (.update a mask ok) =
      if src.mask = mask ∧ mask.et = false ∨ !src.enabled then (true, ep.sets)
      else fdEpollUpdate ep.sets a { src with mask := mask } ok := look_of_some hsrc _ _
  have happly : ∀ answer, ep.loop.apply ((Op.update a mask ok).answered answer) =
      ep.loop.evFdUpdate a mask answer := fun _ => rfl
  by_cases hquiet : src.mask = mask ∧ mask.et = false ∨ !src.enabled
  · rw [if_pos hquiet] at hctl
    apply good_of_claims h hctl
    rw [happly, Loop.evFdUpdate, Loop.access_of_some hsrc]
    rcases hquiet with hsame | hdisabled
    · rw [if_pos hsame]
    · have henabled : src.enabled = false := by simpa using hdisabled
      split_ifs
      · rfl
      · simp_all
      · apply Loop.claims_put_of_eq hsrc
        simp [Source.claim, henabled]
  · obtain ⟨hchange, hdisabled⟩ := not_or.mp hquiet
    have henabled : src.enabled = true := by simpa using hdisabled
    rw [if_neg hquiet] at hctl
    obtain ⟨hset, hsets⟩ :=
      tracks_fdEpollUpdate h (Loop.claims_of_some hsrc) henabled mask ok
    apply good_of_ctl h
    · intro hanswer
      rw [hctl] at hanswer ⊢
      have hput : ep.loop.apply ((Op.update a mask ok).answered true) =
          ep.loop.put a { src with mask := mask } := by
        rw [happly, Loop.evFdUpdate, Loop.access_of_some hsrc, if_neg hchange, if_neg (by simp)]
      rw [hput, Loop.claims_put]
      exact hset hanswer
    · intro hanswer
      rw [hctl] at hanswer ⊢
      have hbound : src.loop.isSome = true := (isSome_of_fdEpollUpdate hanswer :)
      refine ⟨hsets hanswer, ?_⟩
      rw [happly, Loop.evFdUpdate, Loop.access_of_some hsrc, if_neg hchange,
        if_pos (by simp [henabled, hbound])]

theorem good_fdNew (h : ep.InStep) (hfree : ep.loop.heap a = none) (fd : ℕ) (mask : EvBits)
    (cb : Option ℕ) (data : ℕ) : ep.Good (.fdNew a fd mask cb data) := by
  apply good_of_claims h rfl
  have hclaim : (Source.mk 1 fd mask cb data true none).claim = ep.loop.claims a := by
    simp [Source.claim, Loop.claims, hfree]
  have happly : ep.loop.apply ((Op.fdNew a fd mask cb data).answered true) =
      ep.loop.put a ⟨1, fd, mask, cb, data, true, none⟩ := rfl
  rw [happly, Loop.claims_put, hclaim, update_eq_self]

theorem good_newFd (h : ep.InStep) (hfree : ep.loop.heap a = none) (target fd : ℕ)
    (mask : EvBits) (cb : Option ℕ) (data : ℕ) (ok : Bool) :
    ep.Good (.newFd target a fd mask cb data ok) := by
  have hclaim : ep.loop.claims a = none := by
    rw [Loop.claims, hfree, Option.bind_none]
  have happly : ∀ answer, ep.loop.apply ((Op.newFd target a fd mask cb data ok).answered answer) =
      ep.loop.evEloopNewFd target a fd mask cb data answer := fun _ => rfl
  let src : Source := ⟨1, fd, mask, cb, data, true, some target⟩
  have hctl : ep.ctl (.newFd target a fd mask cb data ok) = fdEpollAdd ep.sets a src ok := rfl
  apply good_of_add h hclaim hctl
  · have hheap : (ep.loop.evEloopNewFd target a fd mask cb data true).heap =
        (ep.loop.put a src).heap := Loop.heap_evEloopNewFd target a fd mask cb data true
    rw [happly, ← Loop.claims_put]
    unfold Loop.claims
    rw [hheap]
  · intro _
    rw [happly, Loop.heap_evEloopNewFd, if_neg Bool.false_ne_true, ← hfree, update_eq_self]

/-- Every legal operation is good. -/
theorem good_of_legal (h : ep.InStep) {op : Op} (hlegal : ep.loop.Legal op) : ep.Good op := by
  cases op with
  | fdNew a fd mask cb data => exact good_fdNew h hlegal fd mask cb data
  | newFd target a fd mask cb data ok => exact good_newFd h hlegal target fd mask cb data ok
  | addFd target a ok =>
    obtain ⟨src, hsrc⟩ := Option.ne_none_iff_exists'.mp hlegal
    exact good_addFd h hsrc target ok
  | rmFd a =>
    obtain ⟨src, hsrc⟩ := Option.ne_none_iff_exists'.mp hlegal
    exact good_rmFd h hsrc
  | enable a ok =>
    obtain ⟨src, hsrc⟩ := Option.ne_none_iff_exists'.mp hlegal
    exact good_enable h hsrc ok
  | disable a =>
    obtain ⟨src, hsrc⟩ := Option.ne_none_iff_exists'.mp hlegal
    exact good_disable h hsrc
  | update a mask ok =>
    obtain ⟨src, hsrc⟩ := Option.ne_none_iff_exists'.mp hlegal
    exact good_update h hsrc mask ok
  | setCbData a cb data =>
    obtain ⟨src, hsrc⟩ := Option.ne_none_iff_exists'.mp hlegal
    apply good_of_claims h rfl
    have happly : ep.loop.apply ((Op.setCbData a cb data).answered true) =
        ep.loop.evFdSetCbData a cb data := rfl
    rw [happly, Loop.evFdSetCbData, Loop.access_of_some hsrc]
    exact Loop.claims_put_of_eq hsrc rfl
  | ref a => exact good_of_claims h rfl (Loop.claims_evFdRef a)
  | unref a =>
    obtain ⟨src, hsrc, hheld⟩ := hlegal
    refine good_of_claims h rfl (Loop.claims_evFdUnref hsrc ?_)
    obtain hloop | ⟨l, hloop⟩ := Option.eq_none_or_eq_some src.loop
    · left
      simp [Source.claim, hloop]
    · right
      rwa [hloop, Option.isSome_some, if_pos rfl] at hheld

/-- Registrations and sources agree: a source is registered for a loop with a mask if and
only if it is bound to the loop, enabled, and its mask is this one, as far as the kernel is
told of it; what is registered under a descriptor belongs to a source with it; and two
enabled sources of a loop have different descriptors. -/
structure Consistent (ep : Epoll) : Prop where
  registered : ∀ a src, ep.loop.heap a = some src → ∀ l mask,
    ep.sets (l, src.fd) = some (a, interest mask) ↔
      src.loop = some l ∧ src.enabled = true ∧ interest src.mask = interest mask
  owned : ∀ l fd a events, ep.sets (l, fd) = some (a, events) →
    ∃ src, ep.loop.heap a = some src ∧ src.fd = fd
  unique : ∀ a b src other l, ep.loop.heap a = some src → ep.loop.heap b = some other →
    src.loop = some l → other.loop = some l → src.enabled = true → other.enabled = true →
    src.fd = other.fd → a = b

theorem claim_eq_some_iff {src : Source} {l fd : ℕ} {events : EpollInterest} :
    src.claim = some ((l, fd), events) ↔
      src.loop = some l ∧ src.enabled = true ∧ src.fd = fd ∧ interest src.mask = events := by
  unfold Source.claim
  cases src.enabled <;> cases src.loop <;> simp [and_assoc]

theorem InStep.consistent (h : ep.InStep) : ep.Consistent where
  registered a src hsrc l mask := by
    rw [h, Loop.claims_of_some hsrc, claim_eq_some_iff]
    simp
  owned l fd a events hset := by
    have hclaim := (h (l, fd) a events).mp hset
    obtain ⟨src, hsrc, hclaim⟩ := Option.bind_eq_some_iff.mp hclaim
    exact ⟨src, hsrc, (claim_eq_some_iff.mp hclaim).2.2.1⟩
  unique a b src other l hsrc hother hloop hloop' henabled henabled' hfd := by
    have ha : ep.loop.claims a = some ((l, src.fd), interest src.mask) := by
      rw [Loop.claims_of_some hsrc]
      exact claim_eq_some_iff.mpr ⟨hloop, henabled, rfl, rfl⟩
    have hb : ep.loop.claims b = some ((l, src.fd), interest other.mask) := by
      rw [Loop.claims_of_some hother]
      exact claim_eq_some_iff.mpr ⟨hloop', henabled', hfd.symm, rfl⟩
    exact h.eq_of_claims ha hb

theorem inStep_start (loop : Loop) : (start loop).InStep := tracks_empty

/-- An operation that fails changes neither the sources nor the sets. -/
def Undone (ep : Epoll) (op : Op) : Prop :=
  ep.ret op ≠ 0 → (ep.step op).loop.heap = ep.loop.heap ∧ (ep.step op).sets = ep.sets

theorem undone_of_legal (h : ep.InStep) {op : Op} (hlegal : ep.loop.Legal op) : ep.Undone op := by
  intro hret
  cases hanswer : (ep.ctl op).1 with
  | false => exact (good_of_legal h hlegal).2 hanswer
  | true =>
    -- Only a source that is bound already is refused without the kernel.
    cases op with
    | addFd target a ok =>
      obtain ⟨src, hsrc⟩ := Option.ne_none_iff_exists'.mp hlegal
      have hbound : src.loop.isSome = true := by
        by_contra hloop
        simp only [ret, look_of_some hsrc, hanswer, hloop] at hret
        simp at hret
      have hctl : ep.ctl (.addFd target a ok) = (true, ep.sets) := by
        rw [ctl, look_of_some hsrc, hbound, Bool.true_or, if_pos rfl]
      rw [step, hctl]
      refine ⟨?_, rfl⟩
      simp [Op.answered, Loop.apply, Loop.evEloopAddFd, Loop.access_of_some hsrc, hbound]
    | _ => simp [ret, hanswer] at hret

end Epoll

/-- In every state of every run of operations on sources, whatever `epoll_ctl` answers, the
registrations are those of the bound and enabled sources with their masks, and an operation
that fails leaves everything as it was. -/
theorem registration_tracks_sources (loop : Loop) (ops : List Op)
    (hlegal : Along Epoll.step (fun ep op => ep.loop.Legal op) (Epoll.start loop) ops) :
    Always Epoll.step Epoll.Consistent (Epoll.start loop) ops ∧
      Along Epoll.step Epoll.Undone (Epoll.start loop) ops := by
  constructor
  · apply hlegal.always (J := Epoll.InStep)
    · exact fun ep h => h.consistent
    · exact fun ep op h hop => (Epoll.good_of_legal h hop).1
    · exact Epoll.inStep_start loop
  · apply hlegal.imp (J := Epoll.InStep)
    · exact fun ep op h hop => ⟨Epoll.undone_of_legal h hop, (Epoll.good_of_legal h hop).1⟩
    · exact Epoll.inStep_start loop

/-- Two sources with the same descriptor: the second one cannot be added, and the mask of
the first one stays when the kernel refuses the new one. -/
def sharedFd : List Op :=
  [.fdNew 1 5 ⟨true, false, false, false, false⟩ none 0,
    .fdNew 2 5 ⟨true, false, false, false, false⟩ none 0, .addFd thisLoop 1 true,
    .addFd thisLoop 2 true, .update 1 ⟨false, true, false, false, false⟩ false]

theorem registration_tracks_sources_sharedFd :
    (run Epoll.step (Epoll.start Loop.removalLoop) sharedFd).sets (thisLoop, 5) =
      some (1, interest ⟨true, false, false, false, false⟩) := by
  have hlegal : Along Epoll.step (fun ep op => ep.loop.Legal op) (Epoll.start Loop.removalLoop)
      sharedFd := by
    refine ⟨rfl, rfl, ?_, ?_, ?_, trivial⟩
    all_goals exact Option.isSome_iff_ne_none.mp rfl
  have hlast := (registration_tracks_sources Loop.removalLoop sharedFd hlegal).1.last
  exact (hlast.registered 1 ⟨2, 5, ⟨true, false, false, false, false⟩, none, 0, true,
    some thisLoop⟩ rfl thisLoop ⟨true, false, false, false, false⟩).mpr ⟨rfl, rfl, rfl⟩

end Faceplate.Shl
