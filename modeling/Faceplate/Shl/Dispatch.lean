import Faceplate.Shl.Eloop

/-!
# Dispatching while sources come and go

Callbacks may remove, free and add sources while the loop walks over the events that
it has cached. What keeps this safe is an invariant between the cached events and the
memory: a cached event that is still there belongs to a source that is still bound to
the loop, and the loop's own reference keeps that source alive.
-/

namespace Faceplate.Shl

namespace Loop

/-- What a callback may do: memory that is not free is not allocated again, no freed
source is passed, and only references that one holds are dropped. -/
def Legal (loop : Loop) : Op → Prop
  | .fdNew a _ _ _ _ => loop.heap a = none
  | .newFd _ a _ _ _ _ _ => loop.heap a = none
  | .unref a => ∃ src, loop.heap a = some src ∧ (if src.loop.isSome then 1 else 0) < src.ref
  | .addFd _ a _ | .rmFd a | .enable a _ | .disable a | .update a _ _ | .setCbData a _ _
  | .ref a => loop.heap a ≠ none

/-- All calls of a callback are legal when they are made. -/
def LegalAll : List Op → Loop → Prop
  | [], _ => True
  | op :: rest, loop => loop.Legal op ∧ LegalAll rest (loop.apply op)

/-- The callback of round `i`, if it is called, makes legal calls. -/
def LegalTurn (behave : ℕ → List Op) (i : ℕ) (loop : Loop) : Prop :=
  match loop.curFds[i]? with
  | some (.idle, _) => LegalAll (behave i) loop
  | some (.source a, events) => ∀ src call, loop.heap a = some src →
      callOf a events src = some call →
      LegalAll (behave i) { loop with calls := loop.calls ++ [call] }
  | _ => True

/-- A batch as `epoll_wait` delivers it: each source once, and all of them bound to the
loop and enabled. -/
structure Ready (loop : Loop) (batch : List (Entry × EpollEvents)) : Prop where
  once : ∀ (i j a : ℕ) (e e' : EpollEvents), batch[i]? = some (Entry.source a, e) →
    batch[j]? = some (Entry.source a, e') → i = j
  bound : ∀ a e, (.source a, e) ∈ batch →
    ∃ src, loop.heap a = some src ∧ src.loop = some thisLoop ∧ src.enabled = true

/-- Memory is in order: nothing freed was touched, and what is there is referenced. -/
structure HeapOk (loop : Loop) : Prop where
  fault : loop.fault = false
  ref : ∀ a src, loop.heap a = some src → 1 ≤ src.ref

/-- The cached events without those of removed sources. -/
def strike (removed : List ℕ) (event : Entry × EpollEvents) : Entry × EpollEvents :=
  match event.1 with
  | .source a => if a ∈ removed then (.null, event.2) else event
  | _ => event

/-- The invariant of a round over a batch. -/
structure Walking (batch : List (Entry × EpollEvents)) (loop : Loop) : Prop where
  heap : HeapOk loop
  dispatching : loop.dispatching = true
  cached : loop.curFds = batch.map (strike loop.removed)
  bound : ∀ a e, (.source a, e) ∈ batch → a ∉ loop.removed →
    ∃ src, loop.heap a = some src ∧ src.loop = some thisLoop

theorem strike_nil (event : Entry × EpollEvents) : strike [] event = event := by
  unfold strike
  cases event.1 <;> simp

theorem clearEntry_strike (a : ℕ) (removed : List ℕ) (event : Entry × EpollEvents) :
    clearEntry a (strike removed event) = strike (a :: removed) event := by
  obtain ⟨entry, events⟩ := event
  cases entry with
  | null => simp [clearEntry, strike]
  | idle => simp [clearEntry, strike]
  | source b =>
    by_cases hb : b ∈ removed
    · simp [clearEntry, strike, hb]
    · by_cases hab : b = a
      · subst hab
        simp [clearEntry, strike, hb]
      · simp [clearEntry, strike, hb, hab]

section HeapOk

variable {loop : Loop} {a : ℕ}

theorem access_of_some {src : Source} (hsrc : loop.heap a = some src)
    (f : Source → Loop) : loop.access a f = f src := by
  simp [access, hsrc]

/-- A source may be written as long as it stays referenced. -/
theorem HeapOk.put (h : HeapOk loop) {src : Source} (href : 1 ≤ src.ref) :
    HeapOk (loop.put a src) := by
  refine ⟨h.fault, fun b s hb => ?_⟩
  by_cases hba : b = a
  · subst hba
    obtain rfl : src = s := by simpa [Loop.put] using hb
    exact href
  · exact h.ref b s (by simpa [Loop.put, hba] using hb)

theorem HeapOk.free (h : HeapOk loop) (a : ℕ) : HeapOk (loop.free a) := by
  refine ⟨h.fault, fun b s hb => ?_⟩
  by_cases hba : b = a
  · simp [Loop.free, hba] at hb
  · exact h.ref b s (by simpa [Loop.free, hba] using hb)

/-- A live source is followed without a fault. -/
theorem HeapOk.access (h : HeapOk loop) (hlive : loop.heap a ≠ none) {f : Source → Loop}
    (hf : ∀ src, 1 ≤ src.ref → HeapOk (f src)) : HeapOk (loop.access a f) := by
  obtain ⟨src, hsrc⟩ := Option.ne_none_iff_exists'.mp hlive
  rw [access_of_some hsrc]
  exact hf src (h.ref a src hsrc)

theorem put_live (src : Source) : (loop.put a src).heap a ≠ none := by
  simp [Loop.put]

theorem HeapOk.evFdRef (h : HeapOk loop) (hlive : loop.heap a ≠ none) :
    HeapOk (loop.evFdRef a) := by
  refine h.access hlive fun src href => ?_
  split_ifs
  · exact h
  · exact h.put (Nat.le_succ_of_le href)

theorem HeapOk.evFdUnref (h : HeapOk loop) (hlive : loop.heap a ≠ none) :
    HeapOk (loop.evFdUnref a) := by
  refine h.access hlive fun src href => ?_
  split_ifs with hzero hlast
  · exact h
  · exact h.put (Nat.one_le_iff_ne_zero.mpr hlast)
  · exact h.free a

theorem HeapOk.evEloopAddFd (h : HeapOk loop) (target : ℕ) (ok : Bool)
    (hlive : loop.heap a ≠ none) : HeapOk (loop.evEloopAddFd target a ok) := by
  refine h.access hlive fun src href => ?_
  split_ifs
  · exact h
  · exact h
  · have hput : HeapOk (loop.put a { src with loop := some target }) := h.put href
    exact hput.evFdRef (put_live _)

theorem HeapOk.evEloopRmFd (h : HeapOk loop) (hlive : loop.heap a ≠ none) :
    HeapOk (loop.evEloopRmFd a) := by
  refine h.access hlive fun src href => ?_
  cases src.loop with
  | none => exact h
  | some target =>
    dsimp only
    refine HeapOk.evFdUnref (HeapOk.put ?_ href) (put_live _)
    split_ifs
    · exact ⟨h.fault, h.ref⟩
    · exact h

/-- Adding a source leaves it in memory and removes nothing. -/
theorem evEloopAddFd_frame {src : Source} (hsrc : loop.heap a = some src) (target : ℕ)
    (ok : Bool) : (∃ src', (loop.evEloopAddFd target a ok).heap a = some src') ∧
      (loop.evEloopAddFd target a ok).removed = loop.removed := by
  rw [Loop.evEloopAddFd, access_of_some hsrc]
  split_ifs
  · exact ⟨⟨src, hsrc⟩, rfl⟩
  · exact ⟨⟨src, hsrc⟩, rfl⟩
  · have hput : (loop.put a { src with loop := some target }).heap a =
        some { src with loop := some target } := Function.update_self a _ _
    rw [Loop.evFdRef, access_of_some hput]
    split_ifs
    · exact ⟨⟨_, hput⟩, rfl⟩
    · exact ⟨⟨_, Function.update_self a _ _⟩, rfl⟩

/-- Legal calls keep memory in order. -/
theorem HeapOk.apply (h : HeapOk loop) {op : Op} (hlegal : loop.Legal op) :
    HeapOk (loop.apply op) := by
  cases op with
  | fdNew a fd mask cb data => exact h.put (Nat.le_refl 1)
  | newFd target a fd mask cb data ok =>
    have hnew : HeapOk (loop.evFdNew a fd mask cb data) := h.put (Nat.le_refl 1)
    have hlive : (loop.evFdNew a fd mask cb data).heap a ≠ none := put_live _
    obtain ⟨src, hsrc⟩ := Option.ne_none_iff_exists'.mp hlive
    obtain ⟨⟨src', hadded⟩, -⟩ := evEloopAddFd_frame hsrc target ok
    exact (hnew.evEloopAddFd target ok hlive).evFdUnref (by simp [hadded])
  | addFd target a ok => exact h.evEloopAddFd target ok hlegal
  | rmFd a => exact h.evEloopRmFd hlegal
  | enable a ok =>
    refine h.access hlegal fun src href => ?_
    split_ifs
    · exact h
    · exact h
    · exact h.put href
  | disable a =>
    refine h.access hlegal fun src href => ?_
    split_ifs
    · exact h
    · exact h.put href
  | update a mask ok =>
    refine h.access hlegal fun src href => ?_
    split_ifs
    · exact h
    · exact h
    · exact h.put href
  | setCbData a cb data => exact h.access hlegal fun src href => h.put href
  | ref a => exact h.evFdRef hlegal
  | unref a =>
    obtain ⟨src, hsrc, -⟩ := hlegal
    exact h.evFdUnref (by simp [hsrc])

theorem HeapOk.applyAll (h : HeapOk loop) {ops : List Op} (hlegal : LegalAll ops loop) :
    HeapOk (loop.applyAll ops) := by
  induction ops generalizing loop with
  | nil => exact h
  | cons op rest ih => exact ih (h.apply hlegal.1) hlegal.2

end HeapOk

section Walking

variable {batch : List (Entry × EpollEvents)} {loop : Loop}

/-- A source may be written as long as it stays referenced and, in the batch, bound. -/
theorem Walking.put (h : Walking batch loop) {a : ℕ} {src : Source} (href : 1 ≤ src.ref)
    (hbound : ∀ e, (.source a, e) ∈ batch → a ∉ loop.removed → src.loop = some thisLoop) :
    Walking batch (loop.put a src) := by
  refine ⟨h.heap.put href, h.dispatching, h.cached, fun b e hb hkept => ?_⟩
  by_cases hba : b = a
  · subst hba
    exact ⟨src, by simp [Loop.put], hbound e hb hkept⟩
  · obtain ⟨s, hs, hloop⟩ := h.bound b e hb hkept
    exact ⟨s, by simpa [Loop.put, hba] using hs, hloop⟩

/-- A source may be freed if no cached event is left of it. -/
theorem Walking.free (h : Walking batch loop) {a : ℕ}
    (hgone : ∀ e, (.source a, e) ∈ batch → a ∈ loop.removed) : Walking batch (loop.free a) := by
  refine ⟨h.heap.free a, h.dispatching, h.cached, fun b e hb hkept => ?_⟩
  by_cases hba : b = a
  · subst hba
    exact absurd (hgone e hb) hkept
  · obtain ⟨s, hs, hloop⟩ := h.bound b e hb hkept
    exact ⟨s, by simpa [Loop.free, hba] using hs, hloop⟩

/-- Removing drops the cached events of a source and records it. -/
theorem Walking.drop (h : Walking batch loop) (a : ℕ) :
    Walking batch { loop with
      curFds := loop.curFds.map (clearEntry a), removed := a :: loop.removed } := by
  refine ⟨⟨h.heap.fault, h.heap.ref⟩, h.dispatching, ?_, fun b e hb hkept => ?_⟩
  · simp only [h.cached, List.map_map]
    exact List.map_congr_left fun event _ => clearEntry_strike a loop.removed event
  · simp only [List.mem_cons, not_or] at hkept
    exact h.bound b e hb hkept.2

/-- What a source of the batch is bound to while it is not removed. -/
theorem Walking.loop_eq (h : Walking batch loop) {a : ℕ} {src : Source}
    (hsrc : loop.heap a = some src) {e : EpollEvents} (hmem : (.source a, e) ∈ batch)
    (hkept : a ∉ loop.removed) : src.loop = some thisLoop := by
  obtain ⟨s, hs, hloop⟩ := h.bound a e hmem hkept
  obtain rfl := Option.some.inj (hsrc.symm.trans hs)
  exact hloop

/-- A source that keeps its loop and count may be changed in any other way. -/
theorem Walking.change (h : Walking batch loop) {a : ℕ} {src new : Source}
    (hsrc : loop.heap a = some src) (href : src.ref ≤ new.ref) (hloop : new.loop = src.loop) :
    Walking batch (loop.put a new) := by
  apply h.put (Nat.le_trans (h.heap.ref a src hsrc) href)
  intro e hmem hkept
  rw [hloop]
  exact h.loop_eq hsrc hmem hkept

theorem Walking.evFdRef (h : Walking batch loop) {a : ℕ} (hlive : loop.heap a ≠ none) :
    Walking batch (loop.evFdRef a) := by
  obtain ⟨src, hsrc⟩ := Option.ne_none_iff_exists'.mp hlive
  rw [Loop.evFdRef, access_of_some hsrc]
  split_ifs
  · exact h
  · exact h.change hsrc (Nat.le_succ _) rfl

/-- Dropping a reference is safe unless it is the last one of a cached source. -/
theorem Walking.evFdUnref (h : Walking batch loop) {a : ℕ} {src : Source}
    (hsrc : loop.heap a = some src)
    (hheld : ∀ e, (.source a, e) ∈ batch → a ∉ loop.removed → 1 < src.ref) :
    Walking batch (loop.evFdUnref a) := by
  have href := h.heap.ref a src hsrc
  rw [Loop.evFdUnref, access_of_some hsrc]
  split_ifs with hzero hlast
  · exact h
  · refine h.put ?_ fun e hmem hkept => ?_
    · simp only
      omega
    · have hloop : src.loop = some thisLoop := h.loop_eq hsrc hmem hkept
      exact hloop
  · apply h.free
    intro e hmem
    by_contra hkept
    have := hheld e hmem hkept
    omega

theorem Walking.evEloopAddFd (h : Walking batch loop) (target : ℕ) {a : ℕ} (ok : Bool)
    (hlive : loop.heap a ≠ none) : Walking batch (loop.evEloopAddFd target a ok) := by
  obtain ⟨src, hsrc⟩ := Option.ne_none_iff_exists'.mp hlive
  rw [Loop.evEloopAddFd, access_of_some hsrc]
  split_ifs with hbound hfail
  · exact h
  · exact h
  · apply Walking.evFdRef
    · refine h.put (h.heap.ref a src hsrc) fun e hmem hkept => ?_
      have hloop := h.loop_eq hsrc hmem hkept
      simp [hloop] at hbound
    · simp [Loop.put]

/-- Removing a source strikes its events before its memory can be freed. -/
theorem Walking.evEloopRmFd (h : Walking batch loop) {a : ℕ} (hlive : loop.heap a ≠ none) :
    Walking batch (loop.evEloopRmFd a) := by
  obtain ⟨src, hsrc⟩ := Option.ne_none_iff_exists'.mp hlive
  rw [Loop.evEloopRmFd, access_of_some hsrc]
  cases hloop : src.loop with
  | none => exact h
  | some target =>
    dsimp only
    have href := h.heap.ref a src hsrc
    split_ifs with hthis
    · have hput : Walking batch (Loop.put { loop with
          curFds := loop.curFds.map (clearEntry a), removed := a :: loop.removed } a
          { src with loop := none }) :=
        (h.drop a).put href fun e _ hkept => absurd List.mem_cons_self hkept
      refine hput.evFdUnref (Function.update_self a _ _) fun e _ hkept => ?_
      exact absurd List.mem_cons_self hkept
    · have hother : ∀ e, (.source a, e) ∈ batch → a ∈ loop.removed := by
        intro e hmem
        by_contra hkept
        have := h.loop_eq hsrc hmem hkept
        rw [hloop, Option.some.injEq] at this
        exact hthis ⟨this, h.dispatching⟩
      have hput : Walking batch (loop.put a { src with loop := none }) :=
        h.put href fun e hmem hkept => absurd (hother e hmem) hkept
      refine hput.evFdUnref (Function.update_self a _ _) fun e hmem hkept => ?_
      exact absurd (hother e hmem) hkept

/-- New memory is not that of a cached source. -/
theorem Walking.evFdNew (h : Walking batch loop) {a : ℕ} (hfree : loop.heap a = none) (fd : ℕ)
    (mask : EvBits) (cb : Option ℕ) (data : ℕ) :
    Walking batch (loop.evFdNew a fd mask cb data) := by
  apply h.put (Nat.le_refl 1)
  intro e hmem hkept
  obtain ⟨src, hsrc, -⟩ := h.bound a e hmem hkept
  rw [hfree] at hsrc
  exact absurd hsrc (by simp)

/-- Every legal call keeps the invariant. -/
theorem Walking.apply (h : Walking batch loop) {op : Op} (hlegal : loop.Legal op) :
    Walking batch (loop.apply op) := by
  cases op with
  | fdNew a fd mask cb data => exact h.evFdNew hlegal fd mask cb data
  | newFd target a fd mask cb data ok =>
    have hnew := h.evFdNew hlegal fd mask cb data
    have hlive : (loop.evFdNew a fd mask cb data).heap a =
        some ⟨1, fd, mask, cb, data, true, none⟩ := by
      simp [Loop.evFdNew, Loop.put]
    have hadd := @Walking.evEloopAddFd batch _ hnew target a ok (by simp [hlive])
    obtain ⟨⟨src, hsrc⟩, hremoved⟩ := evEloopAddFd_frame hlive target ok
    refine hadd.evFdUnref hsrc fun e hmem hkept => ?_
    rw [hremoved] at hkept
    obtain ⟨old, hold, -⟩ := h.bound a e hmem hkept
    have hfree : loop.heap a = none := hlegal
    rw [hfree] at hold
    exact absurd hold (by simp)
  | addFd target a ok => exact h.evEloopAddFd target ok hlegal
  | rmFd a => exact h.evEloopRmFd hlegal
  | enable a ok =>
    obtain ⟨src, hsrc⟩ := Option.ne_none_iff_exists'.mp hlegal
    rw [Loop.apply, Loop.evFdEnable, access_of_some hsrc]
    split_ifs
    · exact h
    · exact h
    · exact h.change hsrc (Nat.le_refl _) rfl
  | disable a =>
    obtain ⟨src, hsrc⟩ := Option.ne_none_iff_exists'.mp hlegal
    rw [Loop.apply, Loop.evFdDisable, access_of_some hsrc]
    split_ifs
    · exact h
    · exact h.change hsrc (Nat.le_refl _) rfl
  | update a mask ok =>
    obtain ⟨src, hsrc⟩ := Option.ne_none_iff_exists'.mp hlegal
    rw [Loop.apply, Loop.evFdUpdate, access_of_some hsrc]
    split_ifs
    · exact h
    · exact h
    · exact h.change hsrc (Nat.le_refl _) rfl
  | setCbData a cb data =>
    obtain ⟨src, hsrc⟩ := Option.ne_none_iff_exists'.mp hlegal
    rw [Loop.apply, Loop.evFdSetCbData, access_of_some hsrc]
    exact h.change hsrc (Nat.le_refl _) rfl
  | ref a => exact h.evFdRef hlegal
  | unref a =>
    obtain ⟨src, hsrc, hheld⟩ := hlegal
    refine h.evFdUnref hsrc fun e hmem hkept => ?_
    simpa [h.loop_eq hsrc hmem hkept] using hheld

theorem Walking.applyAll (h : Walking batch loop) {ops : List Op} (hlegal : LegalAll ops loop) :
    Walking batch (loop.applyAll ops) := by
  induction ops generalizing loop with
  | nil => exact h
  | cons op rest ih => exact ih (h.apply hlegal.1) hlegal.2

end Walking

/-- What no call of a callback changes. -/
def frame (loop : Loop) : List Call × Bool × ℕ := (loop.calls, loop.dispatching, loop.curFdsSize)

section Frame

variable {loop : Loop}

theorem frame_access {a : ℕ} {f : Source → Loop} (h : ∀ src, (f src).frame = loop.frame) :
    (loop.access a f).frame = loop.frame := by
  unfold access
  cases loop.heap a with
  | none => rfl
  | some src => exact h src

theorem frame_evFdUnref (a : ℕ) : (loop.evFdUnref a).frame = loop.frame := by
  apply frame_access
  intro src
  split_ifs <;> rfl

theorem frame_evFdRef (a : ℕ) : (loop.evFdRef a).frame = loop.frame := by
  apply frame_access
  intro src
  split_ifs <;> rfl

theorem frame_evEloopAddFd (target a : ℕ) (ok : Bool) :
    (loop.evEloopAddFd target a ok).frame = loop.frame := by
  apply frame_access
  intro src
  split_ifs
  · rfl
  · rfl
  · rw [frame_evFdRef]
    rfl

theorem frame_evEloopRmFd (a : ℕ) : (loop.evEloopRmFd a).frame = loop.frame := by
  apply frame_access
  intro src
  cases src.loop with
  | none => rfl
  | some target =>
    simp only [frame_evFdUnref]
    split_ifs <;> rfl

theorem frame_apply (op : Op) : (loop.apply op).frame = loop.frame := by
  cases op with
  | fdNew a fd mask cb data => rfl
  | newFd target a fd mask cb data ok =>
    rw [Loop.apply, evEloopNewFd, frame_evFdUnref, frame_evEloopAddFd]
    rfl
  | addFd target a ok => exact frame_evEloopAddFd target a ok
  | rmFd a => exact frame_evEloopRmFd a
  | enable a ok =>
    apply frame_access
    intro src
    split_ifs <;> rfl
  | disable a =>
    apply frame_access
    intro src
    split_ifs <;> rfl
  | update a mask ok =>
    apply frame_access
    intro src
    split_ifs <;> rfl
  | setCbData a cb data => exact frame_access fun _ => rfl
  | ref a => exact frame_evFdRef a
  | unref a => exact frame_evFdUnref a

theorem frame_applyAll (ops : List Op) : (loop.applyAll ops).frame = loop.frame := by
  induction ops generalizing loop with
  | nil => rfl
  | cons op rest ih => exact ih.trans (frame_apply op)

/-- Only the loop itself calls callbacks. -/
theorem calls_applyAll (ops : List Op) : (loop.applyAll ops).calls = loop.calls :=
  congrArg Prod.fst (frame_applyAll ops)

end Frame

/-- The source is due: it has not been removed since the batch was taken, it is enabled,
and it has a callback. -/
def Due (loop : Loop) (a : ℕ) : Prop :=
  a ∉ loop.removed ∧ ∃ src, loop.heap a = some src ∧ src.enabled = true ∧ src.cb.isSome = true

/-- What the loop calls for the event of a source. -/
def dueCalls (loop : Loop) (a : ℕ) (events : EpollEvents) : List Call :=
  if a ∈ loop.removed then [] else ((loop.heap a).bind (callOf a events)).toList

theorem dueCalls_of_due {loop : Loop} {a : ℕ} (h : loop.Due a) (events : EpollEvents) :
    ∃ src cb, loop.heap a = some src ∧ src.cb = some cb ∧
      loop.dueCalls a events = [⟨a, cb, convertMask events, src.data⟩] := by
  obtain ⟨hkept, src, hsrc, henabled, hcb⟩ := h
  obtain ⟨cb, hcb⟩ := Option.isSome_iff_exists.mp hcb
  refine ⟨src, cb, hsrc, hcb, ?_⟩
  simp [dueCalls, hkept, hsrc, callOf, hcb, henabled]

theorem dueCalls_of_not_due {loop : Loop} {a : ℕ} (h : ¬ loop.Due a) (events : EpollEvents) :
    loop.dueCalls a events = [] := by
  unfold dueCalls
  split_ifs with hkept
  · rfl
  · cases hsrc : loop.heap a with
    | none => rfl
    | some src =>
      have hcall : callOf a events src = none := by
        unfold callOf
        cases hcb : src.cb with
        | none => rfl
        | some cb =>
          refine if_pos ?_
          by_contra henabled
          exact h ⟨hkept, src, hsrc, by simpa using henabled, by simp [hcb]⟩
      simp [hcall]

theorem source_of_mem_dueCalls {loop : Loop} {a : ℕ} {events : EpollEvents} {call : Call}
    (h : call ∈ loop.dueCalls a events) : call.source = a := by
  by_cases hdue : loop.Due a
  · obtain ⟨src, cb, -, -, hcalls⟩ := dueCalls_of_due hdue events
    rw [hcalls, List.mem_singleton] at h
    rw [h]
  · rw [dueCalls_of_not_due hdue] at h
    exact absurd h (by simp)

/-- The calls of a round. -/
def turnCalls (batch : List (Entry × EpollEvents)) (i : ℕ) (loop : Loop) : List Call :=
  match batch[i]? with
  | some (.source a, events) => loop.dueCalls a events
  | _ => []

section Turn

variable {batch : List (Entry × EpollEvents)} {behave : ℕ → List Op} {loop : Loop} {i : ℕ}

/-- What the loop finds in its cache, by the batch. -/
theorem Walking.getElem_curFds (h : Walking batch loop) (i : ℕ) :
    loop.curFds[i]? = batch[i]?.map (strike loop.removed) := by
  rw [h.cached, List.getElem?_map]

/-- A round keeps the invariant, and calls exactly what is due. -/
theorem Walking.turn (h : Walking batch loop) (hlegal : LegalTurn behave i loop) :
    Walking batch (turn behave i loop) ∧
      (Loop.turn behave i loop).calls = loop.calls ++ turnCalls batch i loop := by
  have hcached := h.getElem_curFds i
  unfold LegalTurn at hlegal
  unfold Loop.turn turnCalls
  rcases hbatch : batch[i]? with _ | ⟨entry, events⟩
  · rw [hbatch, Option.map_none] at hcached
    simp only [hcached, List.append_nil]
    exact ⟨h, trivial⟩
  rw [hbatch, Option.map_some] at hcached
  cases entry with
  | null =>
    have hnull : loop.curFds[i]? = some (.null, events) := hcached
    simp only [hnull, List.append_nil]
    exact ⟨h, trivial⟩
  | idle =>
    have hidle : loop.curFds[i]? = some (.idle, events) := hcached
    simp only [hidle] at hlegal ⊢
    exact ⟨h.applyAll hlegal, by rw [calls_applyAll, List.append_nil]⟩
  | source a =>
    by_cases hkept : a ∈ loop.removed
    · have hnull : loop.curFds[i]? = some (.null, events) := by
        rw [hcached]
        simp [strike, hkept]
      simp only [hnull, dueCalls, hkept, if_true, List.append_nil]
      exact ⟨h, trivial⟩
    · have hsource : loop.curFds[i]? = some (.source a, events) := by
        rw [hcached]
        simp [strike, hkept]
      obtain ⟨src, hsrc, -⟩ := h.bound a events (List.mem_of_getElem? hbatch) hkept
      simp only [hsource] at hlegal ⊢
      rw [access_of_some hsrc]
      simp only [dueCalls, hkept, if_false, hsrc, Option.bind_some]
      cases hcall : callOf a events src with
      | none => exact ⟨h, by simp⟩
      | some call =>
        -- logging the call touches nothing that the invariant speaks of
        have hlogged : Walking batch { loop with calls := loop.calls ++ [call] } :=
          ⟨⟨h.heap.fault, h.heap.ref⟩, h.dispatching, h.cached, h.bound⟩
        refine ⟨hlogged.applyAll (hlegal src call hsrc hcall), ?_⟩
        rw [calls_applyAll]
        rfl

end Turn

/-- The invariant holds when a batch arrives. -/
theorem walking_beginBatch {loop : Loop} {batch : List (Entry × EpollEvents)} (hheap : HeapOk loop)
    (hdispatching : loop.dispatching = true) (hready : Ready loop batch) :
    Walking batch (loop.beginBatch batch) := by
  refine ⟨⟨hheap.fault, hheap.ref⟩, hdispatching, ?_, fun a e hmem _ => ?_⟩
  · have hsame : strike [] = id := funext strike_nil
    simp [beginBatch, hsame]
  · obtain ⟨src, hsrc, hloop, -⟩ := hready.bound a e hmem
    exact ⟨src, hsrc, hloop⟩

section Batch

variable {batch : List (Entry × EpollEvents)} {behave : ℕ → List Op} {start : Loop}

/-- It holds after any number of rounds. -/
theorem Walking.turns (h : Walking batch start) {n : ℕ}
    (hlegal : ∀ i < n, LegalTurn behave i (turns behave i start)) :
    Walking batch (Loop.turns behave n start) := by
  induction n with
  | zero => exact h
  | succ n ih =>
    have hbefore := ih fun i hi => hlegal i (Nat.lt_succ_of_lt hi)
    exact (hbefore.turn (hlegal n (Nat.lt_succ_self n))).1

theorem Walking.calls_turns (h : Walking batch start) {n : ℕ}
    (hlegal : ∀ i < n + 1, LegalTurn behave i (Loop.turns behave i start)) :
    (Loop.turns behave (n + 1) start).calls =
      (Loop.turns behave n start).calls ++ turnCalls batch n (Loop.turns behave n start) := by
  have hbefore := h.turns fun i hi => hlegal i (Nat.lt_succ_of_lt hi)
  exact (hbefore.turn (hlegal n (Nat.lt_succ_self n))).2

/-- Another round calls nothing for a source. -/
theorem filter_turnCalls_of_ne (honce : ∀ (i j a : ℕ) (e e' : EpollEvents),
      batch[i]? = some (Entry.source a, e) → batch[j]? = some (Entry.source a, e') → i = j)
    {i n a : ℕ} {e : EpollEvents} (hi : batch[i]? = some (.source a, e)) (hne : i ≠ n)
    (loop : Loop) : (turnCalls batch n loop).filter (·.source = a) = [] := by
  refine List.filter_eq_nil_iff.mpr fun call hcall => ?_
  unfold turnCalls at hcall
  split at hcall
  · next b e' hn =>
    rw [source_of_mem_dueCalls hcall, decide_eq_true_eq]
    rintro rfl
    exact hne (honce i n b e e' hi hn)
  · exact absurd hcall (by simp)

/-- The calls for a source are those of its own round. -/
theorem Walking.filter_calls (h : Walking batch start) (hcalls : start.calls = [])
    (honce : ∀ (i j a : ℕ) (e e' : EpollEvents), batch[i]? = some (Entry.source a, e) →
      batch[j]? = some (Entry.source a, e') → i = j)
    {n : ℕ} (hlegal : ∀ i < n, LegalTurn behave i (Loop.turns behave i start))
    {i a : ℕ} {e : EpollEvents} (hi : batch[i]? = some (.source a, e)) :
    (Loop.turns behave n start).calls.filter (·.source = a) =
      if i < n then (Loop.turns behave i start).dueCalls a e else [] := by
  induction n with
  | zero => simp [Loop.turns, hcalls]
  | succ n ih =>
    rw [h.calls_turns hlegal, List.filter_append, ih fun j hj => hlegal j (Nat.lt_succ_of_lt hj)]
    by_cases hin : i = n
    · subst hin
      have hall : (turnCalls batch i (Loop.turns behave i start)).filter (·.source = a) =
          (Loop.turns behave i start).dueCalls a e := by
        simp only [turnCalls, hi]
        refine List.filter_eq_self.mpr fun call hcall => ?_
        rw [source_of_mem_dueCalls hcall, decide_eq_true_eq]
      rw [hall, if_neg (Nat.lt_irrefl i), if_pos (Nat.lt_succ_self i), List.nil_append]
    · rw [filter_turnCalls_of_ne honce hi hin, List.append_nil]
      refine if_congr ?_ rfl rfl
      omega

/-- Nothing outside the batch is called. -/
theorem Walking.source_of_calls (h : Walking batch start) (hcalls : start.calls = [])
    {n : ℕ} (hlegal : ∀ i < n, LegalTurn behave i (Loop.turns behave i start))
    {call : Call} (hcall : call ∈ (Loop.turns behave n start).calls) :
    ∃ e, (.source call.source, e) ∈ batch := by
  induction n with
  | zero => simp [Loop.turns, hcalls] at hcall
  | succ n ih =>
    rw [h.calls_turns hlegal] at hcall
    rcases List.mem_append.mp hcall with hcall | hcall
    · exact ih (fun j hj => hlegal j (Nat.lt_succ_of_lt hj)) hcall
    · unfold turnCalls at hcall
      split at hcall
      · next b e hn =>
        rw [source_of_mem_dueCalls hcall]
        exact ⟨e, List.mem_of_getElem? hn⟩
      · exact absurd hcall (by simp)

end Batch

/-- Growing the cache does not matter. -/
theorem Walking.grow {loop : Loop} (h : Walking batch loop) (mem : Bool) (count : ℕ) :
    Walking batch (loop.grow mem count) ∧ (Loop.grow mem count loop).calls = loop.calls := by
  unfold Loop.grow
  split_ifs
  · exact ⟨⟨⟨h.heap.fault, h.heap.ref⟩, h.dispatching, h.cached, h.bound⟩, rfl⟩
  · exact ⟨h, rfl⟩

/-- A batch is dispatched exactly: whatever legal calls the callbacks make, the loop
touches no freed source, calls nothing outside the batch, and calls the callback of a
source of the batch once if it is due when its turn comes, and not at all otherwise. -/
theorem dispatch_exact {loop : Loop} {batch : List (Entry × EpollEvents)} {pres posts : List Op}
    {behave : ℕ → List Op} {mem : Bool} (hexit : loop.exit = false)
    (hidle : loop.dispatching = false) (hheap : HeapOk loop)
    (hpres : LegalAll pres { loop with dispatching := true })
    (hready : Ready (loop.prepare pres) batch) (hfit : batch.length ≤ loop.curFdsSize)
    (hlegal : ∀ i < batch.length,
      LegalTurn behave i (Loop.turns behave i ((loop.prepare pres).beginBatch batch)))
    (hposts : LegalAll posts
      ((Loop.turns behave batch.length ((loop.prepare pres).beginBatch batch)).grow mem
        batch.length)) :
    (evEloopDispatch pres (.events batch) behave mem posts loop).1 = 0 ∧
      (evEloopDispatch pres (.events batch) behave mem posts loop).2.fault = false ∧
      (∀ call ∈ (evEloopDispatch pres (.events batch) behave mem posts loop).2.calls,
        ∃ e, (.source call.source, e) ∈ batch) ∧
      ∀ (i a : ℕ) (e : EpollEvents), batch[i]? = some (.source a, e) →
        (Due (Loop.turns behave i ((loop.prepare pres).beginBatch batch)) a →
          ∃ src cb, (Loop.turns behave i ((loop.prepare pres).beginBatch batch)).heap a =
              some src ∧ src.cb = some cb ∧
            (evEloopDispatch pres (.events batch) behave mem posts loop).2.calls.filter
              (·.source = a) = [⟨a, cb, convertMask e, src.data⟩]) ∧
        (¬ Due (Loop.turns behave i ((loop.prepare pres).beginBatch batch)) a →
          (evEloopDispatch pres (.events batch) behave mem posts loop).2.calls.filter
            (·.source = a) = []) := by
  have hframe : (loop.prepare pres).dispatching = true ∧
      (loop.prepare pres).curFdsSize = loop.curFdsSize := by
    have hsame : (loop.prepare pres).frame = (loop.calls, true, loop.curFdsSize) :=
      frame_applyAll pres
    exact ⟨congrArg (·.2.1) hsame, congrArg (·.2.2) hsame⟩
  have hdispatching : HeapOk { loop with dispatching := true } := ⟨hheap.fault, hheap.ref⟩
  have hprepared : HeapOk (loop.prepare pres) := hdispatching.applyAll hpres
  have hstart := walking_beginBatch hprepared hframe.1 hready
  set start := (loop.prepare pres).beginBatch batch with hstartEq
  have hend := hstart.turns hlegal
  obtain ⟨hgrown, hgrownCalls⟩ := hend.grow mem batch.length
  have hout : evEloopDispatch pres (.events batch) behave mem posts loop =
      (0, { ((Loop.turns behave batch.length start).grow mem batch.length).applyAll posts with
        dispatching := false }) := by
    unfold evEloopDispatch
    simp only [hexit, hidle, Bool.false_eq_true, if_false, hframe.2, List.take_of_length_le hfit,
      hstartEq]
  have hcalls : (evEloopDispatch pres (.events batch) behave mem posts loop).2.calls =
      (Loop.turns behave batch.length start).calls := by
    rw [hout]
    exact (calls_applyAll posts).trans hgrownCalls
  refine ⟨by rw [hout], ?_, ?_, ?_⟩
  · rw [hout]
    exact (hgrown.applyAll hposts).heap.fault
  · rw [hcalls]
    exact fun call hcall => hstart.source_of_calls rfl hlegal hcall
  · intro i a e hi
    obtain ⟨hlt, -⟩ := List.getElem?_eq_some_iff.mp hi
    rw [hcalls, hstart.filter_calls rfl hready.once hlegal hi, if_pos hlt]
    refine ⟨fun hdue => dueCalls_of_due hdue e, fun hdue => dueCalls_of_not_due hdue e⟩

/-- Two sources of which the first removes, and so frees, both. -/
def removalLoop : Loop where
  heap := fun a => if a = 1 ∨ a = 2 then
    some ⟨1, a, ⟨true, false, false, false, false⟩, some a, 0, true, some thisLoop⟩ else none
  curFds := []
  curFdsSize := 32
  dispatching := false
  exit := false
  calls := []
  removed := []
  fault := false

/-- Both are readable. -/
def removalBatch : List (Entry × EpollEvents) :=
  [(.source 1, ⟨true, false, false, false⟩), (.source 2, ⟨true, false, false, false⟩)]

/-- The first callback removes both sources. -/
def removeBoth : ℕ → List Op := fun _ => [.rmFd 2, .rmFd 1]

theorem removalLoop_ready : HeapOk removalLoop ∧
    Ready (removalLoop.prepare []) removalBatch := by
  refine ⟨⟨rfl, fun a src hsrc => ?_⟩, fun i j a e e' hi hj => ?_, fun a e hmem => ?_⟩
  · simp only [removalLoop] at hsrc
    split_ifs at hsrc
    obtain rfl := Option.some.inj hsrc
    exact Nat.le_refl 1
  · have hindex : ∀ (k b : ℕ) (e : EpollEvents), removalBatch[k]? = some (.source b, e) →
        k + 1 = b := by
      intro k b e hk
      rcases k with _ | _ | k
      · simp [removalBatch] at hk
        omega
      · simp [removalBatch] at hk
        omega
      · simp [removalBatch] at hk
    have := hindex i a e hi
    have := hindex j a e' hj
    omega
  · have hor : a = 1 ∨ a = 2 := by
      simp [removalBatch] at hmem
      omega
    exact ⟨_, if_pos hor, rfl, rfl⟩

/-- Nothing freed is touched, and the second source is not called. -/
theorem removalBatch_exact :
    (evEloopDispatch [] (.events removalBatch) removeBoth true [] removalLoop).2.fault = false ∧
      (evEloopDispatch [] (.events removalBatch) removeBoth true [] removalLoop).2.calls.filter
        (·.source = 2) = [] := by
  have hlegal : ∀ i < removalBatch.length, LegalTurn removeBoth i
      (Loop.turns removeBoth i ((removalLoop.prepare []).beginBatch removalBatch)) := by
    intro i hi
    rcases i with _ | _ | i
    · intro src call _ _
      exact ⟨Option.isSome_iff_ne_none.mp rfl, Option.isSome_iff_ne_none.mp rfl, trivial⟩
    · trivial
    · have hlen : removalBatch.length = 2 := rfl
      omega
  have hexact := @dispatch_exact removalLoop removalBatch [] [] removeBoth true rfl rfl
    removalLoop_ready.1 trivial removalLoop_ready.2 (by decide) hlegal trivial
  refine ⟨hexact.2.1, (hexact.2.2.2 1 2 _ rfl).2 fun hdue => hdue.1 ?_⟩
  exact List.mem_cons_of_mem 1 (List.mem_singleton_self 2)

end Loop

end Faceplate.Shl
