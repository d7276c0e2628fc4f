import Faceplate.Lib.Runs
import Faceplate.Pty.Basic

/-!
# Delivery of typed bytes to their session

Bytes that the kernel does not take at once wait in the ring until the master is
writeable. Two things must hold while a session is open: waiting bytes keep the
fd registered for `EV_WRITEABLE`, and they belong to the open session. Both are
kept by every operation on an open PTY; an open after a close is where they can
be lost, because `kmscon_pty_close` leaves the ring as it is.
-/

namespace Faceplate.Pty

variable {α : Type*} {p : α → Prop}

/-- The fd is registered for `EV_WRITEABLE`. -/
def watchesWrite (pty : Pty α) : Bool :=
  match pty.efd with
  | some mask => mask.writeable
  | none => false

/-- An open PTY whose waiting bytes are registered for delivery and all satisfy
`p`, for instance that they were typed in the open session. -/
structure Live (p : α → Prop) (pty : Pty α) : Prop where
  isOpen : pty.isOpen = true
  registered : pty.efd.isSome = true
  watched : pty.msgbuf.contents ≠ [] → pty.watchesWrite = true
  owned : ∀ b ∈ pty.msgbuf.contents, p b

/-- What an operation on an open PTY has to keep: the PTY stays live, and the
bytes handed to the kernel satisfy `p`. -/
def Keeps (p : α → Prop) (out : Pty α × List α) : Prop :=
  Live p out.1 ∧ ∀ b ∈ out.2, p b

@[simp] theorem isOpen_evFdUpdate (pty : Pty α) (mask : EvMask) :
    (pty.evFdUpdate mask).isOpen = pty.isOpen := rfl

@[simp] theorem msgbuf_evFdUpdate (pty : Pty α) (mask : EvMask) :
    (pty.evFdUpdate mask).msgbuf = pty.msgbuf := rfl

theorem watchesWrite_evFdUpdate {pty : Pty α} (h : pty.efd.isSome = true) (mask : EvMask) :
    (pty.evFdUpdate mask).watchesWrite = mask.writeable := by
  obtain ⟨old, hold⟩ := Option.isSome_iff_exists.mp h
  simp [watchesWrite, evFdUpdate, hold]

/-- A live PTY may register any mask that watches for room whenever bytes wait. -/
theorem Live.evFdUpdate {pty : Pty α} (h : Live p pty) {mask : EvMask}
    (hmask : pty.msgbuf.contents ≠ [] → mask.writeable = true) :
    Live p (pty.evFdUpdate mask) where
  isOpen := h.isOpen
  registered := by simpa [Pty.evFdUpdate] using h.registered
  watched := fun hne => (watchesWrite_evFdUpdate h.registered mask).trans (hmask hne)
  owned := h.owned

/-- Once the fd watches for room, queued bytes of the session do no harm. -/
theorem Live.buffer {pty : Pty α} (h : Live p pty) (hwatch : pty.watchesWrite = true)
    (mem : ℕ) {u8 : List α} (hu8 : ∀ b ∈ u8, p b) : Live p (pty.buffer mem u8) where
  isOpen := h.isOpen
  registered := h.registered
  watched := fun _ => hwatch
  owned := by
    obtain ⟨k, hk, -⟩ := Ring.contents_write pty.msgbuf mem u8
    intro b hb
    rw [Pty.buffer, hk] at hb
    rcases List.mem_append.mp hb with hb | hb
    · exact h.owned b hb
    · exact hu8 b (List.mem_of_mem_take hb)

theorem Live.drop {pty : Pty α} (h : Live p pty) (len : ℕ) :
    Live p { pty with msgbuf := pty.msgbuf.drop len } where
  isOpen := h.isOpen
  registered := h.registered
  watched := by
    intro hne
    refine h.watched fun hnil => hne ?_
    simp [hnil]
  owned := by
    intro b hb
    rw [Ring.contents_drop] at hb
    exact h.owned b (List.mem_of_mem_drop hb)

/-- A write either goes to the kernel, joins bytes that are already watched, or
registers the watch before it queues. -/
theorem Live.kmsconPtyWrite {pty : Pty α} (h : Live p pty) {call : WriteCall α}
    (hu8 : ∀ b ∈ call.u8, p b) : Keeps p (pty.kmsconPtyWrite call).2 := by
  have hwatched : (pty.evFdUpdate EvMask.readWrite).watchesWrite = true :=
    watchesWrite_evFdUpdate h.registered _
  have hupdate : Live p (pty.evFdUpdate EvMask.readWrite) := h.evFdUpdate fun _ => rfl
  unfold Pty.kmsconPtyWrite
  split_ifs with hrefused hring
  · exact ⟨h, by simp⟩
  · have hne : pty.msgbuf.contents ≠ [] := by
      simpa [Ring.isEmpty_eq_false_iff] using hring
    exact ⟨h.buffer (h.watched hne) _ hu8, by simp⟩
  · cases call.result with
    | failed => exact ⟨h, by simp⟩
    | wouldBlock => exact ⟨hupdate.buffer hwatched _ hu8, by simp⟩
    | accepted n =>
      simp only
      split_ifs with hall
      · exact ⟨h, hu8⟩
      · refine ⟨hupdate.buffer hwatched _ fun b hb => hu8 b (List.mem_of_mem_drop hb), ?_⟩
        exact fun b hb => hu8 b (List.mem_of_mem_take hb)

/-- Draining takes bytes from the front only, and gives up the watch only when
the ring is empty. -/
theorem Live.sendBuf {pty : Pty α} (h : Live p pty) (results : List WriteResult) :
    Keeps p (sendBuf results pty) := by
  induction results generalizing pty with
  | nil =>
    unfold Pty.sendBuf
    cases hpeek : pty.msgbuf.peek 0 with
    | none =>
      have hnil : pty.msgbuf.contents = [] := by simpa using Ring.peek_none hpeek
      exact ⟨h.evFdUpdate fun hne => absurd hnil hne, by simp⟩
    | some buf => exact ⟨h, by simp⟩
  | cons result rest ih =>
    unfold Pty.sendBuf
    cases hpeek : pty.msgbuf.peek 0 with
    | none =>
      have hnil : pty.msgbuf.contents = [] := by simpa using Ring.peek_none hpeek
      exact ⟨h.evFdUpdate fun hne => absurd hnil hne, by simp⟩
    | some buf =>
      cases result with
      | failed => exact ⟨h, by simp⟩
      | wouldBlock => exact ⟨h, by simp⟩
      | accepted n =>
        simp only
        split_ifs with hzero
        · exact ⟨h, by simp⟩
        · obtain ⟨hlive, hsent⟩ := ih (h.drop (min n buf.length))
          refine ⟨hlive, fun b hb => ?_⟩
          rcases List.mem_append.mp hb with hb | hb
          · have hpre := (Ring.peek_some hpeek).2
            rw [List.drop_zero] at hpre
            exact h.owned b (hpre.subset (List.mem_of_mem_take hb))
          · exact hsent b hb

theorem Live.inputCb {pty : Pty α} (h : Live p pty) {calls : List (WriteCall α)}
    (hcalls : ∀ call ∈ calls, ∀ b ∈ call.u8, p b) : Keeps p (inputCb calls pty) := by
  induction calls generalizing pty with
  | nil => exact ⟨h, by simp [Pty.inputCb]⟩
  | cons call rest ih =>
    obtain ⟨hlive, hsent⟩ := h.kmsconPtyWrite (hcalls call List.mem_cons_self)
    obtain ⟨hlive', hsent'⟩ := ih hlive fun c hc => hcalls c (List.mem_cons_of_mem _ hc)
    refine ⟨hlive', fun b hb => ?_⟩
    rcases List.mem_append.mp hb with hb | hb
    · exact hsent b hb
    · exact hsent' b hb

theorem Live.readLoop {pty : Pty α} (h : Live p pty) (num : ℕ)
    {reads : List (List (WriteCall α))}
    (hreads : ∀ calls ∈ reads, ∀ call ∈ calls, ∀ b ∈ call.u8, p b) :
    Keeps p (readLoop num reads pty).2 := by
  induction num generalizing pty reads with
  | zero => exact ⟨h, by simp [Pty.readLoop]⟩
  | succ num ih =>
    cases reads with
    | nil => exact ⟨h, by simp [Pty.readLoop]⟩
    | cons calls rest =>
      obtain ⟨hlive, hsent⟩ := h.inputCb (hreads calls List.mem_cons_self)
      obtain ⟨hlive', hsent'⟩ := ih hlive fun c hc => hreads c (List.mem_cons_of_mem _ hc)
      refine ⟨hlive', fun b hb => ?_⟩
      rcases List.mem_append.mp hb with hb | hb
      · exact hsent b hb
      · exact hsent' b hb

/-- The busy path re-registers with a watch exactly when bytes wait. -/
theorem Live.readBuf {pty : Pty α} (h : Live p pty) {reads : List (List (WriteCall α))}
    (hreads : ∀ calls ∈ reads, ∀ call ∈ calls, ∀ b ∈ call.u8, p b) :
    Keeps p (readBuf reads pty) := by
  obtain ⟨hlive, hsent⟩ := h.readLoop readBufSteps hreads
  unfold Pty.readBuf
  by_cases hbusy : (Pty.readLoop readBufSteps reads pty).1 = true
  · simp only [hbusy, if_true]
    refine ⟨hlive.evFdUpdate fun hne => ?_, hsent⟩
    simp [Ring.isEmpty_eq_false_iff.mpr hne, EvMask.readWrite]
  · simp only [hbusy]
    exact ⟨hlive, hsent⟩

theorem Live.ptyInput {pty : Pty α} (h : Live p pty) (writeable readable : Bool)
    (results : List WriteResult) {reads : List (List (WriteCall α))}
    (hreads : ∀ calls ∈ reads, ∀ call ∈ calls, ∀ b ∈ call.u8, p b) :
    Keeps p (pty.ptyInput writeable readable results reads) := by
  have hwrite : Keeps p (if writeable then Pty.sendBuf results pty else (pty, [])) := by
    split_ifs
    · exact h.sendBuf results
    · exact ⟨h, by simp⟩
  have hread (q : Pty α) (hq : Live p q) :
      Keeps p (if readable then Pty.readBuf reads q else (q, [])) := by
    split_ifs
    · exact hq.readBuf hreads
    · exact ⟨hq, by simp⟩
  obtain ⟨hlive, hsent⟩ := hwrite
  obtain ⟨hlive', hsent'⟩ := hread _ hlive
  refine ⟨hlive', fun b hb => ?_⟩
  rcases List.mem_append.mp hb with hb | hb
  · exact hsent b hb
  · exact hsent' b hb

theorem kmsconPtyOpen_of_closed {pty : Pty α} (hclosed : pty.isOpen = false) (ids : ℕ × ℕ)
    (err : ℤ) :
    (pty.kmsconPtyOpen (some ids) err).2 =
      { pty with fd := some ids.1, child := ids.2, efd := some EvMask.read } := by
  simp [kmsconPtyOpen, hclosed]

theorem isOpen_kmsconPtyClose (pty : Pty α) : pty.kmsconPtyClose.isOpen = false := by
  unfold kmsconPtyClose
  split_ifs with hopen
  · rfl
  · simpa using hopen

theorem sigChild_frame (pty : Pty α) (pid : ℕ) (now : ℤ) :
    (pty.sigChild pid now).2.fd = pty.fd ∧ (pty.sigChild pid now).2.efd = pty.efd ∧
      (pty.sigChild pid now).2.msgbuf = pty.msgbuf := by
  unfold sigChild
  split_ifs <;> exact ⟨rfl, rfl, rfl⟩

/-- A byte together with the number of the session it was typed in. -/
structure Stamped where
  session : ℕ
  byte : UInt8
  deriving DecidableEq, Repr

/-- The same write with its bytes stamped. -/
def stamp (session : ℕ) (call : WriteCall UInt8) : WriteCall Stamped where
  u8 := call.u8.map (Stamped.mk session)
  result := call.result
  mem := call.mem

theorem session_of_mem_stamp {session : ℕ} {call : WriteCall UInt8} {b : Stamped}
    (hb : b ∈ (stamp session call).u8) : b.session = session := by
  obtain ⟨byte, -, rfl⟩ := List.mem_map.mp hb
  rfl

/-- One `kmscon_pty` over its whole life. `session` counts the successful opens;
`sent` lists each byte the kernel took with the session it was written to. -/
structure Life where
  pty : Pty Stamped
  session : ℕ
  sent : List (ℕ × Stamped)

/-- What can happen to the PTY. `ready` is a dispatched event; of its bits only
those the fd is registered for arrive. -/
inductive Event where
  | opened (spawned : Option (ℕ × ℕ)) (err : ℤ)
  | write (call : WriteCall UInt8)
  | ready (writeable readable : Bool) (results : List WriteResult)
      (reads : List (List (WriteCall UInt8)))
  | child (pid : ℕ) (now : ℤ)
  | close

namespace Life

/-- A new object, created at time `now`. -/
def init (oneshot : Bool) (now : ℤ) : Life := ⟨Pty.new oneshot now, 0, []⟩

/-- Log what an operation handed to the kernel. -/
def record (life : Life) (out : Pty Stamped × List Stamped) : Life where
  pty := out.1
  session := life.session
  sent := life.sent ++ out.2.map (Prod.mk life.session)

/-- One event. -/
def step (life : Life) : Event → Life
  | .opened spawned err =>
    { life with
      pty := (life.pty.kmsconPtyOpen spawned err).2
      session := if !life.pty.isOpen && spawned.isSome then life.session + 1 else life.session }
  | .write call => life.record (life.pty.kmsconPtyWrite (stamp life.session call)).2
  | .ready writeable readable results reads =>
    match life.pty.efd with
    | none => life
    | some mask =>
      life.record (life.pty.ptyInput (writeable && mask.writeable) (readable && mask.readable)
        results (reads.map (List.map (stamp life.session))))
  | .child pid now => { life with pty := (life.pty.sigChild pid now).2 }
  | .close => { life with pty := life.pty.kmsconPtyClose }

/-- Waiting bytes of an open PTY are registered for delivery, and no byte ever
went to a session later than its own. -/
def Delivers (life : Life) : Prop :=
  (life.pty.isOpen = true → life.pty.msgbuf.isEmpty = false → life.pty.watchesWrite = true) ∧
    ∀ entry ∈ life.sent, ¬ entry.2.session < entry.1

instance : DecidablePred Delivers := fun _ => inferInstanceAs (Decidable (_ ∧ _))

/-- A session that is being opened finds the ring empty. -/
def OpensEmpty (life : Life) : Event → Prop
  | .opened (some _) _ => life.pty.isOpen = false → life.pty.msgbuf.isEmpty = true
  | _ => True

/-- The invariant: an open PTY is live with bytes of the current session, and
every byte sent went to its own session. -/
structure Sound (life : Life) : Prop where
  live : life.pty.isOpen = true → Live (fun b => b.session = life.session) life.pty
  idle : life.pty.isOpen = false → life.pty.efd = none
  sent : ∀ entry ∈ life.sent, entry.2.session = entry.1

theorem Sound.delivers {life : Life} (h : life.Sound) : life.Delivers := by
  refine ⟨fun hopen hring => ?_, fun entry hentry => ?_⟩
  · exact (h.live hopen).watched (Ring.isEmpty_eq_false_iff.mp hring)
  · have := h.sent entry hentry
    omega

theorem Sound.record {life : Life} (h : life.Sound) {out : Pty Stamped × List Stamped}
    (hkeeps : Keeps (fun b => b.session = life.session) out) : (life.record out).Sound where
  live := fun _ => hkeeps.1
  idle := fun hclosed => absurd hkeeps.1.isOpen (by simpa [Life.record] using hclosed)
  sent := by
    intro entry hentry
    rcases List.mem_append.mp hentry with hentry | hentry
    · exact h.sent entry hentry
    · obtain ⟨b, hb, rfl⟩ := List.mem_map.mp hentry
      exact hkeeps.2 b hb

/-- A closed PTY takes no write. -/
theorem record_closed {life : Life} (hclosed : life.pty.isOpen = false)
    (call : WriteCall Stamped) : life.record (life.pty.kmsconPtyWrite call).2 = life := by
  simp [kmsconPtyWrite, hclosed, Life.record]

/-- Every step that opens no session over waiting bytes keeps the invariant. -/
theorem Sound.step {life : Life} {e : Event} (h : life.Sound) (hempty : life.OpensEmpty e) :
    (life.step e).Sound := by
  cases e with
  | opened spawned err =>
    cases hopen : life.pty.isOpen with
    | true =>
      simpa [Life.step, kmsconPtyOpen, hopen] using h
    | false =>
      cases spawned with
      | none =>
        have hsame : life.step (.opened none err) = life := by
          obtain ⟨⟨fd, child, efd, msgbuf, oneshot, spawn, retry⟩, session, sent⟩ := life
          obtain rfl := h.idle hopen
          simp [Life.step, kmsconPtyOpen, hopen]
        rwa [hsame]
      | some ids =>
        have hnil := Ring.isEmpty_iff.mp (hempty hopen)
        have hpty := kmsconPtyOpen_of_closed hopen ids err
        refine ⟨fun _ => ?_, fun hclosed => ?_, h.sent⟩
        · simp only [Life.step, hpty]
          exact ⟨rfl, rfl, fun hne => absurd hnil hne, by simp [hnil]⟩
        · simp [Life.step, hpty, isOpen] at hclosed
  | write call =>
    cases hopen : life.pty.isOpen with
    | true => exact h.record ((h.live hopen).kmsconPtyWrite fun _ hb => session_of_mem_stamp hb)
    | false => simpa only [Life.step, record_closed hopen] using h
  | ready writeable readable results reads =>
    cases hefd : life.pty.efd with
    | none => simpa only [Life.step, hefd] using h
    | some mask =>
      have hopen : life.pty.isOpen = true := by
        by_contra hclosed
        simp [h.idle (by simpa using hclosed)] at hefd
      simp only [Life.step, hefd]
      refine h.record ((h.live hopen).ptyInput _ _ _ ?_)
      intro calls hcalls call hcall b hb
      obtain ⟨raw, -, rfl⟩ := List.mem_map.mp hcalls
      obtain ⟨rawCall, -, rfl⟩ := List.mem_map.mp hcall
      exact session_of_mem_stamp hb
  | child pid now =>
    obtain ⟨hfd, hefd, hring⟩ := sigChild_frame life.pty pid now
    refine ⟨fun hopen => ?_, fun hclosed => ?_, h.sent⟩
    · obtain ⟨hopen', hregistered, hwatched, howned⟩ :=
        h.live (by simpa only [Life.step, isOpen, hfd] using hopen)
      refine ⟨hopen, ?_, ?_, ?_⟩
      · simpa only [Life.step, hefd] using hregistered
      · simpa only [Life.step, hring, watchesWrite, hefd] using hwatched
      · simpa only [Life.step, hring] using howned
    · have hefd' := h.idle (by simpa only [Life.step, isOpen, hfd] using hclosed)
      simpa only [Life.step, hefd] using hefd'
  | close =>
    have hclosed := isOpen_kmsconPtyClose life.pty
    refine ⟨fun hopen => absurd hopen (by simp [Life.step, hclosed]), fun _ => ?_, h.sent⟩
    simp only [Life.step, kmsconPtyClose]
    split_ifs with hopen
    · rfl
    · exact h.idle (by simpa using hopen)

/-- An open over waiting bytes leaves them unregistered at once. -/
theorem Sound.opensEmpty_of_delivers {life : Life} {e : Event}
    (h : (life.step e).Delivers) : life.OpensEmpty e := by
  cases e with
  | opened spawned err =>
    cases spawned with
    | none => trivial
    | some ids =>
      intro hopen
      by_contra hring
      have hpty := kmsconPtyOpen_of_closed hopen ids err
      have hwatch := h.1 (by simp [Life.step, hpty, isOpen])
        (by simpa [Life.step, hpty] using hring)
      simp [Life.step, hpty, watchesWrite, EvMask.read] at hwatch
  | write call => trivial
  | ready writeable readable results reads => trivial
  | child pid now => trivial
  | close => trivial

theorem sound_init (oneshot : Bool) (now : ℤ) : (init oneshot now).Sound where
  live := by simp [init, Pty.new, isOpen]
  idle := fun _ => rfl
  sent := by simp [init]

/-- Delivery over whole lives: bytes reach their own session and are never left
without a registration exactly if every session is opened over an empty ring. -/
theorem delivers_iff_opensEmpty (oneshot : Bool) (now : ℤ) (es : List Event) :
    Runs.Always step Delivers (init oneshot now) es ↔
      Runs.Along step OpensEmpty (init oneshot now) es :=
  Runs.always_iff_along (J := Sound) (fun _ h => h.delivers) (fun _ _ h hC => h.step hC)
    (fun _ _ _ h => Sound.opensEmpty_of_delivers h) (sound_init oneshot now)

/-- Three bytes are typed and one is taken; the session is closed and the next
one opened. Once that session has been busy for fifty reads the fd watches for
room again and the two bytes left over go out. -/
def leftoverRun : List Event :=
  [.opened (some (5, 100)) 0, .write ⟨[65, 66, 67], .accepted 1, 1⟩, .close,
    .opened (some (5, 101)) 0, .ready false true [] (List.replicate 50 []),
    .ready true false [.accepted 2] []]

/-- The leftover bytes are first stuck, then sent to the second session. -/
theorem leftoverRun_not_delivers :
    ¬ (∀ es, Runs.Always step Delivers (init false 0) es) ∧
      (2, Stamped.mk 1 66) ∈ (Runs.run step (init false 0) leftoverRun).sent := by
  refine ⟨fun h => absurd (h leftoverRun) (by decide +kernel), by decide +kernel⟩

end Life

end Faceplate.Pty
