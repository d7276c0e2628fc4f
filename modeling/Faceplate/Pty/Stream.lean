import Faceplate.Pty.Delivery

/-!
# The stream of one session

Bytes reach the kernel on three ways: at once, from the ring when the master is
writeable, and after a short write partly on both. Each operation on an open PTY
splits what waited and what it was given, in this order, into what the kernel took
and what waits then. Over a session that started empty the two make up all that was
written.
-/

namespace Faceplate

variable {α : Type*}

/-- The loop of `shl_ring_write` succeeds with memory for as many bytes as it gets. -/
theorem Ring.writeLoop_fst {rounds mem : ℕ} {entries : List (List α)} {val : List α}
    (hval : val ≠ []) (hmem : val.length ≤ shlRingSize * mem) :
    (Ring.writeLoop rounds mem entries val).1 = true := by
  induction rounds generalizing mem entries val with
  | zero => rfl
  | succ rounds ih =>
    obtain ⟨before, ent, fresh, h⟩ : ∃ b e f, Ring.openEntry entries = (b, e, f) :=
      ⟨_, _, _, rfl⟩
    have hpos : 0 < val.length := List.length_pos_of_ne_nil hval
    obtain ⟨hfresh, -, hroom⟩ := Ring.openEntry_spec h
    have hmem₀ : mem ≠ 0 := by
      rintro rfl
      omega
    simp only [Ring.writeLoop, h, beq_iff_eq, hmem₀, Bool.and_eq_true, and_false, if_false]
    split_ifs with hrest
    · rfl
    · apply ih (by simpa using hrest)
      rw [List.length_drop]
      cases fresh with
      | false =>
        simp only [Bool.toNat_false, Nat.sub_zero]
        omega
      | true =>
        -- a new entry takes as many bytes as one allocation is good for
        obtain ⟨mem', rfl⟩ : ∃ mem', mem = mem' + 1 := ⟨mem - 1, by omega⟩
        simp only [(hfresh rfl).2, List.length_nil, Nat.sub_zero, Bool.toNat_true,
          Nat.add_sub_cancel]
        rw [Nat.mul_succ] at hmem
        omega

/-- With memory all bytes are queued. -/
theorem Ring.contents_write_all {ring : Ring α} {mem : ℕ} {val : List α}
    (hmem : val.length ≤ shlRingSize * mem) :
    (ring.write mem val).2.contents = ring.contents ++ val := by
  by_cases hval : val = []
  · simp [Ring.write, hval]
  · obtain ⟨k, hk, hall⟩ := Ring.contents_write ring mem val
    have hok : (ring.write mem val).1 = true := by
      unfold Ring.write
      rw [dif_neg hval]
      exact Ring.writeLoop_fst hval hmem
    rw [hk, List.take_of_length_le (hall hok)]

namespace Pty

/-- The call finds memory for its bytes and is not refused by the kernel. -/
def Served (call : WriteCall α) : Prop :=
  call.result ≠ .failed ∧ call.u8.length ≤ shlRingSize * call.mem

/-- An operation on an open PTY that is given some bytes: it stays open, and what
waited before and is given now is what the kernel takes and what waits then. -/
def Passes (pty : Pty α) (given : List α) (out : Pty α × List α) : Prop :=
  out.1.isOpen = true ∧ out.2 ++ out.1.msgbuf.contents = pty.msgbuf.contents ++ given

theorem Passes.refl {pty : Pty α} (hopen : pty.isOpen = true) : Passes pty [] (pty, []) :=
  ⟨hopen, by simp⟩

/-- One operation after the other. -/
theorem Passes.trans {pty mid : Pty α} {given given' sent : List α} {out : Pty α × List α}
    (h : Passes pty given (mid, sent)) (h' : Passes mid given' out) :
    Passes pty (given ++ given') (out.1, sent ++ out.2) := by
  refine ⟨h'.1, ?_⟩
  have hfirst := h.2
  have hsecond := h'.2
  simp only at hfirst ⊢
  rw [List.append_assoc, hsecond, ← List.append_assoc, hfirst, List.append_assoc]

theorem Passes.evFdUpdate {pty : Pty α} {given : List α} {out : Pty α × List α}
    (h : Passes pty given out) (mask : EvMask) : Passes pty given (out.1.evFdUpdate mask, out.2) :=
  h

/-- A write goes to the kernel only past an empty ring, and what the kernel leaves
of it is queued. -/
theorem passes_kmsconPtyWrite {pty : Pty α} (hopen : pty.isOpen = true) {call : WriteCall α}
    (hcall : Served call) : Passes pty call.u8 (pty.kmsconPtyWrite call).2 := by
  obtain ⟨hresult, hmem⟩ := hcall
  have hqueued : ∀ (q : Pty α) (u8 : List α), u8.length ≤ call.u8.length →
      (q.buffer call.mem u8).msgbuf.contents = q.msgbuf.contents ++ u8 := fun q u8 hu8 =>
    Ring.contents_write_all (Nat.le_trans hu8 hmem)
  unfold kmsconPtyWrite
  simp only [hopen, Bool.not_true, Bool.false_or]
  split_ifs with hnone hring
  · rw [List.isEmpty_iff.mp hnone]
    exact Passes.refl hopen
  · exact ⟨hopen, hqueued pty _ (Nat.le_refl _)⟩
  · have hempty : pty.msgbuf.contents = [] := by
      simpa [Ring.isEmpty_iff] using hring
    cases hanswer : call.result with
    | failed => exact absurd hanswer hresult
    | wouldBlock =>
      refine ⟨hopen, ?_⟩
      simp only [hqueued _ _ (Nat.le_refl _), msgbuf_evFdUpdate, List.nil_append]
    | accepted n =>
      simp only
      split_ifs with hall
      · exact ⟨hopen, by simp [hempty]⟩
      · refine ⟨hopen, ?_⟩
        have hrest : (call.u8.drop n).length ≤ call.u8.length := by simp
        simp only [hqueued _ _ hrest, msgbuf_evFdUpdate, hempty, List.nil_append,
          List.take_append_drop]

/-- Draining moves bytes from the front of the ring to the kernel. -/
theorem passes_sendBuf {pty : Pty α} (hopen : pty.isOpen = true) (results : List WriteResult) :
    Passes pty [] (sendBuf results pty) := by
  induction results generalizing pty with
  | nil =>
    unfold sendBuf
    cases pty.msgbuf.peek 0 with
    | none => exact (Passes.refl hopen).evFdUpdate _
    | some buf => exact Passes.refl hopen
  | cons result rest ih =>
    unfold sendBuf
    cases hpeek : pty.msgbuf.peek 0 with
    | none => exact (Passes.refl hopen).evFdUpdate _
    | some buf =>
      cases result with
      | failed => exact Passes.refl hopen
      | wouldBlock => exact Passes.refl hopen
      | accepted n =>
        simp only
        split_ifs with hzero
        · exact Passes.refl hopen
        · set ret := min n buf.length with hret
          have hfront : buf.take ret = pty.msgbuf.contents.take ret := by
            obtain ⟨tail, htail⟩ := (Ring.peek_some hpeek).2
            rw [List.drop_zero] at htail
            rw [← htail, List.take_append_of_le_length (by omega)]
          have hdrop : Passes pty [] ({ pty with msgbuf := pty.msgbuf.drop ret }, buf.take ret) := by
            refine ⟨hopen, ?_⟩
            simp only [hfront, Ring.contents_drop, List.take_append_drop, List.append_nil]
          exact hdrop.trans (ih hopen)

/-- The bytes of some writes. -/
def bytesOf (calls : List (WriteCall α)) : List α := calls.flatMap (·.u8)

theorem passes_inputCb {pty : Pty α} (hopen : pty.isOpen = true) {calls : List (WriteCall α)}
    (hcalls : ∀ call ∈ calls, Served call) : Passes pty (bytesOf calls) (inputCb calls pty) := by
  induction calls generalizing pty with
  | nil => exact Passes.refl hopen
  | cons call rest ih =>
    have hfirst := passes_kmsconPtyWrite hopen (hcalls call List.mem_cons_self)
    have hrest := ih hfirst.1 fun c hc => hcalls c (List.mem_cons_of_mem _ hc)
    exact hfirst.trans hrest

/-- Reading stops after so many rounds, and what follows is not looked at. -/
theorem passes_readLoop {pty : Pty α} (hopen : pty.isOpen = true) (num : ℕ)
    {reads : List (List (WriteCall α))}
    (hreads : ∀ call ∈ (reads.take num).flatten, Served call) :
    Passes pty (bytesOf (reads.take num).flatten) (readLoop num reads pty).2 := by
  induction num generalizing pty reads with
  | zero => exact Passes.refl hopen
  | succ num ih =>
    cases reads with
    | nil => exact Passes.refl hopen
    | cons calls rest =>
      simp only [List.take_succ_cons, List.flatten_cons, List.forall_mem_append] at hreads
      have hfirst := passes_inputCb hopen hreads.1
      have hrest := ih hfirst.1 hreads.2
      have hbytes : bytesOf ((calls :: rest).take (num + 1)).flatten =
          bytesOf calls ++ bytesOf (rest.take num).flatten := by
        simp [bytesOf]
      rw [hbytes]
      exact hfirst.trans hrest

theorem passes_readBuf {pty : Pty α} (hopen : pty.isOpen = true)
    {reads : List (List (WriteCall α))}
    (hreads : ∀ call ∈ (reads.take readBufSteps).flatten, Served call) :
    Passes pty (bytesOf (reads.take readBufSteps).flatten) (readBuf reads pty) := by
  have hloop := passes_readLoop hopen readBufSteps hreads
  unfold readBuf
  by_cases hbusy : (readLoop readBufSteps reads pty).1 = true
  · simp only [hbusy, if_true]
    exact hloop.evFdUpdate _
  · simp only [hbusy]
    exact hloop

/-- One open session: the PTY, all bytes passed to `kmscon_pty_write`, and all bytes
that the kernel accepted. -/
structure Session (α : Type*) where
  pty : Pty α
  given : List α
  taken : List α

/-- What happens in a session: a write, or an event on the master. Reading runs the
input callback, whose writes belong to the event. -/
inductive SessionEvent (α : Type*) where
  | write (call : WriteCall α)
  | ready (writeable readable : Bool) (results : List WriteResult)
      (reads : List (List (WriteCall α)))

/-- The calls of `kmscon_pty_write` that an event leads to. -/
def SessionEvent.calls : SessionEvent α → List (WriteCall α)
  | .write call => [call]
  | .ready _ readable _ reads => if readable then (reads.take readBufSteps).flatten else []

namespace Session

/-- Log an operation. -/
def record (session : Session α) (given : List α) (out : Pty α × List α) : Session α :=
  ⟨out.1, session.given ++ given, session.taken ++ out.2⟩

/-- One event. -/
def step (session : Session α) (event : SessionEvent α) : Session α :=
  session.record (bytesOf event.calls) <|
    match event with
    | .write call => (session.pty.kmsconPtyWrite call).2
    | .ready writeable readable results reads =>
      session.pty.ptyInput writeable readable results reads

/-- What the kernel accepted is the front of all that was written, and the ring holds
the rest in order. -/
def InOrder (session : Session α) : Prop :=
  session.taken ++ session.pty.msgbuf.contents = session.given

/-- Every call of the event is served. -/
def EventServed (_ : Session α) (event : SessionEvent α) : Prop := ∀ call ∈ event.calls, Served call

theorem passes_step {session : Session α} (hopen : session.pty.isOpen = true)
    {event : SessionEvent α} (hserved : ∀ call ∈ event.calls, Served call) :
    ∃ out, session.step event = session.record (bytesOf event.calls) out ∧
      Passes session.pty (bytesOf event.calls) out := by
  cases event with
  | write call =>
    refine ⟨_, rfl, ?_⟩
    have hpass := passes_kmsconPtyWrite hopen (hserved call (by simp [SessionEvent.calls]))
    simpa [SessionEvent.calls, bytesOf] using hpass
  | ready writeable readable results reads =>
    refine ⟨_, rfl, ?_⟩
    have hdrain : Passes session.pty []
        (if writeable then sendBuf results session.pty else (session.pty, [])) := by
      split_ifs
      · exact passes_sendBuf hopen results
      · exact Passes.refl hopen
    have hread : ∀ pty : Pty α, pty.isOpen = true →
        Passes pty (bytesOf (SessionEvent.ready writeable readable results reads).calls)
          (if readable then readBuf reads pty else (pty, [])) := by
      intro pty hpty
      simp only [SessionEvent.calls] at hserved ⊢
      split_ifs with hreadable
      · rw [if_pos hreadable] at hserved
        exact passes_readBuf hpty hserved
      · exact Passes.refl hpty
    exact hdrain.trans (hread _ hdrain.1)

/-- An event with served calls keeps the session open and in order. -/
theorem InOrder.step {session : Session α} (hopen : session.pty.isOpen = true)
    (horder : session.InOrder) {event : SessionEvent α} (hserved : session.EventServed event) :
    (session.step event).pty.isOpen = true ∧ (session.step event).InOrder := by
  obtain ⟨out, hstep, hstays, hpass⟩ := passes_step hopen hserved
  rw [hstep]
  refine ⟨hstays, ?_⟩
  unfold InOrder at horder ⊢
  simp only [record]
  rw [List.append_assoc, hpass, ← List.append_assoc, horder]

/-- In a session that starts with an empty ring, nothing is lost, duplicated or
reordered, as long as memory lasts and the kernel reports no error. -/
theorem always_inOrder {pty : Pty α} (hopen : pty.isOpen = true)
    (hempty : pty.msgbuf.isEmpty = true) {events : List (SessionEvent α)}
    (hserved : ∀ event ∈ events, ∀ call ∈ event.calls, Served call) :
    Runs.Always step InOrder ⟨pty, [], []⟩ events := by
  have hstart : InOrder (⟨pty, [], []⟩ : Session α) := by
    simp [InOrder, Ring.isEmpty_iff.mp hempty]
  have halong : Runs.Along step EventServed ⟨pty, [], []⟩ events :=
    Runs.along_of_forall (fun event hevent _ => hserved event hevent) _
  exact halong.always (J := fun session => session.pty.isOpen = true ∧ session.InOrder)
    (fun _ h => h.2) (fun _ _ h hevent => InOrder.step h.1 h.2 hevent) ⟨hopen, hstart⟩

/-- Three bytes of which one is taken, two more behind them, and a drain with a
short write. -/
theorem shortWrites_inOrder :
    Runs.Always step InOrder
      (⟨{ Pty.new false 0 with fd := some 5, efd := some EvMask.read }, [], []⟩ : Session ℕ)
      [.write ⟨[1, 2, 3], .accepted 1, 1⟩, .write ⟨[4, 5], .accepted 2, 1⟩,
        .ready true false [.accepted 3, .wouldBlock] []] := by
  refine always_inOrder rfl rfl ?_
  simp [SessionEvent.calls, Served, shlRingSize]

end Session

end Pty

end Faceplate
