import Faceplate.HostSession.Packet

/-!
# Bounds of the packet parser

The memory is the received packet followed by whatever lies behind it, so a read
at an offset past the packet is a read of foreign bytes. The loops test where a
string starts, never where it ends; the last theorem says for which packets
that is enough.
-/

namespace Faceplate.HostSession

open CString

/-- All reads stay below an offset. -/
def Below (stop : ℕ) (reads : List ℕ) : Prop := ∀ i ∈ reads, i < stop

instance (stop : ℕ) : DecidablePred (Below stop) :=
  fun reads => inferInstanceAs (Decidable (∀ i ∈ reads, i < stop))

@[simp] theorem below_nil (stop : ℕ) : Below stop [] := by simp [Below]

@[simp] theorem below_append {stop : ℕ} {reads reads' : List ℕ} :
    Below stop (reads ++ reads') ↔ Below stop reads ∧ Below stop reads' :=
  List.forall_mem_append

@[simp] theorem below_range' {stop p n : ℕ} :
    Below stop (List.range' p (n + 1)) ↔ p + n < stop := by
  simp only [Below, List.mem_range'_1]
  constructor
  · intro h
    exact h (p + n) (by omega)
  · intro h i hi
    omega

/-- A packet whose strings cannot be overrun by reading `count` of them: they are
all there, or the bytes end with a NUL, or there are no bytes. -/
def Terminated (count : ℕ) (payload : List UInt8) : Prop :=
  count ≤ payload.count 0 ∨ ∀ c ∈ payload.getLast?, c = 0

theorem terminated_nil (count : ℕ) : Terminated count [] := Or.inr (by simp)

/-- Without a NUL in a non-empty payload the first string is overrun. -/
theorem not_terminated_of_not_mem {count : ℕ} {payload : List UInt8} (hne : payload ≠ [])
    (h : 0 ∉ payload) : ¬ Terminated (count + 1) payload := by
  rintro (hcount | hlast)
  · rw [List.count_eq_zero.mpr h] at hcount
    omega
  · have hmem := List.getLast_mem hne
    have := hlast _ (List.getLast?_eq_some_getLast hne)
    exact h (this ▸ hmem)

/-- A terminated first string may be taken off. -/
theorem terminated_drop {count : ℕ} {payload : List UInt8} (h : 0 ∈ payload) :
    Terminated (count + 1) payload ↔ Terminated count (payload.drop (strlen payload + 1)) := by
  have hcount := count_zero_of_mem h
  have hlt := strlen_lt_of_mem h
  have hend := getD_strlen payload
  by_cases hall : payload.length ≤ strlen payload + 1
  · rw [List.drop_eq_nil_of_le hall]
    refine iff_of_true (Or.inr ?_) (terminated_nil count)
    intro c hc
    rw [List.getLast?_eq_getElem?, show payload.length - 1 = strlen payload by omega] at hc
    rw [List.getD_eq_getElem?_getD, Option.mem_def.mp hc] at hend
    exact hend
  · have hlast : (payload.drop (strlen payload + 1)).getLast? = payload.getLast? := by
      rw [List.getLast?_drop, if_neg hall]
    have hcounts : count + 1 ≤ payload.count 0 ↔
        count ≤ (payload.drop (strlen payload + 1)).count 0 := by
      omega
    unfold Terminated
    rw [hlast, hcounts]

theorem readVector_of_le {mem : List UInt8} {stop count p : ℕ} (h : stop ≤ p) :
    readVector mem stop (count + 1) p = (none, []) := by
  simp [readVector, h]

theorem readVector_of_lt {mem : List UInt8} {stop count p : ℕ} (h : p < stop) :
    readVector mem stop (count + 1) p =
      let out := readVector mem stop count (p + strlen (mem.drop p) + 1)
      (out.1.map fun (ptrs, q) => (p :: ptrs, q),
        List.range' p (strlen (mem.drop p) + 1) ++ out.2) := by
  simp [readVector, Nat.not_le.mpr h]

section Loops

variable {received beyond : List UInt8}

/-- One vector is read inside the packet exactly if its strings are terminated
there. -/
theorem readVector_below_iff (count p : ℕ) :
    Below received.length (readVector (received ++ beyond) received.length count p).2 ↔
      Terminated count (received.drop p) := by
  induction count generalizing p with
  | zero => simp [readVector, Terminated]
  | succ count ih =>
    rcases Nat.lt_or_ge p received.length with hp | hp
    · have hdrop : (received ++ beyond).drop p = received.drop p ++ beyond :=
        List.drop_append_of_le_length (by omega)
      have hne : received.drop p ≠ [] := by
        simpa using hp
      rw [readVector_of_lt hp]
      simp only [below_append, below_range', ih, hdrop]
      by_cases hzero : 0 ∈ received.drop p
      · have hlt := strlen_lt_of_mem hzero
        rw [List.length_drop] at hlt
        rw [terminated_drop hzero, strlen_append_of_mem beyond hzero, List.drop_drop]
        have hin : p + strlen (received.drop p) < received.length := by omega
        simp only [hin, true_and, Nat.add_assoc]
      · rw [strlen_append_of_not_mem beyond hzero, List.length_drop]
        refine iff_of_false (fun h => ?_) (not_terminated_of_not_mem hne hzero)
        omega
    · rw [readVector_of_le hp, List.drop_eq_nil_of_le hp]
      exact iff_of_true (below_nil _) (terminated_nil _)

/-- Two vectors one behind the other are read like one. -/
theorem readVector_add (mem : List UInt8) (stop a b p : ℕ) :
    (readVector mem stop (a + b) p).2 =
      (readVector mem stop a p).2 ++
        match (readVector mem stop a p).1 with
        | none => []
        | some (_, q) => (readVector mem stop b q).2 := by
  induction a generalizing p with
  | zero => simp [readVector]
  | succ a ih =>
    rw [Nat.succ_add]
    rcases Nat.lt_or_ge p stop with hp | hp
    · rw [readVector_of_lt hp, readVector_of_lt hp]
      simp only [ih, List.append_assoc]
      cases (readVector mem stop a (p + strlen (mem.drop p) + 1)).1 <;> rfl
    · rw [readVector_of_le hp, readVector_of_le hp]
      rfl

/-- A completed vector has the requested number of entries. Each stands at or
behind the first offset, and its string was read up to its end. -/
theorem readVector_some {mem : List UInt8} {stop count p : ℕ} {ptrs : List ℕ} {q : ℕ}
    (h : (readVector mem stop count p).1 = some (ptrs, q)) :
    ptrs.length = count ∧ p ≤ q ∧ ∀ ptr ∈ ptrs, p ≤ ptr ∧
      ptr + strlen (mem.drop ptr) ∈ (readVector mem stop count p).2 := by
  induction count generalizing p ptrs with
  | zero =>
    simp only [readVector, Option.some.injEq, Prod.mk.injEq] at h
    obtain ⟨rfl, rfl⟩ := h
    simp
  | succ count ih =>
    rcases Nat.lt_or_ge p stop with hp | hp
    · rw [readVector_of_lt hp] at h ⊢
      simp only [Option.map_eq_some_iff, Prod.mk.injEq, Prod.exists] at h
      obtain ⟨rest, q', hrest, rfl, rfl⟩ := h
      obtain ⟨hlen, hle, hptrs⟩ := ih hrest
      refine ⟨by simp [hlen], by omega, fun ptr hptr => ?_⟩
      rcases List.mem_cons.mp hptr with rfl | hptr
      · refine ⟨Nat.le_refl _, List.mem_append_left _ ?_⟩
        rw [List.mem_range'_1]
        omega
      · obtain ⟨hge, hread⟩ := hptrs ptr hptr
        exact ⟨by omega, List.mem_append_right _ hread⟩
    · rw [readVector_of_le hp] at h
      exact absurd h (by simp)

end Loops

theorem strlen_drop_of_ne_zero {mem : List UInt8} {p : ℕ} (h : byteAt mem p ≠ 0) :
    strlen (mem.drop p) = strlen (mem.drop (p + 1)) + 1 := by
  have hp : p < mem.length := by
    by_contra hge
    exact h (by simp [byteAt, Nat.not_lt.mp hge])
  have hbyte : mem[p] ≠ 0 := by
    simpa [byteAt, hp] using h
  rw [List.drop_eq_getElem_cons hp, strlen_cons, if_neg hbyte]

/-- A prefix test reads no further than the end of the string. -/
theorem hasPrefix_reads (mem : List UInt8) {pat : List UInt8} (hpat : 0 ∉ pat) (p : ℕ) :
    ∀ i ∈ (hasPrefix mem pat p).2, i ≤ p + strlen (mem.drop p) := by
  induction pat generalizing p with
  | nil => simp [hasPrefix]
  | cons c rest ih =>
    simp only [List.mem_cons, not_or] at hpat
    unfold hasPrefix
    split_ifs with hc
    · have hstep := strlen_drop_of_ne_zero (hc ▸ Ne.symm hpat.1 : byteAt mem p ≠ 0)
      intro i hi
      rcases List.mem_cons.mp hi with rfl | hi
      · omega
      · have := ih hpat.2 (p + 1) i hi
        omega
    · intro i hi
      rw [List.mem_singleton.mp hi]
      omega

/-- What follows a prefix that was found ends where the whole string ends. -/
theorem strlen_after_prefix {mem pat : List UInt8} (hpat : 0 ∉ pat) {p : ℕ}
    (h : (hasPrefix mem pat p).1 = true) :
    p + pat.length + strlen (mem.drop (p + pat.length)) = p + strlen (mem.drop p) := by
  induction pat generalizing p with
  | nil => simp
  | cons c rest ih =>
    simp only [List.mem_cons, not_or] at hpat
    unfold hasPrefix at h
    split_ifs at h with hc
    have hstep := strlen_drop_of_ne_zero (hc ▸ Ne.symm hpat.1 : byteAt mem p ≠ 0)
    have hrest := ih hpat.2 h
    rw [List.length_cons, show p + (rest.length + 1) = p + 1 + rest.length by omega]
    omega

/-- The search stays below any bound that the strings of the vector keep, and so
does the value it finds. -/
theorem findTerm_below {mem : List UInt8} {stop : ℕ} {env : List (Option ℕ)}
    (henv : ∀ ptr, some ptr ∈ env → ptr + strlen (mem.drop ptr) < stop) :
    Below stop (findTerm mem env).2 ∧
      ∀ p, (findTerm mem env).1 = some p → p + strlen (mem.drop p) < stop := by
  have hlit : 0 ∉ lit "TERM=" := by decide
  induction env with
  | nil => simp [findTerm]
  | cons entry rest ih =>
    cases entry with
    | none => simp [findTerm]
    | some ptr =>
      have hptr := henv ptr List.mem_cons_self
      have hreads : Below stop (hasPrefix mem (lit "TERM=") ptr).2 := fun i hi => by
        have := hasPrefix_reads mem hlit ptr i hi
        omega
      obtain ⟨hbelow, hvalue⟩ := ih fun q hq => henv q (List.mem_cons_of_mem _ hq)
      unfold findTerm
      cases hfound : (hasPrefix mem (lit "TERM=") ptr).1 with
      | false =>
        simp only [hfound]
        exact ⟨below_append.mpr ⟨hreads, hbelow⟩, hvalue⟩
      | true =>
        simp only [hfound, if_true]
        refine ⟨hreads, fun p hp => ?_⟩
        obtain rfl := Option.some.inj hp
        have hafter := strlen_after_prefix hlit hfound
        have hlength : (lit "TERM=").length = 5 := rfl
        rw [hlength] at hafter
        omega

theorem checkTerm_reads (v : List UInt8) : (checkTerm v).2 ≤ v.length + 1 := by
  induction v with
  | nil => simp [checkTerm]
  | cons c rest ih =>
    unfold checkTerm
    split_ifs with hc
    · simpa using ih
    · simp

/-- Choosing the terminal type reads the environment strings only. -/
theorem sanitizedTerm_below {mem : List UInt8} {stop : ℕ} {env : List (Option ℕ)}
    (henv : ∀ ptr, some ptr ∈ env → ptr + strlen (mem.drop ptr) < stop) :
    Below stop (sanitizedTerm mem env).2 := by
  obtain ⟨hsearch, hvalue⟩ := findTerm_below henv
  unfold sanitizedTerm
  cases hfound : (findTerm mem env).1 with
  | none => simpa only [hfound] using hsearch
  | some p =>
    have hend := hvalue p hfound
    have hmeasured : Below stop (List.range' p ((cstr (mem.drop p)).length + 1)) :=
      below_range'.mpr hend
    have hchecked : Below stop (List.range' p (checkTerm (cstr (mem.drop p))).2) := by
      have hn := checkTerm_reads (cstr (mem.drop p))
      intro i hi
      rw [List.mem_range'_1] at hi
      exact hmeasured i (List.mem_range'_1.mpr (by omega))
    simp only [hfound]
    split_ifs <;> simp only [below_append] <;> simp [hsearch, hmeasured, hchecked]

/-- A string of the packet: it starts in the payload and has its NUL there too. -/
def StringInside (mem : List UInt8) (len ptr : ℕ) : Prop :=
  12 ≤ ptr ∧ ∃ z, ptr ≤ z ∧ z < len ∧ byteAt mem z = 0

/-- The parser and the search for the terminal type stay inside the packet, and a
job has exactly the announced entries, each a string of the packet. -/
def StaysInside (mem : List UInt8) (len : ℕ) (alloc : Bool) : Prop :=
  Below len (unpackJob mem len alloc).2 ∧
    ∀ job, (unpackJob mem len alloc).1 = .ok job →
      (∃ argv env, job.argv = nullTerminated argv ∧ job.env = nullTerminated env ∧
        argv.length = word32 mem 4 ∧ env.length = word32 mem 8 ∧
        ∀ ptr ∈ argv ++ env, StringInside mem len ptr) ∧
      Below len (sanitizedTerm mem job.env).2

/-- The packets the parser handles inside their bounds: those it rejects before
the strings, and those whose payload does not leave its last string open. -/
def PacketFits (received : List UInt8) (alloc : Bool) : Prop :=
  received.length < 12 ∨ headerOk received = false ∨ alloc = false ∨
    Terminated (word32 received 4 + word32 received 8) (received.drop 12)

theorem byteAt_append {received : List UInt8} (beyond : List UInt8) {i : ℕ}
    (h : i < received.length) : byteAt (received ++ beyond) i = byteAt received i := by
  simp [byteAt, List.getElem?_append_left h]

theorem word32_append {received : List UInt8} (beyond : List UInt8) {i : ℕ}
    (h : i + 3 < received.length) : word32 (received ++ beyond) i = word32 received i := by
  simp only [word32, byteAt_append beyond (by omega : i < received.length),
    byteAt_append beyond (by omega : i + 1 < received.length),
    byteAt_append beyond (by omega : i + 2 < received.length),
    byteAt_append beyond (by omega : i + 3 < received.length)]

/-- The parser once the header has been accepted: one pass over both vectors. -/
theorem unpackJob_reads {mem : List UInt8} {len : ℕ} (hlen : ¬ len < 12)
    (hheader : headerOk mem = true) :
    (unpackJob mem len true).2 =
      List.range' 0 12 ++ (readVector mem len (word32 mem 4 + word32 mem 8) 12).2 := by
  rw [readVector_add]
  simp only [unpackJob, hlen, hheader, if_false, Bool.not_true, Bool.false_eq_true]
  rcases hargv : readVector mem len (word32 mem 4) 12 with ⟨_ | ⟨argv, p⟩, reads⟩
  · simp
  · rcases henv : readVector mem len (word32 mem 8) p with ⟨_ | ⟨env, q⟩, reads'⟩ <;>
      simp [henv]

/-- An accepted job comes from two completed vectors. -/
theorem unpackJob_ok {mem : List UInt8} {len : ℕ} {alloc : Bool} {job : Job}
    (h : (unpackJob mem len alloc).1 = .ok job) :
    ∃ argv p env q, (readVector mem len (word32 mem 4) 12).1 = some (argv, p) ∧
      (readVector mem len (word32 mem 8) p).1 = some (env, q) ∧
      job = ⟨nullTerminated argv, nullTerminated env⟩ ∧
      (unpackJob mem len alloc).2 = List.range' 0 12 ++
        (readVector mem len (word32 mem 4) 12).2 ++ (readVector mem len (word32 mem 8) p).2 := by
  unfold unpackJob at h ⊢
  split_ifs at h ⊢ with hlen hheader halloc
  rcases hargv : readVector mem len (word32 mem 4) 12 with ⟨_ | ⟨argv, p⟩, reads⟩
  · simp [hargv] at h
  · rcases henv : readVector mem len (word32 mem 8) p with ⟨_ | ⟨env, q⟩, reads'⟩
    · simp [hargv, henv] at h
    · simp only [hargv, henv, Except.ok.injEq] at h
      exact ⟨argv, p, env, q, rfl, by rw [henv], h.symm, by simp [henv]⟩

/-- A string that was read up to its end inside the packet is a string of it. -/
theorem stringInside_of_read {mem : List UInt8} {len ptr : ℕ} (hge : 12 ≤ ptr)
    (hlt : ptr + strlen (mem.drop ptr) < len) : StringInside mem len ptr := by
  refine ⟨hge, ptr + strlen (mem.drop ptr), by omega, hlt, ?_⟩
  have hend := getD_strlen (mem.drop ptr)
  rwa [List.getD_eq_getElem?_getD, List.getElem?_drop, ← List.getD_eq_getElem?_getD] at hend

/-- Reads inside the packet are all that is needed: the vectors and the search
for the terminal type follow. -/
theorem staysInside_of_below {mem : List UInt8} {len : ℕ} {alloc : Bool}
    (h : Below len (unpackJob mem len alloc).2) : StaysInside mem len alloc := by
  refine ⟨h, fun job hjob => ?_⟩
  obtain ⟨argv, p, env, q, hargv, henv, rfl, hreads⟩ := unpackJob_ok hjob
  obtain ⟨hargc, hp, hargvReads⟩ := readVector_some hargv
  obtain ⟨henvc, -, henvReads⟩ := readVector_some henv
  rw [hreads, below_append, below_append] at h
  have hends : ∀ ptr ∈ argv ++ env, 12 ≤ ptr ∧ ptr + strlen (mem.drop ptr) < len := by
    intro ptr hptr
    rcases List.mem_append.mp hptr with hptr | hptr
    · obtain ⟨hge, hread⟩ := hargvReads ptr hptr
      exact ⟨hge, h.1.2 _ hread⟩
    · obtain ⟨hge, hread⟩ := henvReads ptr hptr
      exact ⟨by omega, h.2 _ hread⟩
  refine ⟨⟨argv, env, rfl, rfl, hargc, henvc, fun ptr hptr => ?_⟩, ?_⟩
  · exact stringInside_of_read (hends ptr hptr).1 (hends ptr hptr).2
  · refine sanitizedTerm_below fun ptr hptr => ?_
    have hmem : ptr ∈ env := by simpa [nullTerminated] using hptr
    exact (hends ptr (List.mem_append_right _ hmem)).2

/-- Parsing stays inside the packet exactly if the packet fits. -/
theorem staysInside_iff_packetFits (received beyond : List UInt8) (alloc : Bool) :
    StaysInside (received ++ beyond) received.length alloc ↔ PacketFits received alloc := by
  have hbelow : StaysInside (received ++ beyond) received.length alloc ↔
      Below received.length (unpackJob (received ++ beyond) received.length alloc).2 :=
    ⟨fun h => h.1, staysInside_of_below⟩
  rw [hbelow]
  by_cases hlen : received.length < 12
  · simp [unpackJob, PacketFits, hlen]
  · have hheader : headerOk (received ++ beyond) = headerOk received := by
      simp only [headerOk, word32_append beyond (by omega : 0 + 3 < received.length),
        word32_append beyond (by omega : 4 + 3 < received.length),
        word32_append beyond (by omega : 8 + 3 < received.length)]
    have hstart : Below received.length (List.range' 0 12) := below_range'.mpr (by omega)
    cases hok : headerOk received with
    | false => simp [unpackJob, PacketFits, hlen, hheader, hok, hstart]
    | true =>
      cases alloc with
      | false => simp [unpackJob, PacketFits, hlen, hheader, hok, hstart]
      | true =>
        rw [unpackJob_reads hlen (hheader.trans hok), below_append, readVector_below_iff,
          word32_append beyond (by omega : 4 + 3 < received.length),
          word32_append beyond (by omega : 8 + 3 < received.length)]
        simp [PacketFits, hlen, hok, hstart]

/-- One argument, no environment, and a payload of a single byte that is not NUL. -/
def openPacket : List UInt8 := [0x46, 0x50, 0x4c, 0x31, 1, 0, 0, 0, 0, 0, 0, 0, 0x41]

/-- The parser accepts it and takes the byte behind it into the argument. -/
theorem openPacket_not_staysInside :
    ¬ (∀ received beyond alloc,
      StaysInside (received ++ beyond) received.length alloc) ∧
      (unpackJob (openPacket ++ [0x42, 0]) openPacket.length true).1 =
        .ok ⟨[some 12, none], [none]⟩ := by
  refine ⟨fun h => ?_, by decide⟩
  have hbelow := (h openPacket [0x42, 0] true).1
  exact absurd hbelow (by decide)

end Faceplate.HostSession
