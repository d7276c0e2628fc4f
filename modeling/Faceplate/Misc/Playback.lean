import Mathlib.Data.List.Infix
import Faceplate.Lib.Runs
import Faceplate.Misc.Asciinema

/-!
# Playing a cast

A player goes through its events in groups: an event and all those behind it without a
delay of their own. After each group it reports the delay of the next one, and a looping
player goes back to the first event. The state is followed here from one start to the
next, with the events written since.
-/

namespace Faceplate.Misc

/-- `ASCIINEMA_MIN_TIMER_NS`. -/
def minTimerNs : ℕ := 1000 * 1000

/-- The timer of a player. -/
structure PlayerTimer where
  delayNs : ℕ
  enabled : Bool
  deriving DecidableEq, Repr

/-- `struct kmscon_asciinema`. -/
structure Player where
  events : List AsciinemaEvent
  pos : ℕ
  loop : Bool
  stopped : Bool
  timer : PlayerTimer
  deriving DecidableEq, Repr

namespace Player

/-- The player that `kmscon_asciinema_new` returns. -/
def new (events : List AsciinemaEvent) (loop : Bool) : Player :=
  ⟨events, 0, loop, false, ⟨0, false⟩⟩

variable (player : Player)

/-- The delay of an event. -/
def delayAt (i : ℕ) : ℕ := (player.events[i]?.map AsciinemaEvent.delayNs).getD 0

/-- `schedule_event`. -/
def scheduleEvent (delayNs : ℕ) : Player :=
  if player.stopped then player
  else { player with timer := ⟨max delayNs minTimerNs, true⟩ }

/-- `kmscon_asciinema_start`. -/
def start : Bool × Player :=
  if player.events.isEmpty then (false, player)
  else (true, { player with pos := 0, stopped := false }.scheduleEvent (player.delayAt 0))

/-- The `do` loop of `kmscon_asciinema_advance` over the events from `pos` on: how many it
writes. -/
def groupLength : List AsciinemaEvent → ℕ
  | [] => 0
  | [_] => 1
  | _ :: next :: rest => if next.delayNs = 0 then groupLength (next :: rest) + 1 else 1

/-- The end of `kmscon_asciinema_advance`: go back, or report the next delay. -/
def report : Option ℕ × Player :=
  if player.events.length ≤ player.pos then
    if player.loop then (some (player.delayAt 0), { player with pos := 0 })
    else (none, player)
  else (some (player.delayAt player.pos), player)

/-- Write the events of one group: their numbers, and what is reported behind them. -/
def writeGroup : List ℕ × Option ℕ × Player :=
  let len := groupLength (player.events.drop player.pos)
  (List.range' player.pos len, { player with pos := player.pos + len }.report)

/-- `kmscon_asciinema_advance`: the numbers of the events whose text goes to `write_cb`,
the delay if it returns true, and the player. -/
def advance : List ℕ × Option ℕ × Player :=
  if player.stopped || player.events.isEmpty then ([], none, player)
  else if player.events.length ≤ player.pos then
    if player.loop then { player with pos := 0 }.writeGroup else ([], none, player)
  else player.writeGroup

/-- `kmscon_asciinema_pause`. -/
def pause : Player := { player with timer := { player.timer with enabled := false } }

/-- `kmscon_asciinema_resume`. -/
def resume : Player :=
  if player.stopped then player
  else { player with timer := { player.timer with enabled := true } }

/-- `kmscon_asciinema_stop`. -/
def stop : Player := { player with stopped := true }.pause

/-- `timer_event`. -/
def timerEvent : List ℕ × Option ℕ × Player :=
  if player.stopped then ([], none, player)
  else
    match player.advance with
    | (written, some delayNs, player) => (written, some delayNs, player.scheduleEvent delayNs)
    | (written, none, player) => (written, none, player.pause)

end Player

/-- What can be done with a player. -/
inductive PlayerCall where
  | start
  | advance
  | timerEvent
  | pause
  | resume
  | stop
  deriving DecidableEq, Repr

/-- A player with the numbers of the events written since it was last started, and the
delay that was reported last. -/
structure Session where
  player : Player
  written : List ℕ
  reported : Option ℕ
  deriving DecidableEq, Repr

namespace Session

/-- A player that has just been loaded. -/
def new (events : List AsciinemaEvent) (loop : Bool) : Session := ⟨.new events loop, [], none⟩

/-- The numbers of the events that a call writes. -/
def output (s : Session) : PlayerCall → List ℕ
  | .advance => s.player.advance.1
  | .timerEvent => s.player.timerEvent.1
  | _ => []

/-- Note what a call has written and reported. -/
def note (s : Session) (r : List ℕ × Option ℕ × Player) : Session :=
  ⟨r.2.2, s.written ++ r.1, r.2.1⟩

/-- One call. -/
def step (s : Session) : PlayerCall → Session
  | .start =>
    if s.player.start.1 then ⟨s.player.start.2, [], some (s.player.delayAt 0)⟩ else s
  | .advance => s.note s.player.advance
  | .timerEvent => s.note s.player.timerEvent
  | .pause => { s with player := s.player.pause }
  | .resume => { s with player := s.player.resume }
  | .stop => { s with player := s.player.stop }

/-- The numbers of the events that calls write, one after the other. -/
def outputs : Session → List PlayerCall → List ℕ
  | _, [] => []
  | s, c :: calls => s.output c ++ outputs (s.step c) calls

end Session

/-! ## What a player should do -/

/-- The first `n` numbers in the order of playback. -/
def playback (num n : ℕ) : List ℕ := (List.range n).map (· % num)

/-- These are the events of one group from `first` on: they do not go beyond the last
event, those behind the first have no delay, and the next one does. -/
structure IsGroup (events : List AsciinemaEvent) (first : ℕ) (group : List ℕ) : Prop where
  consecutive : group = List.range' first group.length
  nonempty : group ≠ []
  inside : first + group.length ≤ events.length
  together : ∀ i, first < i → i < first + group.length →
    events[i]?.map AsciinemaEvent.delayNs = some 0
  maximal : events[first + group.length]?.map AsciinemaEvent.delayNs ≠ some 0

/-- Nothing is left to be played. -/
def Session.Exhausted (s : Session) : Prop :=
  s.player.loop = false ∧ s.player.events.length ≤ s.written.length

/-- What a call that may write events does: it writes nothing if the player was stopped or
has played its list, else it writes the next group, after the delay of its first event;
and it ends the playback if nothing is left then. -/
structure Session.Advances (s : Session) (r : List ℕ × Option ℕ × Player) : Prop where
  silent : r.1 = [] ↔ s.player.stopped = true ∨ s.player.events = [] ∨ s.Exhausted
  group : r.1 ≠ [] →
    IsGroup s.player.events (s.written.length % s.player.events.length) r.1
  delay : r.1 ≠ [] → ∀ delayNs, s.reported = some delayNs →
    s.player.events[s.written.length % s.player.events.length]?.map AsciinemaEvent.delayNs =
      some delayNs
  ends : r.2.1 = none ↔ s.player.stopped = true ∨ s.player.events = [] ∨ (s.note r).Exhausted

/-- What a call does. -/
def Session.Plays (s : Session) : PlayerCall → Prop
  | .start => (s.player.start.1 = true ↔ s.player.events ≠ []) ∧
      (s.player.events ≠ [] → (s.step .start).written = [] ∧
        (s.step .start).player.stopped = false ∧
        (s.step .start).reported = s.player.events[0]?.map AsciinemaEvent.delayNs)
  | .advance => s.Advances s.player.advance
  | .timerEvent => s.Advances s.player.timerEvent
  | .pause | .resume => True
  | .stop => (s.step .stop).player.stopped = true

/-! ## Groups -/

theorem groupLength_le (events : List AsciinemaEvent) :
    Player.groupLength events ≤ events.length := by
  fun_induction Player.groupLength events <;> simp_all

theorem groupLength_pos {events : List AsciinemaEvent} (h : events ≠ []) :
    0 < Player.groupLength events := by
  fun_cases Player.groupLength events <;> simp_all

theorem groupLength_together (events : List AsciinemaEvent) {i : ℕ} (hpos : 0 < i)
    (hlt : i < Player.groupLength events) :
    events[i]?.map AsciinemaEvent.delayNs = some 0 := by
  fun_induction Player.groupLength events generalizing i with
  | case1 => omega
  | case2 => omega
  | case3 ev next rest hzero ih =>
    obtain ⟨i, rfl⟩ := Nat.exists_eq_succ_of_ne_zero hpos.ne'
    rcases Nat.eq_zero_or_pos i with rfl | hi
    · simp [hzero]
    · simpa using ih hi (by omega)
  | case4 => omega

theorem groupLength_maximal (events : List AsciinemaEvent) :
    events[Player.groupLength events]?.map AsciinemaEvent.delayNs ≠ some 0 := by
  fun_induction Player.groupLength events with
  | case1 => simp
  | case2 => simp
  | case3 ev next rest hzero ih => simpa using ih
  | case4 ev next rest hdelay => simpa using hdelay

theorem isGroup_groupLength {events : List AsciinemaEvent} {pos : ℕ} (h : pos < events.length) :
    IsGroup events pos (List.range' pos (Player.groupLength (events.drop pos))) := by
  have hne : events.drop pos ≠ [] := by simpa using h
  have hle := groupLength_le (events.drop pos)
  have hmax := groupLength_maximal (events.drop pos)
  rw [List.length_drop] at hle
  rw [List.getElem?_drop] at hmax
  refine ⟨by simp, ?_, by rw [List.length_range']; omega, fun i hi hlt => ?_, by simpa using hmax⟩
  · intro hnil
    have hpos := groupLength_pos hne
    simp only [List.range'_eq_nil_iff] at hnil
    omega
  · rw [List.length_range'] at hlt
    have htogether := groupLength_together (events.drop pos) (by omega : 0 < i - pos) (by omega)
    rwa [List.getElem?_drop, Nat.add_sub_cancel' hi.le] at htogether

theorem playback_append {num n len : ℕ} (h : n % num + len ≤ num) :
    playback num n ++ List.range' (n % num) len = playback num (n + len) := by
  rw [playback, playback, List.range_add, List.map_append, List.map_map]
  congr 1
  rw [List.range'_eq_map_range]
  refine List.map_congr_left fun i hi => ?_
  have hlt := List.mem_range.mp hi
  change n % num + i = (n + i) % num
  rw [← Nat.mod_add_mod n num i, Nat.mod_eq_of_lt (by omega : n % num + i < num)]

/-! ## Runs -/

namespace Session

variable {events : List AsciinemaEvent} {loop : Bool} {s : Session}

/-- How the position goes with what was written since the start. -/
structure Tracked (events : List AsciinemaEvent) (loop : Bool) (s : Session) : Prop where
  events_eq : s.player.events = events
  loop_eq : s.player.loop = loop
  written_eq : s.written = playback events.length s.written.length
  pos_eq : s.player.pos =
    if loop then s.written.length % events.length else s.written.length
  once : loop = false → s.written.length ≤ events.length
  empty : events = [] → s.written = []
  reported_eq : ∀ delayNs, s.reported = some delayNs → s.player.pos < events.length ∧
    events[s.player.pos]?.map AsciinemaEvent.delayNs = some delayNs

theorem tracked_new (events : List AsciinemaEvent) (loop : Bool) :
    Tracked events loop (.new events loop) where
  events_eq := rfl
  loop_eq := rfl
  written_eq := rfl
  pos_eq := by simp [new, Player.new]
  once _ := Nat.zero_le _
  empty _ := rfl
  reported_eq delayNs h := by simp [new] at h

theorem delayAt_eq (player : Player) {i : ℕ} (h : i < player.events.length) :
    player.events[i]?.map AsciinemaEvent.delayNs = some (player.delayAt i) := by
  simp [Player.delayAt, h]

/-- The next event, unless the list has been played. -/
theorem Tracked.pos_spec (h : Tracked events loop s) (hne : events ≠ []) :
    (s.Exhausted ∧ events.length ≤ s.player.pos ∧ loop = false) ∨
      (¬s.Exhausted ∧ s.player.pos < events.length ∧
        s.player.pos = s.written.length % events.length) := by
  have hpos : 0 < events.length := List.length_pos_iff.mpr hne
  unfold Exhausted
  rw [h.events_eq, h.loop_eq, h.pos_eq]
  cases loop with
  | true => exact .inr ⟨by simp, by simpa using Nat.mod_lt _ hpos, by simp⟩
  | false =>
    simp only [Bool.false_eq_true, if_false, true_and, and_true]
    rcases Nat.lt_or_ge s.written.length events.length with hlt | hge
    · exact .inr ⟨by omega, hlt, (Nat.mod_eq_of_lt hlt).symm⟩
    · exact .inl ⟨hge, hge⟩

/-- What is reported behind a group, and where the player stands then. -/
theorem report_spec {player : Player} (hle : player.pos ≤ player.events.length)
    (hne : player.events ≠ []) :
    (player.report.1 = none ↔ player.loop = false ∧ player.pos = player.events.length) ∧
      (∀ delayNs, player.report.1 = some delayNs →
        player.report.2.pos < player.events.length ∧
        player.events[player.report.2.pos]?.map AsciinemaEvent.delayNs = some delayNs) ∧
      player.report.2 = { player with
        pos := if player.loop then player.pos % player.events.length else player.pos } := by
  have hpos : 0 < player.events.length := List.length_pos_iff.mpr hne
  unfold Player.report
  split_ifs with hend hloop hloop
  · have hlast : player.pos = player.events.length := le_antisymm hle hend
    refine ⟨by simp [hloop], fun delayNs h => ⟨hpos, ?_⟩, by simp [hlast]⟩
    rw [← Option.some.inj h]
    exact delayAt_eq player hpos
  · have hlast : player.pos = player.events.length := le_antisymm hle hend
    exact ⟨by simp [hloop, hlast], fun delayNs h => by simp at h, rfl⟩
  · have hlt : player.pos < player.events.length := not_le.mp hend
    refine ⟨by simp [hlt.ne], fun delayNs h => ⟨hlt, ?_⟩, by simp [Nat.mod_eq_of_lt hlt]⟩
    rw [← Option.some.inj h]
    exact delayAt_eq player hlt
  · have hlt : player.pos < player.events.length := not_le.mp hend
    refine ⟨by simp [hlt.ne], fun delayNs h => ⟨hlt, ?_⟩, rfl⟩
    rw [← Option.some.inj h]
    exact delayAt_eq player hlt

/-- One group is written. -/
theorem Tracked.writeGroup (h : Tracked events loop s) (hopen : ¬s.Exhausted)
    (hlt : s.player.pos < events.length)
    (hmod : s.player.pos = s.written.length % events.length)
    (hstopped : s.player.stopped = false) :
    s.Advances s.player.writeGroup ∧ Tracked events loop (s.note s.player.writeGroup) ∧
      s.player.writeGroup.2.2.stopped = false := by
  obtain ⟨player, written, reported⟩ := s
  obtain ⟨rfl, rfl, hwritten, hpos, honce, hempty, hreported⟩ := h
  simp only at hlt hmod hstopped hwritten hpos honce hreported
  let len := Player.groupLength (player.events.drop player.pos)
  let player' := { player with pos := player.pos + len }
  have hgroup : IsGroup player.events player.pos (List.range' player.pos len) :=
    isGroup_groupLength hlt
  have hinside := hgroup.inside
  rw [List.length_range'] at hinside
  have hnonempty : player.events ≠ [] := fun hnil => by simp [hnil] at hlt
  have hfull : written ++ List.range' player.pos len =
      playback player.events.length (written.length + len) := by
    rw [← playback_append (by omega), ← hwritten, hmod]
  obtain ⟨hnone, hsome, hafter⟩ := @report_spec player' hinside hnonempty
  have hresult : player.writeGroup = (List.range' player.pos len, player'.report) := rfl
  -- without the loop the numbers written are those before the position
  have hplain : player.loop = false → written.length = player.pos := by
    intro hloop
    rw [hloop] at hpos
    exact hpos.symm
  rw [hresult]
  refine ⟨⟨?_, fun _ => ?_, fun _ delayNs hdelay => ?_, ?_⟩, ⟨?_, ?_, ?_, ?_, ?_, ?_, ?_⟩, ?_⟩
  · simp only [hgroup.nonempty, hstopped, hnonempty, hopen, Bool.false_eq_true, or_self]
  · exact hmod ▸ hgroup
  · exact hmod ▸ (hreported delayNs hdelay).2
  · rw [hnone]
    simp only [Session.Exhausted, note, hafter, hstopped, hnonempty, Bool.false_eq_true, false_or,
      List.length_append, List.length_range']
    refine and_congr_right fun hloop => ?_
    have := hplain hloop
    change player.pos + len = player.events.length ↔ player.events.length ≤ written.length + len
    omega
  · change player'.report.2.events = player.events
    rw [hafter]
  · change player'.report.2.loop = player.loop
    rw [hafter]
  · change written ++ List.range' player.pos len = _
    rw [hfull]
    simp [note, playback]
  · change player'.report.2.pos = if player.loop then
      (written ++ List.range' player.pos len).length % player.events.length
      else (written ++ List.range' player.pos len).length
    rw [hafter, List.length_append, List.length_range']
    change (if player.loop then (player.pos + len) % player.events.length else player.pos + len) =
      if player.loop then (written.length + len) % player.events.length else written.length + len
    split_ifs with hloop
    · rw [hmod, Nat.mod_add_mod]
    · rw [hplain (by simpa using hloop)]
  · intro hloop
    change (written ++ List.range' player.pos len).length ≤ player.events.length
    rw [List.length_append, List.length_range', hplain hloop]
    exact hinside
  · exact fun hnil => absurd hnil hnonempty
  · exact hsome
  · change player'.report.2.stopped = false
    rw [hafter]
    exact hstopped

/-- Only the events, the position and the loop flag of the player count. -/
theorem Tracked.congr (h : Tracked events loop s) {player : Player}
    (hevents : player.events = s.player.events) (hpos : player.pos = s.player.pos)
    (hloop : player.loop = s.player.loop) : Tracked events loop { s with player := player } where
  events_eq := hevents.trans h.events_eq
  loop_eq := hloop.trans h.loop_eq
  written_eq := h.written_eq
  pos_eq := hpos.trans h.pos_eq
  once := h.once
  empty := h.empty
  reported_eq delayNs hdelay := by
    rw [show ({ s with player := player } : Session).player.pos = s.player.pos from hpos]
    exact h.reported_eq delayNs hdelay

theorem Tracked.advance (h : Tracked events loop s) :
    s.Advances s.player.advance ∧ Tracked events loop (s.note s.player.advance) ∧
      s.player.advance.2.2.stopped = s.player.stopped := by
  have hnote : Tracked events loop (s.note ([], none, s.player)) := by
    refine ⟨h.events_eq, h.loop_eq, ?_, ?_, ?_, ?_, fun delayNs hdelay => by simp [note] at hdelay⟩
    all_goals simp only [note, List.append_nil]
    · exact h.written_eq
    · exact h.pos_eq
    · exact h.once
    · exact h.empty
  have hsilent (hwhy : s.player.stopped = true ∨ s.player.events = [] ∨ s.Exhausted) :
      s.Advances ([], none, s.player) := by
    refine ⟨by simpa using hwhy, fun hne => absurd rfl hne, fun hne => absurd rfl hne, ?_⟩
    simpa [note, Exhausted] using hwhy
  unfold Player.advance
  by_cases hquiet : s.player.stopped = true ∨ s.player.events = []
  · have hcond : (s.player.stopped || s.player.events.isEmpty) = true := by simpa using hquiet
    rw [if_pos hcond]
    exact ⟨hsilent (hquiet.imp_right .inl), hnote, rfl⟩
  · have hcond : ¬(s.player.stopped || s.player.events.isEmpty) = true := by simpa using hquiet
    rw [not_or, Bool.not_eq_true] at hquiet
    rw [if_neg hcond]
    have hne : events ≠ [] := h.events_eq ▸ hquiet.2
    rcases h.pos_spec hne with ⟨hdone, hend, hloop⟩ | ⟨hopen, hlt, hmod⟩
    · rw [if_pos (by rwa [h.events_eq]), if_neg (by rw [h.loop_eq, hloop]; simp)]
      exact ⟨hsilent (.inr (.inr hdone)), hnote, rfl⟩
    · rw [if_neg (by rw [h.events_eq]; omega), hquiet.1]
      exact h.writeGroup hopen hlt hmod hquiet.1

/-- The timer writes and reports like a call; besides it only sets itself. -/
theorem timerEvent_spec (player : Player) : player.timerEvent.1 = player.advance.1 ∧
    player.timerEvent.2.1 = player.advance.2.1 ∧
    player.timerEvent.2.2.events = player.advance.2.2.events ∧
    player.timerEvent.2.2.pos = player.advance.2.2.pos ∧
    player.timerEvent.2.2.loop = player.advance.2.2.loop ∧
    player.timerEvent.2.2.stopped = player.advance.2.2.stopped := by
  unfold Player.timerEvent
  split_ifs with hstopped
  · simp [Player.advance, hstopped]
  · obtain ⟨written, reported, player'⟩ := player.advance
    cases reported with
    | none => exact ⟨rfl, rfl, rfl, rfl, rfl, rfl⟩
    | some delayNs =>
      cases hstop : player'.stopped <;> simp [Player.scheduleEvent, hstop]

theorem Tracked.timerEvent (h : Tracked events loop s) :
    s.Advances s.player.timerEvent ∧ Tracked events loop (s.note s.player.timerEvent) := by
  obtain ⟨hadv, htracked, -⟩ := h.advance
  obtain ⟨hwritten, hreported, hevents, hpos, hloop, -⟩ := timerEvent_spec s.player
  constructor
  · refine ⟨?_, ?_, ?_, ?_⟩
    · rw [hwritten]
      exact hadv.silent
    · rw [hwritten]
      exact hadv.group
    · rw [hwritten]
      exact hadv.delay
    · rw [hreported]
      simp only [Exhausted, note, hwritten, hevents, hloop]
      exact hadv.ends
  · have hnote : s.note s.player.timerEvent =
        { s.note s.player.advance with player := s.player.timerEvent.2.2 } := by
      simp only [note, hwritten, hreported]
    rw [hnote]
    exact htracked.congr hevents hpos hloop

/-- Every call plays as it should and keeps track of what was written. -/
theorem Tracked.step (h : Tracked events loop s) (c : PlayerCall) :
    s.Plays c ∧ Tracked events loop (s.step c) := by
  cases c with
  | start =>
    by_cases hne : s.player.events = []
    · have hstart : s.player.start = (false, s.player) := by simp [Player.start, hne]
      simp only [Plays, Session.step, hstart, hne]
      exact ⟨by simp, h⟩
    · have hfirst := delayAt_eq s.player (List.length_pos_iff.mpr hne)
      have hstart : s.player.start = (true, { s.player with
          pos := 0, stopped := false, timer := ⟨max (s.player.delayAt 0) minTimerNs, true⟩ }) := by
        simp [Player.start, Player.scheduleEvent, hne]
      refine ⟨?_, ?_⟩
      · simp only [Plays, Session.step, hstart, if_true]
        exact ⟨by simp [hne], fun _ => ⟨trivial, trivial, hfirst.symm⟩⟩
      · simp only [Session.step, hstart, if_true]
        refine ⟨h.events_eq, h.loop_eq, rfl, by simp, fun _ => Nat.zero_le _, fun _ => rfl, ?_⟩
        intro delayNs hdelay
        rw [← Option.some.inj hdelay, ← h.events_eq]
        exact ⟨List.length_pos_iff.mpr hne, hfirst⟩
  | advance => exact ⟨h.advance.1, h.advance.2.1⟩
  | timerEvent => exact h.timerEvent
  | pause => exact ⟨trivial, h.congr rfl rfl rfl⟩
  | resume =>
    refine ⟨trivial, h.congr ?_ ?_ ?_⟩
    all_goals
      unfold Player.resume
      split_ifs <;> rfl
  | stop => exact ⟨rfl, h.congr rfl rfl rfl⟩

/-! ## Whole runs -/

/-- What was written since the start, in the order of playback; without the loop, each
event once. -/
def InOrder (events : List AsciinemaEvent) (loop : Bool) (s : Session) : Prop :=
  s.written = playback events.length s.written.length ∧
    (loop = false → s.written.length ≤ events.length)

theorem output_stopped (hstopped : s.player.stopped = true) {c : PlayerCall} :
    s.output c = [] := by
  cases c <;> simp [output, Player.advance, Player.timerEvent, hstopped]

theorem stopped_step (hstopped : s.player.stopped = true) {c : PlayerCall} (hc : c ≠ .start) :
    (s.step c).player.stopped = true := by
  cases c with
  | start => exact absurd rfl hc
  | advance => simp [step, note, Player.advance, hstopped]
  | timerEvent => simp [step, note, Player.timerEvent, hstopped]
  | pause => exact hstopped
  | resume => simp [step, Player.resume, hstopped]
  | stop => rfl

/-- Nothing is written from a stop to the next start. -/
theorem outputs_stopped {calls : List PlayerCall} (hstopped : s.player.stopped = true)
    (hcalls : .start ∉ calls) : outputs s calls = [] := by
  induction calls generalizing s with
  | nil => rfl
  | cons c calls ih =>
    simp only [List.mem_cons, not_or] at hcalls
    rw [outputs, output_stopped hstopped, ih (stopped_step hstopped (Ne.symm hcalls.1)) hcalls.2]
    rfl

theorem written_run {calls : List PlayerCall} (hcalls : .start ∉ calls) :
    (Runs.run step s calls).written = s.written ++ outputs s calls := by
  induction calls generalizing s with
  | nil => simp [outputs]
  | cons c calls ih =>
    simp only [List.mem_cons, not_or] at hcalls
    have hstep : (s.step c).written = s.written ++ s.output c := by
      cases c with
      | start => exact absurd rfl hcalls.1
      | advance => rfl
      | timerEvent => rfl
      | pause | resume | stop => simp [step, output]
    rw [Runs.run_cons, ih hcalls.2, hstep, outputs, List.append_assoc]

/-- In every run each call plays the next group, the events come in their order, nothing is
written from a stop to the next start, and each start begins with the first event. -/
theorem plays_inOrder (events : List AsciinemaEvent) (loop : Bool) (calls : List PlayerCall) :
    Runs.Along step Plays (.new events loop) calls ∧
    Runs.Always step (InOrder events loop) (.new events loop) calls ∧
    (∀ pre post, calls = pre ++ .stop :: post → .start ∉ post →
      outputs (Runs.run step (.new events loop) (pre ++ [.stop])) post = []) ∧
    (∀ pre post, calls = pre ++ .start :: post → .start ∉ post → ∃ n,
      outputs (Runs.run step (.new events loop) (pre ++ [.start])) post =
        playback events.length n) := by
  have hall : Runs.Along step (fun _ _ => True) (.new events loop) calls :=
    Runs.along_of_forall (fun _ _ _ => trivial) _
  have hstep (s : Session) (c : PlayerCall) (h : Tracked events loop s) :
      Tracked events loop (step s c) := (h.step c).2
  have htracked (cs : List PlayerCall) :
      Tracked events loop (Runs.run step (.new events loop) cs) :=
    Runs.invariant_run hstep (tracked_new events loop) cs
  refine ⟨?_, ?_, fun pre post _ hpost => ?_, fun pre post _ hpost => ?_⟩
  · exact hall.imp (J := Tracked events loop) (fun s c h _ => h.step c) (tracked_new events loop)
  · exact hall.always (J := Tracked events loop) (fun s h => ⟨h.written_eq, h.once⟩)
      (fun s c h _ => hstep s c h) (tracked_new events loop)
  · refine outputs_stopped ?_ hpost
    rw [Runs.run_append]
    rfl
  · have hstart : (Runs.run step (.new events loop) (pre ++ [.start])).written = [] := by
      rw [Runs.run_append, Runs.run_cons, Runs.run_nil]
      have hbefore := htracked pre
      by_cases hne : events = []
      · exact (hbefore.step .start).2.empty hne
      · exact ((hbefore.step .start).1.2 (by rwa [hbefore.events_eq])).1
    have hwritten := written_run (s := Runs.run step (.new events loop) (pre ++ [.start])) hpost
    rw [hstart, List.nil_append, ← Runs.run_append] at hwritten
    exact ⟨_, hwritten.symm.trans (htracked _).written_eq⟩

end Session

end Faceplate.Misc
