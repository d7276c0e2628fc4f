import Mathlib.Tactic.Push
import Faceplate.Lib.Runs
import Faceplate.Pty.Basic

/-!
# The respawn limit

`sig_child` counts exits that come soon after `last_spawn_time`. That time is set
when the object is created and again by every counted exit, never by a spawn, so
what the counter measures is the distance between exits. This file follows the
counter through whole histories of one PTY and compares its decision with the
time each child really ran.
-/

namespace Faceplate.Pty

/-- One exit of a child that was reported to the exit callback. -/
structure Exit where
  spawned : ℤ
  exited : ℤ
  /-- The restart flag passed to the callback. -/
  restart : Bool
  /-- The retry count the handler left. -/
  count : ℕ
  deriving DecidableEq, Repr

/-- The child ran for less than `MAX_RETRY_TIME`. -/
def Exit.Fast (e : Exit) : Prop := e.exited - e.spawned < maxRetryTime

instance : DecidablePred Exit.Fast := fun _ => inferInstanceAs (Decidable (_ < _))

/-- The time of the latest exit, or of the creation of the PTY. -/
def previousExit (created : ℤ) : List Exit → ℤ
  | [] => created
  | e :: _ => e.exited

/-- Each of these exits came within `MAX_RETRY_TIME` of the one before it, the
first one within that time of the creation. The newest exit stands first. -/
def Crowded (created : ℤ) : List Exit → Prop
  | [] => True
  | e :: earlier =>
    e.exited - previousExit created earlier < maxRetryTime ∧ Crowded created earlier

/-- The oldest `MAX_RETRY_COUNT` exits, or all of them while there are fewer. -/
def oldest (exits : List Exit) : List Exit := exits.drop (exits.length - maxRetryCount)

theorem oldest_of_length_le {exits : List Exit} (h : exits.length ≤ maxRetryCount) :
    oldest exits = exits := by
  simp [oldest, Nat.sub_eq_zero_of_le h]

theorem oldest_cons {exits : List Exit} (e : Exit) (h : maxRetryCount ≤ exits.length) :
    oldest (e :: exits) = oldest exits := by
  simp [oldest, Nat.succ_sub h]

/-- A history whose first exits are not crowded stays so. -/
theorem not_crowded_oldest_cons {created : ℤ} {exits : List Exit} (e : Exit)
    (h : ¬ Crowded created (oldest exits)) : ¬ Crowded created (oldest (e :: exits)) := by
  by_cases hlen : maxRetryCount ≤ exits.length
  · rwa [oldest_cons e hlen]
  · rw [oldest_of_length_le (by simp only [List.length_cons]; omega)]
    rw [oldest_of_length_le (by omega)] at h
    exact fun hcrowded => h hcrowded.2

/-- The respawn limit, for the latest of these exits: after `MAX_RETRY_COUNT + 1`
fast exits in a row it does not restart, and a slow exit restarts and resets the
count. -/
def LimitKept : List Exit → Prop
  | [] => True
  | last :: earlier =>
    (maxRetryCount ≤ earlier.length →
      (∀ e ∈ (last :: earlier).take (maxRetryCount + 1), e.Fast) → last.restart = false) ∧
    (¬ last.Fast → last.restart = true ∧ last.count = 0)

instance : DecidablePred LimitKept
  | [] => inferInstanceAs (Decidable True)
  | _ :: _ => inferInstanceAs (Decidable (_ ∧ _))

/-- A PTY with the history of its children. `running` is the spawn time of the
child whose exit is still to come; the newest exit stands first. -/
structure History where
  pty : Pty UInt8
  created : ℤ
  clock : ℤ
  running : Option ℤ
  exits : List Exit

/-- A spawn attempt, the exit of some child process, or a close. `wait` is the
time since the previous event, so that the clock never goes back. -/
inductive ChildEvent where
  | spawn (wait : ℕ) (spawned : Option (ℕ × ℕ)) (err : ℤ)
  | exit (wait : ℕ) (pid : ℕ)
  | close

namespace History

/-- A PTY with `oneshot` disabled, created at the given time. -/
def init (created : ℤ) : History := ⟨Pty.new false created, created, created, none, []⟩

/-- The exit of the child with this pid, handled at time `now`. -/
def childExit (history : History) (spawned : ℤ) (pid : ℕ) (now : ℤ) : History :=
  match history.pty.sigChild pid now with
  | (none, _) => { history with clock := now }
  | (some restart, pty) =>
    { history with
      pty := pty
      clock := now
      running := none
      exits := ⟨spawned, now, restart, pty.retryCount⟩ :: history.exits }

/-- One event. An exit is reported only while its child runs and the PTY is open,
since the handler is registered by an open and removed by a close. -/
def step (history : History) : ChildEvent → History
  | .spawn wait spawned err =>
    let now := history.clock + wait
    { history with
      pty := (history.pty.kmsconPtyOpen spawned err).2
      clock := now
      running :=
        if !history.pty.isOpen && spawned.isSome then some now else history.running }
  | .exit wait pid =>
    match history.running with
    | none => { history with clock := history.clock + wait }
    | some spawned => history.childExit spawned pid (history.clock + wait)
  | .close => { history with pty := history.pty.kmsconPtyClose, running := none }

/-- The latest exit respects the respawn limit. -/
def Limits (history : History) : Prop := LimitKept history.exits

instance : DecidablePred Limits := fun _ => inferInstanceAs (Decidable (LimitKept _))

/-- The first `MAX_RETRY_COUNT` exits have happened and were all crowded, so that
the counter has reached its limit. -/
def LimitReached (history : History) : Prop :=
  maxRetryCount ≤ history.exits.length ∧ Crowded history.created (oldest history.exits)

/-- The condition on an exit: once the limit is reached the child ran fast; as
long as it is not, this exit does not complete a row of fast ones. -/
def ExitFits (history : History) : ChildEvent → Prop
  | .exit wait pid =>
    ∀ spawned, history.running = some spawned → pid = history.pty.child →
      (history.LimitReached → history.clock + wait - spawned < maxRetryTime) ∧
      (¬ history.LimitReached → maxRetryCount ≤ history.exits.length →
        history.clock + wait - spawned < maxRetryTime →
        ¬ ∀ e ∈ history.exits.take maxRetryCount, e.Fast)
  | _ => True

/-- What the counter and `last_spawn_time` are after these exits. They count
crowded exits up to the limit; the first exit that is not crowded before that
leaves `last_spawn_time` behind for ever, and every later one resets. -/
inductive Phase (created : ℤ) (exits : List Exit) (count : ℕ) (last : ℤ) : Prop where
  | counting (hfew : exits.length < maxRetryCount) (hcrowded : Crowded created exits)
      (hcount : count = exits.length) (hlast : last = previousExit created exits)
  | stopped (hmany : maxRetryCount ≤ exits.length) (hcrowded : Crowded created (oldest exits))
      (hcount : count = maxRetryCount)
  | free (hslow : ¬ Crowded created (oldest exits)) (hcount : count = 0)
      (hlate : maxRetryTime ≤ previousExit created exits - last)

/-- The invariant of a history with `oneshot` disabled: the clock is never behind
and a running child was spawned after the latest exit, by an open PTY. -/
structure Sound (history : History) : Prop where
  oneshot : history.pty.oneshot = false
  clock : previousExit history.created history.exits ≤ history.clock
  running : ∀ spawned, history.running = some spawned →
    previousExit history.created history.exits ≤ spawned ∧ spawned ≤ history.clock
  phase : Phase history.created history.exits history.pty.retryCount history.pty.lastSpawnTime
  limits : history.Limits

theorem Sound.init (created : ℤ) : (init created).Sound where
  oneshot := rfl
  clock := Int.le_refl _
  running := by simp [History.init]
  phase := .counting (by simp [History.init, maxRetryCount]) trivial rfl rfl
  limits := trivial

/-- A crowded exit below the limit is counted. -/
theorem sigChild_crowded {pty : Pty UInt8} {now : ℤ} (honeshot : pty.oneshot = false)
    (hcount : pty.retryCount ≠ maxRetryCount) (hsoon : now - pty.lastSpawnTime < maxRetryTime) :
    pty.sigChild pty.child now =
      (some true, { pty with retryCount := pty.retryCount + 1, lastSpawnTime := now }) := by
  simp [sigChild, honeshot, hcount, hsoon]

/-- An exit that is not crowded below the limit resets the counter and leaves
`last_spawn_time` as it was. -/
theorem sigChild_late {pty : Pty UInt8} {now : ℤ} (honeshot : pty.oneshot = false)
    (hcount : pty.retryCount ≠ maxRetryCount)
    (hlate : ¬ now - pty.lastSpawnTime < maxRetryTime) :
    pty.sigChild pty.child now = (some true, { pty with retryCount := 0 }) := by
  simp [sigChild, honeshot, hcount, hlate]

/-- At the limit no exit restarts, however long its child ran. -/
theorem sigChild_stopped {pty : Pty UInt8} {now : ℤ} (hcount : pty.retryCount = maxRetryCount) :
    pty.sigChild pty.child now = (some false, pty) := by
  simp [sigChild, hcount]

/-- A history after the exit of its running child, which the handler answered
with the restart flag and the new PTY. -/
def afterExit (history : History) (spawned now : ℤ) (restart : Bool) (pty : Pty UInt8) :
    History :=
  { history with
    pty := pty
    clock := now
    running := none
    exits := ⟨spawned, now, restart, pty.retryCount⟩ :: history.exits }

theorem childExit_of_sigChild {history : History} {spawned now : ℤ} {pid : ℕ} {restart : Bool}
    {pty : Pty UInt8} (h : history.pty.sigChild pid now = (some restart, pty)) :
    history.childExit spawned pid now = history.afterExit spawned now restart pty := by
  simp only [childExit, h, afterExit]

/-- The exit of another process changes nothing but the clock. -/
theorem childExit_of_ne {history : History} {spawned now : ℤ} {pid : ℕ}
    (h : pid ≠ history.pty.child) :
    history.childExit spawned pid now = { history with clock := now } := by
  simp [childExit, sigChild, h]

/-- Before the limit is reached an exit always restarts, and it resets the count
if its child ran long enough. -/
theorem Sound.restart_of_not_limitReached {history : History} (h : history.Sound)
    {spawned now : ℤ} (hspawned : previousExit history.created history.exits ≤ spawned)
    (hnow : spawned ≤ now) (hfree : ¬ history.LimitReached) :
    ∃ pty, history.pty.sigChild history.pty.child now = (some true, pty) ∧
      (maxRetryTime ≤ now - spawned → pty.retryCount = 0) := by
  have hcount : history.pty.retryCount ≠ maxRetryCount := by
    cases h.phase with
    | counting hfew hcrowded hcount hlast => omega
    | stopped hmany hcrowded hcount => exact absurd ⟨hmany, hcrowded⟩ hfree
    | free hslow hcount hlate => simp [hcount, maxRetryCount]
  by_cases hsoon : now - history.pty.lastSpawnTime < maxRetryTime
  · refine ⟨_, sigChild_crowded h.oneshot hcount hsoon, fun hran => ?_⟩
    cases h.phase with
    | counting hfew hcrowded hcount hlast => omega
    | stopped hmany hcrowded hcount => exact absurd ⟨hmany, hcrowded⟩ hfree
    | free hslow hcount hlate => omega
  · exact ⟨_, sigChild_late h.oneshot hcount hsoon, fun _ => rfl⟩

/-- Once it is reached, none does. -/
theorem Sound.stop_of_limitReached {history : History} (h : history.Sound)
    (hlimit : history.LimitReached) (now : ℤ) :
    history.pty.sigChild history.pty.child now = (some false, history.pty) := by
  refine sigChild_stopped ?_
  cases h.phase with
  | counting hfew hcrowded hcount hlast => exact absurd hlimit.1 (Nat.not_le_of_lt hfew)
  | stopped hmany hcrowded hcount => exact hcount
  | free hslow hcount hlate => exact absurd hlimit.2 hslow

/-- An exit moves the counter from one phase to the next. -/
theorem Sound.phase_afterExit {history : History} (h : history.Sound) {now : ℤ}
    (hnow : previousExit history.created history.exits ≤ now) {restart : Bool} {pty : Pty UInt8}
    (hexit : history.pty.sigChild history.pty.child now = (some restart, pty)) (e : Exit)
    (he : e.exited = now) :
    Phase history.created (e :: history.exits) pty.retryCount pty.lastSpawnTime := by
  cases h.phase with
  | counting hfew hcrowded hcount hlast =>
    have hlen : (e :: history.exits).length ≤ maxRetryCount := hfew
    have holdest := oldest_of_length_le hlen
    have hbelow : history.pty.retryCount ≠ maxRetryCount := by omega
    by_cases hsoon : now - history.pty.lastSpawnTime < maxRetryTime
    · rw [sigChild_crowded h.oneshot hbelow hsoon, Prod.mk.injEq] at hexit
      obtain ⟨-, rfl⟩ := hexit
      have hcrowded' : Crowded history.created (e :: history.exits) :=
        ⟨by rwa [he, ← hlast], hcrowded⟩
      by_cases hfull : (e :: history.exits).length < maxRetryCount
      · exact .counting hfull hcrowded' (by simp [hcount]) he.symm
      · refine .stopped (by omega) (by rwa [holdest]) ?_
        simp only [List.length_cons] at hlen hfull
        simp only
        omega
    · rw [sigChild_late h.oneshot hbelow hsoon, Prod.mk.injEq] at hexit
      obtain ⟨-, rfl⟩ := hexit
      refine .free ?_ rfl (by simpa [previousExit, he] using hsoon)
      rw [holdest]
      exact fun hcrowded' => hsoon (by simpa [he, hlast] using hcrowded'.1)
  | stopped hmany hcrowded hcount =>
    rw [sigChild_stopped hcount, Prod.mk.injEq] at hexit
    obtain ⟨-, rfl⟩ := hexit
    exact .stopped (Nat.le_succ_of_le hmany) (by rwa [oldest_cons e hmany]) hcount
  | free hslow hcount hlate =>
    have hbelow : history.pty.retryCount ≠ maxRetryCount := by simp [hcount, maxRetryCount]
    rw [sigChild_late h.oneshot hbelow (by omega), Prod.mk.injEq] at hexit
    obtain ⟨-, rfl⟩ := hexit
    refine .free (not_crowded_oldest_cons e hslow) rfl ?_
    simp only [previousExit, he]
    omega

theorem sigChild_oneshot (pty : Pty UInt8) (pid : ℕ) (now : ℤ) :
    (pty.sigChild pid now).2.oneshot = pty.oneshot := by
  unfold sigChild
  split_ifs <;> rfl

/-- The whole invariant after an exit, once the limit is known to be respected. -/
theorem Sound.afterExit {history : History} (h : history.Sound) {spawned now : ℤ}
    (hnow : previousExit history.created history.exits ≤ now) {restart : Bool} {pty : Pty UInt8}
    (hexit : history.pty.sigChild history.pty.child now = (some restart, pty))
    (hlimits : (history.afterExit spawned now restart pty).Limits) :
    (history.afterExit spawned now restart pty).Sound where
  oneshot := by
    have := sigChild_oneshot history.pty history.pty.child now
    rw [hexit] at this
    exact this.trans h.oneshot
  clock := Int.le_refl _
  running := by simp [History.afterExit]
  phase := h.phase_afterExit hnow hexit _ rfl
  limits := hlimits

theorem le_clock_add (clock : ℤ) (wait : ℕ) : clock ≤ clock + wait := by
  omega

/-- The clock may move on between exits. -/
theorem Sound.tick {history : History} (h : history.Sound) (wait : ℕ) :
    ({ history with clock := history.clock + wait } : History).Sound where
  oneshot := h.oneshot
  clock := Int.le_trans h.clock (le_clock_add _ _)
  running := fun spawned hrun => by
    obtain ⟨hafter, hbefore⟩ := h.running spawned hrun
    exact ⟨hafter, Int.le_trans hbefore (le_clock_add _ _)⟩
  phase := h.phase
  limits := h.limits

theorem kmsconPtyOpen_frame (pty : Pty UInt8) (spawned : Option (ℕ × ℕ)) (err : ℤ) :
    (pty.kmsconPtyOpen spawned err).2.oneshot = pty.oneshot ∧
      (pty.kmsconPtyOpen spawned err).2.retryCount = pty.retryCount ∧
      (pty.kmsconPtyOpen spawned err).2.lastSpawnTime = pty.lastSpawnTime := by
  unfold kmsconPtyOpen
  split_ifs
  · exact ⟨rfl, rfl, rfl⟩
  · cases spawned <;> exact ⟨rfl, rfl, rfl⟩

theorem kmsconPtyClose_frame (pty : Pty UInt8) :
    pty.kmsconPtyClose.oneshot = pty.oneshot ∧ pty.kmsconPtyClose.retryCount = pty.retryCount ∧
      pty.kmsconPtyClose.lastSpawnTime = pty.lastSpawnTime := by
  unfold kmsconPtyClose
  split_ifs <;> exact ⟨rfl, rfl, rfl⟩

theorem take_all_fast_iff {e : Exit} {exits : List Exit} :
    (∀ x ∈ (e :: exits).take (maxRetryCount + 1), x.Fast) ↔
      e.Fast ∧ ∀ x ∈ exits.take maxRetryCount, x.Fast := by
  simp [List.take_succ_cons]

/-- Every step whose exit meets the condition keeps the invariant. -/
theorem Sound.step {history : History} {e : ChildEvent} (h : history.Sound)
    (hfits : history.ExitFits e) : (history.step e).Sound := by
  cases e with
  | spawn wait spawned err =>
    obtain ⟨honeshot, hcount, hlast⟩ := kmsconPtyOpen_frame history.pty spawned err
    have htick := h.tick wait
    refine ⟨honeshot.trans h.oneshot, htick.clock, fun time htime => ?_, ?_, h.limits⟩
    · simp only [History.step] at htime
      split_ifs at htime with hopened
      · obtain rfl := Option.some.inj htime
        exact ⟨htick.clock, Int.le_refl _⟩
      · exact htick.running time htime
    · simpa only [History.step, hcount, hlast] using h.phase
  | exit wait pid =>
    cases hrun : history.running with
    | none => simpa only [History.step, hrun] using h.tick wait
    | some spawned =>
      simp only [History.step, hrun]
      obtain ⟨hafter, hbefore⟩ := h.running spawned hrun
      by_cases hpid : pid = history.pty.child
      · subst hpid
        obtain ⟨hreached, hfree⟩ := hfits spawned hrun rfl
        have hnow : spawned ≤ history.clock + wait := Int.le_trans hbefore (le_clock_add _ _)
        by_cases hlimit : history.LimitReached
        · have hexit := h.stop_of_limitReached hlimit (history.clock + wait)
          rw [childExit_of_sigChild hexit]
          refine h.afterExit (Int.le_trans hafter hnow) hexit ⟨fun _ _ => rfl, fun hslow => ?_⟩
          exact absurd (hreached hlimit) hslow
        · obtain ⟨pty, hexit, hreset⟩ := h.restart_of_not_limitReached hafter hnow hlimit
          rw [childExit_of_sigChild hexit]
          have hlatest := Int.le_trans hafter hnow
          refine h.afterExit hlatest hexit ⟨fun hmany hall => ?_, fun hslow => ?_⟩
          · obtain ⟨hfast, hearlier⟩ := take_all_fast_iff.mp hall
            exact absurd hearlier (hfree hlimit hmany hfast)
          · exact ⟨rfl, hreset (Int.not_lt.mp hslow)⟩
      · rw [childExit_of_ne hpid]
        exact h.tick wait
  | close =>
    obtain ⟨honeshot, hcount, hlast⟩ := kmsconPtyClose_frame history.pty
    refine ⟨honeshot.trans h.oneshot, h.clock, by simp [History.step], ?_, h.limits⟩
    simpa only [History.step, hcount, hlast] using h.phase

/-- An exit after which the limit is respected met the condition. -/
theorem Sound.exitFits_of_limits {history : History} {e : ChildEvent} (h : history.Sound)
    (hlimits : (history.step e).Limits) : history.ExitFits e := by
  cases e with
  | spawn wait spawned err => trivial
  | close => trivial
  | exit wait pid =>
    rintro spawned hrun rfl
    obtain ⟨hafter, hbefore⟩ := h.running spawned hrun
    have hnow : spawned ≤ history.clock + wait := Int.le_trans hbefore (le_clock_add _ _)
    simp only [History.step, hrun] at hlimits
    constructor
    · intro hlimit
      rw [childExit_of_sigChild (h.stop_of_limitReached hlimit _)] at hlimits
      by_contra hslow
      exact absurd (hlimits.2 hslow).1 (by simp)
    · intro hlimit hmany hfast hearlier
      obtain ⟨pty, hexit, -⟩ := h.restart_of_not_limitReached hafter hnow hlimit
      rw [childExit_of_sigChild hexit] at hlimits
      exact absurd (hlimits.1 hmany (take_all_fast_iff.mpr ⟨hfast, hearlier⟩)) (by simp)

/-- The respawn limit over whole histories: it is respected after every exit
exactly if every exit fits the phase the counter is in. -/
theorem limits_iff_exitFits (created : ℤ) (es : List ChildEvent) :
    Runs.Always step Limits (History.init created) es ↔
      Runs.Along step ExitFits (History.init created) es :=
  Runs.always_iff_along (J := Sound) (fun _ h => h.limits) (fun _ _ h hC => h.step hC)
    (fun _ _ h hP => h.exitFits_of_limits hP) (Sound.init created)

/-- The first child runs for ten seconds, the next six exit at once. -/
def slowThenFast : List ChildEvent :=
  [.spawn 0 (some (5, 1)) 0, .exit 10 1, .close] ++
    (List.range 6).flatMap fun k => [.spawn 0 (some (5, k + 2)) 0, .exit 0 (k + 2), .close]

/-- Five children exit at once, the sixth runs for ten seconds. -/
def fastThenSlow : List ChildEvent :=
  (List.range 5).flatMap (fun k => [.spawn 0 (some (5, k + 1)) 0, .exit 0 (k + 1), .close]) ++
    [.spawn 0 (some (5, 6)) 0, .exit 10 6]

/-- Both halves of the limit fail: the loop after a slow first child never stops,
and the sixth child of a crowded history is not restarted although it ran long. -/
theorem slowThenFast_not_limits :
    ¬ (∀ created es, Runs.Always step Limits (History.init created) es) ∧
      ¬ (Runs.run step (History.init 0) slowThenFast).Limits ∧
      ¬ (Runs.run step (History.init 0) fastThenSlow).Limits := by
  have hloop : ¬ (Runs.run step (History.init 0) slowThenFast).Limits := by decide +kernel
  have hstop : ¬ (Runs.run step (History.init 0) fastThenSlow).Limits := by decide +kernel
  refine ⟨fun h => ?_, hloop, hstop⟩
  have hall := Runs.always_iff_prefix.mp (h 0 slowThenFast)
  exact hloop (hall slowThenFast (List.prefix_refl _))

end History
end Faceplate.Pty
