import Faceplate.Misc.Asciinema
import Mathlib.Data.List.Forall2

/-!
# The two versions of a cast

One timeline can be written with absolute times or with intervals. Both files load to
the same output events: the absolute times are subtracted, the intervals are added up
over the events that are skipped, and each result is the delay since the last output
event up to the rounding of the operations it took.
-/

namespace Faceplate.Misc

open CString

/-- An event of a timeline: its time, a numeral for the time and one for the interval
before it, and the rest of its line behind the comma, with the kind and the text that
are spelled there. -/
structure Event where
  time : ℚ
  absolute : Numeral
  interval : Numeral
  tail : List UInt8
  code : List UInt8
  text : List UInt8

/-- The line of an event with one of its numerals. -/
def Event.line (e : Event) (n : Numeral) : List UInt8 :=
  0x5b :: (n.text ++ 0x2c :: (e.tail ++ [0x0a]))

/-- A line of a file, within the limit of the loader. -/
structure IsLine (l : List UInt8) : Prop where
  ends : ∃ body, l = body ++ [0x0a] ∧ 0x0a ∉ body
  text : 0 ∉ l
  fits : l.length ≤ maxLine

/-- The intervals are those between the times, starting from `now`. -/
def Intervals : ℚ → List Event → Prop
  | _, [] => True
  | now, e :: events => e.interval.value = e.time - now ∧ Intervals e.time events

/-- A timeline that can be written as a cast of either version. -/
structure Timeline (R : Rounding) (utf8 : ℕ → List UInt8) where
  header2 : List UInt8
  header3 : List UInt8
  events : List Event
  header2_line : IsLine header2
  header3_line : IsLine header3
  header2_version : parseHeaderVersion header2 = some 2
  header3_version : parseHeaderVersion header3 = some 3
  absolute_eq : ∀ e ∈ events, e.absolute.value = e.time
  interval_eq : Intervals 0 events
  absolute_line : ∀ e ∈ events, IsLine (e.line e.absolute)
  interval_line : ∀ e ∈ events, IsLine (e.line e.interval)
  absolute_range : ∀ e ∈ events, R.inRange e.absolute.value = true
  interval_range : ∀ e ∈ events, R.inRange e.interval.value = true
  strings : ∀ e ∈ events, parseStrings utf8 (0x2c :: (e.tail ++ [0x0a])) = .ok (e.code, e.text)

/-- The cast of version 2. -/
def Timeline.version2 {R : Rounding} {utf8 : ℕ → List UInt8} (tl : Timeline R utf8) :
    List UInt8 := tl.header2 ++ tl.events.flatMap fun e => e.line e.absolute

/-- The cast of version 3. -/
def Timeline.version3 {R : Rounding} {utf8 : ℕ → List UInt8} (tl : Timeline R utf8) :
    List UInt8 := tl.header3 ++ tl.events.flatMap fun e => e.line e.interval

/-- An output event of a timeline: the delay since the last one, how many events were
skipped since, the length of the way that the clock went, and the text. -/
structure Output where
  delay : ℚ
  skipped : ℕ
  reach : ℚ
  data : List UInt8

/-- The output events of a timeline. The last one was at `last`, the clock stands at
`now`, and on its way there it went `path` over `skipped` events. -/
def outputs : ℚ → ℚ → ℚ → ℕ → List Event → List Output
  | _, _, _, _, [] => []
  | last, now, path, skipped, e :: events =>
    let path := path + |e.time - now|
    if e.code = lit "o" then
      ⟨e.time - last, skipped, |e.time| + |last| + path, e.text⟩ ::
        outputs e.time e.time 0 0 events
    else outputs last e.time path (skipped + 1) events

/-- The output events of a timeline from its start. -/
def Timeline.outputs {R : Rounding} {utf8 : ℕ → List UInt8} (tl : Timeline R utf8) :
    List Output := Misc.outputs 0 0 0 0 tl.events

/-- More output events, or more bytes of them, than the loader takes. -/
def Exceeds (num total : ℕ) (outs : List Output) : Prop :=
  maxEvents < num + outs.length ∨ maxOutput < total + (outs.map (·.data.length)).sum

instance (num total : ℕ) (outs : List Output) : Decidable (Exceeds num total outs) :=
  inferInstanceAs (Decidable (_ ∨ _))

/-- A loaded event stands for an output event: it has the text, and its delay is that of
the output event up to the rounding of two operations and one for each skipped event. -/
def Close (R : Rounding) (o : Output) (ev : AsciinemaEvent) : Prop :=
  ev.data = o.data ∧ ∃ sec, ev.delayNs = secToNs R (.finite sec) ∧
    |sec - o.delay| ≤ R.factor (o.skipped + 2) * o.reach

/-- A file that loads to these events; without any it is refused. -/
def loaded (events : List AsciinemaEvent) : Except Failure (List AsciinemaEvent) :=
  if events.isEmpty then .error .noData else .ok events

section Replay

variable {R : Rounding} {utf8 : ℕ → List UInt8}

/-- The events of a file one after the other. -/
def replay (R : Rounding) (version : ℤ) (num : Event → Numeral) :
    Loader → List Event → Except Failure Loader
  | player, [] => .ok player
  | player, e :: events =>
    (applyEvent R version player (.finite (R.round (num e).value)) e.code e.text).bind
      fun player => replay R version num player events

theorem getline_append {l : List UInt8} (h : IsLine l) (rest : List UInt8) :
    getline (l ++ rest) = some (l, rest) := by
  obtain ⟨body, rfl, hbody⟩ := h.ends
  have htake : ((body ++ [0x0a]) ++ rest).takeWhile (· ≠ 0x0a) = body := by
    rw [List.append_assoc, List.takeWhile_append_of_pos]
    · simp
    · intro c hc
      rw [decide_eq_true_eq]
      rintro rfl
      exact hbody hc
  have hlen : min (body.length + 1) ((body ++ [0x0a]) ++ rest).length =
      (body ++ [0x0a]).length := by
    simp only [List.length_append, List.length_cons, List.length_nil]
    omega
  have hempty : ((body ++ [0x0a]) ++ rest).isEmpty = false := by simp
  rw [getline, hempty, htake]
  simp only [hlen, Bool.false_eq_true, if_false, List.take_left, List.drop_left]

/-- The line of an event is parsed as its time, its kind and its text. -/
theorem parseEventLine_line {e : Event} {n : Numeral} (hrange : R.inRange n.value = true)
    (hstrings : parseStrings utf8 (0x2c :: (e.tail ++ [0x0a])) = .ok (e.code, e.text))
    (version : ℤ) (player : Loader) :
    parseEventLine R utf8 version player (e.line n) =
      applyEvent R version player (.finite (R.round n.value)) e.code e.text := by
  have hskip : skipWs (e.line n) = e.line n := by
    have hspace : isSpace 0x5b = false := by decide
    simp [skipWs, Event.line, hspace]
  rw [parseEventLine, hskip]
  simp only [Event.line, strtod_numeral R n hrange, hstrings, Bool.false_eq_true, if_false]

/-- The lines of a file are replayed as its events. -/
theorem loadLines_eq {version : ℤ} {num : Event → Numeral} {events : List Event}
    (hlines : ∀ e ∈ events, IsLine (e.line (num e)))
    (hrange : ∀ e ∈ events, R.inRange (num e).value = true)
    (hstrings : ∀ e ∈ events,
      parseStrings utf8 (0x2c :: (e.tail ++ [0x0a])) = .ok (e.code, e.text))
    {rounds : ℕ} (hrounds : events.length ≤ rounds) (player : Loader) :
    loadLines R utf8 version rounds (events.flatMap fun e => e.line (num e)) player =
      replay R version num player events := by
  induction events generalizing rounds player with
  | nil => cases rounds <;> rfl
  | cons e events ih =>
    obtain ⟨rounds, rfl⟩ : ∃ n, rounds = n + 1 := ⟨rounds - 1, by simp at hrounds; omega⟩
    have hline := hlines e List.mem_cons_self
    have hfits : ¬maxLine < (e.line (num e)).length := Nat.not_lt.mpr hline.fits
    have hcomment : ¬(version = 3 ∧ (e.line (num e)).head? = some 0x23) := by
      simp [Event.line]
    have hrest := fun player => ih (fun e' he' => hlines e' (List.mem_cons_of_mem _ he'))
      (fun e' he' => hrange e' (List.mem_cons_of_mem _ he'))
      (fun e' he' => hstrings e' (List.mem_cons_of_mem _ he'))
      (by simpa using hrounds : events.length ≤ rounds) player
    rw [List.flatMap_cons, loadLines, getline_append hline]
    simp only [hfits, hcomment, if_false, cstr_of_zero_not_mem hline.text,
      parseEventLine_line (hrange e List.mem_cons_self) (hstrings e List.mem_cons_self), replay]
    cases applyEvent R version player (.finite (R.round (num e).value)) e.code e.text with
    | error err => rfl
    | ok player => exact hrest player

/-- What a replay of these output events comes to: an error if they are too many, and
otherwise events that stand for them behind those that were there. -/
def Replayed (R : Rounding) (player : Loader) (outs : List Output)
    (result : Except Failure Loader) : Prop :=
  if Exceeds player.events.length player.totalOutput outs then result = .error .tooBig
  else ∃ done new, result = .ok done ∧ done.events = player.events ++ new ∧
    List.Forall₂ (Close R) outs new

theorem Replayed.nil {player : Loader} (hnum : player.events.length ≤ maxEvents)
    (htotal : player.totalOutput ≤ maxOutput) : Replayed R player [] (.ok player) := by
  have hfits : ¬Exceeds player.events.length player.totalOutput [] := by
    simp only [Exceeds, List.length_nil, List.map_nil, List.sum_nil]
    omega
  rw [Replayed, if_neg hfits]
  exact ⟨player, [], rfl, by simp, List.Forall₂.nil⟩

theorem addEvent_eq (player : Loader) (delayNs : ℕ) (data : List UInt8) :
    addEvent player delayNs data =
      if maxEvents < player.events.length + 1 ∨ maxOutput < player.totalOutput + data.length then
        .error .tooBig
      else .ok { player with
        events := player.events ++ [⟨delayNs, data⟩]
        totalOutput := player.totalOutput + data.length } := by
  simp only [addEvent, Bool.or_eq_true, decide_eq_true_eq]
  by_cases hnum : maxEvents ≤ player.events.length
  · rw [if_pos hnum, if_pos (Or.inl (by omega))]
  · rw [if_neg hnum]
    by_cases hbytes : maxOutput < player.totalOutput + data.length
    · rw [if_pos (by omega), if_pos (Or.inr hbytes)]
    · rw [if_neg (by omega), if_neg (by omega)]

/-- The step of a replay at an output event. -/
theorem Replayed.output {player clocked : Loader} {o : Output} {outs : List Output} {delayNs : ℕ}
    {next : Loader → Except Failure Loader} (hevents : clocked.events = player.events)
    (htotal : clocked.totalOutput = player.totalOutput) (hclose : Close R o ⟨delayNs, o.data⟩)
    (hnext : ∀ added, addEvent clocked delayNs o.data = .ok added →
      added.events.length ≤ maxEvents → added.totalOutput ≤ maxOutput →
      Replayed R added outs (next added)) :
    Replayed R player (o :: outs) ((addEvent clocked delayNs o.data).bind next) := by
  rw [addEvent_eq, hevents, htotal] at hnext ⊢
  by_cases hover : maxEvents < player.events.length + 1 ∨
      maxOutput < player.totalOutput + o.data.length
  · have hexceeds : Exceeds player.events.length player.totalOutput (o :: outs) := by
      simp only [Exceeds, List.length_cons, List.map_cons, List.sum_cons]
      omega
    rw [Replayed, if_pos hexceeds, if_pos hover]
    rfl
  · rw [if_neg hover] at hnext ⊢
    have hrest := hnext _ rfl (by simp; omega) (by simp; omega)
    have hiff : Exceeds (player.events ++ [(⟨delayNs, o.data⟩ : AsciinemaEvent)]).length
        (player.totalOutput + o.data.length) outs ↔
        Exceeds player.events.length player.totalOutput (o :: outs) := by
      simp only [Exceeds, List.length_append, List.length_cons, List.length_nil, List.map_cons,
        List.sum_cons]
      omega
    simp only [Replayed, hiff] at hrest ⊢
    split_ifs at hrest ⊢ with hexceeds
    · exact hrest
    · obtain ⟨done, new, hdone, hnew, hall⟩ := hrest
      exact ⟨done, ⟨delayNs, o.data⟩ :: new, hdone, by simp [hnew], List.Forall₂.cons hclose hall⟩

/-- The clock of version 2: the time of the last output event, rounded. -/
theorem replay_version2 {events : List Event} {player : Loader} {last now path y : ℚ}
    {skipped : ℕ} (hlines : ∀ e ∈ events, e.absolute.value = e.time)
    (hclock : player.lastOutputTime = .finite y) (hlast : |y - last| ≤ R.unit * |last|)
    (hpath : 0 ≤ path) (hnum : player.events.length ≤ maxEvents)
    (htotal : player.totalOutput ≤ maxOutput) :
    Replayed R player (outputs last now path skipped events)
      (replay R 2 Event.absolute player events) := by
  induction events generalizing player last now path y skipped with
  | nil => exact Replayed.nil hnum htotal
  | cons e events ih =>
    have hrest := fun e' he' => hlines e' (List.mem_cons_of_mem e he')
    have hpath' : 0 ≤ path + |e.time - now| := add_nonneg hpath (abs_nonneg _)
    rw [replay, outputs, hlines e List.mem_cons_self]
    by_cases hcode : e.code = lit "o"
    · have hclose : Close R ⟨e.time - last, skipped, |e.time| + |last| + (path + |e.time - now|),
          e.text⟩ ⟨secToNs R (.finite (R.round (R.round e.time - y))), e.text⟩ := by
        refine ⟨rfl, _, rfl, (R.difference_error hlast).trans ?_⟩
        exact mul_le_mul (R.factor_mono (by omega)) (by linarith)
          (add_nonneg (abs_nonneg _) (abs_nonneg _)) (R.factor_nonneg _)
      have hdelay : secToNs R (if ((Double.finite (R.round e.time)).sub R
          player.lastOutputTime).isNegative then .finite 0
          else (Double.finite (R.round e.time)).sub R player.lastOutputTime) =
          secToNs R (.finite (R.round (R.round e.time - y))) := by
        rw [hclock, sub_eq_add_neg]
        simp only [Double.sub, Double.neg, Double.add, Double.isNegative, decide_eq_true_eq]
        split_ifs with hneg
        · simp [secToNs, hneg.le]
        · rfl
      simp only [applyEvent, hcode, ne_eq, not_true_eq_false, if_false, if_true]
      rw [if_neg (by decide), hdelay]
      refine Replayed.output rfl rfl hclose ?_
      intro added hadded hnum' htotal'
      rw [addEvent_eq] at hadded
      split_ifs at hadded
      rw [← Except.ok.inj hadded] at hnum' htotal' ⊢
      exact ih hrest rfl (R.error e.time) (le_refl 0) hnum' htotal'
    · simp only [applyEvent, hcode, ne_eq, not_false_eq_true, if_true, if_false]
      rw [if_neg (by decide)]
      exact ih hrest hclock hlast hpath' hnum htotal

/-- The clock of version 3: the intervals since the last output event, added up. -/
theorem replay_version3 {events : List Event} {player : Loader} {last now path p : ℚ}
    {skipped : ℕ} (hlines : Intervals now events)
    (hclock : player.pendingInterval = .finite p)
    (hpending : |p - (now - last)| ≤ R.factor (skipped + 1) * path) (hpath : |now - last| ≤ path)
    (hnum : player.events.length ≤ maxEvents) (htotal : player.totalOutput ≤ maxOutput) :
    Replayed R player (outputs last now path skipped events)
      (replay R 3 Event.interval player events) := by
  induction events generalizing player last now path p skipped with
  | nil => exact Replayed.nil hnum htotal
  | cons e events ih =>
    obtain ⟨hinterval, hrest⟩ := hlines
    have hsum := R.sum_error (d := e.time - now) hpending hpath
    rw [show now - last + (e.time - now) = e.time - last by ring] at hsum
    have hpath' : |e.time - last| ≤ path + |e.time - now| := by
      have htri := abs_add_le (now - last) (e.time - now)
      rw [show now - last + (e.time - now) = e.time - last by ring] at htri
      linarith
    rw [replay, outputs, hinterval]
    by_cases hcode : e.code = lit "o"
    · have hclose : Close R ⟨e.time - last, skipped, |e.time| + |last| + (path + |e.time - now|),
          e.text⟩ ⟨secToNs R (.finite (R.round (p + R.round (e.time - now)))), e.text⟩ := by
        refine ⟨rfl, _, rfl, hsum.trans ?_⟩
        exact mul_le_mul_of_nonneg_left (by linarith [abs_nonneg e.time, abs_nonneg last])
          (R.factor_nonneg _)
      simp only [applyEvent, hcode, hclock, Double.add, ne_eq, not_true_eq_false, if_false,
        if_true]
      refine Replayed.output rfl rfl hclose ?_
      intro added hadded hnum' htotal'
      rw [addEvent_eq] at hadded
      split_ifs at hadded
      rw [← Except.ok.inj hadded] at hnum' htotal' ⊢
      exact ih hrest rfl (by simp) (by simp) hnum' htotal'
    · simp only [applyEvent, hcode, hclock, Double.add, ne_eq, not_false_eq_true, if_true,
        if_false]
      let waited : Loader := { player with
        pendingInterval := .finite (R.round (p + R.round (e.time - now))) }
      have hwaited := @ih waited last e.time _ _ (skipped + 1) hrest rfl hsum hpath' hnum htotal
      exact hwaited

theorem length_le_flatMap_line (num : Event → Numeral) (events : List Event) :
    events.length ≤ (events.flatMap fun e => e.line (num e)).length := by
  induction events with
  | nil => simp
  | cons e events ih =>
    simp only [List.flatMap_cons, List.length_cons, List.length_append, Event.line] at ih ⊢
    omega

/-- A file with a header and the lines of some events is loaded by replaying them. -/
theorem asciinemaNew_eq {header : List UInt8} {version : ℤ} {num : Event → Numeral}
    {events : List Event} (hheader : IsLine header)
    (hversion : parseHeaderVersion header = some version) (hknown : version = 2 ∨ version = 3)
    (hlines : ∀ e ∈ events, IsLine (e.line (num e)))
    (hrange : ∀ e ∈ events, R.inRange (num e).value = true)
    (hstrings : ∀ e ∈ events,
      parseStrings utf8 (0x2c :: (e.tail ++ [0x0a])) = .ok (e.code, e.text)) :
    asciinemaNew R utf8 (header ++ events.flatMap fun e => e.line (num e)) =
      (replay R version num ⟨[], 0, .finite 0, .finite 0⟩ events).bind
        fun player => loaded player.events := by
  have hfits : ¬maxLine < header.length := Nat.not_lt.mpr hheader.fits
  have haccepted : ¬(version ≠ 2 ∧ version ≠ 3) := by
    rcases hknown with rfl | rfl <;> decide
  rw [asciinemaNew, getline_append hheader]
  simp only [hfits, if_false, cstr_of_zero_not_mem hheader.text, hversion, haccepted,
    loadLines_eq hlines hrange hstrings (length_le_flatMap_line num events)]
  cases replay R version num ⟨[], 0, .finite 0, .finite 0⟩ events <;> rfl

/-- The result of a load that stands for these output events. -/
def Loads (R : Rounding) (outs : List Output) (result : Except Failure (List AsciinemaEvent)) :
    Prop :=
  if Exceeds 0 0 outs then result = .error .tooBig
  else ∃ events, result = loaded events ∧ List.Forall₂ (Close R) outs events

theorem Replayed.loads {outs : List Output} {result : Except Failure Loader}
    (h : Replayed R ⟨[], 0, .finite 0, .finite 0⟩ outs result) :
    Loads R outs (result.bind fun player => loaded player.events) := by
  simp only [Replayed, List.length_nil] at h
  rw [Loads]
  split_ifs at h ⊢ with hexceeds
  · rw [h]
    rfl
  · obtain ⟨done, new, rfl, hdone, hall⟩ := h
    refine ⟨new, ?_, hall⟩
    rw [List.nil_append] at hdone
    rw [← hdone]
    rfl

end Replay

section Timeline

variable {R : Rounding} {utf8 : ℕ → List UInt8}

theorem Timeline.version2_loads (tl : Timeline R utf8) :
    Loads R tl.outputs (asciinemaNew R utf8 tl.version2) := by
  rw [Timeline.version2, asciinemaNew_eq tl.header2_line tl.header2_version (Or.inl rfl)
    tl.absolute_line tl.absolute_range tl.strings]
  exact (replay_version2 tl.absolute_eq rfl (by simp) (le_refl 0) (by decide) (by decide)).loads

theorem Timeline.version3_loads (tl : Timeline R utf8) :
    Loads R tl.outputs (asciinemaNew R utf8 tl.version3) := by
  rw [Timeline.version3, asciinemaNew_eq tl.header3_line tl.header3_version (Or.inr rfl)
    tl.interval_line tl.interval_range tl.strings]
  exact (replay_version3 tl.interval_eq rfl (by simp) (by simp) (by decide) (by decide)).loads

/-- Without rounding a load is determined by its output events. -/
theorem Loads.unique (hunit : R.unit = 0) {outs : List Output}
    {result₁ result₂ : Except Failure (List AsciinemaEvent)} (h₁ : Loads R outs result₁)
    (h₂ : Loads R outs result₂) : result₁ = result₂ := by
  have hclose : ∀ o ev, Close R o ev → ev = ⟨secToNs R (.finite o.delay), o.data⟩ := by
    rintro o ⟨delayNs, data⟩ ⟨hdata, sec, hdelay, hsec⟩
    have hzero : R.factor (o.skipped + 2) = 0 := by simp [Rounding.factor, hunit]
    rw [hzero, zero_mul] at hsec
    have heq : sec = o.delay := sub_eq_zero.mp (abs_eq_zero.mp (le_antisymm hsec (abs_nonneg _)))
    simp only at hdata hdelay
    rw [hdata, hdelay, heq]
  have hall : ∀ {os : List Output} {evs : List AsciinemaEvent}, List.Forall₂ (Close R) os evs →
      evs = os.map fun o => ⟨secToNs R (.finite o.delay), o.data⟩ := by
    intro os evs h
    induction h with
    | nil => rfl
    | cons hhead _ ih => rw [List.map_cons, ← ih, hclose _ _ hhead]
  rw [Loads] at h₁ h₂
  split_ifs at h₁ h₂ with hexceeds
  · rw [h₁, h₂]
  · obtain ⟨evs₁, rfl, hall₁⟩ := h₁
    obtain ⟨evs₂, rfl, hall₂⟩ := h₂
    rw [hall hall₁, hall hall₂]

/-- The two casts of a timeline load to the same. -/
def Timeline.SameLoad (tl : Timeline R utf8) : Prop :=
  asciinemaNew R utf8 tl.version2 = asciinemaNew R utf8 tl.version3

/-- Both casts of a timeline are refused if it has too many output events or bytes.
Otherwise both load to events with the texts of its output events and with their delays,
up to the rounding of the operations that gave them, and without rounding to the same
events. -/
theorem casts_agree (R : Rounding) (utf8 : ℕ → List UInt8) (tl : Timeline R utf8) :
    Loads R tl.outputs (asciinemaNew R utf8 tl.version2) ∧
      Loads R tl.outputs (asciinemaNew R utf8 tl.version3) ∧ (R.unit = 0 → tl.SameLoad) :=
  ⟨tl.version2_loads, tl.version3_loads,
    fun hunit => tl.version2_loads.unique hunit tl.version3_loads⟩

end Timeline

/-- `0.d`. -/
def tenths (d : UInt8) (h : isDigit d = true) : Numeral where
  negative := false
  int := lit "0"
  frac := [d]
  exponent := none
  int_ne := by decide +kernel
  int_digit := by decide +kernel
  frac_digit := by simpa using h

/-- Two outputs, after 0.1 and after 0.3 seconds, and a marker between them. -/
def twoOutputs : List Event :=
  [⟨1 / 10, tenths 0x31 rfl, tenths 0x31 rfl, lit "\"o\",\"A\"]", lit "o", lit "A"⟩,
    ⟨2 / 10, tenths 0x32 rfl, tenths 0x31 rfl, lit "\"m\",\"\"]", lit "m", lit ""⟩,
    ⟨3 / 10, tenths 0x33 rfl, tenths 0x31 rfl, lit "\"o\",\"B\"]", lit "o", lit "B"⟩]

theorem isLine_iff {l : List UInt8} :
    IsLine l ↔ l = l.dropLast ++ [0x0a] ∧ 0x0a ∉ l.dropLast ∧ 0 ∉ l ∧ l.length ≤ maxLine := by
  constructor
  · rintro ⟨⟨body, rfl, hbody⟩, htext, hfits⟩
    refine ⟨?_, ?_, htext, hfits⟩
    · rw [List.dropLast_concat]
    · rwa [List.dropLast_concat]
  · rintro ⟨hends, hbody, htext, hfits⟩
    exact ⟨⟨l.dropLast, hends, hbody⟩, htext, hfits⟩

instance (l : List UInt8) : Decidable (IsLine l) := decidable_of_iff' _ isLine_iff

/-- A timeline whose times have no exact doubles. -/
def twoOutputsTimeline : Timeline Rounding.double (fun cp => [cp.toUInt8]) where
  header2 := lit "\x7b\"version\":2\x7d" ++ [0x0a]
  header3 := lit "\x7b\"version\":3\x7d" ++ [0x0a]
  events := twoOutputs
  header2_line := by decide +kernel
  header3_line := by decide +kernel
  header2_version := by decide +kernel
  header3_version := by decide +kernel
  absolute_eq := by decide +kernel
  interval_eq := by
    refine ⟨?_, ?_, ?_, trivial⟩ <;> decide +kernel
  absolute_line := by decide +kernel
  interval_line := by decide +kernel
  absolute_range := by decide +kernel
  interval_range := by decide +kernel
  strings := by decide +kernel

/-- The second delay is 199999999 ns in one cast and 200000000 ns in the other. -/
theorem twoOutputs_not_sameLoad : ¬twoOutputsTimeline.SameLoad := by
  rw [Timeline.SameLoad]
  decide +kernel

/-- The same timeline for exact arithmetic. -/
def exactTimeline : Timeline Rounding.exact (fun cp => [cp.toUInt8]) :=
  { twoOutputsTimeline with
    absolute_range := fun _ _ => rfl
    interval_range := fun _ _ => rfl }

/-- There the casts load to the same events. -/
theorem exactTimeline_sameLoad : exactTimeline.SameLoad :=
  (casts_agree Rounding.exact _ exactTimeline).2.2 rfl

end Faceplate.Misc
