import Faceplate.Shl.HookMemory

/-!
# Calling a hook

A call walks along the list of a hook while its callbacks change it. Each action of a
callback keeps what the walk and the memory have to do with each other, and what a call does
to the entries follows from the walk.
-/

namespace Faceplate.Shl

open Dlist

/-- What a running call has taken out of the list. -/
def HookFrame.extra (frame : HookFrame) : List ℕ := if frame.oneshot then [frame.entry] else []

@[inherit_doc HookFrame.extra]
def HookState.extra (s : HookState) : List ℕ := s.running.flatMap HookFrame.extra

/-- No call runs, and these are the entries. -/
structure HookState.Idle (s : HookState) (hook : ℕ) (cells : List HookCell) : Prop where
  memory : HookMemory s.heap hook (countedHook cells [] none false) cells []
  running : s.running = []
  serial : ∀ cell ∈ cells, cell.2.serial < s.allocated

/-- A call has walked to this place, with these events since it started in the state `s₀`;
the position is what comes next. So many callbacks have returned, and at most so many entries
have been added. -/
structure HookState.Walks (s₀ : HookState) (hook : ℕ) (start : List HookCell) (s : HookState)
    (events : List (Walk.Event HookCell)) (place : Walk.Place HookCell) (rets adds : ℕ) :
    Prop where
  memory : HookMemory s.heap hook (countedHook (place.behind ++ place.ahead) s.extra
    (some (hookPlace hook place.ahead)) (decide (s₀.requests < s.requests)))
    (place.behind ++ place.ahead) s.extra
  run : Walk.Run start events place
  log : s.log = s₀.log ++ events
  serial : ∀ cell ∈ start ++ Walk.inserted events, cell.2.serial < s.allocated
  requests : s₀.requests ≤ s.requests
  frees : s.frees = s₀.frees
  visited : (Walk.visited events).length = rets + s.running.length
  inserted : (Walk.inserted events).length ≤ adds

/-- A call is over. The hook has been freed if that has been asked for. -/
structure HookState.Over (s₀ : HookState) (hook : ℕ) (start : List HookCell) (s : HookState)
    (events : List (Walk.Event HookCell)) (place : Walk.Place HookCell) : Prop where
  running : s.running = []
  ahead : place.ahead = []
  run : Walk.Run start events place
  log : s.log = s₀.log ++ events
  kept : s.requests = s₀.requests → s.frees = s₀.frees ∧ s.Idle hook place.behind
  freed : s.requests ≠ s₀.requests → s.frees = s₀.frees + 1 ∧ ∀ a, a ∉ s.heap

/-! ### Removing -/

theorem HookState.Idle.removable (hook : ℕ) :
    HookRemovable hook fun s cells => s.Idle hook cells := by
  constructor
  · exact fun s cells h => ⟨_, _, h.memory⟩
  · intro s as cell bs h
    obtain ⟨heap, hremove, hm⟩ := hookRemove_spec h.memory
    refine ⟨_, hremove, hm, h.running, fun c hc => h.serial c ?_⟩
    simp only [List.mem_append, List.mem_cons] at hc ⊢
    tauto

/-- Where a new entry goes, nothing is between the position and what comes next. -/
theorem hookPlace_insert (hook : ℕ) (place : Walk.Place HookCell) (cell : HookCell) :
    hookPlace hook (place.insert cell).ahead = hookPlace hook place.ahead := by
  obtain ⟨behind, ahead⟩ := place
  cases ahead <;> rfl

theorem cells_insert (place : Walk.Place HookCell) (cell : HookCell) :
    (place.insert cell).behind ++ (place.insert cell).ahead =
      place.behind ++ place.ahead ++ [cell] := by
  obtain ⟨behind, ahead⟩ := place
  cases ahead <;> simp [Walk.Place.insert]

namespace HookState.Walks

variable {s₀ s : HookState} {hook : ℕ} {start : List HookCell}
  {events : List (Walk.Event HookCell)} {place : Walk.Place HookCell} {rets adds : ℕ}

/-- An entry of the list has been in it at the start or has been added. -/
theorem serial_lt (h : s₀.Walks hook start s events place rets adds) (hstart : start.Nodup)
    {cell : HookCell} (hcell : cell ∈ place.behind ++ place.ahead) :
    cell.2.serial < s.allocated :=
  h.serial cell ((h.run.once hstart).known cell (Or.inr (Or.inl hcell)))

theorem removable (s₀ : HookState) (hook : ℕ) (start : List HookCell) (running : List HookFrame)
    (rets adds : ℕ) : HookRemovable hook fun s cells => ∃ events place,
      s₀.Walks hook start s events place rets adds ∧ s.running = running ∧
        cells = place.behind ++ place.ahead := by
  constructor
  · rintro s cells ⟨events, place, h, -, rfl⟩
    exact ⟨_, _, h.memory⟩
  · rintro s as cell bs ⟨events, ⟨behind, ahead⟩, h, hrunning, hcells⟩
    have hm := h.memory
    rw [← hcells] at hm
    obtain ⟨heap, hremove, hm'⟩ := hookRemove_spec hm
    -- the place afterwards, and the position that goes with it
    have hplace : ∃ place', Walk.Step ⟨behind, ahead⟩ (.remove cell) place' ∧
        as ++ bs = place'.behind ++ place'.ahead ∧
        (if some (hookPlace hook ahead) = some cell.1 then some (hookPlace hook bs)
          else some (hookPlace hook ahead)) = some (hookPlace hook place'.ahead) := by
      rcases List.append_eq_append_iff.mp hcells with ⟨mid, hbehind, hmid⟩ | ⟨mid, has, hahead⟩
      · cases mid with
        | nil =>
          -- the entry is the one at the position
          rw [List.nil_append] at hmid
          subst hmid
          rw [show behind = as by simpa using hbehind]
          have hstep : Walk.Step ⟨as, [] ++ cell :: bs⟩ (.remove cell) ⟨as, [] ++ bs⟩ :=
            Walk.Step.removeAhead
          exact ⟨⟨as, bs⟩, hstep, rfl, if_pos rfl⟩
        | cons first mid =>
          obtain ⟨rfl, rfl⟩ := List.cons.inj hmid
          have hne : hookPlace hook ahead ≠ cell.1 := by
            rw [hcells] at hm
            apply hm.place_ne
            rw [show behind = as ++ cell :: mid from hbehind]
            simp
          refine ⟨⟨as ++ mid, ahead⟩, ?_, by simp, if_neg (mt Option.some.inj hne)⟩
          rw [show behind = as ++ cell :: mid from hbehind]
          exact Walk.Step.removeBehind
      · have hahead' : ahead = mid ++ cell :: bs := hahead
        subst hahead'
        refine ⟨⟨behind, mid ++ bs⟩, Walk.Step.removeAhead, ?_, ?_⟩
        · rw [show as = behind ++ mid from has, List.append_assoc]
        · cases mid with
          | nil => exact if_pos rfl
          | cons first mid =>
            have hne : cell.1 ≠ first.1 := by
              apply hm.place_ne
              rw [show as = behind ++ first :: mid from has]
              simp
            exact if_neg fun hsame => hne (Option.some.inj hsame).symm
    obtain ⟨place', hstep, hcells', hcur⟩ := hplace
    rw [hcur, hcells'] at hm'
    refine ⟨_, hremove, events ++ [.remove cell], place', ⟨hm', h.run.step hstep (by simp), ?_, ?_,
      h.requests, h.frees, ?_, ?_⟩, hrunning, hcells'⟩
    · rw [h.log, List.append_assoc]
    · rw [Walk.inserted_append_remove]
      exact h.serial
    · rw [Walk.visited_append_remove]
      exact h.visited
    · rw [Walk.inserted_append_remove]
      exact h.inserted

/-! ### Adding -/

/-- Without memory nothing happens, else an entry is inserted. -/
theorem add (h : s₀.Walks hook start s events place rets adds) (malloc : Malloc) (cb data : ℕ)
    (oneshot : Bool) :
    ((cb = 0 ∨ malloc.addr s.heap.keys = none) ∧
        ∃ code, shlHookAdd malloc hook cb data oneshot s = some (code, s)) ∨
      ∃ s' cell, shlHookAdd malloc hook cb data oneshot s = some (0, s') ∧
        s'.running = s.running ∧ s'.requests = s.requests ∧
        s₀.Walks hook start s' (events ++ [.insert cell]) (place.insert cell) rets (adds + 1) := by
  rcases shlHookAdd_spec malloc h.memory cb data oneshot with hnone | ⟨heap, a, hadd, hm⟩
  · exact Or.inl hnone
  · let cell : HookCell := (a, ⟨cb, data, oneshot, s.allocated⟩)
    have hnew : cell ∉ start ++ Walk.inserted events :=
      fun hmem => Nat.lt_irrefl _ (h.serial cell hmem)
    refine Or.inr ⟨_, cell, hadd, rfl, rfl, ?_, ?_, ?_, ?_, h.requests, h.frees, ?_, ?_⟩
    · rw [cells_insert, hookPlace_insert]
      exact hm
    · apply h.run.step (Walk.Step.insert place cell)
      rintro b hb
      obtain rfl := Walk.Event.insert.inj hb
      exact hnew
    · rw [← List.append_assoc, ← h.log]
    · rw [Walk.inserted_append_insert, ← List.append_assoc]
      intro b hb
      rcases List.mem_append.mp hb with hb | hb
      · exact Nat.lt_succ_of_lt (h.serial b hb)
      · rw [List.mem_singleton.mp hb]
        exact Nat.lt_succ_self _
    · rw [Walk.visited_append_insert]
      exact h.visited
    · rw [Walk.inserted_append_insert, List.length_append]
      exact Nat.succ_le_succ h.inserted

theorem mono {adds' : ℕ} (h : s₀.Walks hook start s events place rets adds) (hle : adds ≤ adds') :
    s₀.Walks hook start s events place rets adds' :=
  { h with inserted := Nat.le_trans h.inserted hle }

/-! ### From callback to callback -/

/-- With nothing ahead the call is over. -/
theorem callLoop_end (h : s₀.Walks hook start s events place rets adds) (hstart : start.Nodup)
    (hrunning : s.running = []) (hahead : place.ahead = []) :
    ∃ s', shlHookCallLoop hook s = some s' ∧ s'.requests = s.requests ∧
      s₀.Over hook start s' events place := by
  have hserial : ∀ cell ∈ place.behind ++ place.ahead, cell.2.serial < s.allocated :=
    fun _ hcell => h.serial_lt hstart hcell
  have hm := h.memory
  have hextra : s.extra = [] := by rw [HookState.extra, hrunning, List.flatMap_nil]
  rw [hextra, hahead, List.append_nil] at hm
  rw [hahead, List.append_nil] at hserial
  obtain ⟨heap, hset, hm'⟩ := hm.setHook
    (countedHook place.behind [] none (decide (s₀.requests < s.requests)))
  have hloop : shlHookCallLoop hook s =
      if s₀.requests < s.requests then shlHookFree hook { s with heap := heap }
      else some { s with heap := heap } := by
    rw [shlHookCallLoop, hm.hookAt rfl]
    simp only [Option.bind_eq_bind, Option.bind_some, countedHook, hookPlace, if_true,
      decide_eq_true_eq] at hset ⊢
    rw [hset s rfl]
    rfl
  rw [hloop]
  by_cases hdead : s₀.requests < s.requests
  · obtain ⟨heap', hfree, hempty⟩ := HookMemory.free (s := { s with heap := heap }) hm' rfl
    rw [if_pos hdead]
    refine ⟨_, hfree, rfl, hrunning, hahead, h.run, h.log, fun hsame => ?_, fun _ => ⟨?_, hempty⟩⟩
    · exact absurd hsame (Nat.ne_of_gt hdead)
    · exact congrArg (· + 1) h.frees
  · rw [if_neg hdead]
    rw [decide_eq_false hdead] at hm'
    refine ⟨_, rfl, rfl, hrunning, hahead, h.run, h.log,
      fun _ => ⟨h.frees, hm', hrunning, hserial⟩, fun hne => ?_⟩
    exact absurd (Nat.lt_of_le_of_ne h.requests hne.symm) hdead

/-- The next entry is visited. It is taken out of the list if it is for one call only. -/
theorem callLoop_next {behind rest : List HookCell} {cell : HookCell}
    (h : s₀.Walks hook start s events ⟨behind, cell :: rest⟩ rets adds)
    (hrunning : s.running = []) :
    ∃ s' frame events place, shlHookCallLoop hook s = some s' ∧ s'.running = [frame] ∧
      s'.requests = s.requests ∧
      place = ⟨if cell.2.oneshot then behind else behind ++ [cell], rest⟩ ∧
      s₀.Walks hook start s' events place rets adds := by
  have hm := h.memory
  have hextra : s.extra = [] := by rw [HookState.extra, hrunning, List.flatMap_nil]
  rw [hextra] at hm
  have hne : cell.1 ≠ hook := hm.hook_ne (by simp)
  have hentry := hm.entryAt (s := s) rfl (by simp : cell ∈ behind ++ cell :: rest)
  obtain ⟨heap, hset, hm'⟩ := hm.setHook
    (countedHook (behind ++ cell :: rest) [] (some (hookPlace hook rest))
      (decide (s₀.requests < s.requests)))
  have hvisited : (Walk.visited (events ++ [.visit cell])).length = rets + 1 := by
    rw [Walk.visited_append_visit, List.length_append, h.visited, hrunning]
    rfl
  -- the list and the memory afterwards
  have hplace : ∃ heap' place',
      place' = ⟨if cell.2.oneshot then behind else behind ++ [cell], rest⟩ ∧
      (if cell.2.oneshot then unlink heap cell.1 else some heap) = some heap' ∧
      Walk.Step ⟨behind, cell :: rest⟩ (.visit cell) place' ∧
      HookMemory heap' hook (countedHook (place'.behind ++ place'.ahead)
        (HookFrame.extra ⟨cell.1, cell.2.oneshot⟩) (some (hookPlace hook place'.ahead))
        (decide (s₀.requests < s.requests))) (place'.behind ++ place'.ahead)
        (HookFrame.extra ⟨cell.1, cell.2.oneshot⟩) := by
    unfold HookFrame.extra
    cases cell.2.oneshot with
    | true =>
      obtain ⟨heap', hunlink, hm''⟩ := hm'.unlinkCell
      rw [countedHook_unlink] at hm''
      exact ⟨heap', ⟨behind, rest⟩, rfl, hunlink, Walk.Step.visitOut, hm''⟩
    | false =>
      refine ⟨heap, ⟨behind ++ [cell], rest⟩, rfl, rfl, Walk.Step.visit, ?_⟩
      simpa using hm'
  obtain ⟨heap', place', hplace', hunlink, hstep, hm''⟩ := hplace
  refine ⟨{ s with
    heap := heap', running := [⟨cell.1, cell.2.oneshot⟩], log := s.log ++ [.visit cell] },
    ⟨cell.1, cell.2.oneshot⟩, events ++ [.visit cell], place', ?_, rfl, rfl, hplace', ?_, ?_,
    ?_, ?_, h.requests, h.frees, hvisited, ?_⟩
  · rw [shlHookCallLoop, hm.hookAt rfl]
    simp only [Option.bind_eq_bind, Option.bind_some, countedHook, hookPlace, if_neg hne,
      hentry, hm.nextOf_cell] at hset ⊢
    rw [hset s rfl]
    simp only [Option.bind_some, hrunning]
    by_cases hshot : cell.2.oneshot = true
    · rw [if_pos hshot] at hunlink ⊢
      rw [hunlink]
      rfl
    · rw [if_neg hshot] at hunlink ⊢
      obtain rfl := Option.some.inj hunlink
      rfl
  · rw [HookState.extra, List.flatMap_singleton]
    exact hm''
  · exact h.run.step hstep (by simp)
  · rw [h.log, List.append_assoc]
  · rw [Walk.inserted_append_visit]
    exact h.serial
  · rw [Walk.inserted_append_visit]
    exact h.inserted

/-- The next callback runs, or the call is over. -/
theorem callLoop (h : s₀.Walks hook start s events place rets adds) (hstart : start.Nodup)
    (hrunning : s.running = []) :
    ∃ s' events place, shlHookCallLoop hook s = some s' ∧
      ((∃ frame, s'.running = [frame] ∧ s₀.Walks hook start s' events place rets adds) ∨
        s₀.Over hook start s' events place) := by
  obtain ⟨behind, ahead⟩ := place
  cases ahead with
  | nil =>
    obtain ⟨s', hloop, -, hover⟩ := h.callLoop_end hstart hrunning rfl
    exact ⟨s', _, _, hloop, Or.inr hover⟩
  | cons cell rest =>
    obtain ⟨s', frame, events', place', hloop, hframe, -, -, h'⟩ := h.callLoop_next hrunning
    exact ⟨s', events', place', hloop, Or.inl ⟨frame, hframe, h'⟩⟩

/-- When a callback returns, its entry is freed if it has been taken out. -/
theorem ret (h : s₀.Walks hook start s events place rets adds) {frame : HookFrame}
    (hrunning : s.running = [frame]) :
    ∃ s', shlHookReturn hook s = shlHookCallLoop hook s' ∧ s'.running = [] ∧
      s'.requests = s.requests ∧ s₀.Walks hook start s' events place (rets + 1) adds := by
  have hvisited : (Walk.visited events).length = rets + 1 := by
    rw [h.visited, hrunning]
    rfl
  have hm := h.memory
  rw [HookState.extra, hrunning, List.flatMap_singleton] at hm
  unfold shlHookReturn
  rw [hrunning]
  unfold HookFrame.extra at hm
  cases hshot : frame.oneshot with
  | true =>
    rw [hshot, if_pos rfl] at hm
    obtain ⟨heap₁, hfree, hm₁⟩ := hm.freeExtra
    obtain ⟨heap₂, hset, hm₂⟩ := hm₁.setHook
      { countedHook (place.behind ++ place.ahead) [frame.entry] (some (hookPlace hook place.ahead))
          (decide (s₀.requests < s.requests)) with
        num := (countedHook (place.behind ++ place.ahead) [frame.entry]
          (some (hookPlace hook place.ahead)) (decide (s₀.requests < s.requests))).num - 1 }
    rw [countedHook_free] at hm₂
    refine ⟨{ s with heap := heap₂, running := [] }, ?_, rfl, rfl, hm₂, h.run, h.log, h.serial,
      h.requests, h.frees, hvisited, h.inserted⟩
    simp only [hshot, if_true, Option.bind_eq_bind, hfree, Option.bind_some, hm₁.hookAt, hset]
  | false =>
    rw [hshot, if_neg Bool.false_ne_true] at hm
    refine ⟨{ s with running := [] }, ?_, rfl, rfl, hm, h.run, h.log, h.serial,
      h.requests, h.frees, hvisited, h.inserted⟩
    simp only [hshot, Bool.false_eq_true, if_false]

/-- A call from a callback does nothing. -/
theorem nested (h : s₀.Walks hook start s events place rets adds) :
    shlHookCall hook s = some s := by
  rw [shlHookCall, h.memory.hookAt rfl]
  rfl

/-- The hook is only marked. -/
theorem free (h : s₀.Walks hook start s events place rets adds) :
    ∃ s', shlHookFree hook { s with requests := s.requests + 1 } = some s' ∧
      s'.running = s.running ∧ s₀.Walks hook start s' events place rets adds := by
  obtain ⟨heap, hfree, hm⟩ := HookMemory.free_of_call
    (s := { s with requests := s.requests + 1 }) h.memory rfl
  have hless : s₀.requests < s.requests + 1 := Nat.lt_succ_of_le h.requests
  refine ⟨_, hfree, rfl, ?_, h.run, h.log, h.serial, Nat.le_of_lt hless, h.frees, h.visited,
    h.inserted⟩
  rw [decide_eq_true hless]
  exact hm

/-- What an action of a callback does. -/
theorem act (h : s₀.Walks hook start s events place rets adds) (hstart : start.Nodup)
    {frame : HookFrame} (hrunning : s.running = [frame]) (malloc : Malloc) (action : HookAct) :
    ∃ s' events place, s.act malloc hook action = some s' ∧
      ((∃ frame, s'.running = [frame] ∧ s₀.Walks hook start s' events place
          (rets + if action = .ret then 1 else 0) (adds + if action.adds then 1 else 0)) ∨
        s₀.Over hook start s' events place) := by
  have hadd : ∀ cb data oneshot, ∃ s' events place,
      (shlHookAdd malloc hook cb data oneshot s).map Prod.snd = some s' ∧
        s'.running = [frame] ∧ s₀.Walks hook start s' events place rets (adds + 1) := by
    intro cb data oneshot
    rcases h.add malloc cb data oneshot with ⟨-, code, hsame⟩ | ⟨s', cell, hadd, hrun, -, h'⟩
    · exact ⟨s, events, place, by rw [hsame, Option.map_some], hrunning, h.mono (Nat.le_succ _)⟩
    · exact ⟨s', _, _, by rw [hadd, Option.map_some], hrun.trans hrunning, h'⟩
  have hwhole : ∃ events place, s₀.Walks hook start s events place rets adds ∧
      s.running = [frame] ∧ _ = place.behind ++ place.ahead := ⟨events, place, h, hrunning, rfl⟩
  cases action with
  | add cb data oneshot =>
    obtain ⟨s', events', place', hadd, hframe, h'⟩ := hadd cb data oneshot
    exact ⟨s', events', place', hadd, Or.inl ⟨frame, hframe, h'⟩⟩
  | addSingle cb data oneshot =>
    rcases shlHookAddSingle_spec malloc h.memory cb data oneshot with ⟨-, hsame⟩ | hsame
    · refine ⟨s, events, place, ?_, Or.inl ⟨frame, hrunning, h.mono (Nat.le_succ _)⟩⟩
      rw [HookState.act, hsame, Option.map_some]
    · obtain ⟨s', events', place', hadd, hframe, h'⟩ := hadd cb data oneshot
      refine ⟨s', events', place', ?_, Or.inl ⟨frame, hframe, h'⟩⟩
      rw [HookState.act, hsame]
      exact hadd
  | rm cb data =>
    obtain ⟨s', hrm, hcases⟩ := (removable s₀ hook start [frame] rets adds).rm hwhole cb data
    rcases hcases with ⟨_, _, _, -, -, -, events', place', h', hframe, -⟩ | ⟨rfl, -⟩
    · exact ⟨s', events', place', hrm, Or.inl ⟨frame, hframe, h'⟩⟩
    · exact ⟨s', events, place, hrm, Or.inl ⟨frame, hrunning, h⟩⟩
  | rmAll cb data =>
    obtain ⟨s', hrm, hcases⟩ := (removable s₀ hook start [frame] rets adds).rmAll hwhole cb data
    rcases hcases with ⟨-, rfl⟩ | ⟨events', place', h', hframe, -⟩
    · exact ⟨s', events, place, hrm, Or.inl ⟨frame, hrunning, h⟩⟩
    · exact ⟨s', events', place', hrm, Or.inl ⟨frame, hframe, h'⟩⟩
  | call => exact ⟨s, events, place, h.nested, Or.inl ⟨frame, hrunning, h⟩⟩
  | free =>
    obtain ⟨s', hfree, hframe, h'⟩ := h.free
    exact ⟨s', events, place, hfree, Or.inl ⟨frame, hframe.trans hrunning, h'⟩⟩
  | ret =>
    obtain ⟨mid, hret, hmid, -, h'⟩ := h.ret hrunning
    obtain ⟨s', events', place', hloop, hcases⟩ := h'.callLoop hstart hmid
    exact ⟨s', events', place', hret.trans hloop, hcases⟩

end HookState.Walks

end Faceplate.Shl
