import Mathlib.Algebra.Group.Nat.Defs
import Faceplate.Shl.HookCall

/-!
# Programs with a hook

Whatever a program and the callbacks of a hook do, only memory that is there is used, a call
gives each entry its turn, and a hook that is to be freed during a call is freed when it is
over. The counter has 32 bits, and with as many entries as it has values it is 0.
-/

namespace Faceplate.Shl

open Dlist

/-! ## Outside of a call -/

namespace HookState.Idle

variable {s : HookState} {hook : ℕ} {cells : List HookCell}

theorem nodup (h : s.Idle hook cells) : cells.Nodup := h.memory.nodup_cells

/-- The counter is the number of entries, as an unsigned number. -/
theorem shlHookNum_eq (h : s.Idle hook cells) :
    shlHookNum hook s = some (UInt32.ofNat cells.length) := by
  rw [shlHookNum, h.memory.hookAt rfl]
  rfl

/-- Without memory nothing happens, else there is one more entry. -/
theorem add (h : s.Idle hook cells) (malloc : Malloc) (cb data : ℕ) (oneshot : Bool) :
    ((cb = 0 ∨ malloc.addr s.heap.keys = none) ∧
        ∃ code, shlHookAdd malloc hook cb data oneshot s = some (code, s)) ∨
      ∃ s' cell, shlHookAdd malloc hook cb data oneshot s = some (0, s') ∧
        cell.2.oneshot = oneshot ∧ s'.Idle hook (cells ++ [cell]) := by
  rcases shlHookAdd_spec malloc h.memory cb data oneshot with hnone | ⟨heap, a, hadd, hm⟩
  · exact Or.inl hnone
  · refine Or.inr ⟨_, _, hadd, rfl, hm, h.running, fun c hc => ?_⟩
    rcases List.mem_append.mp hc with hc | hc
    · exact Nat.lt_succ_of_lt (h.serial c hc)
    · rw [List.mem_singleton.mp hc]
      exact Nat.lt_succ_self _

/-- A call starts in front of the first entry. -/
theorem call (h : s.Idle hook cells) :
    ∃ s₁, shlHookCall hook s = shlHookCallLoop hook s₁ ∧ s₁.running = [] ∧
      s₁.requests = s.requests ∧ s.Walks hook cells s₁ [] ⟨[], cells⟩ 0 0 := by
  have hm := h.memory
  have hextra : s.extra = [] := by rw [HookState.extra, h.running, List.flatMap_nil]
  obtain ⟨heap, hset, hm'⟩ :=
    hm.setHook (countedHook cells [] (some (hookPlace hook cells)) false)
  refine ⟨{ s with heap := heap }, ?_, h.running, rfl, ?_, Walk.Run.start, ?_, ?_, Nat.le_refl _,
    rfl, ?_, Nat.le_refl _⟩
  · rw [shlHookCall, hm.hookAt rfl]
    simp only [Option.bind_eq_bind, Option.bind_some, hm.nextOf_hook]
    exact congrArg (·.bind (shlHookCallLoop hook)) (hset s rfl)
  · rw [decide_eq_false (Nat.lt_irrefl _)]
    rw [HookState.extra] at hextra ⊢
    simp only [hextra, List.nil_append]
    exact hm'
  · rw [List.append_nil]
  · rw [show Walk.inserted ([] : List (Walk.Event HookCell)) = [] from rfl, List.append_nil]
    exact h.serial
  · rw [show s.running = [] from h.running]
    rfl

end HookState.Idle

/-! ## Programs -/

section Programs

variable {s₀ s : HookState} {hook : ℕ} {start : List HookCell} (malloc : Malloc)

/-- When a call is over its callbacks do nothing any more. -/
theorem during_of_over (hrunning : s.running = []) (acts : List HookAct) :
    s.during malloc hook acts = some s := by
  cases acts with
  | nil => rfl
  | cons act acts =>
    rw [HookState.during, HookState.runWhile, hrunning]
    rfl

theorem during_cons {frame : HookFrame} (hrunning : s.running = [frame]) (act : HookAct)
    (acts : List HookAct) : s.during malloc hook (act :: acts) =
      (s.act malloc hook act).bind (HookState.during malloc hook acts) := by
  rw [HookState.during, HookState.runWhile, hrunning]
  rfl

/-- What callbacks do, for as long as the call goes on. -/
theorem HookState.Walks.during {events : List (Walk.Event HookCell)}
    {place : Walk.Place HookCell} {rets adds : ℕ} {frame : HookFrame}
    (h : s₀.Walks hook start s events place rets adds) (hstart : start.Nodup)
    (hrunning : s.running = [frame]) (acts : List HookAct) :
    ∃ s' events place, s.during malloc hook acts = some s' ∧
      ((∃ frame, s'.running = [frame] ∧ s₀.Walks hook start s' events place
          (rets + acts.count .ret) (adds + acts.countP HookAct.adds)) ∨
        s₀.Over hook start s' events place) := by
  induction acts generalizing s events place rets adds frame with
  | nil => exact ⟨s, events, place, rfl, Or.inl ⟨frame, hrunning, h⟩⟩
  | cons act acts ih =>
    rw [during_cons malloc hrunning]
    obtain ⟨mid, events', place', hact, hcases⟩ := h.act hstart hrunning malloc act
    rw [hact, Option.bind_some]
    rcases hcases with ⟨frame', hmid, h'⟩ | hover
    · obtain ⟨s', events'', place'', hduring, hcases⟩ := ih h' hmid
      refine ⟨s', events'', place'', hduring, ?_⟩
      rcases hcases with ⟨frame'', hframe, h''⟩ | hover
      · refine Or.inl ⟨frame'', hframe, ?_⟩
        rw [List.count_cons, List.countP_cons, Nat.add_comm (acts.count .ret),
          Nat.add_comm (acts.countP HookAct.adds), ← Nat.add_assoc, ← Nat.add_assoc]
        simpa only [beq_iff_eq] using h''
      · exact Or.inr hover
    · exact ⟨mid, events', place', during_of_over malloc hover.running acts, Or.inr hover⟩

/-- What a program may be in: outside of a call, in a call, or done with the hook. -/
inductive HookState.Legal (hook : ℕ) (s : HookState) : Prop
  | idle {cells : List HookCell} (h : s.Idle hook cells)
  | calling {s₀ : HookState} {start : List HookCell} {events : List (Walk.Event HookCell)}
      {place : Walk.Place HookCell} {rets adds : ℕ} {frame : HookFrame} (hstart : start.Nodup)
      (hrunning : s.running = [frame]) (h : s₀.Walks hook start s events place rets adds)
  | freed (h : hook ∉ s.heap)

theorem HookState.Over.legal {events : List (Walk.Event HookCell)}
    {place : Walk.Place HookCell} (h : s₀.Over hook start s events place) : s.Legal hook := by
  by_cases hask : s.requests = s₀.requests
  · exact Legal.idle (h.kept hask).2
  · exact Legal.freed ((h.freed hask).2 hook)

/-- Outside of a call every action is defined. -/
theorem HookState.Idle.act {cells : List HookCell} (h : s.Idle hook cells) (action : HookAct) :
    ∃ s', s.act malloc hook action = some s' ∧ s'.Legal hook := by
  have hadd : ∀ cb data oneshot, ∃ s',
      (shlHookAdd malloc hook cb data oneshot s).map Prod.snd = some s' ∧ s'.Legal hook := by
    intro cb data oneshot
    rcases h.add malloc cb data oneshot with ⟨-, code, hsame⟩ | ⟨s', cell, hadd, -, h'⟩
    · exact ⟨s, by rw [hsame, Option.map_some], Legal.idle h⟩
    · exact ⟨s', by rw [hadd, Option.map_some], Legal.idle h'⟩
  cases action with
  | add cb data oneshot => exact hadd cb data oneshot
  | addSingle cb data oneshot =>
    rcases shlHookAddSingle_spec malloc h.memory cb data oneshot with ⟨-, hsame⟩ | hsame
    · refine ⟨s, ?_, Legal.idle h⟩
      rw [HookState.act, hsame, Option.map_some]
    · obtain ⟨s', hadd, h'⟩ := hadd cb data oneshot
      refine ⟨s', ?_, h'⟩
      rw [HookState.act, hsame]
      exact hadd
  | rm cb data =>
    obtain ⟨s', hrm, hcases⟩ := (removable hook).rm h cb data
    rcases hcases with ⟨_, _, _, -, -, -, h'⟩ | ⟨rfl, -⟩
    · exact ⟨s', hrm, Legal.idle h'⟩
    · exact ⟨s', hrm, Legal.idle h⟩
  | rmAll cb data =>
    obtain ⟨s', hrm, hcases⟩ := (removable hook).rmAll h cb data
    rcases hcases with ⟨-, rfl⟩ | h'
    · exact ⟨s', hrm, Legal.idle h⟩
    · exact ⟨s', hrm, Legal.idle h'⟩
  | call =>
    obtain ⟨mid, hcall, hmid, -, hwalks⟩ := h.call
    obtain ⟨s', events, place, hloop, hcases⟩ := hwalks.callLoop h.nodup hmid
    refine ⟨s', hcall.trans hloop, ?_⟩
    rcases hcases with ⟨frame, hframe, h'⟩ | hover
    · exact Legal.calling h.nodup hframe h'
    · exact hover.legal
  | free =>
    obtain ⟨heap, hfree, hempty⟩ :=
      HookMemory.free (s := { s with requests := s.requests + 1 }) h.memory rfl
    exact ⟨_, hfree, Legal.freed (hempty hook)⟩
  | ret =>
    refine ⟨s, ?_, Legal.idle h⟩
    rw [HookState.act, shlHookReturn, h.running]

/-- A program that uses a hook until it has been freed is defined. -/
theorem HookState.Legal.run (h : s.Legal hook) (acts : List HookAct) :
    ∃ s', s.run malloc hook acts = some s' ∧ s'.Legal hook := by
  induction acts generalizing s with
  | nil => exact ⟨s, rfl, h⟩
  | cons action acts ih =>
    have hstep : hook ∈ s.heap →
        ∃ s', s.act malloc hook action = some s' ∧ s'.Legal hook := by
      intro hmem
      cases h with
      | idle h => exact h.act malloc action
      | calling hstart hrunning h =>
        obtain ⟨s', events, place, hact, hcases⟩ := h.act hstart hrunning malloc action
        refine ⟨s', hact, ?_⟩
        rcases hcases with ⟨frame, hframe, h'⟩ | hover
        · exact Legal.calling hstart hframe h'
        · exact hover.legal
      | freed h => exact absurd hmem h
    rw [HookState.run, HookState.runWhile]
    by_cases hmem : hook ∈ s.heap
    · obtain ⟨mid, hact, hmid⟩ := hstep hmem
      obtain ⟨s', hrun, hs'⟩ := ih hmid
      refine ⟨s', ?_, hs'⟩
      rw [if_pos (decide_eq_true hmem), hact]
      exact hrun
    · exact ⟨s, if_neg (by simpa using hmem), h⟩

/-- A new hook has no entries. -/
theorem shlHookNew_idle {malloc : Malloc} (hnew : shlHookNew malloc = some (hook, s)) :
    s.Idle hook [] := by
  obtain ⟨a, -, hpair⟩ := Option.map_eq_some_iff.mp hnew
  obtain ⟨rfl, rfl⟩ := Prod.mk.inj hpair
  have hhead : (AList.singleton a ⟨some a, some a, .head ⟨0, none, false⟩⟩ :
      Heap (Node HookData)).lookup a = some ⟨some a, some a, .head ⟨0, none, false⟩⟩ :=
    List.dlookup_cons_eq [] a _
  refine ⟨⟨⟨List.nodup_singleton a, ?_, ?_⟩, ?_, by simp, List.nodup_singleton a, ?_⟩, rfl, by simp⟩
  · rw [nextOf, hhead, Option.bind_some]
  · rw [prevOf, hhead, Option.bind_some]
  · rw [dataOf, hhead]
    rfl
  · exact fun b => Iff.rfl

end Programs

/-! ## Turns -/

/-- What a call that started in the state `s₀` with these entries has done. Its events are
those of the list. Nothing is visited twice, or when it has been removed before. As soon as the
call is over, or as many callbacks have run as there were entries, the entries of the start have
had their turns, in their order and before all others. A call inside of it does nothing. The
hook is freed once if that has been asked for, when the call is over, and else it stays. -/
structure HookState.Called (s₀ : HookState) (hook : ℕ) (start : List HookCell) (s : HookState)
    (events : List (Walk.Event HookCell)) : Prop where
  log : s.log = s₀.log ++ events
  once : (Walk.visited events).Nodup
  removed : ∀ cell, Walk.Skipped events cell → cell ∉ Walk.visited events
  turns : s.running = [] ∨ start.length ≤ (Walk.visited events).length →
    ∃ early late, Walk.visited events = early ++ late ∧ early.Sublist start ∧
      (∀ cell ∈ late, cell ∉ start) ∧
      ∀ cell ∈ start, cell ∈ early ↔ ¬ Walk.Skipped events cell
  going : s.running ≠ [] →
    hook ∈ s.heap ∧ s.frees = s₀.frees ∧ shlHookCall hook s = some s
  freed : s.running = [] → s.requests ≠ s₀.requests →
    s.frees = s₀.frees + 1 ∧ ∀ a, a ∉ s.heap
  kept : s.running = [] → s.requests = s₀.requests → s.frees = s₀.frees ∧
    ∃ cells, s.Idle hook cells ∧ shlHookNum hook s = some (UInt32.ofNat cells.length)

section Turns

variable {s₀ s : HookState} {hook : ℕ} {start : List HookCell}
  {events : List (Walk.Event HookCell)} {place : Walk.Place HookCell}

theorem HookState.Walks.called {rets adds : ℕ} {frame : HookFrame}
    (h : s₀.Walks hook start s events place rets adds) (hstart : start.Nodup)
    (hrunning : s.running = [frame]) : s₀.Called hook start s events := by
  have hne : s.running ≠ [] := by simp [hrunning]
  constructor
  · exact h.log
  · exact h.run.nodup_visited hstart
  · exact fun cell hcell => h.run.notMem_visited hstart hcell
  · exact fun hend => h.run.turns hstart (Or.inr (hend.resolve_left hne))
  · exact fun _ => ⟨h.memory.mem_hook, h.frees, h.nested⟩
  · exact fun hover => absurd hover hne
  · exact fun hover => absurd hover hne

theorem HookState.Over.called (h : s₀.Over hook start s events place) (hstart : start.Nodup) :
    s₀.Called hook start s events := by
  constructor
  · exact h.log
  · exact h.run.nodup_visited hstart
  · exact fun cell hcell => h.run.notMem_visited hstart hcell
  · exact fun _ => h.run.turns hstart (Or.inl h.ahead)
  · exact fun hgoing => absurd h.running hgoing
  · exact fun _ => h.freed
  · intro _ hsame
    obtain ⟨hfrees, hidle⟩ := h.kept hsame
    exact ⟨hfrees, place.behind, hidle, hidle.shlHookNum_eq⟩

/-- A callback has returned for each that has run, but the last one. -/
theorem HookState.Walks.rets_lt {rets adds : ℕ} {frame : HookFrame}
    (h : s₀.Walks hook start s events place rets adds) (hstart : start.Nodup)
    (hrunning : s.running = [frame]) : rets < start.length + adds := by
  have hvisited := h.visited
  have hle := h.run.length_visited_le hstart
  have hadds := h.inserted
  rw [hrunning, List.length_singleton] at hvisited
  omega

end Turns

/-- In whatever state a program has left a hook, a call of it gives each entry its turn,
whatever its callbacks do. It goes on as long as there are callbacks that have not returned,
of the entries there were and of those that have been added. -/
theorem shlHookCall_turns (malloc : Malloc) {hook : ℕ} {new : HookState}
    (hnew : shlHookNew malloc = some (hook, new)) (acts : List HookAct) :
    ∃ s, new.run malloc hook acts = some s ∧ (s.running = [] → hook ∈ s.heap →
      ∃ start s₁, s.Idle hook start ∧ shlHookCall hook s = some s₁ ∧
        ∀ during, ∃ s₂ events, s₁.during malloc hook during = some s₂ ∧
          s.Called hook start s₂ events ∧
          (s₂.running ≠ [] → during.count .ret < start.length + during.countP HookAct.adds)) := by
  obtain ⟨s, hrun, hlegal⟩ := (HookState.Legal.idle (shlHookNew_idle hnew)).run malloc acts
  refine ⟨s, hrun, fun htop hmem => ?_⟩
  cases hlegal with
  | calling _ hrunning _ => simp [hrunning] at htop
  | freed hfreed => exact absurd hmem hfreed
  | @idle start hidle =>
    obtain ⟨mid, hcall, hmid, -, hwalks⟩ := hidle.call
    obtain ⟨s₁, events, place, hloop, hcases⟩ := hwalks.callLoop hidle.nodup hmid
    refine ⟨start, s₁, hidle, hcall.trans hloop, fun during => ?_⟩
    rcases hcases with ⟨frame, hframe, h⟩ | hover
    · obtain ⟨s₂, events₂, place₂, hduring, hcases⟩ :=
        h.during malloc hidle.nodup hframe during
      refine ⟨s₂, events₂, hduring, ?_⟩
      rcases hcases with ⟨frame₂, hframe₂, h₂⟩ | hover₂
      · have hlt := h₂.rets_lt hidle.nodup hframe₂
        rw [Nat.zero_add, Nat.zero_add] at hlt
        exact ⟨h₂.called hidle.nodup hframe₂, fun _ => hlt⟩
      · exact ⟨hover₂.called hidle.nodup, fun hgoing => absurd hover₂.running hgoing⟩
    · exact ⟨s₁, events, during_of_over malloc hover.running during, hover.called hidle.nodup,
        fun hgoing => absurd hover.running hgoing⟩

/-- The first of two callbacks removes the second one, calls the hook again, asks for it to be
freed, and returns. -/
theorem shlHookCall_turns_remove :
    ∃ hook new s start s₁ s₂ events, shlHookNew Malloc.bump = some (hook, new) ∧
      new.run Malloc.bump hook [.add 1 0 true, .add 2 0 false] = some s ∧
      s.Idle hook start ∧ shlHookCall hook s = some s₁ ∧
      s₁.during Malloc.bump hook [.rm 2 0, .call, .free, .ret] = some s₂ ∧
      s.Called hook start s₂ events := by
  have hnew : shlHookNew Malloc.bump =
      some (0, ⟨AList.singleton 0 ⟨some 0, some 0, .head ⟨0, none, false⟩⟩, [], 0, [], 0, 0⟩) := rfl
  obtain ⟨s, hrun, h⟩ := shlHookCall_turns Malloc.bump hnew [.add 1 0 true, .add 2 0 false]
  have hready : s.running.isEmpty = true ∧ 0 ∈ s.heap.keys := by
    have hall : ∀ t ∈ HookState.run Malloc.bump 0 [.add 1 0 true, .add 2 0 false]
        ⟨AList.singleton 0 ⟨some 0, some 0, .head ⟨0, none, false⟩⟩, [], 0, [], 0, 0⟩,
        t.running.isEmpty = true ∧ 0 ∈ t.heap.keys := by decide +kernel
    exact hall s hrun
  obtain ⟨start, s₁, hidle, hcall, hduring⟩ :=
    h (List.isEmpty_iff.mp hready.1) (AList.mem_keys.mp hready.2)
  obtain ⟨s₂, events, hs₂, hcalled, -⟩ := hduring [.rm 2 0, .call, .free, .ret]
  exact ⟨0, _, s, start, s₁, s₂, events, hnew, hrun, hidle, hcall, hs₂, hcalled⟩

/-! ### The counter -/

/-- A callback with nothing ahead adds entries. -/
theorem HookState.Walks.add_many {s₀ s : HookState} {hook : ℕ} {start : List HookCell}
    {events : List (Walk.Event HookCell)} {place : Walk.Place HookCell} {rets adds : ℕ}
    {frame : HookFrame} {malloc : Malloc} (h : s₀.Walks hook start s events place rets adds)
    (hrunning : s.running = [frame]) (hahead : place.ahead = []) (hmalloc : malloc.Succeeds)
    (n : ℕ) (acts : List HookAct) :
    ∃ s' events' place' adds',
      s.during malloc hook (List.replicate n (.add 1 0 false) ++ acts) =
        s'.during malloc hook acts ∧
      s'.running = [frame] ∧ s'.requests = s.requests ∧ place'.ahead = [] ∧
      place'.behind.length = place.behind.length + n ∧
      s₀.Walks hook start s' events' place' rets adds' := by
  induction n generalizing s events place adds with
  | zero => exact ⟨s, events, place, adds, rfl, hrunning, rfl, hahead, rfl, h⟩
  | succ n ih =>
    rcases h.add malloc 1 0 false with ⟨hnone, -⟩ | ⟨mid, cell, hadd, hmid, hask, h'⟩
    · obtain ⟨a, ha⟩ := hmalloc s.heap.keys
      simp [ha] at hnone
    · have hinsert : place.insert cell = ⟨place.behind ++ [cell], []⟩ := by
        rw [Walk.Place.insert, hahead]
        rfl
      rw [hinsert] at h'
      obtain ⟨s', events', place', adds', hduring, hframe, hask', hahead', hlen, h''⟩ :=
        ih h' (hmid.trans hrunning) rfl
      refine ⟨s', events', place', adds', ?_, hframe, hask'.trans hask, hahead', ?_, h''⟩
      · rw [List.replicate_succ, List.cons_append, during_cons malloc hrunning, HookState.act,
          hadd]
        exact hduring
      · rw [hlen, List.length_append, List.length_singleton]
        omega

/-- The callback of a single entry adds `n` entries. -/
theorem during_adds (n : ℕ) :
    ∃ hook new s s₁ s₂ cells, shlHookNew Malloc.bump = some (hook, new) ∧
      new.run Malloc.bump hook [.add 1 0 false] = some s ∧ shlHookCall hook s = some s₁ ∧
      s₁.during Malloc.bump hook (List.replicate n (.add 1 0 false) ++ [.ret]) = some s₂ ∧
      s₂.running = [] ∧ s₂.Idle hook cells ∧ cells.length = n + 1 := by
  obtain ⟨⟨hook, new⟩, hnew⟩ : ∃ pair, shlHookNew Malloc.bump = some pair := ⟨_, rfl⟩
  have hidle := shlHookNew_idle hnew
  obtain ⟨s, cell, hadd, hshot, hs⟩ : ∃ s cell,
      shlHookAdd Malloc.bump hook 1 0 false new = some (0, s) ∧ cell.2.oneshot = false ∧
        s.Idle hook [cell] := by
    rcases hidle.add Malloc.bump 1 0 false with ⟨hnone, -⟩ | hadded
    · obtain ⟨a, ha⟩ := Malloc.bump_succeeds new.heap.keys
      simp [ha] at hnone
    · exact hadded
  obtain ⟨mid, hcall, hmid, hask, hwalks⟩ := hs.call
  obtain ⟨s₁, frame, events₁, place₁, hloop, hframe, hask₁, hplace₁, h₁⟩ :=
    HookState.Walks.callLoop_next hwalks hmid
  obtain ⟨s', events', place', adds', hduring, hframe', hask', hahead', hlen, h'⟩ :=
    h₁.add_many hframe (by rw [hplace₁]) Malloc.bump_succeeds n [.ret]
  obtain ⟨last, hret, hlast, hasklast, hlastwalks⟩ := h'.ret hframe'
  obtain ⟨s₂, hloop₂, hask₂, hover⟩ := hlastwalks.callLoop_end hs.nodup hlast hahead'
  have hsame : s₂.requests = s.requests := by
    rw [hask₂, hasklast, hask', hask₁, hask]
  refine ⟨hook, new, s, s₁, s₂, place'.behind, hnew, ?_, hcall.trans hloop, ?_, hover.running,
    (hover.kept hsame).2, ?_⟩
  · rw [HookState.run, HookState.runWhile, if_pos (decide_eq_true hidle.memory.mem_hook),
      HookState.act, hadd]
    rfl
  · rw [hduring, during_cons _ hframe', HookState.act, hret, hloop₂]
    exact during_of_over _ hover.running []
  · rw [hlen, hplace₁, hshot]
    simp [Nat.add_comm]

/-- The counter is 0 with 2³² entries. -/
theorem shlHookNum_wraps :
    ∃ hook new s s₁ s₂ cells, shlHookNew Malloc.bump = some (hook, new) ∧
      new.run Malloc.bump hook [.add 1 0 false] = some s ∧ shlHookCall hook s = some s₁ ∧
      s₁.during Malloc.bump hook (List.replicate (2 ^ 32 - 1) (.add 1 0 false) ++ [.ret]) =
        some s₂ ∧
      s₂.running = [] ∧ s₂.Idle hook cells ∧ cells.length = 2 ^ 32 ∧
      shlHookNum hook s₂ = some 0 := by
  obtain ⟨hook, new, s, s₁, s₂, cells, hnew, hrun, hcall, hduring, hover, hidle, hlen⟩ :=
    during_adds (2 ^ 32 - 1)
  have hcount : cells.length = 2 ^ 32 := hlen
  refine ⟨hook, new, s, s₁, s₂, cells, hnew, hrun, hcall, hduring, hover, hidle, hcount, ?_⟩
  rw [hidle.shlHookNum_eq, hcount]
  rfl

end Faceplate.Shl
