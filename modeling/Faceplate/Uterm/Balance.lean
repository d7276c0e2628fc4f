import Faceplate.Uterm.Vt

/-!
# Balance of a VT and the input layer

A real VT should hold one wake-up of the input layer while it is active or about to
be, and none otherwise. Each handler does its part of this, but a callback that
refuses to let go of the VT finds it inactive already, and nothing is put back.
-/

namespace Faceplate.Uterm

open Faceplate.Input

/-- A real VT, or none once it is closed, and the world around it. -/
structure Layer where
  vt : Option Vt
  world : World
  deriving DecidableEq, Repr

/-- What happens to a VT. `others` is a call of the input layer by somebody else. -/
inductive VtEvent where
  | delayed (calls : List InputCall)
  | enter (state : Option ℤ) (calls : List InputCall)
  | leave (state : Option ℤ) (calls : List InputCall) (ret : ℤ)
  | hup (calls : List InputCall)
  | activate (state : Option ℤ) (ok : Bool)
  | deactivate (state : Option ℤ) (now : ℤ) (ok : Bool)
  | retry (state : Option ℤ) (now : ℤ)
  | key (key : VtKey) (state : Option ℤ) (now : ℤ)
  | close (calls : List InputCall) (ret : ℤ)
  | others (calls : List InputCall)
  deriving DecidableEq, Repr

variable (usable : ℕ → Bool)

/-- The layer behind a handler that keeps the VT. -/
def Layer.stay (out : Vt × World) : Layer := ⟨some out.1, out.2⟩

/-- An event of an open VT. The idle callback comes only while it is registered, and a
hang-up only while the fd is enabled. -/
def stepVt (vt : Vt) (world : World) : VtEvent → Layer
  | .delayed calls =>
    if vt.realDelayed then .stay (realDelayed usable calls vt world) else .stay (vt, world)
  | .enter state calls => .stay (realSigEnter usable state calls vt world)
  | .leave state calls ret => .stay (realSigLeave usable state calls ret vt world)
  | .hup calls => if vt.watched then .stay (realVtHup usable calls vt world) else .stay (vt, world)
  | .activate state ok => .stay (realActivate state ok vt world).2
  | .deactivate state now ok => .stay (realDeactivate state now ok vt world).2
  | .retry state now => .stay (realRetry state now vt world)
  | .key key state now => .stay (realInput key state now vt world).2
  | .close calls ret => ⟨none, realClose usable calls ret vt world⟩
  | .others calls => ⟨some vt, world.callback usable calls⟩

/-- One event. A closed VT has no handlers left. -/
def step (layer : Layer) (event : VtEvent) : Layer :=
  match layer.vt with
  | some vt => stepVt usable vt layer.world event
  | none =>
    match event with
    | .others calls => ⟨none, layer.world.callback usable calls⟩
    | _ => layer

/-- A VT is opened over an input layer that others hold awake. -/
def opened (answers : OpenAnswers) (input : Devices) : Layer :=
  let out := realOpen usable answers ⟨input, input.awake, []⟩
  ⟨out.1, out.2⟩

/-- The wake-ups that are not of others. -/
def World.held (world : World) : ℤ := world.input.awake - world.others

/-- The wake-ups that a VT should hold. -/
def due : Option Vt → ℤ
  | none => 0
  | some vt => if vt.active || vt.realDelayed then 1 else 0

/-- The VT holds one wake-up exactly if it is active or about to be. -/
def Balanced (layer : Layer) : Prop := layer.world.held = due layer.vt

instance : DecidablePred Balanced := fun _ => inferInstanceAs (Decidable (_ = _))

/-- A leave signal reaches the active VT, and the callback refuses. -/
def RefusedLeave (layer : Layer) (event : VtEvent) : Prop :=
  match layer.vt, event with
  | some vt, .leave state _ ret => state = some vt.realNum ∧ vt.active = true ∧ ret ≠ 0
  | _, _ => False

/-- A refused leave changes neither the active flag nor the wake-ups held. -/
def KeepsRefused (layer : Layer) (event : VtEvent) : Prop :=
  RefusedLeave layer event →
    (step usable layer event).vt.map Vt.active = layer.vt.map Vt.active ∧
      (step usable layer event).world.held = layer.world.held

@[simp] theorem held_ioctl (world : World) (request : Ioctl) :
    (world.ioctl request).held = world.held := rfl

@[simp] theorem held_wakeUp (world : World) : (world.wakeUp usable).held = world.held + 1 := by
  simp only [World.held, World.wakeUp, awake_inputWakeUp]
  omega

@[simp] theorem held_sleep (world : World) : world.sleep.held = world.held - 1 := by
  simp only [World.held, World.sleep, awake_inputSleep]
  omega

/-- What others do is their own. -/
@[simp] theorem held_callback (world : World) (calls : List InputCall) :
    (world.callback usable calls).held = world.held := by
  unfold World.callback
  induction calls generalizing world with
  | nil => rfl
  | cons call rest ih =>
    rw [List.foldl_cons, ih]
    cases call <;> simp only [World.held, World.other, awake_inputWakeUp, awake_inputSleep] <;>
      omega

/-- Activating needs no wake-up of its own: the caller has made it. -/
@[simp] theorem held_vtCbActivate (calls : List InputCall) (vt : Vt) (world : World) :
    (vtCbActivate usable calls vt world).2.held = world.held := by
  unfold vtCbActivate
  split_ifs <;> simp

@[simp] theorem vt_vtCbActivate (calls : List InputCall) (vt : Vt) (world : World) :
    (vtCbActivate usable calls vt world).1 = { vt with active := true } := by
  unfold vtCbActivate
  split_ifs with hactive
  · rw [← hactive]
  · rfl

/-- Deactivating leaves the wake-up to the caller, and the VT is inactive whatever the
callback says. -/
theorem vtCbDeactivate_spec {calls : List InputCall} {ret ret' : ℤ} {vt vt' : Vt}
    {world world' : World} (h : vtCbDeactivate usable calls ret vt world = (ret', vt', world')) :
    world'.held = world.held ∧ vt' = { vt with active := false } ∧
      ret' = if vt.active then ret else 0 := by
  unfold vtCbDeactivate at h
  cases hactive : vt.active with
  | false =>
    simp only [hactive, Bool.not_false, if_true, Prod.mk.injEq] at h
    obtain ⟨rfl, rfl, rfl⟩ := h
    exact ⟨rfl, by rw [← hactive], rfl⟩
  | true =>
    simp only [hactive, Bool.not_true, Bool.false_eq_true, if_false, Prod.mk.injEq] at h
    obtain ⟨rfl, rfl, rfl⟩ := h
    exact ⟨held_callback usable world calls, rfl, rfl⟩

/-- Entering makes the wake-up, unless it has been made already. -/
theorem balanced_realSigEnter {vt : Vt} {world : World} (h : Balanced ⟨some vt, world⟩)
    (state : Option ℤ) (calls : List InputCall) :
    Balanced (.stay (realSigEnter usable state calls vt world)) := by
  unfold realSigEnter
  split_ifs with hstate hdelayed hactive
  · exact h
  · simpa [Balanced, Layer.stay, due, hdelayed] using h
  · simpa [Balanced, Layer.stay, due, hactive] using h
  · have hnone : world.held = 0 := by simpa [Balanced, due, hactive, hdelayed] using h
    simp [Balanced, Layer.stay, due, hnone]

/-- Leaving takes it back, if the callback agrees. -/
theorem balanced_realSigLeave {vt : Vt} {world : World} (h : Balanced ⟨some vt, world⟩)
    {state : Option ℤ} {calls : List InputCall} {ret : ℤ}
    (hagree : ¬ RefusedLeave ⟨some vt, world⟩ (.leave state calls ret)) :
    Balanced (.stay (realSigLeave usable state calls ret vt world)) := by
  unfold realSigLeave
  by_cases hstate : state = some vt.realNum
  · rcases hout : vtCbDeactivate usable calls ret vt world with ⟨ret', vt', world'⟩
    obtain ⟨hheld, rfl, hret⟩ := vtCbDeactivate_spec usable hout
    have hzero : ret' = 0 := by
      rw [hret]
      split_ifs with hactive
      · by_contra hne
        exact hagree ⟨hstate, hactive, hne⟩
      · rfl
    simp only [hstate, ne_eq, not_true_eq_false, if_false, hzero]
    simp only [Balanced, due] at h
    cases hdelayed : vt.realDelayed with
    | true =>
      rw [hdelayed, Bool.or_true, if_pos rfl] at h
      simp [Balanced, Layer.stay, due, hheld, h]
    | false =>
      cases hactive : vt.active with
      | true =>
        rw [hactive, Bool.true_or, if_pos rfl] at h
        simp [Balanced, Layer.stay, due, hheld, h]
      | false =>
        rw [hactive, hdelayed, Bool.or_self, if_neg Bool.false_ne_true] at h
        simp [Balanced, Layer.stay, due, hheld, h]
  · rw [if_pos hstate]
    exact h

/-- Closing takes it back in any case, before the callback is asked. -/
theorem held_realClose {vt : Vt} {world : World} (h : Balanced ⟨some vt, world⟩)
    (calls : List InputCall) (ret : ℤ) : (realClose usable calls ret vt world).held = 0 := by
  have hclose : ∀ (v : Vt) (w : World), w.held = 0 →
      (vtCbDeactivate usable calls ret v w).2.2.held = 0 := by
    intro v w hw
    rcases hout : vtCbDeactivate usable calls ret v w with ⟨ret', v', w'⟩
    exact (vtCbDeactivate_spec usable hout).1.trans hw
  unfold realClose
  simp only [held_ioctl]
  apply hclose
  simp only [Balanced, due] at h
  cases hdelayed : vt.realDelayed with
  | true =>
    rw [hdelayed, Bool.or_true, if_pos rfl] at h
    simp [h]
  | false =>
    cases hactive : vt.active with
    | true =>
      rw [hactive, Bool.true_or, if_pos rfl] at h
      simp [h]
    | false => simpa [hactive, hdelayed] using h

/-- Requests for a switch, and keys, change nothing that matters here. -/
theorem balanced_requests {vt : Vt} {world : World} (h : Balanced ⟨some vt, world⟩)
    (state : Option ℤ) (now : ℤ) (ok : Bool) (key : VtKey) :
    Balanced (.stay (realActivate state ok vt world).2) ∧
      Balanced (.stay (realDeactivate state now ok vt world).2) ∧
      Balanced (.stay (realRetry state now vt world)) ∧
      Balanced (.stay (realInput key state now vt world).2) := by
  refine ⟨?_, ?_, ?_, ?_⟩
  · unfold realActivate
    split_ifs <;> exact h
  · unfold realDeactivate
    cases state with
    | none => split_ifs <;> exact h
    | some current =>
      simp only
      split_ifs <;> exact h
  · unfold realRetry
    split_ifs <;> exact h
  · unfold realInput
    cases vtOfKey key with
    | none => split_ifs <;> exact h
    | some id =>
      simp only
      split_ifs <;> exact h

/-- Every event keeps the balance, a refused leave apart. -/
theorem balanced_step {layer : Layer} {event : VtEvent} (h : Balanced layer)
    (hagree : ¬ RefusedLeave layer event) : Balanced (step usable layer event) := by
  obtain ⟨vt, world⟩ := layer
  cases vt with
  | none =>
    cases event with
    | others calls => simpa [step, Balanced] using h
    | _ => exact h
  | some vt =>
    have hrequests := balanced_requests h
    cases event with
    | delayed calls =>
      simp only [step, stepVt]
      split_ifs with hdelayed
      · simpa [realDelayed, Balanced, Layer.stay, due, hdelayed] using h
      · exact h
    | enter state calls => exact balanced_realSigEnter usable h state calls
    | leave state calls ret => exact balanced_realSigLeave usable h hagree
    | hup calls =>
      simp only [step, stepVt]
      split_ifs
      · simpa [realVtHup, Balanced, Layer.stay, due] using h
      · exact h
    | activate state ok => exact (hrequests state 0 ok ⟨true, true, 0⟩).1
    | deactivate state now ok => exact (hrequests state now ok ⟨true, true, 0⟩).2.1
    | retry state now => exact (hrequests state now true ⟨true, true, 0⟩).2.2.1
    | key key state now => exact (hrequests state now true key).2.2.2
    | close calls ret => exact held_realClose usable h calls ret
    | others calls => simpa [step, stepVt, Balanced, due] using h

/-- An opened VT starts balanced. -/
theorem balanced_opened (answers : OpenAnswers) (input : Devices) :
    Balanced (opened usable answers input) := by
  have hheld : World.held ⟨input, input.awake, []⟩ = 0 := by
    simp [World.held]
  unfold opened realOpen
  split
  · cases answers.kbMode with
    | none =>
      simp only
      split_ifs <;> simp [Balanced, due, hheld]
    | some mode =>
      simp only
      split_ifs <;> simp [Balanced, due, hheld]
  · exact hheld

/-- A refused leave takes the flag away. -/
theorem not_keepsRefused {layer : Layer} {event : VtEvent} (h : RefusedLeave layer event) :
    ¬ KeepsRefused usable layer event := by
  intro hkeeps
  obtain ⟨hactive, -⟩ := hkeeps h
  obtain ⟨vt, world⟩ := layer
  cases vt with
  | none => exact h
  | some vt =>
    cases event with
    | leave state calls ret =>
      obtain ⟨hstate, hvt, hret⟩ := h
      rcases hout : vtCbDeactivate usable calls ret vt world with ⟨ret', vt', world'⟩
      obtain ⟨-, rfl, hret'⟩ := vtCbDeactivate_spec usable hout
      rw [hvt, if_pos rfl] at hret'
      subst hret'
      simp [step, stepVt, realSigLeave, hstate, hout, hret, Layer.stay, hvt] at hactive
    | _ => exact h

/-- A VT and its input stay balanced, and refusals harmless, exactly in the runs in
which no callback refuses to leave the active VT. -/
theorem balanced_iff_no_refusedLeave (answers : OpenAnswers) (input : Devices)
    (events : List VtEvent) :
    Runs.Always (step usable) Balanced (opened usable answers input) events ∧
        Runs.Along (step usable) (KeepsRefused usable) (opened usable answers input) events ↔
      Runs.Along (step usable) (fun layer event => ¬ RefusedLeave layer event)
        (opened usable answers input) events := by
  constructor
  · rintro ⟨-, hkeeps⟩
    exact hkeeps.imp (J := fun _ => True)
      (fun _ _ _ h => ⟨fun hrefused => not_keepsRefused usable hrefused h, trivial⟩) trivial
  · intro hagree
    refine ⟨hagree.always (fun _ h => h) (fun _ _ h hevent => balanced_step usable h hevent)
      (balanced_opened usable answers input), ?_⟩
    exact hagree.imp (J := fun _ => True)
      (fun _ _ _ h => ⟨fun hrefused => absurd hrefused h, trivial⟩) trivial

/-- A VT that is current when it is opened. -/
def openedCurrent : OpenAnswers := ⟨some 1, true, some 1, true, true, some 3, true, true⟩

/-- The callback refuses a leave; the kernel stays on the VT and enters it again. -/
def refusalRun : List VtEvent := [.delayed [], .leave (some 1) [] (-16), .enter (some 1) []]

/-- The refusal leaves an inactive VT with a wake-up, and after it there are two. -/
theorem refusalRun_not_balanced :
    ¬ Runs.Always (step fun _ => true) Balanced (opened (fun _ => true) openedCurrent ⟨0, []⟩)
        refusalRun ∧
      ¬ Runs.Along (step fun _ => true) (KeepsRefused fun _ => true)
        (opened (fun _ => true) openedCurrent ⟨0, []⟩) refusalRun ∧
      (Runs.run (step fun _ => true) (opened (fun _ => true) openedCurrent ⟨0, []⟩)
        refusalRun).world.held = 2 := by
  refine ⟨by decide +kernel, fun h => not_keepsRefused _ ?_ h.2.1, by decide +kernel⟩
  change some (1 : ℤ) = some 1 ∧ true = true ∧ (-16 : ℤ) ≠ 0
  decide

end Faceplate.Uterm
