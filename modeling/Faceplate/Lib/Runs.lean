import Mathlib.Data.List.Infix
import Mathlib.Logic.Basic

/-!
# Runs of an event-driven system

A system is a total step function on states and events; results that come from
outside (a system call, a device) are part of the event. This file states what
it means for a property to hold in every state a run passes through, for a
condition to be met by every step, and packages the inductions that connect the
two. Nothing here depends on a particular system.
-/

namespace Runs

variable {σ ε : Type*}

/-- The state reached from `s` by a finite sequence of events. -/
def run (step : σ → ε → σ) (s : σ) (es : List ε) : σ := es.foldl step s

@[simp] theorem run_nil (step : σ → ε → σ) (s : σ) : run step s [] = s := rfl

@[simp] theorem run_cons (step : σ → ε → σ) (s : σ) (e : ε) (es : List ε) :
    run step s (e :: es) = run step (step s e) es := rfl

theorem run_append (step : σ → ε → σ) (s : σ) (es fs : List ε) :
    run step s (es ++ fs) = run step (run step s es) fs := by
  simp [run, List.foldl_append]

/-- `P` holds in every state the run passes through, first and last included. -/
def Always (step : σ → ε → σ) (P : σ → Prop) : σ → List ε → Prop
  | s, [] => P s
  | s, e :: es => P s ∧ Always step P (step s e) es

/-- Every step of the run meets `C`, a condition on the state before the step
and on its event. -/
def Along (step : σ → ε → σ) (C : σ → ε → Prop) : σ → List ε → Prop
  | _, [] => True
  | s, e :: es => C s e ∧ Along step C (step s e) es

instance Always.decidable (step : σ → ε → σ) (P : σ → Prop) [DecidablePred P] :
    ∀ s es, Decidable (Always step P s es)
  | s, [] => inferInstanceAs (Decidable (P s))
  | s, e :: es => @instDecidableAnd _ _ _ (Always.decidable step P (step s e) es)

instance Along.decidable (step : σ → ε → σ) (C : σ → ε → Prop) [∀ s e, Decidable (C s e)] :
    ∀ s es, Decidable (Along step C s es)
  | _, [] => inferInstanceAs (Decidable True)
  | s, e :: es => @instDecidableAnd _ _ _ (Along.decidable step C (step s e) es)

theorem Always.head {step : σ → ε → σ} {P : σ → Prop} {s : σ} {es : List ε}
    (h : Always step P s es) : P s := by
  cases es with
  | nil => exact h
  | cons e es => exact h.1

/-- `Always` speaks about exactly the states that the prefixes of the run reach. -/
theorem always_iff_prefix {step : σ → ε → σ} {P : σ → Prop} {s : σ} {es : List ε} :
    Always step P s es ↔ ∀ pre, pre <+: es → P (run step s pre) := by
  induction es generalizing s with
  | nil =>
    simp [Always]
  | cons e es ih =>
    constructor
    · rintro ⟨hs, htail⟩ pre hpre
      cases pre with
      | nil => exact hs
      | cons f pre =>
        obtain ⟨rfl, hrest⟩ := List.cons_prefix_cons.mp hpre
        exact ih.mp htail pre hrest
    · intro h
      refine ⟨h [] List.nil_prefix, ih.mpr ?_⟩
      intro pre hpre
      exact h (e :: pre) (List.cons_prefix_cons.mpr ⟨rfl, hpre⟩)

theorem Always.last {step : σ → ε → σ} {P : σ → Prop} {s : σ} {es : List ε}
    (h : Always step P s es) : P (run step s es) :=
  always_iff_prefix.mp h es (List.prefix_refl es)

theorem along_append {step : σ → ε → σ} {C : σ → ε → Prop} {s : σ} {es fs : List ε} :
    Along step C s (es ++ fs) ↔ Along step C s es ∧ Along step C (run step s es) fs := by
  induction es generalizing s with
  | nil => simp [Along]
  | cons e es ih => simp only [List.cons_append, Along, run_cons, ih, and_assoc]

/-- A condition that looks at the events alone. -/
theorem along_of_forall {step : σ → ε → σ} {C : σ → ε → Prop} {es : List ε}
    (h : ∀ e ∈ es, ∀ s, C s e) (s : σ) : Along step C s es := by
  induction es generalizing s with
  | nil => trivial
  | cons e es ih =>
    exact ⟨h e List.mem_cons_self s, ih (fun f hf => h f (List.mem_cons_of_mem _ hf)) _⟩

/-- The invariant rule: what holds at the start and survives every step that
meets the condition holds at the end of a run whose steps all meet it. -/
theorem Along.invariant {step : σ → ε → σ} {C : σ → ε → Prop} {J : σ → Prop}
    (hstep : ∀ s e, J s → C s e → J (step s e)) {s : σ} {es : List ε}
    (hs : J s) (h : Along step C s es) : J (run step s es) := by
  induction es generalizing s with
  | nil => exact hs
  | cons e es ih => exact ih (hstep s e hs h.1) h.2

/-- The same rule for every state on the way. -/
theorem Along.always {step : σ → ε → σ} {C : σ → ε → Prop} {J P : σ → Prop}
    (hP : ∀ s, J s → P s) (hstep : ∀ s e, J s → C s e → J (step s e)) {s : σ} {es : List ε}
    (hs : J s) (h : Along step C s es) : Always step P s es := by
  induction es generalizing s with
  | nil => exact hP s hs
  | cons e es ih => exact ⟨hP s hs, ih (hstep s e hs h.1) h.2⟩

/-- Under an invariant that the condition keeps, it gives another condition. -/
theorem Along.imp {step : σ → ε → σ} {C D : σ → ε → Prop} {J : σ → Prop}
    (hstep : ∀ s e, J s → C s e → D s e ∧ J (step s e)) {s : σ} {es : List ε}
    (hs : J s) (h : Along step C s es) : Along step D s es := by
  induction es generalizing s with
  | nil => trivial
  | cons e es ih =>
    obtain ⟨hD, hnext⟩ := hstep s e hs h.1
    exact ⟨hD, ih hnext h.2⟩

/-- An invariant of every step holds at the end of every run. -/
theorem invariant_run {step : σ → ε → σ} {J : σ → Prop}
    (hstep : ∀ s e, J s → J (step s e)) {s : σ} (hs : J s) (es : List ε) :
    J (run step s es) := by
  induction es generalizing s with
  | nil => exact hs
  | cons e es ih => exact ih (hstep s e hs)

/-- When a step keeps the invariant exactly if it meets the condition, a run
keeps the property in every state exactly if all its steps meet the condition. -/
theorem always_iff_along {step : σ → ε → σ} {C : σ → ε → Prop} {J P : σ → Prop}
    (hP : ∀ s, J s → P s) (hstep : ∀ s e, J s → C s e → J (step s e))
    (hneed : ∀ s e, J s → P (step s e) → C s e) {s : σ} {es : List ε} (hs : J s) :
    Always step P s es ↔ Along step C s es := by
  refine ⟨?_, fun h => h.always hP hstep hs⟩
  induction es generalizing s with
  | nil => intro _; trivial
  | cons e es ih =>
    rintro ⟨-, htail⟩
    have hC := hneed s e hs htail.head
    exact ⟨hC, ih (hstep s e hs hC) htail⟩

/-- A property that no step can restore holds at the end of a run exactly if it
held all the way. -/
theorem run_iff_always {step : σ → ε → σ} {P : σ → Prop} (hback : ∀ s e, P (step s e) → P s)
    {s : σ} {es : List ε} : P (run step s es) ↔ Always step P s es := by
  induction es generalizing s with
  | nil => exact Iff.rfl
  | cons e es ih =>
    rw [run_cons, ih]
    exact ⟨fun h => ⟨hback s e h.head, h⟩, fun h => h.2⟩

/-- A view that only some of the events change, each in a way that depends on the view alone,
is what these events make of it. -/
theorem view_run {τ : Type*} {step : σ → ε → σ} {J : σ → Prop} (view : σ → τ) {f : τ → ε → τ}
    {about : ε → Bool} (hstep : ∀ s e, J s → J (step s e))
    (hview : ∀ s e, J s → view (step s e) = if about e then f (view s) e else view s)
    {s : σ} (hs : J s) (es : List ε) :
    view (run step s es) = run f (view s) (es.filter about) := by
  induction es generalizing s with
  | nil => rfl
  | cons e es ih =>
    rw [run_cons, ih (hstep s e hs), hview s e hs]
    cases h : about e with
    | false => rw [List.filter_cons_of_neg (by simp [h]), if_neg Bool.false_ne_true]
    | true => rw [List.filter_cons_of_pos h, run_cons, if_pos rfl]

end Runs
