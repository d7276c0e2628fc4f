import Mathlib.Data.List.Basic

/-!
# Refinement of operations that answer

A component takes operations one after the other and answers each of them; an operation
may be undefined. Its specification is a relation between a state, an operation, an
answer and the next state, and it may allow more than one answer. This file packages the
induction that carries a simulation from one operation to a whole run.
-/

namespace Refinement

variable {σ τ ι ο : Type*}

/-- The answers and the last state of a run. -/
def run (step : σ → ι → Option (ο × σ)) : σ → List ι → Option (List ο × σ)
  | s, [] => some ([], s)
  | s, i :: inputs =>
    (step s i).bind fun out =>
      (run step out.2 inputs).map fun outs => (out.1 :: outs.1, outs.2)

/-- The runs a specification allows, with their operations and answers. -/
inductive Runs (spec : τ → ι → ο → τ → Prop) : τ → List ι → List ο → τ → Prop
  | nil (a : τ) : Runs spec a [] [] a
  | cons {a mid last : τ} {i : ι} {o : ο} {inputs : List ι} {outs : List ο}
      (head : spec a i o mid) (tail : Runs spec mid inputs outs last) :
      Runs spec a (i :: inputs) (o :: outs) last

/-- From related states every operation is defined, its answer is allowed, and the next
states are related again. -/
def Simulates (step : σ → ι → Option (ο × σ)) (spec : τ → ι → ο → τ → Prop)
    (rel : σ → τ → Prop) : Prop :=
  ∀ s a i, rel s a → ∃ o s' a', step s i = some (o, s') ∧ spec a i o a' ∧ rel s' a'

section Along

variable (step : σ → ι → Option (ο × σ)) (C : σ → ι → Prop)

/-- Every operation of a run meets a condition on the state that it finds. -/
def Along : σ → List ι → Prop
  | _, [] => True
  | s, i :: inputs => C s i ∧ ∀ out ∈ step s i, Along out.2 inputs

instance Along.decidable [∀ s i, Decidable (C s i)] : ∀ s inputs, Decidable (Along step C s inputs)
  | _, [] => inferInstanceAs (Decidable True)
  | s, i :: inputs =>
    have (out : ο × σ) : Decidable (Along step C out.2 inputs) := Along.decidable out.2 inputs
    inferInstanceAs (Decidable (C s i ∧ ∀ out ∈ step s i, Along step C out.2 inputs))

end Along

variable {step : σ → ι → Option (ο × σ)} {spec : τ → ι → ο → τ → Prop} {C D : σ → ι → Prop}
  {rel : σ → τ → Prop} {s : σ} {a : τ} {inputs : List ι}

/-- A condition that looks at the operations alone. -/
theorem along_of_forall (h : ∀ i ∈ inputs, ∀ s, C s i) (s : σ) : Along step C s inputs := by
  induction inputs generalizing s with
  | nil => trivial
  | cons i inputs ih =>
    exact ⟨h i List.mem_cons_self s,
      fun out _ => ih (fun j hj => h j (List.mem_cons_of_mem _ hj)) out.2⟩

theorem Along.and (h : Along step C s inputs) (h' : Along step D s inputs) :
    Along step (fun s i => C s i ∧ D s i) s inputs := by
  induction inputs generalizing s with
  | nil => trivial
  | cons i inputs ih => exact ⟨⟨h.1, h'.1⟩, fun out hout => ih (h.2 out hout) (h'.2 out hout)⟩

/-- A run of operations that meet their condition, from related states: it is defined, the
specification allows its answers, and it ends in related states. -/
theorem Along.run (hstep : ∀ s a i, C s i → rel s a →
      ∃ o s' a', step s i = some (o, s') ∧ spec a i o a' ∧ rel s' a')
    (h : Along step C s inputs) (hrel : rel s a) :
    ∃ outs s' a', run step s inputs = some (outs, s') ∧ Runs spec a inputs outs a' ∧
      rel s' a' := by
  induction inputs generalizing s a with
  | nil => exact ⟨[], s, a, rfl, .nil a, hrel⟩
  | cons i inputs ih =>
    obtain ⟨o, mid, a1, hout, hspec, hmid⟩ := hstep s a i h.1 hrel
    obtain ⟨outs, s', a', hrun, hruns, hrel'⟩ := ih (h.2 (o, mid) hout) hmid
    refine ⟨o :: outs, s', a', ?_, .cons hspec hruns, hrel'⟩
    rw [Refinement.run, hout, Option.bind_some, hrun, Option.map_some]

/-- The same where no operation needs a condition. -/
theorem Simulates.run (h : Simulates step spec rel) (hrel : rel s a) (inputs : List ι) :
    ∃ outs s' a', run step s inputs = some (outs, s') ∧ Runs spec a inputs outs a' ∧
      rel s' a' :=
  Along.run (fun s a i _ => h s a i) (along_of_forall (C := fun _ _ => True)
    (fun _ _ _ => trivial) s) hrel

end Refinement
