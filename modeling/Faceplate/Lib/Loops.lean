import Mathlib.Data.List.Basic

/-!
# Loops that may be undefined

A loop whose rounds may be undefined is a fold in `Option`. A counted loop keeps an
invariant on the counter and the state, and one undefined round makes a loop undefined.
A loop that need not end is run for a number of rounds; when it has ended, more rounds
change nothing, and where each round goes on it never ends.
-/

namespace Loops

variable {σ ι : Type*}

/-- A counted loop whose rounds are defined and keep an invariant is defined and ends in the
invariant. -/
theorem count_spec (inv : ℕ → σ → Prop) {f : σ → ℕ → Option σ} {s : σ} (count : ℕ)
    (h0 : inv 0 s)
    (hstep : ∀ k < count, ∀ s, inv k s → ∃ s', f s k = some s' ∧ inv (k + 1) s') :
    ∃ s', (List.range count).foldlM f s = some s' ∧ inv count s' := by
  induction count with
  | zero => exact ⟨s, rfl, h0⟩
  | succ count ih =>
    obtain ⟨mid, hmid, hinv⟩ := ih fun k hk => hstep k (by omega)
    obtain ⟨s', hs', hinv'⟩ := hstep count (by omega) mid hinv
    refine ⟨s', ?_, hinv'⟩
    rw [List.range_succ, List.foldlM_append, hmid, Option.bind_eq_bind, Option.bind_some,
      List.foldlM_cons, hs']
    rfl

/-- A round that is undefined in every state makes the loop undefined. -/
theorem foldlM_eq_none {f : σ → ι → Option σ} {rounds : List ι} {i : ι} (hi : i ∈ rounds)
    (h : ∀ s, f s i = none) (s : σ) : rounds.foldlM f s = none := by
  induction rounds generalizing s with
  | nil => simp at hi
  | cons j rounds ih =>
    rw [List.foldlM_cons, Option.bind_eq_bind]
    rcases List.mem_cons.mp hi with rfl | hi
    · rw [h s, Option.bind_none]
    · exact Option.bind_eq_none_iff.mpr fun s' _ => ih hi s'

/-- A loop whose rounds look something up is defined if everything is there. -/
theorem isSome_foldlM_map {β : Type*} (look : ι → Option β) (next : σ → β → σ) (rounds : List ι)
    (s : σ) : (rounds.foldlM (fun s i => (look i).map (next s)) s).isSome = true ↔
      ∀ i ∈ rounds, (look i).isSome = true := by
  induction rounds generalizing s with
  | nil => simp
  | cons i rounds ih =>
    rw [List.foldlM_cons, List.forall_mem_cons]
    cases look i with
    | none => simp
    | some b =>
      rw [Option.map_some, Option.bind_eq_bind, Option.bind_some, ih]
      simp

/-- A loop each of whose rounds does what the round of another loop does is defined where that
one is, and ends in a related state. -/
theorem foldlM_simulates {τ : Type*} {f : σ → ι → Option σ} {g : τ → ι → Option τ}
    (rel : σ → τ → Prop) {rounds : List ι}
    (h : ∀ i ∈ rounds, ∀ s a a', rel s a → g a i = some a' → ∃ s', f s i = some s' ∧ rel s' a')
    {s : σ} {a a' : τ} (hrel : rel s a) (hrun : rounds.foldlM g a = some a') :
    ∃ s', rounds.foldlM f s = some s' ∧ rel s' a' := by
  induction rounds generalizing s a with
  | nil =>
    obtain rfl := Option.some.inj hrun
    exact ⟨s, rfl, hrel⟩
  | cons i rounds ih =>
    rw [List.foldlM_cons, Option.bind_eq_bind, Option.bind_eq_some_iff] at hrun
    obtain ⟨mid, hmid, hrest⟩ := hrun
    obtain ⟨s', hs', hrel'⟩ := h i List.mem_cons_self s a mid hrel hmid
    rw [List.foldlM_cons, hs']
    exact ih (fun j hj => h j (List.mem_cons_of_mem _ hj)) hrel' hrest

/-- A loop that collects what its rounds give is defined if all of them are. -/
theorem isSome_mapM {β : Type*} (f : ι → Option β) (rounds : List ι) :
    (rounds.mapM f).isSome = true ↔ ∀ i ∈ rounds, (f i).isSome = true := by
  induction rounds with
  | nil => simp
  | cons i rounds ih =>
    rw [List.mapM_cons, List.forall_mem_cons, ← ih]
    cases f i with
    | none => simp
    | some b => cases rounds.mapM f <;> simp

/-! ### Loops that need not end -/

/-- What a round does: go on, leave the loop, or fail. -/
inductive Round (σ ε : Type*) where
  | next (s : σ)
  | stop (s : σ)
  | fail (e : ε)

variable {ε : Type*} {round : σ → Round σ ε}

/-- At most this many rounds of a loop. -/
def rounds (round : σ → Round σ ε) : ℕ → σ → Round σ ε
  | 0, s => .next s
  | n + 1, s =>
    match round s with
    | .next s => rounds round n s
    | result => result

/-- The loop has ended. -/
def Round.Ended : Round σ ε → Prop
  | next _ => False
  | _ => True

theorem rounds_next {s s' : σ} (h : round s = .next s') (n : ℕ) :
    rounds round (n + 1) s = rounds round n s' := by
  rw [rounds, h]

theorem rounds_ended {s : σ} {result : Round σ ε} (h : round s = result)
    (hended : result.Ended) (n : ℕ) : rounds round (n + 1) s = result := by
  rw [rounds, h]
  cases result with
  | next s => exact hended.elim
  | stop s => rfl
  | fail e => rfl

/-- More rounds change nothing when the loop has ended. -/
theorem rounds_mono {n m : ℕ} {s : σ} (h : (rounds round n s).Ended) (hnm : n ≤ m) :
    rounds round m s = rounds round n s := by
  induction n generalizing m s with
  | zero => exact h.elim
  | succ n ih =>
    obtain ⟨m, rfl⟩ : ∃ k, m = k + 1 := ⟨m - 1, by omega⟩
    cases hround : round s with
    | next s' =>
      rw [rounds_next hround] at h ⊢
      rw [rounds_next hround]
      exact ih h (by omega)
    | stop s' => rw [rounds_ended hround trivial, rounds_ended hround trivial]
    | fail e => rw [rounds_ended hround trivial, rounds_ended hround trivial]

/-- Something holds where the round goes on or leaves the loop. -/
def Round.Holds (inv : σ → Prop) : Round σ ε → Prop
  | next s => inv s
  | stop s => inv s
  | fail _ => True

/-- What each round keeps holds behind any number of them. -/
theorem rounds_holds (inv : σ → Prop) (hstep : ∀ s, inv s → (round s).Holds inv) (n : ℕ) {s : σ}
    (h : inv s) : (rounds round n s).Holds inv := by
  induction n generalizing s with
  | zero => exact h
  | succ n ih =>
    have hround := hstep s h
    rw [rounds]
    cases hs : round s with
    | next s' =>
      rw [hs] at hround
      exact ih hround
    | stop s' =>
      rw [hs] at hround
      exact hround
    | fail e => trivial

/-- The loop ends in this way. -/
def Ends (round : σ → Round σ ε) (s : σ) (result : Round σ ε) : Prop :=
  result.Ended ∧ ∃ n, rounds round n s = result

theorem Ends.of_round {s : σ} {result : Round σ ε} (h : round s = result)
    (hended : result.Ended) : Ends round s result :=
  ⟨hended, 1, rounds_ended h hended 0⟩

theorem Ends.of_next {s s' : σ} {result : Round σ ε} (h : round s = .next s')
    (hends : Ends round s' result) : Ends round s result := by
  obtain ⟨hended, n, hn⟩ := hends
  exact ⟨hended, n + 1, (rounds_next h n).trans hn⟩

/-- From some number of rounds on the result is the same. -/
theorem Ends.eventually {s : σ} {result : Round σ ε} (h : Ends round s result) :
    ∃ n, ∀ m, n ≤ m → rounds round m s = result := by
  obtain ⟨hended, n, rfl⟩ := h
  exact ⟨n, fun m hm => rounds_mono hended hm⟩

/-- A loop whose rounds go on and keep an invariant never ends. -/
theorem rounds_running (inv : σ → Prop)
    (hstep : ∀ s, inv s → ∃ s', round s = .next s' ∧ inv s') (n : ℕ) {s : σ} (h : inv s) :
    ∃ s', rounds round n s = .next s' ∧ inv s' := by
  induction n generalizing s with
  | zero => exact ⟨s, rfl, h⟩
  | succ n ih =>
    obtain ⟨s', hround, hs'⟩ := hstep s h
    rw [rounds_next hround]
    exact ih hs'

end Loops
