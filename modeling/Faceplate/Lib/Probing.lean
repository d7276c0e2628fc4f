import Mathlib.Data.List.Count
import Mathlib.Data.List.Perm.Basic
import Mathlib.Data.Nat.ModEq
import Faceplate.Lib.Loops

/-!
# Tables with linear probing

A table is a row of slots that is gone through in a circle. Each element has a home; an
element is put into the first slot from its home on that no element has, and whoever looks
for it goes on from its home until a slot is free. A deleted element leaves a mark that does
not stop him. When all elements are put in again in place, starting behind a free slot, each
one moves into the part that is done, and the marks go.
-/

namespace Probing

/-- What a slot holds. -/
inductive Slot (α : Type) where
  | free
  | deleted
  | entry (a : α)
  deriving DecidableEq

variable {σ α : Type}

/-- The element of a slot. -/
def Slot.entry? : Slot α → Option α
  | entry a => some a
  | _ => none

/-- An element may be put here. -/
def Slot.isOpen : Slot α → Bool
  | entry _ => false
  | _ => true

/-- The elements of a table, in the order of the slots. -/
def entries (t : List (Slot α)) : List α := t.filterMap Slot.entry?

/-! ### Going round -/

/-- The first slot from `i` on where the search stops, in at most so many rounds. -/
def seek (stop : σ → Bool) (t : List σ) : ℕ → ℕ → Option ℕ
  | 0, _ => none
  | n + 1, i => do
    let s ← t[i]?
    if stop s then some i else seek stop t n ((i + 1) % t.length)

/-- The search stops in a slot. -/
def StopsAt (stop : σ → Bool) (t : List σ) (i : ℕ) : Prop :=
  ∃ s, t[i]? = some s ∧ stop s = true

/-- The slots between two places of the way round are not where the search stops. -/
def PassesBy (stop : σ → Bool) (t : List σ) (i k : ℕ) : Prop :=
  ∀ d < k, ∃ s, t[(i + d) % t.length]? = some s ∧ stop s = false

theorem stopsAt_of_not {stop : σ → Bool} {t : List σ} {i : ℕ} (hi : i < t.length)
    (h : ¬StopsAt stop t i) : ∃ s, t[i]? = some s ∧ stop s = false := by
  refine ⟨t[i], List.getElem?_eq_getElem hi, ?_⟩
  by_contra hstop
  exact h ⟨t[i], List.getElem?_eq_getElem hi, by simpa using hstop⟩

/-- A search that meets a slot to stop at stops there or before. -/
theorem seek_spec {stop : σ → Bool} {t : List σ} {n i k : ℕ} (hi : i < t.length) (hk : k < n)
    (hstop : StopsAt stop t ((i + k) % t.length)) :
    ∃ q ≤ k, seek stop t n i = some ((i + q) % t.length) ∧
      StopsAt stop t ((i + q) % t.length) ∧ PassesBy stop t i q := by
  induction n generalizing i k with
  | zero => omega
  | succ n ih =>
    have hmod : i % t.length = i := Nat.mod_eq_of_lt hi
    by_cases h : StopsAt stop t i
    · obtain ⟨s, hs, hstops⟩ := h
      refine ⟨0, Nat.zero_le k, ?_, ?_, ?_⟩
      · simp [seek, hs, hstops, hmod]
      · rw [Nat.add_zero, hmod]
        exact ⟨s, hs, hstops⟩
      · intro d hd
        omega
    · obtain ⟨s, hs, hpass⟩ := stopsAt_of_not hi h
      obtain ⟨k, rfl⟩ : ∃ k', k = k' + 1 := by
        refine ⟨k - 1, ?_⟩
        rcases k with _ | k
        · rw [Nat.add_zero, hmod] at hstop
          exact absurd hstop h
        · omega
      have hnext : (i + 1) % t.length < t.length := Nat.mod_lt _ (by omega)
      have hshift : ∀ d, ((i + 1) % t.length + d) % t.length = (i + (d + 1)) % t.length := by
        intro d
        rw [Nat.mod_add_mod, Nat.add_assoc, Nat.add_comm 1 d]
      have hlt : k < n := by omega
      obtain ⟨q, hq, hseek, hat, hby⟩ := ih hnext hlt (by rwa [hshift])
      rw [hshift] at hseek hat
      refine ⟨q + 1, by omega, ?_, hat, ?_⟩
      · simpa [seek, hs, hpass] using hseek
      · intro d hd
        rcases d with _ | d
        · rw [Nat.add_zero, hmod]
          exact ⟨s, hs, hpass⟩
        · rw [← hshift]
          exact hby d (by omega)

theorem stopsAt_of_seek {stop : σ → Bool} {t : List σ} {n i j : ℕ}
    (h : seek stop t n i = some j) : StopsAt stop t j := by
  induction n generalizing i with
  | zero => simp [seek] at h
  | succ n ih =>
    rw [seek] at h
    cases hs : t[i]? with
    | none => simp [hs] at h
    | some s =>
      simp only [hs, Option.bind_eq_bind, Option.bind_some] at h
      split at h
      · obtain rfl := Option.some.inj h
        exact ⟨s, hs, ‹_›⟩
      · exact ih h

/-- From a slot every other one is less than a round away. -/
theorem exists_steps {n i j : ℕ} (hi : i < n) (hj : j < n) : ∃ k < n, (i + k) % n = j := by
  by_cases h : i ≤ j
  · refine ⟨j - i, by omega, ?_⟩
    rw [Nat.add_sub_cancel' h, Nat.mod_eq_of_lt hj]
  · refine ⟨n + j - i, by omega, ?_⟩
    rw [Nat.add_sub_cancel' (by omega), Nat.add_mod_left, Nat.mod_eq_of_lt hj]

/-- Two places of the way round that are the same slot are a round apart. -/
theorem steps_inj {n i a b : ℕ} (ha : a < n) (hb : b < n) (h : (i + a) % n = (i + b) % n) :
    a = b := by
  have hmod : a % n = b % n := Nat.ModEq.add_left_cancel' i h
  rwa [Nat.mod_eq_of_lt ha, Nat.mod_eq_of_lt hb] at hmod

/-! ### The slots of a table -/

/-- The slot is free. -/
def Slot.isFree : Slot α → Bool
  | free => true
  | _ => false

@[simp] theorem isOpen_free : (Slot.free : Slot α).isOpen = true := rfl
@[simp] theorem isOpen_deleted : (Slot.deleted : Slot α).isOpen = true := rfl
@[simp] theorem isOpen_entry (a : α) : (Slot.entry a).isOpen = false := rfl
@[simp] theorem isFree_free : (Slot.free : Slot α).isFree = true := rfl
@[simp] theorem isFree_deleted : (Slot.deleted : Slot α).isFree = false := rfl
@[simp] theorem isFree_entry (a : α) : (Slot.entry a).isFree = false := rfl

theorem isOpen_eq_false {s : Slot α} : s.isOpen = false ↔ ∃ a, s = .entry a := by
  cases s <;> simp

/-- A table around one of its slots. -/
theorem split_at {t : List σ} {j : ℕ} {s : σ} (h : t[j]? = some s) :
    ∃ pre post, t = pre ++ s :: post ∧ pre.length = j ∧
      ∀ s', t.set j s' = pre ++ s' :: post := by
  obtain ⟨hj, rfl⟩ := List.getElem?_eq_some_iff.mp h
  have hlen : (t.take j).length = j := by
    rw [List.length_take]
    omega
  have ht : t = t.take j ++ t[j] :: t.drop (j + 1) := by simp
  refine ⟨t.take j, t.drop (j + 1), ht, hlen, fun s' => ?_⟩
  rw [List.set_eq_take_append_cons_drop, if_pos hj]

@[simp] theorem entries_nil : entries ([] : List (Slot α)) = [] := rfl

@[simp] theorem entries_append (t t' : List (Slot α)) :
    entries (t ++ t') = entries t ++ entries t' :=
  List.filterMap_append

@[simp] theorem entries_entry (a : α) (t : List (Slot α)) :
    entries (.entry a :: t) = a :: entries t := rfl

theorem entries_open {s : Slot α} (h : s.isOpen = true) (t : List (Slot α)) :
    entries (s :: t) = entries t := by
  cases s with
  | entry a => simp at h
  | free => rfl
  | deleted => rfl

theorem mem_entries {t : List (Slot α)} {a : α} :
    a ∈ entries t ↔ ∃ j : ℕ, t[j]? = some (Slot.entry a) := by
  rw [entries, List.mem_filterMap, ← List.mem_iff_getElem?]
  constructor
  · rintro ⟨s, hs, ha⟩
    cases s with
    | free => simp [Slot.entry?] at ha
    | deleted => simp [Slot.entry?] at ha
    | entry b =>
      obtain rfl : b = a := Option.some.inj ha
      exact hs
  · intro h
    exact ⟨_, h, rfl⟩

/-- An element put into an open slot is one more. -/
theorem entries_set_entry {t : List (Slot α)} {j : ℕ} {s : Slot α} (h : t[j]? = some s)
    (hs : s.isOpen = true) (a : α) : (entries (t.set j (.entry a))).Perm (a :: entries t) := by
  obtain ⟨pre, post, rfl, -, hset⟩ := split_at h
  rw [hset, entries_append, entries_append, entries_entry, entries_open hs]
  exact List.perm_middle

/-- An element taken out of its slot is one less. -/
theorem entries_set_open {t : List (Slot α)} {j : ℕ} {a : α} (h : t[j]? = some (.entry a))
    {s : Slot α} (hs : s.isOpen = true) : (a :: entries (t.set j s)).Perm (entries t) := by
  obtain ⟨pre, post, rfl, -, hset⟩ := split_at h
  rw [hset, entries_append, entries_append, entries_entry, entries_open hs]
  exact List.perm_middle.symm

/-- An open slot may become another one. -/
theorem entries_set_of_open {t : List (Slot α)} {j : ℕ} {s s' : Slot α} (h : t[j]? = some s)
    (hs : s.isOpen = true) (hs' : s'.isOpen = true) : entries (t.set j s') = entries t := by
  obtain ⟨pre, post, rfl, -, hset⟩ := split_at h
  rw [hset, entries_append, entries_append, entries_open hs, entries_open hs']

/-- The number of marks. -/
def marks (t : List (Slot α)) : ℕ := t.countP fun s => !s.isFree && s.isOpen

theorem marks_set {t : List (Slot α)} {j : ℕ} {s : Slot α} (h : t[j]? = some s) (s' : Slot α) :
    marks (t.set j s') + (if (!s.isFree && s.isOpen) = true then 1 else 0) =
      marks t + (if (!s'.isFree && s'.isOpen) = true then 1 else 0) := by
  obtain ⟨pre, post, rfl, -, hset⟩ := split_at h
  rw [hset, marks, marks, List.countP_append, List.countP_append, List.countP_cons,
    List.countP_cons]
  omega

theorem marks_set_le {t : List (Slot α)} {j : ℕ} {s : Slot α} (h : t[j]? = some s) (a : α) :
    marks (t.set j (.entry a)) ≤ marks t := by
  have := marks_set h (.entry a)
  simp only [isFree_entry, isOpen_entry, Bool.and_false, Bool.false_eq_true, if_false] at this
  omega

/-- Elements, marks and free slots make up the table. -/
theorem length_eq (t : List (Slot α)) :
    t.length = (entries t).length + marks t + t.countP Slot.isFree := by
  induction t with
  | nil => rfl
  | cons s t ih =>
    cases s with
    | free =>
      rw [entries_open rfl, List.length_cons, List.countP_cons, marks, List.countP_cons, ← marks]
      simp only [isFree_free, Bool.not_true, Bool.false_and, Bool.false_eq_true, if_false,
        if_true]
      omega
    | deleted =>
      rw [entries_open rfl, List.length_cons, List.countP_cons, marks, List.countP_cons, ← marks]
      simp only [isFree_deleted, isOpen_deleted, Bool.not_false, Bool.true_and, if_true,
        Bool.false_eq_true, if_false]
      omega
    | entry a =>
      rw [entries_entry, List.length_cons, List.length_cons, List.countP_cons, marks,
        List.countP_cons, ← marks]
      simp only [isFree_entry, isOpen_entry, Bool.and_false, Bool.false_eq_true, if_false]
      omega

/-- Where elements and marks do not fill the table, a slot is free. -/
theorem exists_free {t : List (Slot α)} (h : (entries t).length + marks t < t.length) :
    ∃ j < t.length, t[j]? = some .free := by
  have hcount : 0 < t.countP Slot.isFree := by
    have := length_eq t
    omega
  obtain ⟨s, hs, hfree⟩ := List.countP_pos_iff.mp hcount
  obtain ⟨j, hj⟩ := List.mem_iff_getElem?.mp hs
  cases s with
  | free => exact ⟨j, (List.getElem?_eq_some_iff.mp hj).1, hj⟩
  | deleted => simp at hfree
  | entry a => simp at hfree

/-! ### Elements that are found -/

variable (home : α → ℕ)

/-- Whoever looks for the element from its home on gets to the slot. -/
def Reached (t : List (Slot α)) (a : α) (j : ℕ) : Prop :=
  ∃ k < t.length, (home a + k) % t.length = j ∧ PassesBy Slot.isFree t (home a) k

/-- Every element is found. -/
def Found (t : List (Slot α)) : Prop :=
  ∀ j a, t[j]? = some (.entry a) → Reached home t a j

variable {home}

theorem PassesBy.set {t : List (Slot α)} {i k : ℕ} (h : PassesBy Slot.isFree t i k) {s : Slot α}
    (hs : s.isFree = false) (j : ℕ) : PassesBy Slot.isFree (t.set j s) i k := by
  intro d hd
  obtain ⟨s', hs', hfree⟩ := h d hd
  rw [List.length_set, List.getElem?_set]
  obtain ⟨hlt, -⟩ := List.getElem?_eq_some_iff.mp hs'
  by_cases hj : j = (i + d) % t.length
  · rw [if_pos hj, if_pos (by omega)]
    exact ⟨s, rfl, hs⟩
  · rw [if_neg hj]
    exact ⟨s', hs', hfree⟩

theorem Reached.set {t : List (Slot α)} {a : α} {i : ℕ} (h : Reached home t a i) {s : Slot α}
    (hs : s.isFree = false) (j : ℕ) : Reached home (t.set j s) a i := by
  obtain ⟨k, hk, hi, hby⟩ := h
  have hset := hby.set hs j
  refine ⟨k, by rwa [List.length_set], by rwa [List.length_set], hset⟩

/-- A mark in the place of an element keeps the others found. -/
theorem Found.set_deleted {t : List (Slot α)} (h : Found home t) (j : ℕ) :
    Found home (t.set j .deleted) := by
  intro i a hi
  rw [List.getElem?_set] at hi
  split at hi
  · split at hi <;> simp at hi
  · exact (h i a hi).set rfl j

/-! ### Adding -/

variable (home) in
/-- Put an element into the first open slot from its home on. -/
def add (t : List (Slot α)) (a : α) : Option (List (Slot α)) :=
  (seek Slot.isOpen t t.length (home a)).map fun j => t.set j (.entry a)

theorem add_length {t t' : List (Slot α)} {a : α} (h : add home t a = some t') :
    t'.length = t.length := by
  rw [add, Option.map_eq_some_iff] at h
  obtain ⟨j, -, rfl⟩ := h
  exact List.length_set

theorem PassesBy.of_entries {t : List (Slot α)} {i k : ℕ} (h : PassesBy Slot.isOpen t i k) :
    PassesBy Slot.isFree t i k := by
  intro d hd
  obtain ⟨s, hs, hopen⟩ := h d hd
  obtain ⟨a, rfl⟩ := isOpen_eq_false.mp hopen
  exact ⟨.entry a, hs, rfl⟩

theorem add_spec {t : List (Slot α)} {a : α} (hhome : home a < t.length) (hfound : Found home t)
    {i : ℕ} (hi : i < t.length) (hopen : StopsAt Slot.isOpen t i) :
    ∃ j s, add home t a = some (t.set j (.entry a)) ∧ t[j]? = some s ∧ s.isOpen = true ∧
      Found home (t.set j (.entry a)) := by
  obtain ⟨k, hk, rfl⟩ := exists_steps hhome hi
  obtain ⟨q, hq, hseek, ⟨s, hs, hsopen⟩, hby⟩ := seek_spec hhome hk hopen
  refine ⟨(home a + q) % t.length, s, ?_, hs, hsopen, ?_⟩
  · rw [add, hseek]
    rfl
  · intro i b hb
    rw [List.getElem?_set] at hb
    split at hb
    · rename_i heq
      have hab : b = a := by
        split at hb
        · simpa using hb.symm
        · simp at hb
      subst hab
      have hlt : q < t.length := by omega
      exact Reached.set ⟨q, hlt, heq, hby.of_entries⟩ rfl _
    · exact (hfound i b hb).set rfl _

/-- On the way from its home an element comes before the next free slot. -/
theorem Found.before_free {t : List (Slot α)} (hfound : Found home t) {j : ℕ} {a : α}
    (ha : t[j]? = some (.entry a)) {free : ℕ}
    (hfree : t[(home a + free) % t.length]? = some .free) :
    ∃ k < free, k < t.length ∧ (home a + k) % t.length = j := by
  obtain ⟨k, hk, rfl, hby⟩ := hfound j a ha
  refine ⟨k, ?_, hk, rfl⟩
  by_contra hle
  rcases Nat.lt_or_eq_of_le (Nat.le_of_not_lt hle) with hlt | rfl
  · obtain ⟨s, hs, hnot⟩ := hby free hlt
    obtain rfl : Slot.free = s := Option.some.inj (hfree.symm.trans hs)
    simp at hnot
  · rw [hfree] at ha
    simp at ha

/-! ### Putting all in again -/

variable (home) in
/-- Put in again what is in one slot. -/
def rehashSlot (t : List (Slot α)) (j : ℕ) : Option (List (Slot α)) := do
  match ← t[j]? with
  | .free => return t
  | .deleted => return t.set j .free
  | .entry a => add home (t.set j .free) a

variable (home) in
/-- Put all in again in place, from a free slot on. -/
def rehash (t : List (Slot α)) (start : ℕ) : Option (List (Slot α)) :=
  (List.range t.length).foldlM (fun t i => rehashSlot home t ((i + start) % t.length)) t

theorem rehashSlot_length {t t' : List (Slot α)} {j : ℕ} (h : rehashSlot home t j = some t') :
    t'.length = t.length := by
  rw [rehashSlot, Option.bind_eq_bind, Option.bind_eq_some_iff] at h
  obtain ⟨s, -, h⟩ := h
  cases s with
  | free => rw [← Option.some.inj h]
  | deleted => rw [← Option.some.inj h, List.length_set]
  | entry a => rw [add_length h, List.length_set]

/-- An element in its home stays there. -/
theorem rehashSlot_home {t : List (Slot α)} {a : α} (h : t[home a]? = some (.entry a)) :
    rehashSlot home t (home a) = some t := by
  obtain ⟨hlt, hget⟩ := List.getElem?_eq_some_iff.mp h
  obtain ⟨n, hn⟩ : ∃ n, t.length = n + 1 := ⟨t.length - 1, by omega⟩
  have hself : (t.set (home a) Slot.free)[home a]? = some .free := by
    rw [List.getElem?_set_self hlt]
  rw [rehashSlot, h]
  simp only [Option.bind_eq_bind, Option.bind_some]
  rw [add, List.length_set, hn, seek, hself]
  simp only [Option.bind_eq_bind, Option.bind_some, isOpen_free, if_true, Option.map_some,
    List.set_set, ← hget, List.set_getElem_self]

/-- The table when so many slots behind the start are done: in those there is no mark, and
between the home of an element and its slot are elements only; the others are as they were. -/
structure Done (home : α → ℕ) (start : ℕ) (t₀ t : List (Slot α)) (i : ℕ) : Prop where
  length : t.length = t₀.length
  perm : (entries t).Perm (entries t₀)
  ahead : ∀ q, i ≤ q → q < t₀.length →
    t[(start + q) % t₀.length]? = t₀[(start + q) % t₀.length]?
  unmarked : ∀ q < i, t[(start + q) % t₀.length]? ≠ some .deleted
  behind : ∀ q < i, ∀ a, t[(start + q) % t₀.length]? = some (.entry a) →
    ∃ b ≤ q, (start + b) % t₀.length = home a ∧
      ∀ r, b ≤ r → r < q → ∃ a', t[(start + r) % t₀.length]? = some (.entry a')

/-- Seen from a free slot, the home of an element is not behind its slot. -/
theorem Found.home_le {t : List (Slot α)} (h : Found home t) {start q : ℕ}
    (hstart : t[start]? = some .free) (hq : q < t.length) {a : α}
    (ha : t[(start + q) % t.length]? = some (.entry a)) (hhome : home a < t.length) :
    ∃ b ≤ q, (start + b) % t.length = home a := by
  obtain ⟨k, hk, hkq, hby⟩ := h _ a ha
  have hslt := (List.getElem?_eq_some_iff.mp hstart).1
  obtain ⟨b, hb, hbh⟩ := exists_steps hslt hhome
  refine ⟨b, ?_, hbh⟩
  have hpos : ∀ d, (home a + d) % t.length = (start + (b + d)) % t.length := by
    intro d
    rw [← hbh, Nat.mod_add_mod, Nat.add_assoc]
  rw [hpos] at hkq
  by_cases hwrap : b + k < t.length
  · have := steps_inj hwrap hq hkq
    omega
  · -- the way from the home to the slot would go over the free slot
    have hround : (home a + (t.length - b)) % t.length = start := by
      rw [hpos, Nat.add_sub_cancel' (Nat.le_of_lt hb), Nat.add_mod_right, Nat.mod_eq_of_lt hslt]
    rcases Nat.lt_or_eq_of_le (show t.length - b ≤ k by omega) with hlt | heq
    · obtain ⟨s, hs, hfree⟩ := hby _ hlt
      rw [hround, hstart] at hs
      obtain rfl := Option.some.inj hs
      simp at hfree
    · rw [← heq, ← hpos, hround] at hkq
      rw [← hkq, hstart] at ha
      simp at ha

section Rehash

variable {t₀ : List (Slot α)} {start : ℕ}

theorem Done.init : Done home start t₀ t₀ 0 where
  length := rfl
  perm := List.Perm.refl _
  ahead _ _ _ := rfl
  unmarked q hq := by omega
  behind q hq := by omega

/-- A slot that holds no element is done when it is free. -/
theorem Done.free {t : List (Slot α)} {i : ℕ} (h : Done home start t₀ t i)
    (hfree : t[(start + i) % t₀.length]? = some .free) : Done home start t₀ t (i + 1) where
  length := h.length
  perm := h.perm
  ahead q hq hlt := h.ahead q (by omega) hlt
  unmarked q hq := by
    rcases Nat.lt_succ_iff_lt_or_eq.mp hq with hq | rfl
    · exact h.unmarked q hq
    · simp [hfree]
  behind q hq a ha := by
    rcases Nat.lt_succ_iff_lt_or_eq.mp hq with hq | rfl
    · exact h.behind q hq a ha
    · simp [hfree] at ha

/-- A slot that has not been gone through is freed. -/
theorem Done.getElem?_set {t : List (Slot α)} {i : ℕ} (h : Done home start t₀ t i)
    (hi : i < t₀.length) {j : ℕ} (hj : j < t₀.length) (s : Slot α) :
    (t.set ((start + i) % t₀.length) s)[(start + j) % t₀.length]? =
      if j = i then some s else t[(start + j) % t₀.length]? := by
  have hpos : (start + i) % t₀.length < t.length := by
    rw [h.length]
    exact Nat.mod_lt _ (by omega)
  rw [List.getElem?_set]
  by_cases hji : j = i
  · rw [if_pos hji, if_pos (by rw [hji]), if_pos hpos]
  · rw [if_neg hji, if_neg fun heq => hji (steps_inj hj hi heq.symm)]

/-- A mark is wiped out. -/
theorem Done.deleted {t : List (Slot α)} {i : ℕ} (h : Done home start t₀ t i)
    (hi : i < t₀.length) (hmark : t[(start + i) % t₀.length]? = some .deleted) :
    Done home start t₀ (t.set ((start + i) % t₀.length) .free) (i + 1) where
  length := by rw [List.length_set, h.length]
  perm := by
    rw [entries_set_of_open hmark rfl rfl]
    exact h.perm
  ahead q hq hlt := by
    rw [h.getElem?_set hi hlt, if_neg (by omega)]
    exact h.ahead q (by omega) hlt
  unmarked q hq := by
    rw [h.getElem?_set hi (by omega)]
    split
    · simp
    · exact h.unmarked q (by omega)
  behind q hq a ha := by
    rw [h.getElem?_set hi (by omega)] at ha
    split at ha
    · simp at ha
    · obtain ⟨b, hb, hhome, hbetween⟩ := h.behind q (by omega) a ha
      refine ⟨b, hb, hhome, fun r hbr hr => ?_⟩
      rw [h.getElem?_set hi (by omega), if_neg (by omega)]
      exact hbetween r hbr hr

/-- An element moves into the part that is done. -/
theorem Done.entry {t : List (Slot α)} {i : ℕ} (h : Done home start t₀ t i)
    (hi : i < t₀.length) (hfound : Found home t₀) (hstart : t₀[start]? = some .free) {a : α}
    (hhome : home a < t₀.length) (ha : t[(start + i) % t₀.length]? = some (.entry a)) :
    ∃ t', add home (t.set ((start + i) % t₀.length) .free) a = some t' ∧
      Done home start t₀ t' (i + 1) := by
  have ha₀ := ha
  rw [h.ahead i (Nat.le_refl i) hi] at ha₀
  obtain ⟨b, hb, hbh⟩ := hfound.home_le hstart hi ha₀ hhome
  have hpos : ∀ d, (home a + d) % t₀.length = (start + (b + d)) % t₀.length := by
    intro d
    rw [← hbh, Nat.mod_add_mod, Nat.add_assoc]
  have hlen : (t.set ((start + i) % t₀.length) Slot.free).length = t₀.length := by
    rw [List.length_set, h.length]
  have hstop : StopsAt Slot.isOpen (t.set ((start + i) % t₀.length) .free)
      ((home a + (i - b)) % (t.set ((start + i) % t₀.length) Slot.free).length) := by
    rw [hlen, hpos, Nat.add_sub_cancel' hb]
    exact ⟨.free, by rw [h.getElem?_set hi hi, if_pos rfl], rfl⟩
  obtain ⟨k, hk, hseek, ⟨s, hs, hopen⟩, hby⟩ :=
    seek_spec (n := t₀.length) (by rwa [hlen]) (by omega) hstop
  rw [hlen, hpos] at hseek hs
  have hq : b + k ≤ i := by omega
  -- the slots from the home to the new one hold elements
  have hbetween : ∀ r, b ≤ r → r < b + k →
      ∃ a', t[(start + r) % t₀.length]? = some (.entry a') := by
    intro r hbr hr
    obtain ⟨s', hs', hclosed⟩ := hby (r - b) (by omega)
    rw [hlen, hpos, Nat.add_sub_cancel' hbr, h.getElem?_set hi (by omega),
      if_neg (by omega)] at hs'
    obtain ⟨a', rfl⟩ := isOpen_eq_false.mp hclosed
    exact ⟨a', hs'⟩
  have hperm := (entries_set_entry hs hopen a).trans (entries_set_open ha rfl)
  have hget : ∀ j < t₀.length,
      ((t.set ((start + i) % t₀.length) .free).set ((start + (b + k)) % t₀.length)
        (.entry a))[(start + j) % t₀.length]? =
      if j = b + k then some (.entry a) else if j = i then some .free
        else t[(start + j) % t₀.length]? := by
    intro j hj
    rw [List.getElem?_set, hlen]
    by_cases hjk : j = b + k
    · rw [if_pos hjk, if_pos (by rw [hjk]), if_pos (Nat.mod_lt _ (by omega))]
    · rw [if_neg hjk, if_neg fun heq => hjk (steps_inj hj (by omega) heq.symm),
        h.getElem?_set hi hj]
  refine ⟨_, by rw [add, hlen, hseek]; rfl, ?_, hperm.trans h.perm, ?_, ?_, ?_⟩
  · rw [List.length_set, hlen]
  · intro q hqi hlt
    rw [hget q hlt, if_neg (by omega), if_neg (by omega)]
    exact h.ahead q (by omega) hlt
  · intro q hqi
    rw [hget q (by omega)]
    split
    · simp
    · split
      · simp
      · exact h.unmarked q (by omega)
  · intro q hqi a' ha'
    rw [hget q (by omega)] at ha'
    have hkept : ∀ r < i, (∃ x, t[(start + r) % t₀.length]? = some (Slot.entry x)) →
        ∃ x, ((t.set ((start + i) % t₀.length) .free).set ((start + (b + k)) % t₀.length)
          (.entry a))[(start + r) % t₀.length]? = some (Slot.entry x) := by
      rintro r hr ⟨x, hx⟩
      rw [hget r (by omega), if_neg (show r ≠ i by omega)]
      split
      · exact ⟨a, rfl⟩
      · exact ⟨x, hx⟩
    split at ha'
    · rename_i heq
      obtain rfl : a = a' := by simpa using ha'
      refine ⟨b, by omega, hbh, fun r hbr hr => hkept r (by omega) (hbetween r hbr (by omega))⟩
    · split at ha'
      · simp at ha'
      · obtain ⟨b', hb', hhome', hbetween'⟩ := h.behind q (by omega) a' ha'
        exact ⟨b', hb', hhome', fun r hbr hr => hkept r (by omega) (hbetween' r hbr hr)⟩

/-- When all slots are done, every element is found and there is no mark. -/
theorem Done.found {t : List (Slot α)} (h : Done home start t₀ t t₀.length)
    (hs : start < t₀.length) : Found home t ∧ marks t = 0 := by
  constructor
  · intro j a ha
    have hj := (List.getElem?_eq_some_iff.mp ha).1
    rw [h.length] at hj
    obtain ⟨q, hq, rfl⟩ := exists_steps hs hj
    obtain ⟨b, hb, hhome, hbetween⟩ := h.behind q hq a ha
    have hpos : ∀ d, (home a + d) % t.length = (start + (b + d)) % t.length := by
      intro d
      rw [← hhome, ← h.length, Nat.mod_add_mod, Nat.add_assoc]
    refine ⟨q - b, by rw [h.length]; omega, ?_, fun d hd => ?_⟩
    · rw [hpos, Nat.add_sub_cancel' hb, h.length]
    · obtain ⟨x, hx⟩ := hbetween (b + d) (by omega) (by omega)
      rw [hpos, h.length]
      exact ⟨.entry x, hx, rfl⟩
  · rw [marks, List.countP_eq_zero]
    intro s hmem
    obtain ⟨j, hj⟩ := List.mem_iff_getElem?.mp hmem
    have hlt := (List.getElem?_eq_some_iff.mp hj).1
    rw [h.length] at hlt
    obtain ⟨q, hq, rfl⟩ := exists_steps hs hlt
    cases s with
    | free => simp
    | entry a => simp
    | deleted => exact absurd hj (h.unmarked q hq)

end Rehash

/-- Putting all in again in place, from a free slot on, keeps what is in the table; everything
is found afterwards and no mark is left. -/
theorem rehash_spec {t : List (Slot α)} (hfound : Found home t)
    (hhome : ∀ a ∈ entries t, home a < t.length) {start : ℕ}
    (hstart : t[start]? = some .free) :
    ∃ t', rehash home t start = some t' ∧ t'.length = t.length ∧
      (entries t').Perm (entries t) ∧ Found home t' ∧ marks t' = 0 := by
  have hs := (List.getElem?_eq_some_iff.mp hstart).1
  have hround : ∀ i < t.length, ∀ t', Done home start t t' i →
      ∃ t'', rehashSlot home t' ((i + start) % t'.length) = some t'' ∧
        Done home start t t'' (i + 1) := by
    intro i hi t' h
    have hpos : (start + i) % t.length < t'.length := by
      rw [h.length]
      exact Nat.mod_lt _ (by omega)
    rw [h.length, Nat.add_comm i, rehashSlot, List.getElem?_eq_getElem hpos]
    have hget := List.getElem?_eq_getElem hpos
    cases hslot : t'[(start + i) % t.length] with
    | free => exact ⟨t', rfl, h.free (hget.trans (congrArg some hslot))⟩
    | deleted => exact ⟨_, rfl, h.deleted hi (hget.trans (congrArg some hslot))⟩
    | entry a =>
      have ha := hget.trans (congrArg some hslot)
      have hmem : a ∈ entries t := h.perm.mem_iff.mp (mem_entries.mpr ⟨_, ha⟩)
      exact h.entry hi hfound hstart (hhome a hmem) ha
  obtain ⟨t', hrun, hdone⟩ := Loops.count_spec (fun i t' => Done home start t t' i) t.length
    Done.init hround
  obtain ⟨hfound', hmarks⟩ := hdone.found hs
  exact ⟨t', hrun, hdone.length, hdone.perm, hfound', hmarks⟩

/-! ### A larger table -/

/-- What adding an element does where a slot is free. -/
theorem add_of_free {t : List (Slot α)} {a : α} (hhome : home a < t.length)
    (hfound : Found home t) (hroom : (entries t).length + marks t < t.length) :
    ∃ t', add home t a = some t' ∧ t'.length = t.length ∧
      (entries t').Perm (a :: entries t) ∧ Found home t' ∧ marks t' ≤ marks t := by
  obtain ⟨i, hi, hfree⟩ := exists_free hroom
  obtain ⟨j, s, hadd, hs, hopen, hfound'⟩ := add_spec hhome hfound hi ⟨.free, hfree, rfl⟩
  exact ⟨_, hadd, List.length_set, entries_set_entry hs hopen a, hfound', marks_set_le hs a⟩

/-- Elements put in one after the other are all found. -/
theorem addAll_spec {l : List α} {t : List (Slot α)} (hhome : ∀ a ∈ l, home a < t.length)
    (hfound : Found home t) (hroom : (entries t).length + marks t + l.length < t.length) :
    ∃ t', l.foldlM (add home) t = some t' ∧ t'.length = t.length ∧
      (entries t').Perm (l ++ entries t) ∧ Found home t' ∧ marks t' ≤ marks t := by
  induction l generalizing t with
  | nil => exact ⟨t, rfl, rfl, List.Perm.refl _, hfound, Nat.le_refl _⟩
  | cons a l ih =>
    rw [List.length_cons] at hroom
    obtain ⟨mid, hadd, hlen, hperm, hfound', hmarks⟩ :=
      add_of_free (hhome a List.mem_cons_self) hfound (by omega)
    have hcount := hperm.length_eq
    rw [List.length_cons] at hcount
    obtain ⟨t', hrun, hlen', hperm', hfound'', hmarks'⟩ :=
      ih (fun b hb => by rw [hlen]; exact hhome b (List.mem_cons_of_mem _ hb)) hfound'
        (by omega)
    refine ⟨t', ?_, hlen'.trans hlen, ?_, hfound'', by omega⟩
    · rw [List.foldlM_cons, hadd]
      exact hrun
    · refine hperm'.trans ?_
      exact (List.Perm.append_left l hperm).trans List.perm_middle

theorem entries_replicate (n : ℕ) : entries (List.replicate n (Slot.free : Slot α)) = [] := by
  induction n with
  | zero => rfl
  | succ n ih => exact ih

theorem marks_replicate (n : ℕ) : marks (List.replicate n (Slot.free : Slot α)) = 0 := by
  rw [marks, List.countP_eq_zero]
  intro s hs
  simp [List.eq_of_mem_replicate hs]

theorem found_replicate (n : ℕ) : Found home (List.replicate n (Slot.free : Slot α)) := by
  intro j a ha
  have := List.eq_of_mem_replicate (List.mem_of_getElem? ha)
  cases this

end Probing
