import Mathlib.Data.List.Nodup
import Mathlib.Tactic.SplitIfs
import Faceplate.Lib.Heap

/-!
# Rings of doubly linked nodes

A node has a pointer to the next node and one to the previous node, either of which may be
NULL, and the data of what it is part of. A list is a ring of nodes, one of which is its
head. The lemmas say what linking and unlinking do to the pointers, and from it what they do
to a ring. A ring may be read from any of its nodes, so that it is enough to link and unlink
behind the first one.
-/

namespace Dlist

variable {δ : Type}

/-- A node. -/
structure Node (δ : Type) where
  next : Option ℕ
  prev : Option ℕ
  data : δ

/-- The pointer to the next node. -/
def nextOf (heap : Heap (Node δ)) (a : ℕ) : Option ℕ := (heap.lookup a).bind Node.next

/-- The pointer to the previous node. -/
def prevOf (heap : Heap (Node δ)) (a : ℕ) : Option ℕ := (heap.lookup a).bind Node.prev

/-- The data of a node. -/
def dataOf (heap : Heap (Node δ)) (a : ℕ) : Option δ := (heap.lookup a).map Node.data

/-- Write the pointer to the next node. -/
def setNext (heap : Heap (Node δ)) (a : ℕ) (p : Option ℕ) : Option (Heap (Node δ)) :=
  (heap.lookup a).map fun node => heap.insert a { node with next := p }

/-- Write the pointer to the previous node. -/
def setPrev (heap : Heap (Node δ)) (a : ℕ) (p : Option ℕ) : Option (Heap (Node δ)) :=
  (heap.lookup a).map fun node => heap.insert a { node with prev := p }

/-- Write the data of a node. -/
def setData (heap : Heap (Node δ)) (a : ℕ) (d : δ) : Option (Heap (Node δ)) :=
  (heap.lookup a).map fun node => heap.insert a { node with data := d }

/-- Link a node between two others. -/
def linkBetween (heap : Heap (Node δ)) (prev next n : ℕ) : Option (Heap (Node δ)) := do
  let heap ← setPrev heap next (some n)
  let heap ← setNext heap n (some next)
  let heap ← setPrev heap n (some prev)
  setNext heap prev (some n)

/-- Link a node behind the head. -/
def link (heap : Heap (Node δ)) (head n : ℕ) : Option (Heap (Node δ)) := do
  let next ← nextOf heap head
  linkBetween heap head next n

/-- Link a node in front of the head, which is the end of the list. -/
def linkTail (heap : Heap (Node δ)) (head n : ℕ) : Option (Heap (Node δ)) := do
  let prev ← prevOf heap head
  linkBetween heap prev head n

/-- Unlink a node, whose pointers become NULL. -/
def unlink (heap : Heap (Node δ)) (e : ℕ) : Option (Heap (Node δ)) := do
  let prev ← prevOf heap e
  let next ← nextOf heap e
  let heap ← setPrev heap next (some prev)
  let heap ← setNext heap prev (some next)
  let heap ← setPrev heap e none
  setNext heap e none

/-- Go along a pointer from a node on until one is found or the head is reached. -/
def seek (along : ℕ → Option ℕ) (found : ℕ → Option Bool) (head : ℕ) :
    ℕ → ℕ → Option (Option ℕ)
  | 0, _ => none
  | fuel + 1, a =>
    if a = head then some none
    else do
      if ← found a then return some a
      let b ← along a
      seek along found head fuel b

/-! ### What is written -/

/-- The nodes that are there and their data are the same. -/
def SameData (heap heap' : Heap (Node δ)) : Prop := ∀ a, dataOf heap' a = dataOf heap a

section Writes

variable {heap heap' : Heap (Node δ)} {a : ℕ}

theorem mem_iff_dataOf : a ∈ heap ↔ (dataOf heap a).isSome = true := by
  rw [dataOf, Option.isSome_map, AList.lookup_isSome]

theorem SameData.mem (h : SameData heap heap') : a ∈ heap' ↔ a ∈ heap := by
  rw [mem_iff_dataOf, mem_iff_dataOf, h a]

theorem mem_of_nextOf {b : ℕ} (h : nextOf heap a = some b) : a ∈ heap := by
  obtain ⟨node, hnode, -⟩ := Option.bind_eq_some_iff.mp h
  exact Heap.mem_of_lookup hnode

theorem setNext_spec (ha : a ∈ heap) (p : Option ℕ) :
    ∃ heap', setNext heap a p = some heap' ∧
      (∀ z, nextOf heap' z = if z = a then p else nextOf heap z) ∧
      (∀ z, prevOf heap' z = prevOf heap z) ∧ SameData heap heap' := by
  obtain ⟨node, hnode⟩ := Option.isSome_iff_exists.mp (AList.lookup_isSome.mpr ha)
  have hwrite : setNext heap a p = some (heap.insert a { node with next := p }) := by
    rw [setNext, hnode, Option.map_some]
  refine ⟨_, hwrite, fun z => ?_, fun z => ?_, fun z => ?_⟩
  all_goals
    by_cases hz : z = a
    · subst hz
      simp [nextOf, prevOf, dataOf, hnode]
    · simp [nextOf, prevOf, dataOf, AList.lookup_insert_ne hz, hz]

theorem setPrev_spec (ha : a ∈ heap) (p : Option ℕ) :
    ∃ heap', setPrev heap a p = some heap' ∧ (∀ z, nextOf heap' z = nextOf heap z) ∧
      (∀ z, prevOf heap' z = if z = a then p else prevOf heap z) ∧ SameData heap heap' := by
  obtain ⟨node, hnode⟩ := Option.isSome_iff_exists.mp (AList.lookup_isSome.mpr ha)
  have hwrite : setPrev heap a p = some (heap.insert a { node with prev := p }) := by
    rw [setPrev, hnode, Option.map_some]
  refine ⟨_, hwrite, fun z => ?_, fun z => ?_, fun z => ?_⟩
  all_goals
    by_cases hz : z = a
    · subst hz
      simp [nextOf, prevOf, dataOf, hnode]
    · simp [nextOf, prevOf, dataOf, AList.lookup_insert_ne hz, hz]

theorem setData_spec (ha : a ∈ heap) (d : δ) :
    ∃ heap', setData heap a d = some heap' ∧ (∀ z, nextOf heap' z = nextOf heap z) ∧
      (∀ z, prevOf heap' z = prevOf heap z) ∧
      ∀ z, dataOf heap' z = if z = a then some d else dataOf heap z := by
  obtain ⟨node, hnode⟩ := Option.isSome_iff_exists.mp (AList.lookup_isSome.mpr ha)
  have hwrite : setData heap a d = some (heap.insert a { node with data := d }) := by
    rw [setData, hnode, Option.map_some]
  refine ⟨_, hwrite, fun z => ?_, fun z => ?_, fun z => ?_⟩
  all_goals
    by_cases hz : z = a
    · subst hz
      simp [nextOf, prevOf, dataOf, hnode]
    · simp [nextOf, prevOf, dataOf, AList.lookup_insert_ne hz, hz]

theorem SameData.trans {heap'' : Heap (Node δ)} (h : SameData heap heap')
    (h' : SameData heap' heap'') : SameData heap heap'' := fun a => (h' a).trans (h a)

/-- Linking writes a pointer of each neighbour and both of the node. -/
theorem linkBetween_spec {prev next n : ℕ} (hprev : prev ∈ heap) (hnext : next ∈ heap)
    (hn : n ∈ heap) (hne : n ≠ next) :
    ∃ heap', linkBetween heap prev next n = some heap' ∧
      (∀ z, nextOf heap' z = if z = prev then some n else if z = n then some next
        else nextOf heap z) ∧
      (∀ z, prevOf heap' z = if z = next then some n else if z = n then some prev
        else prevOf heap z) ∧ SameData heap heap' := by
  obtain ⟨h1, hw1, hn1, hp1, hd1⟩ := setPrev_spec hnext (some n)
  obtain ⟨h2, hw2, hn2, hp2, hd2⟩ := setNext_spec (hd1.mem.mpr hn) (some next)
  obtain ⟨h3, hw3, hn3, hp3, hd3⟩ := setPrev_spec ((hd1.trans hd2).mem.mpr hn) (some prev)
  obtain ⟨h4, hw4, hn4, hp4, hd4⟩ :=
    setNext_spec (((hd1.trans hd2).trans hd3).mem.mpr hprev) (some n)
  refine ⟨h4, ?_, fun z => ?_, fun z => ?_, ((hd1.trans hd2).trans hd3).trans hd4⟩
  · simp only [linkBetween, hw1, hw2, hw3, hw4, Option.bind_eq_bind, Option.bind_some]
  · rw [hn4, hn3, hn2, hn1]
  · rw [hp4, hp3, hp2, hp1]
    by_cases hz : z = n
    · rw [if_pos hz, if_neg (by rwa [hz]), if_pos hz]
    · rw [if_neg hz, if_neg hz]

/-- Unlinking joins the neighbours. -/
theorem unlink_spec {e p q : ℕ} (hprev : prevOf heap e = some p) (hnext : nextOf heap e = some q)
    (hp : p ∈ heap) (hq : q ∈ heap) :
    ∃ heap', unlink heap e = some heap' ∧
      (∀ z, nextOf heap' z = if z = e then none else if z = p then some q else nextOf heap z) ∧
      (∀ z, prevOf heap' z = if z = e then none else if z = q then some p else prevOf heap z) ∧
      SameData heap heap' := by
  have he : e ∈ heap := mem_of_nextOf hnext
  obtain ⟨h1, hw1, hn1, hp1, hd1⟩ := setPrev_spec hq (some p)
  obtain ⟨h2, hw2, hn2, hp2, hd2⟩ := setNext_spec (hd1.mem.mpr hp) (some q)
  obtain ⟨h3, hw3, hn3, hp3, hd3⟩ := setPrev_spec ((hd1.trans hd2).mem.mpr he) none
  obtain ⟨h4, hw4, hn4, hp4, hd4⟩ := setNext_spec (((hd1.trans hd2).trans hd3).mem.mpr he) none
  refine ⟨h4, ?_, fun z => ?_, fun z => ?_, ((hd1.trans hd2).trans hd3).trans hd4⟩
  · simp only [unlink, hprev, hnext, hw1, hw2, hw3, hw4, Option.bind_eq_bind, Option.bind_some]
  · rw [hn4, hn3, hn2, hn1]
  · rw [hp4, hp3, hp2, hp1]

end Writes

/-! ### Rings -/

/-- The nodes one meets from `x` to `y`, in both directions. -/
def Path (heap : Heap (Node δ)) : ℕ → List ℕ → ℕ → Prop
  | x, [], y => nextOf heap x = some y ∧ prevOf heap y = some x
  | x, z :: zs, y => (nextOf heap x = some z ∧ prevOf heap z = some x) ∧ Path heap z zs y

/-- The nodes one meets going around, each once. -/
def Ring (heap : Heap (Node δ)) : List ℕ → Prop
  | [] => False
  | x :: xs => (x :: xs).Nodup ∧ Path heap x xs x

section Rings

variable {heap heap' : Heap (Node δ)}

theorem path_append {x w y : ℕ} {zs ws : List ℕ} :
    Path heap x (zs ++ w :: ws) y ↔ Path heap x zs w ∧ Path heap w ws y := by
  induction zs generalizing x with
  | nil => exact Iff.rfl
  | cons z zs ih => rw [List.cons_append, Path, Path, ih, ← and_assoc]

/-- A path depends on the pointers that lead along it. -/
theorem Path.congr {x y : ℕ} {zs : List ℕ} (h : Path heap x zs y)
    (hnext : ∀ z ∈ x :: zs, nextOf heap' z = nextOf heap z)
    (hprev : ∀ z ∈ zs ++ [y], prevOf heap' z = prevOf heap z) : Path heap' x zs y := by
  induction zs generalizing x with
  | nil => exact ⟨(hnext x (by simp)).trans h.1, (hprev y (by simp)).trans h.2⟩
  | cons z zs ih =>
    obtain ⟨⟨hxz, hzx⟩, htail⟩ := h
    refine ⟨⟨(hnext x (by simp)).trans hxz, (hprev z (by simp)).trans hzx⟩, ?_⟩
    apply ih htail
    · exact fun w hw => hnext w (List.mem_cons_of_mem _ hw)
    · exact fun w hw => hprev w (List.mem_cons_of_mem _ hw)

/-- A ring may be read from any of its nodes. -/
theorem Ring.rotate {as bs : List ℕ} (h : Ring heap (as ++ bs)) : Ring heap (bs ++ as) := by
  cases as with
  | nil => rwa [List.append_nil]
  | cons a as =>
    cases bs with
    | nil => rwa [List.append_nil] at h
    | cons b bs =>
      obtain ⟨hnodup, hpath⟩ := h
      obtain ⟨hab, hba⟩ := path_append.mp hpath
      have hnodup' : (b :: bs ++ a :: as).Nodup := List.nodup_append_comm.mp hnodup
      exact ⟨hnodup', path_append.mpr ⟨hba, hab⟩⟩

/-- The neighbours of a node, found by going around from it. -/
theorem Ring.neighbours {x : ℕ} {xs : List ℕ} (h : Ring heap (x :: xs)) :
    nextOf heap x = some ((xs ++ [x]).head (by simp)) ∧
      prevOf heap x = some ((x :: xs).getLast (by simp)) := by
  obtain ⟨-, hpath⟩ := h
  constructor
  · cases xs with
    | nil => exact hpath.1
    | cons y ys => exact hpath.1.1
  · obtain hnil | ⟨ys, l, rfl⟩ := List.eq_nil_or_concat xs
    · subst hnil
      exact hpath.2
    · rw [List.concat_eq_append] at hpath ⊢
      obtain ⟨-, hlast⟩ := path_append.mp hpath
      simpa using hlast.2

theorem Ring.mem_heap {l : List ℕ} (h : Ring heap l) {a : ℕ} (ha : a ∈ l) : a ∈ heap := by
  obtain ⟨as, bs, rfl⟩ := List.append_of_mem ha
  have hring : Ring heap (a :: bs ++ as) := h.rotate
  exact mem_of_nextOf hring.neighbours.1

theorem Ring.exists_prev {l : List ℕ} (h : Ring heap l) {a : ℕ} (ha : a ∈ l) :
    ∃ b, prevOf heap a = some b := by
  obtain ⟨as, bs, rfl⟩ := List.append_of_mem ha
  have hring : Ring heap (a :: bs ++ as) := h.rotate
  exact ⟨_, hring.neighbours.2⟩

/-- A ring depends on the pointers of its nodes only. -/
theorem Ring.congr {l : List ℕ} (h : Ring heap l)
    (hsame : ∀ a ∈ l, nextOf heap' a = nextOf heap a ∧ prevOf heap' a = prevOf heap a) :
    Ring heap' l := by
  cases l with
  | nil => exact h
  | cons x xs =>
    refine ⟨h.1, h.2.congr (fun z hz => (hsame z hz).1) fun z hz => (hsame z ?_).2⟩
    rcases List.mem_append.mp hz with hz | hz
    · exact List.mem_cons_of_mem _ hz
    · rw [List.mem_singleton.mp hz]
      exact List.mem_cons_self

/-- A node is linked behind the first one. -/
theorem Ring.linkBetween {p n q : ℕ} {rest : List ℕ} (h : Ring heap (p :: rest))
    (hq : nextOf heap p = some q) (hn : n ∈ heap) (hnew : n ∉ p :: rest) :
    ∃ heap', linkBetween heap p q n = some heap' ∧ Ring heap' (p :: n :: rest) ∧
      SameData heap heap' := by
  have hhead : q = (rest ++ [p]).head (by simp) :=
    Option.some.inj (hq.symm.trans h.neighbours.1)
  have hmem : q ∈ p :: rest := by
    have := List.head_mem (l := rest ++ [p]) (by simp)
    rw [← hhead] at this
    simpa [or_comm] using this
  have hqheap : q ∈ heap := h.mem_heap hmem
  obtain ⟨hp, hrest⟩ := not_or.mp (mt List.mem_cons.mpr hnew)
  obtain ⟨hnodup, hpath⟩ := h
  obtain ⟨hfirst, hothers⟩ := List.nodup_cons.mp hnodup
  have hqn : n ≠ q := (ne_of_mem_of_not_mem hmem hnew).symm
  obtain ⟨heap', hlink, hnext, hprev, hdata⟩ := linkBetween_spec (mem_of_nextOf hq)
    hqheap hn hqn
  have hnodup' : (p :: n :: rest).Nodup :=
    List.nodup_cons.mpr ⟨by simp [Ne.symm hp, hfirst], List.nodup_cons.mpr ⟨hrest, hothers⟩⟩
  have hpn : nextOf heap' p = some n ∧ prevOf heap' n = some p := by
    rw [hnext, hprev, if_pos rfl, if_neg hqn, if_pos rfl]
    exact ⟨rfl, rfl⟩
  have hnq : nextOf heap' n = some q ∧ prevOf heap' q = some n := by
    rw [hnext, hprev, if_neg hp, if_pos rfl, if_pos rfl]
    exact ⟨rfl, rfl⟩
  refine ⟨heap', hlink, ⟨hnodup', hpn, ?_⟩, hdata⟩
  cases rest with
  | nil =>
    obtain rfl : q = p := by simpa using hhead
    exact hnq
  | cons z zs =>
    obtain rfl : q = z := by simpa using hhead
    refine ⟨hnq, hpath.2.congr (fun w hw => ?_) fun w hw => ?_⟩
    · rw [hnext, if_neg (ne_of_mem_of_not_mem hw hfirst), if_neg (ne_of_mem_of_not_mem hw hrest)]
    · have hwq : w ≠ q := by
        rcases List.mem_append.mp hw with hw | hw
        · exact ne_of_mem_of_not_mem hw (List.nodup_cons.mp hothers).1
        · rw [List.mem_singleton.mp hw]
          exact (ne_of_mem_of_not_mem List.mem_cons_self hfirst).symm
      have hwn : w ≠ n := by
        rcases List.mem_append.mp hw with hw | hw
        · exact ne_of_mem_of_not_mem (List.mem_cons_of_mem _ hw) hrest
        · rw [List.mem_singleton.mp hw]
          exact Ne.symm hp
      rw [hprev, if_neg hwq, if_neg hwn]

/-- The node behind the first one is unlinked. -/
theorem Ring.unlink_second {p e : ℕ} {rest : List ℕ} (h : Ring heap (p :: e :: rest)) :
    ∃ heap', unlink heap e = some heap' ∧ Ring heap' (p :: rest) ∧ SameData heap heap' := by
  have hpheap : p ∈ heap := h.mem_heap List.mem_cons_self
  have hrestheap : ∀ z ∈ rest, z ∈ heap := fun z hz => h.mem_heap (by simp [hz])
  obtain ⟨hnodup, ⟨hpe, hep⟩, hpath⟩ := h
  obtain ⟨hfirst, hothers⟩ := List.nodup_cons.mp hnodup
  obtain ⟨hp, hprest⟩ := not_or.mp (mt List.mem_cons.mpr hfirst)
  obtain ⟨herest, hrest⟩ := List.nodup_cons.mp hothers
  cases rest with
  | nil =>
    obtain ⟨heap', hunlink, hnext, hprev, hdata⟩ := unlink_spec hep hpath.1 hpheap hpheap
    refine ⟨heap', hunlink, ⟨List.nodup_singleton p, ?_, ?_⟩, hdata⟩
    · rw [hnext, if_neg hp, if_pos rfl]
    · rw [hprev, if_neg hp, if_pos rfl]
  | cons q zs =>
    obtain ⟨⟨heq, -⟩, htail⟩ := hpath
    obtain ⟨hqzs, -⟩ := List.nodup_cons.mp hrest
    have hqe : q ≠ e := ne_of_mem_of_not_mem List.mem_cons_self herest
    have hqp : q ≠ p := ne_of_mem_of_not_mem List.mem_cons_self hprest
    obtain ⟨heap', hunlink, hnext, hprev, hdata⟩ := unlink_spec hep heq hpheap
      (hrestheap q List.mem_cons_self)
    refine ⟨heap', hunlink, ⟨List.nodup_cons.mpr ⟨hprest, hrest⟩, ⟨?_, ?_⟩, ?_⟩, hdata⟩
    · rw [hnext, if_neg hp, if_pos rfl]
    · rw [hprev, if_neg hqe, if_pos rfl]
    · refine htail.congr (fun w hw => ?_) fun w hw => ?_
      · rw [hnext, if_neg (ne_of_mem_of_not_mem hw herest),
          if_neg (ne_of_mem_of_not_mem hw hprest)]
      · rcases List.mem_append.mp hw with hw | hw
        · rw [hprev, if_neg (ne_of_mem_of_not_mem (List.mem_cons_of_mem _ hw) herest),
            if_neg (ne_of_mem_of_not_mem hw hqzs)]
        · rw [List.mem_singleton.mp hw, hprev, if_neg hp, if_neg (Ne.symm hqp)]

/-! ### Going along a list -/

/-- A pointer leads from `x` over some nodes to `y`. -/
def Follows (along : ℕ → Option ℕ) : ℕ → List ℕ → ℕ → Prop
  | x, [], y => along x = some y
  | x, z :: zs, y => along x = some z ∧ Follows along z zs y

theorem Follows.append {along : ℕ → Option ℕ} {x w y : ℕ} {zs ws : List ℕ}
    (h : Follows along x zs w) (h' : Follows along w ws y) :
    Follows along x (zs ++ w :: ws) y := by
  induction zs generalizing x with
  | nil => exact ⟨h, h'⟩
  | cons z zs ih => exact ⟨h.1, ih h.2⟩

theorem Path.follows_next {x y : ℕ} {zs : List ℕ} (h : Path heap x zs y) :
    Follows (nextOf heap) x zs y := by
  induction zs generalizing x with
  | nil => exact h.1
  | cons z zs ih => exact ⟨h.1.1, ih h.2⟩

theorem Path.follows_prev {x y : ℕ} {zs : List ℕ} (h : Path heap x zs y) :
    Follows (prevOf heap) y zs.reverse x := by
  induction zs generalizing x with
  | nil => exact h.2
  | cons z zs ih =>
    rw [List.reverse_cons]
    exact (ih h.2).append h.1.2

/-- What is found is the first node on the way with the property. -/
theorem seek_spec {along : ℕ → Option ℕ} {found : ℕ → Option Bool} {p : ℕ → Bool}
    {head x fuel : ℕ} {nodes : List ℕ} (h : Follows along x nodes head) (hhead : head ∉ nodes)
    (hfound : ∀ a ∈ nodes, found a = some (p a)) (hfuel : nodes.length < fuel) :
    ∃ first, along x = some first ∧ seek along found head fuel first = some (nodes.find? p) := by
  induction nodes generalizing x fuel with
  | nil =>
    obtain ⟨fuel, rfl⟩ : ∃ k, fuel = k + 1 := ⟨fuel - 1, by omega⟩
    exact ⟨head, h, if_pos rfl⟩
  | cons z nodes ih =>
    obtain ⟨fuel, rfl⟩ : ∃ k, fuel = k + 1 := ⟨fuel - 1, by omega⟩
    obtain ⟨hxz, hrest⟩ := h
    refine ⟨z, hxz, ?_⟩
    have hz : z ≠ head := by
      rintro rfl
      exact hhead List.mem_cons_self
    rw [seek, if_neg hz, hfound z List.mem_cons_self, List.find?_cons]
    cases p z with
    | true => rfl
    | false =>
      obtain ⟨next, hnext, hseek⟩ := ih hrest (fun hmem => hhead (List.mem_cons_of_mem _ hmem))
        (fun a ha => hfound a (List.mem_cons_of_mem _ ha))
        (by rw [List.length_cons] at hfuel; omega : nodes.length < fuel)
      simp only [hnext, Option.bind_eq_bind, Option.bind_some]
      exact hseek

/-! ### Lists -/

variable {head : ℕ} {nodes : List ℕ}

/-- A node becomes the first one of a list. -/
theorem Ring.link {n : ℕ} (h : Ring heap (head :: nodes)) (hn : n ∈ heap)
    (hnew : n ∉ head :: nodes) :
    ∃ heap', link heap head n = some heap' ∧ Ring heap' (head :: n :: nodes) ∧
      SameData heap heap' := by
  obtain ⟨heap', hlink, hring, hdata⟩ := h.linkBetween h.neighbours.1 hn hnew
  refine ⟨heap', ?_, hring, hdata⟩
  rw [Dlist.link, h.neighbours.1]
  exact hlink

/-- A node becomes the last one of a list. -/
theorem Ring.linkTail {n : ℕ} (h : Ring heap (head :: nodes)) (hn : n ∈ heap)
    (hnew : n ∉ head :: nodes) :
    ∃ heap', linkTail heap head n = some heap' ∧ Ring heap' (head :: (nodes ++ [n])) ∧
      SameData heap heap' := by
  obtain ⟨as, l, hsplit⟩ := (List.eq_nil_or_concat (head :: nodes)).resolve_left (by simp)
  rw [List.concat_eq_append] at hsplit
  have hlast : prevOf heap head = some l := by
    rw [h.neighbours.2]
    simp [hsplit]
  have hring : Ring heap (l :: as) := by
    rw [hsplit] at h
    exact h.rotate
  have hhead : nextOf heap l = some head := by
    rw [hring.neighbours.1]
    cases as with
    | nil =>
      obtain ⟨rfl, -⟩ := List.cons.inj hsplit
      rfl
    | cons a as =>
      obtain ⟨rfl, -⟩ := List.cons.inj hsplit
      rfl
  have hnew' : n ∉ l :: as := by
    rw [hsplit] at hnew
    simpa [or_comm] using hnew
  obtain ⟨heap', hlink, hring', hdata⟩ := hring.linkBetween hhead hn hnew'
  refine ⟨heap', ?_, ?_, hdata⟩
  · rw [Dlist.linkTail, hlast]
    exact hlink
  · have hback : Ring heap' ([l, n] ++ as) := hring'
    have hwhole : head :: (nodes ++ [n]) = as ++ [l, n] := by
      rw [← List.cons_append, hsplit, List.append_assoc]
      rfl
    rw [hwhole]
    exact hback.rotate

/-- A node of a list is unlinked. -/
theorem Ring.unlink {as bs : List ℕ} {e : ℕ} (h : Ring heap (head :: (as ++ e :: bs))) :
    ∃ heap', unlink heap e = some heap' ∧ Ring heap' (head :: (as ++ bs)) ∧
      SameData heap heap' := by
  obtain ⟨cs, p, hsplit⟩ := (List.eq_nil_or_concat (head :: as)).resolve_left (by simp)
  rw [List.concat_eq_append] at hsplit
  have hwhole : head :: (as ++ e :: bs) = cs ++ p :: e :: bs := by
    rw [← List.cons_append, hsplit, List.append_assoc]
    rfl
  rw [hwhole] at h
  have hring : Ring heap (p :: e :: (bs ++ cs)) := h.rotate
  obtain ⟨heap', hunlink, hring', hdata⟩ := hring.unlink_second
  refine ⟨heap', hunlink, ?_, hdata⟩
  have hback : Ring heap' ((p :: bs) ++ cs) := hring'
  have hwhole' : head :: (as ++ bs) = cs ++ p :: bs := by
    rw [← List.cons_append, hsplit, List.append_assoc]
    rfl
  rw [hwhole']
  exact hback.rotate

/-- Another cell may be written or freed. -/
theorem Ring.of_lookup_eq {l : List ℕ} (h : Ring heap l)
    (hsame : ∀ a ∈ l, heap'.lookup a = heap.lookup a) : Ring heap' l := by
  apply h.congr
  intro a ha
  unfold nextOf prevOf
  rw [hsame a ha]
  exact ⟨rfl, rfl⟩

end Rings

end Dlist
