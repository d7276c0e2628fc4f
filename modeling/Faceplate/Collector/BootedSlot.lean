import Faceplate.Collector.OwnStrings

/-!
# The object of the booted slot

`rauc_booted_slot_range` searches a text for `"state":"booted"` and takes the object
that the last brace before it opens. On a JSON text this is compared with the tree: the
object should be the innermost one that has a member `state` with the value `booted`, and
the boot status and the version should be strings of that object.
-/

namespace Faceplate.Collector

open CString Json

/-- `rauc_booted_slot_range` with the offset of the object. -/
def raucBootedSlotObject (json : List UInt8) : Option (ℕ × List UInt8) :=
  match strstr (lit "\"state\":\"booted\"") json with
  | none => none
  | some (before, mark) =>
    match strrchr 0x7b before with
    | none => none
    | some (front, inner) => (closeBrace 0 (0x7b :: inner ++ mark)).map (front.length, ·)

theorem raucBootedSlotRange_eq (json : List UInt8) :
    raucBootedSlotRange json = (raucBootedSlotObject json).map Prod.snd := by
  rw [raucBootedSlotRange, raucBootedSlotObject]
  cases strstr (lit "\"state\":\"booted\"") json with
  | none => rfl
  | some found =>
    cases hsplit : strrchr 0x7b found.1 with
    | none => simp only [hsplit, Option.map_none]
    | some split => simp only [hsplit, Option.map_map, Function.comp_def, Option.map_id']

/-- The first occurrence of a text in another. -/
structure FirstAt (needle s before found : List UInt8) : Prop where
  split : s = before ++ found
  found_here : needle <+: found
  first : ∀ A C, s = A ++ (needle ++ C) → before.length ≤ A.length

/-- `strstr` finds the first occurrence. -/
theorem firstAt_of_strstr {needle : List UInt8} {s before found : List UInt8}
    (h : strstr needle s = some (before, found)) : FirstAt needle s before found := by
  induction s generalizing before found with
  | nil => exact absurd h (by simp [strstr])
  | cons c rest ih =>
    rw [strstr] at h
    split_ifs at h with hhere
    · obtain ⟨rfl, rfl⟩ := Prod.mk.inj (Option.some.inj h)
      exact ⟨rfl, List.isPrefixOf_iff_prefix.mp hhere, fun _ _ _ => Nat.zero_le _⟩
    · obtain ⟨⟨before', found'⟩, hrest, heq⟩ := Option.map_eq_some_iff.mp h
      obtain ⟨rfl, rfl⟩ := Prod.mk.inj heq
      have hfirst := ih hrest
      refine ⟨by rw [hfirst.split, List.cons_append], hfirst.found_here, fun A C hsplit => ?_⟩
      cases A with
      | nil =>
        exfalso
        apply hhere
        rw [List.isPrefixOf_iff_prefix, hsplit]
        exact List.prefix_append needle C
      | cons a A =>
        have hle := hfirst.first A C (List.cons.inj hsplit).2
        simp only [List.length_cons]
        omega

theorem strstr_eq_none {needle s : List UInt8} (h : strstr needle s = none) {A C : List UInt8}
    (hne : needle ≠ []) : s ≠ A ++ (needle ++ C) := by
  induction s generalizing A with
  | nil =>
    intro hsplit
    simp [hne] at hsplit
  | cons c rest ih =>
    rw [strstr] at h
    split_ifs at h with hhere
    intro hsplit
    cases A with
    | nil =>
      apply hhere
      rw [List.isPrefixOf_iff_prefix, hsplit]
      exact List.prefix_append needle C
    | cons a A => exact ih (Option.map_eq_none_iff.mp h) (List.cons.inj hsplit).2

/-- A longer text has the same first occurrence. -/
theorem strstr_append {needle s before found : List UInt8}
    (h : strstr needle s = some (before, found)) (rest : List UInt8) :
    strstr needle (s ++ rest) = some (before, found ++ rest) := by
  induction s generalizing before found with
  | nil => exact absurd h (by simp [strstr])
  | cons c s ih =>
    rw [strstr] at h
    rw [List.cons_append, strstr]
    split_ifs at h with hhere
    · obtain ⟨rfl, rfl⟩ := Prod.mk.inj (Option.some.inj h)
      have hbegins := (List.isPrefixOf_iff_prefix.mp hhere).trans (List.prefix_append (c :: s) rest)
      rw [List.cons_append] at hbegins ⊢
      rw [if_pos (List.isPrefixOf_iff_prefix.mpr hbegins)]
    · obtain ⟨⟨before', found'⟩, hrest, heq⟩ := Option.map_eq_some_iff.mp h
      obtain ⟨rfl, rfl⟩ := Prod.mk.inj heq
      have hfirst := firstAt_of_strstr hrest
      have hlen : needle.length ≤ (c :: s).length := by
        have hfound := hfirst.found_here.length_le
        rw [hfirst.split, List.length_cons, List.length_append]
        omega
      have hhere' : ¬needle.isPrefixOf (c :: (s ++ rest)) = true := by
        intro hbegins
        apply hhere
        rw [List.isPrefixOf_iff_prefix] at hbegins ⊢
        exact List.prefix_of_prefix_length_le hbegins (List.prefix_append (c :: s) rest) hlen
      rw [if_neg hhere', ih hrest]
      rfl

/-- The braces of a text behind `depth` open ones: the last one closes the first. -/
structure Closes (depth : ℕ) (w : List UInt8) : Prop where
  balance : w.count 0x7d = depth + w.count 0x7b
  open_before : ∀ a b, w = a ++ b → b ≠ [] → a.count 0x7d < depth + a.count 0x7b

/-- The braces of a text never close `depth` open ones. -/
def Unclosed (depth : ℕ) (s : List UInt8) : Prop :=
  ∀ a b, s = a ++ b → a.count 0x7d < depth + a.count 0x7b

/-- The depth behind a byte. -/
def depthBehind (depth : ℕ) (c : UInt8) : ℕ :=
  if c = 0x7b then depth + 1 else if c = 0x7d then depth - 1 else depth

theorem closeBrace_stop (rest : List UInt8) : closeBrace 1 (0x7d :: rest) = some [0x7d] := rfl

section Counts

variable {depth : ℕ} (c : UInt8) (hdepth : 0 < depth)

include hdepth

/-- Counting from behind a byte, with the depth there. -/
theorem count_cons_add (a : List UInt8) :
    (c :: a).count 0x7d + (depthBehind depth c + a.count 0x7b) =
      a.count 0x7d + (depth + (c :: a).count 0x7b) := by
  by_cases hopen : c = 0x7b
  · subst hopen
    simp only [depthBehind, if_pos, List.count_cons, beq_self_eq_true]
    rw [if_neg (by decide)]
    omega
  · by_cases hclose : c = 0x7d
    · subst hclose
      simp only [depthBehind, List.count_cons, beq_self_eq_true, if_true]
      rw [if_neg (by decide), if_neg (by decide)]
      omega
    · simp only [depthBehind, if_neg hopen, if_neg hclose, List.count_cons, beq_iff_eq]
      omega

theorem count_cons_lt_iff (a : List UInt8) :
    (c :: a).count 0x7d < depth + (c :: a).count 0x7b ↔
      a.count 0x7d < depthBehind depth c + a.count 0x7b := by
  have hadd := count_cons_add c hdepth a
  omega

theorem count_cons_eq_iff (a : List UInt8) :
    (c :: a).count 0x7d = depth + (c :: a).count 0x7b ↔
      a.count 0x7d = depthBehind depth c + a.count 0x7b := by
  have hadd := count_cons_add c hdepth a
  omega

theorem unclosed_cons_iff (s : List UInt8) :
    Unclosed depth (c :: s) ↔ Unclosed (depthBehind depth c) s := by
  constructor
  · intro hopen a b hsplit
    exact (count_cons_lt_iff c hdepth a).mp (hopen (c :: a) b (by rw [hsplit]; rfl))
  · intro hopen a b hsplit
    cases a with
    | nil => simpa using hdepth
    | cons d a =>
      obtain ⟨rfl, htail⟩ := List.cons.inj hsplit
      exact (count_cons_lt_iff c hdepth a).mpr (hopen a b htail)

end Counts

section Step

variable {depth : ℕ} {c : UInt8} (hgo : ¬(c = 0x7d ∧ depth = 1))

include hgo

theorem closeBrace_step (rest : List UInt8) : closeBrace depth (c :: rest) =
    (closeBrace (depthBehind depth c) rest).map (c :: ·) := by
  rw [closeBrace, depthBehind]
  split_ifs with hopen hclose hone
  · rfl
  · exact absurd ⟨hclose, hone⟩ hgo
  · rfl
  · rfl

variable (hdepth : 0 < depth)

include hdepth

theorem depthBehind_pos : 0 < depthBehind depth c := by
  unfold depthBehind
  split_ifs with hopen hclose
  · omega
  · have hone : depth ≠ 1 := fun h => hgo ⟨hclose, h⟩
    omega
  · exact hdepth

theorem closes_cons_iff (w : List UInt8) :
    Closes depth (c :: w) ↔ Closes (depthBehind depth c) w := by
  have hpos := depthBehind_pos hgo hdepth
  constructor
  · rintro ⟨hbalance, hopen⟩
    refine ⟨(count_cons_eq_iff c hdepth w).mp hbalance, fun a b hsplit hb => ?_⟩
    exact (count_cons_lt_iff c hdepth a).mp (hopen (c :: a) b (by rw [hsplit]; rfl) hb)
  · rintro ⟨hbalance, hopen⟩
    refine ⟨(count_cons_eq_iff c hdepth w).mpr hbalance, fun a b hsplit hb => ?_⟩
    cases a with
    | nil => simpa using hdepth
    | cons d a =>
      obtain ⟨rfl, htail⟩ := List.cons.inj hsplit
      exact (count_cons_lt_iff c hdepth a).mpr (hopen a b htail hb)

end Step

/-- A text that closes at its first brace is that brace. -/
theorem closes_stop_iff (w : List UInt8) : Closes 1 (0x7d :: w) ↔ w = [] := by
  constructor
  · intro h
    by_contra hw
    exact absurd (h.open_before [0x7d] w rfl hw) (by decide)
  · rintro rfl
    refine ⟨by decide, fun a b hsplit hb => ?_⟩
    cases a with
    | nil => decide
    | cons d a =>
      have htail := (List.cons.inj hsplit).2
      exact absurd (List.append_eq_nil_iff.mp htail.symm).2 hb

/-- The loop stops where the open braces are closed. -/
theorem closeBrace_eq_some_iff {depth : ℕ} {s w : List UInt8} (hdepth : 0 < depth) :
    closeBrace depth s = some w ↔ w <+: s ∧ Closes depth w := by
  induction s generalizing depth w with
  | nil =>
    constructor
    · intro h
      exact absurd h (by simp [closeBrace])
    · rintro ⟨hw, hbalance, -⟩
      rw [List.prefix_nil.mp hw] at hbalance
      simp only [List.count_nil] at hbalance
      omega
  | cons c rest ih =>
    have hempty : ¬Closes depth [] := by
      intro h
      have hbalance := h.balance
      simp only [List.count_nil] at hbalance
      omega
    by_cases hgo : c = 0x7d ∧ depth = 1
    · obtain ⟨rfl, rfl⟩ := hgo
      rw [closeBrace_stop]
      cases w with
      | nil => simp [hempty]
      | cons d w =>
        rw [List.cons_prefix_cons]
        constructor
        · intro h
          obtain ⟨rfl, rfl⟩ := List.cons.inj (Option.some.inj h)
          exact ⟨⟨rfl, List.nil_prefix⟩, (closes_stop_iff []).mpr rfl⟩
        · rintro ⟨⟨rfl, -⟩, hcloses⟩
          rw [(closes_stop_iff w).mp hcloses]
    · rw [closeBrace_step hgo]
      cases w with
      | nil => simp [hempty]
      | cons d w =>
        rw [List.cons_prefix_cons]
        constructor
        · intro h
          obtain ⟨w', hrest, heq⟩ := Option.map_eq_some_iff.mp h
          obtain ⟨rfl, rfl⟩ := List.cons.inj heq
          obtain ⟨hbegins, hcloses⟩ := (ih (depthBehind_pos hgo hdepth)).mp hrest
          exact ⟨⟨rfl, hbegins⟩, (closes_cons_iff hgo hdepth w').mpr hcloses⟩
        · rintro ⟨⟨rfl, hbegins⟩, hcloses⟩
          have hrest := (ih (depthBehind_pos hgo hdepth)).mpr
            ⟨hbegins, (closes_cons_iff hgo hdepth w).mp hcloses⟩
          rw [hrest]
          rfl

theorem closeBrace_eq_none_iff {depth : ℕ} {s : List UInt8} (hdepth : 0 < depth) :
    closeBrace depth s = none ↔ Unclosed depth s := by
  induction s generalizing depth with
  | nil =>
    refine iff_of_true rfl fun a b hsplit => ?_
    rw [(List.append_eq_nil_iff.mp hsplit.symm).1]
    simpa using hdepth
  | cons c rest ih =>
    by_cases hgo : c = 0x7d ∧ depth = 1
    · obtain ⟨rfl, rfl⟩ := hgo
      refine iff_of_false (by simp [closeBrace_stop]) fun h => ?_
      exact absurd (h [0x7d] rest rfl) (by decide)
    · rw [closeBrace_step hgo, Option.map_eq_none_iff, ih (depthBehind_pos hgo hdepth),
        unclosed_cons_iff c hdepth]

/-- The member says that the slot is booted. -/
def saysBooted (k : List StrUnit) : Value → Bool
  | .str s => denotes k (lit "state") && denotes s (lit "booted")
  | _ => false

/-- The object of a booted slot: it says so, and no object in it does. -/
structure BootedObject (d : Value) (i : ℕ) (ms : Members) : Prop where
  mem : (i, ms) ∈ d.objects 0
  has : ms.has saysBooted = true
  innermost : ∀ o ∈ ms.objects true 0, o.2.has saysBooted = false

/-- No object says so. -/
def NoneBooted (d : Value) : Prop := ∀ o ∈ d.objects 0, o.2.has saysBooted = false

/-- A result is the object of a booted slot, or a failure where there is none. -/
structure IsBooted (d : Value) (result : Option (ℕ × List UInt8)) : Prop where
  found : ∀ i obj, result = some (i, obj) →
    ∃ ms, BootedObject d i ms ∧ obj = (Value.obj ms).text
  fails : result = none ↔ NoneBooted d

theorem BootedObject.isBooted {d : Value} {i : ℕ} {ms : Members} (h : BootedObject d i ms) :
    IsBooted d (some (i, (Value.obj ms).text)) := by
  refine ⟨fun j obj heq => ?_, iff_of_false (by simp) fun hnone => ?_⟩
  · obtain ⟨rfl, rfl⟩ := Prod.mk.inj (Option.some.inj heq)
    exact ⟨ms, h, rfl⟩
  · exact absurd h.has (by simp [hnone _ h.mem])

theorem NoneBooted.isBooted {d : Value} (h : NoneBooted d) : IsBooted d none :=
  ⟨fun _ _ heq => absurd heq (by simp), iff_of_true rfl h⟩

/-- `rauc_booted_slot_range` returns the object of a booted slot, and fails exactly where
there is none; and `rauc_status` takes nothing, or takes status and version from members
of such an object itself. -/
structure SelectsBooted (d : Value) : Prop where
  range : IsBooted d (raucBootedSlotObject d.text)
  status : (raucBootedSlotObject (raucText d.text) = none ∧
      (raucStatus (some d.text)).boot = [] ∧ (raucStatus (some d.text)).image = []) ∨
    ∃ i ms, raucBootedSlotObject (raucText d.text) = some (i, (Value.obj ms).text) ∧
      BootedObject d i ms ∧
      (raucStatus (some d.text)).boot =
        (jsonTokenIn (Value.obj ms).text (lit "boot_status") [] 24).2 ∧
      (raucStatus (some d.text)).image =
        (jsonTokenIn (Value.obj ms).text (lit "version") [] 64).2 ∧
      TakesOwn ms (lit "boot_status") 24 ∧ TakesOwn ms (lit "version") 64

/-- A member spells `"state":"booted"`; the text starts at `i`. -/
def Spelled (d : Value) (m : Place) (i : ℕ) : Prop :=
  m ∈ d.places (spells (lit "state") (lit "booted")) 0 ∧ m.StandsAt (lit "state") i

/-- The first member that spells it. -/
def FirstSpelled (d : Value) (m : Place) (i : ℕ) : Prop :=
  Spelled d m i ∧ ∀ m' i', Spelled d m' i' → i ≤ i'

/-- The last opening brace before `i` stands at `b`. -/
structure LastBrace (text : List UInt8) (i b : ℕ) : Prop where
  lt : b < i
  brace : text[b]? = some 0x7b
  clear : 0x7b ∉ (text.take i).drop (b + 1)

/-- The braces of an object, those in its strings counted, close at its end. -/
def Balances (ms : Members) : Prop := Closes 1 (ms.text true ++ [0x7d])

/-- The search finds the right object: no member spells `"state":"booted"` and none says so
in another spelling; or the first that spells it says so, its object has no brace before
it, no booted object within, and balances. Two cases are accidents of spelling. -/
inductive Fits (d : Value) : Prop
  | missing (hnone : ∀ m i, ¬Spelled d m i) (hbooted : NoneBooted d)
  | own (m : Place) (i : ℕ) (hfirst : FirstSpelled d m i) (hlast : LastBrace d.text i m.start)
      (hbooted : BootedObject d m.start m.members) (hbalances : Balances m.members)
  /-- An object before the member says so in another spelling. -/
  | nested (m : Place) (i b : ℕ) (ms : Members) (hfirst : FirstSpelled d m i)
      (hinner : m.start < b) (hlast : LastBrace d.text i b) (hbooted : BootedObject d b ms)
      (hbalances : Balances ms)
  /-- No object says so, and what was found never closes. -/
  | unclosed (m : Place) (i b : ℕ) (hfirst : FirstSpelled d m i) (hlast : LastBrace d.text i b)
      (hopen : Unclosed 1 (d.text.drop (b + 1))) (hbooted : NoneBooted d)

/-- The text that was found and the object it leads to lie in what `rauc_status` has read. -/
def IsRead (d : Value) (i b : ℕ) (ms : Members) : Prop :=
  i + (lit "\"state\":\"booted\"").length ≤ (raucText d.text).length ∧
    b + (Value.obj ms).text.length ≤ (raucText d.text).length

/-- Of the object that is found, the first boot status and the first version are its own. -/
def StringsOwn (d : Value) : Prop :=
  ∀ m i b ms, FirstSpelled d m i → LastBrace d.text i b → (b, ms) ∈ d.objects 0 → Balances ms →
    IsRead d i b ms →
      FirstIsOwn ms (lit "boot_status") 24 ∧ FirstIsOwn ms (lit "version") 64

theorem mark_eq : lit "\"state\":\"booted\"" = memberText (lit "state") (lit "booted") := by
  decide +kernel

theorem isWord_state : IsWord (lit "state") := ⟨by decide, by decide +kernel⟩

theorem isWord_booted : IsWord (lit "booted") := ⟨by decide, by decide +kernel⟩

theorem isWord_bootStatus : IsWord (lit "boot_status") := ⟨by decide, by decide +kernel⟩

theorem isWord_version : IsWord (lit "version") := ⟨by decide, by decide +kernel⟩

/-- An occurrence of the text is one that a member spells. -/
theorem exists_spelled {d : Value} {A C : List UInt8}
    (h : d.text = A ++ (lit "\"state\":\"booted\"" ++ C)) : ∃ m, Spelled d m A.length := by
  rw [mark_eq, memberText_eq] at h
  have hclosed : Closed [] := fun c hc => by simp at hc
  have hlt : A.length < d.text.length := by
    simp only [h, keyText_append, List.length_append, List.length_cons]
    omega
  obtain ⟨m, hm, hstands⟩ := Value.place_of_text isWord_state (opens_spells isWord_booted C) d
    hclosed (by rw [List.append_nil, h]) hlt
  exact ⟨m, hm, hstands.congr (Nat.zero_add _)⟩

/-- A member that spells the text stands inside of its object, and the text in the value. -/
theorem Spelled.text {d : Value} {m : Place} {i : ℕ} (h : Spelled d m i) : ∃ A C,
    d.text = A ++ (lit "\"state\":\"booted\"" ++ C) ∧ A.length = i ∧ m.pos ≤ i := by
  obtain ⟨A, C, htext, hstands, hpos⟩ := Value.text_of_place h.1
  have hi := h.2
  simp only [Place.StandsAt] at hstands hi
  exact ⟨A, C, by rw [htext, mark_eq], by omega, by omega⟩

/-- The search finds nothing where no member spells the text. -/
theorem strstr_eq_none_iff (d : Value) :
    strstr (lit "\"state\":\"booted\"") d.text = none ↔ ∀ m i, ¬Spelled d m i := by
  constructor
  · intro h m i hm
    obtain ⟨A, C, htext, -, -⟩ := hm.text
    exact strstr_eq_none h (by decide) htext
  · intro h
    cases hfound : strstr (lit "\"state\":\"booted\"") d.text with
    | none => rfl
    | some found =>
      have hfirst := firstAt_of_strstr hfound
      obtain ⟨C, hC⟩ := hfirst.found_here
      obtain ⟨m, hm⟩ := exists_spelled (d := d) (A := found.1) (C := C) (by rw [hfirst.split, hC])
      exact absurd hm (h m _)

/-- The search finds the first member that spells the text. -/
theorem firstSpelled_of_strstr {d : Value} {before mark : List UInt8}
    (h : strstr (lit "\"state\":\"booted\"") d.text = some (before, mark)) :
    ∃ m, FirstSpelled d m before.length := by
  have hfirst := firstAt_of_strstr h
  obtain ⟨C, hC⟩ := hfirst.found_here
  obtain ⟨m, hm⟩ := exists_spelled (d := d) (A := before) (C := C) (by rw [hfirst.split, hC])
  refine ⟨m, hm, fun m' i' hm' => ?_⟩
  obtain ⟨A, C', htext, hlen, -⟩ := hm'.text
  have hle := hfirst.first A C' htext
  omega

theorem FirstSpelled.strstr_eq {d : Value} {m : Place} {i : ℕ} (h : FirstSpelled d m i) :
    strstr (lit "\"state\":\"booted\"") d.text = some (d.text.take i, d.text.drop i) := by
  cases hfound : strstr (lit "\"state\":\"booted\"") d.text with
  | none => exact absurd h.1 ((strstr_eq_none_iff d).mp hfound m i)
  | some found =>
    obtain ⟨m', hm', hfirst⟩ := firstSpelled_of_strstr hfound
    have hle := hfirst m i h.1
    have hge := h.2 m' _ hm'
    have hlen : found.1.length = i := by omega
    have hsplit := (firstAt_of_strstr hfound).split
    rw [hsplit, ← hlen, List.take_left, List.drop_left]

/-- An object stands in the text behind its brace. -/
theorem object_text {d : Value} {b : ℕ} {ms : Members} (h : (b, ms) ∈ d.objects 0) :
    d.text[b]? = some 0x7b ∧ ms.text true ++ [0x7d] <+: d.text.drop (b + 1) := by
  obtain ⟨pre, post, htext, hb⟩ := Value.objects_spec d h
  have hpre : b = pre.length := by omega
  have hdrop : d.text.drop (b + 1) = (ms.text true ++ [0x7d]) ++ post := by
    rw [htext, Value.text, hpre, ← List.drop_drop, List.drop_left]
    rfl
  refine ⟨?_, by rw [hdrop]; exact List.prefix_append _ _⟩
  rw [htext, Value.text, hpre, List.getElem?_append_right (le_refl _), Nat.sub_self]
  rfl

theorem LastBrace.split {text : List UInt8} {i b : ℕ} (h : LastBrace text i b) :
    text.take i = text.take b ++ 0x7b :: (text.take i).drop (b + 1) := by
  obtain ⟨hb, hbyte⟩ := List.getElem?_eq_some_iff.mp h.brace
  have hlt := h.lt
  have hlen : b < (text.take i).length := by
    rw [List.length_take]
    omega
  have hget : (text.take i)[b] = 0x7b := by rw [List.getElem_take, hbyte]
  rw [← hget, ← List.drop_eq_getElem_cons hlen]
  have htake : text.take b = (text.take i).take b := by
    rw [List.take_take, Nat.min_eq_left (by omega)]
  rw [htake, List.take_append_drop]

/-- With the text found, the object starts at the last brace before it. -/
theorem raucBootedSlotObject_of_mark {s : List UInt8} {i b : ℕ}
    (hmark : strstr (lit "\"state\":\"booted\"") s = some (s.take i, s.drop i))
    (hlast : LastBrace s i b) :
    raucBootedSlotObject s = (closeBrace 1 (s.drop (b + 1))).map fun obj => (b, 0x7b :: obj) := by
  have hbrace := strrchr_eq_some_iff.mpr ⟨hlast.split, hlast.clear⟩
  obtain ⟨hb, -⟩ := List.getElem?_eq_some_iff.mp hlast.brace
  have hlt := hlast.lt
  have hinner : (s.take i).drop (b + 1) ++ s.drop i = s.drop (b + 1) := by
    have hsplit := congrArg (List.drop (b + 1)) (List.take_append_drop i s)
    rwa [List.drop_append_of_le_length (by rw [List.length_take]; omega)] at hsplit
  have hfront : (s.take b).length = b := by
    rw [List.length_take]
    omega
  rw [raucBootedSlotObject, hmark]
  simp only [hbrace, hfront, List.cons_append, hinner, closeBrace, if_pos, Option.map_map,
    Function.comp_def]

theorem raucBootedSlotObject_eq {d : Value} {m : Place} {i b : ℕ} (hfirst : FirstSpelled d m i)
    (hlast : LastBrace d.text i b) : raucBootedSlotObject d.text =
      (closeBrace 1 (d.text.drop (b + 1))).map fun obj => (b, 0x7b :: obj) :=
  raucBootedSlotObject_of_mark hfirst.strstr_eq hlast

/-- The last brace before a member is the one of its object or stands behind it. -/
theorem Spelled.exists_lastBrace {d : Value} {m : Place} {i : ℕ} (h : Spelled d m i) :
    ∃ b, LastBrace d.text i b ∧ m.start ≤ b := by
  obtain ⟨hinside, -⟩ := Value.places_spec d h.1
  obtain ⟨A, C, htext, hlen, hpos⟩ := h.text
  have hbrace := (object_text hinside.mem).1
  obtain ⟨hstart, hbyte⟩ := List.getElem?_eq_some_iff.mp hbrace
  have hlt := hinside.start_lt
  have hget : (d.text.take i)[m.start]? = some 0x7b := by
    rw [List.getElem?_take_of_lt (by omega), hbrace]
  obtain ⟨front, inner, hfound⟩ := exists_strrchr (List.mem_of_getElem? hget)
  obtain ⟨hsplit, hclear⟩ := strrchr_eq_some_iff.mp hfound
  have hi : i ≤ d.text.length := by
    rw [htext, List.length_append]
    omega
  have hfront : front.length < i := by
    have hlength := congrArg List.length hsplit
    simp only [List.length_take, List.length_append, List.length_cons] at hlength
    omega
  refine ⟨front.length, ⟨hfront, ?_, ?_⟩, ?_⟩
  · have hbyte' : (d.text.take i)[front.length]? = some 0x7b := by
      rw [hsplit, List.getElem?_append_right (le_refl _), Nat.sub_self]
      rfl
    rwa [List.getElem?_take_of_lt hfront] at hbyte'
  · rw [hsplit, ← List.drop_drop, List.drop_left]
    exact hclear
  · by_contra hlt'
    apply hclear
    rw [hsplit, List.getElem?_append_right (by omega)] at hget
    obtain ⟨n, hn⟩ : ∃ n, m.start - front.length = n + 1 := ⟨m.start - front.length - 1, by omega⟩
    rw [hn, List.getElem?_cons_succ] at hget
    exact List.mem_of_getElem? hget

/-- The braces of the object decide what the search returns from its brace on. -/
theorem raucBootedSlotObject_of_balances {d : Value} {m : Place} {i b : ℕ} {ms : Members}
    (hfirst : FirstSpelled d m i) (hlast : LastBrace d.text i b) (hmem : (b, ms) ∈ d.objects 0)
    (hbalances : Balances ms) : raucBootedSlotObject d.text = some (b, (Value.obj ms).text) := by
  rw [raucBootedSlotObject_eq hfirst hlast,
    (closeBrace_eq_some_iff Nat.one_pos).mpr ⟨(object_text hmem).2, hbalances⟩]
  rfl

theorem balances_of_raucBootedSlotObject {d : Value} {m : Place} {i b : ℕ} {ms : Members}
    (hfirst : FirstSpelled d m i) (hlast : LastBrace d.text i b)
    (h : raucBootedSlotObject d.text = some (b, (Value.obj ms).text)) : Balances ms := by
  rw [raucBootedSlotObject_eq hfirst hlast] at h
  obtain ⟨w, hclose, heq⟩ := Option.map_eq_some_iff.mp h
  have hw : w = ms.text true ++ [0x7d] := (List.cons.inj (Prod.mk.inj heq).2).2
  rw [Balances, ← hw]
  exact ((closeBrace_eq_some_iff Nat.one_pos).mp hclose).2

/-- What is found at the start of a longer text is found in it. -/
theorem raucBootedSlotObject_append {s : List UInt8} {found : ℕ × List UInt8}
    (h : raucBootedSlotObject s = some found) (rest : List UInt8) :
    raucBootedSlotObject (s ++ rest) = some found := by
  cases hmark : strstr (lit "\"state\":\"booted\"") s with
  | none =>
    rw [raucBootedSlotObject, hmark] at h
    exact absurd h (by simp)
  | some mark =>
    cases hbrace : strrchr 0x7b mark.1 with
    | none =>
      rw [raucBootedSlotObject, hmark] at h
      simp only [hbrace] at h
      exact absurd h (by simp)
    | some brace =>
      rw [raucBootedSlotObject, hmark] at h
      rw [raucBootedSlotObject, strstr_append hmark]
      simp only [hbrace, List.cons_append, closeBrace, if_pos] at h ⊢
      obtain ⟨w, hclose, heq⟩ := Option.map_eq_some_iff.mp h
      obtain ⟨w', hclose', hw⟩ := Option.map_eq_some_iff.mp hclose
      obtain ⟨hbegins, hcloses⟩ := (closeBrace_eq_some_iff Nat.one_pos).mp hclose'
      rw [← List.append_assoc, (closeBrace_eq_some_iff Nat.one_pos).mpr
        ⟨hbegins.trans (List.prefix_append _ rest), hcloses⟩]
      rw [Option.map_some, Option.map_some, hw, heq]

/-- What is found in a text is found in each part of it from the start that has it. -/
theorem strstr_of_prefix {needle s t : List UInt8} {i : ℕ} (hs : s <+: t) (hne : needle ≠ [])
    (ht : strstr needle t = some (t.take i, t.drop i)) (hlen : i + needle.length ≤ s.length) :
    strstr needle s = some (s.take i, s.drop i) := by
  obtain ⟨rest, rfl⟩ := hs
  have hhere : needle <+: s.drop i := by
    refine List.prefix_of_prefix_length_le (firstAt_of_strstr ht).found_here ?_ ?_
    · rw [List.drop_append_of_le_length (by omega)]
      exact List.prefix_append _ _
    · rw [List.length_drop]
      omega
  obtain ⟨C, hC⟩ := hhere
  cases hfound : strstr needle s with
  | none =>
    refine absurd ?_ (@strstr_eq_none _ _ hfound (s.take i) C hne)
    rw [hC, List.take_append_drop]
  | some found =>
    have hwhole := strstr_append hfound rest
    rw [ht, List.take_append_of_le_length (by omega),
      List.drop_append_of_le_length (by omega)] at hwhole
    obtain ⟨hbefore, htail⟩ := Prod.mk.inj (Option.some.inj hwhole)
    rw [hbefore, List.append_cancel_right htail]

theorem LastBrace.of_prefix {s t : List UInt8} {i b : ℕ} (hs : s <+: t) (hi : i ≤ s.length)
    (h : LastBrace t i b) : LastBrace s i b := by
  obtain ⟨rest, rfl⟩ := hs
  have hlt := h.lt
  refine ⟨hlt, ?_, ?_⟩
  · rw [← h.brace, List.getElem?_append_left (by omega)]
  · have htake : (s ++ rest).take i = s.take i := List.take_append_of_le_length hi
    rw [← htake]
    exact h.clear

theorem raucText_prefix (s : List UInt8) : raucText s <+: s :=
  (List.takeWhile_prefix _).trans (List.take_prefix _ _)

/-- A mark that is found in a part that has been read is the first one, and lies in it. -/
theorem FirstSpelled.length_le_of_found {d : Value} {m : Place} {i : ℕ} {s : List UInt8}
    {found : List UInt8 × List UInt8} (h : FirstSpelled d m i) (hread : s <+: d.text)
    (hfound : strstr (lit "\"state\":\"booted\"") s = some found) :
    i + (lit "\"state\":\"booted\"").length ≤ s.length := by
  obtain ⟨rest, hrest⟩ := hread
  have hwhole := strstr_append hfound rest
  rw [hrest, h.strstr_eq] at hwhole
  have hbefore := (Prod.mk.inj (Option.some.inj hwhole)).1
  have hat := firstAt_of_strstr hfound
  have hhere := hat.found_here.length_le
  have hlength := congrArg List.length hat.split
  have hi : i ≤ d.text.length := by
    obtain ⟨A, C, htext, hA, -⟩ := h.1.text
    rw [htext, List.length_append]
    omega
  have htake : (d.text.take i).length = i := by
    rw [List.length_take]
    omega
  rw [List.length_append, ← hbefore, htake] at hlength
  omega

/-- The object is found in what has been read if it lies in it together with the mark. -/
theorem raucBootedSlotObject_read {d : Value} {m : Place} {i b : ℕ} {ms : Members}
    (hfirst : FirstSpelled d m i) (hlast : LastBrace d.text i b) (hmem : (b, ms) ∈ d.objects 0)
    (hbalances : Balances ms) :
    raucBootedSlotObject (raucText d.text) = some (b, (Value.obj ms).text) ↔ IsRead d i b ms := by
  have hread := raucText_prefix d.text
  generalize hs : raucText d.text = s at hread
  have hlt := hlast.lt
  have hmark : i + (lit "\"state\":\"booted\"").length ≤ s.length →
      strstr (lit "\"state\":\"booted\"") s = some (s.take i, s.drop i) :=
    strstr_of_prefix hread (by decide) hfirst.strstr_eq
  rw [IsRead, hs]
  constructor
  · intro h
    have hlen : i + (lit "\"state\":\"booted\"").length ≤ s.length := by
      cases hfound : strstr (lit "\"state\":\"booted\"") s with
      | none =>
        rw [raucBootedSlotObject, hfound] at h
        exact absurd h (by simp)
      | some found => exact hfirst.length_le_of_found hread hfound
    refine ⟨hlen, ?_⟩
    rw [raucBootedSlotObject_of_mark (hmark hlen) (hlast.of_prefix hread (by omega))] at h
    obtain ⟨w, hclose, heq⟩ := Option.map_eq_some_iff.mp h
    have hw := (Prod.mk.inj heq).2
    have hle := ((closeBrace_eq_some_iff Nat.one_pos).mp hclose).1.length_le
    rw [List.length_drop] at hle
    rw [← hw, List.length_cons]
    omega
  · rintro ⟨hlen, hend⟩
    rw [raucBootedSlotObject_of_mark (hmark hlen) (hlast.of_prefix hread (by omega))]
    have hclose : closeBrace 1 (s.drop (b + 1)) = some (ms.text true ++ [0x7d]) := by
      refine (closeBrace_eq_some_iff Nat.one_pos).mpr ⟨?_, hbalances⟩
      have hdrop : s.drop (b + 1) <+: d.text.drop (b + 1) := by
        obtain ⟨rest, hrest⟩ := hread
        rw [← hrest, List.drop_append_of_le_length (by omega)]
        exact List.prefix_append _ _
      refine List.prefix_of_prefix_length_le (object_text hmem).2 hdrop ?_
      simp only [Value.text, List.length_cons, List.length_append, List.length_drop] at hend ⊢
      omega
    rw [hclose]
    rfl

/-- The status and the version are looked for in the object that was found. -/
theorem raucStatus_cases (d : Value) :
    (raucBootedSlotObject (raucText d.text) = none ∧
      (raucStatus (some d.text)).boot = [] ∧ (raucStatus (some d.text)).image = []) ∨
      ∃ i obj, raucBootedSlotObject (raucText d.text) = some (i, obj) ∧
        raucBootedSlotObject d.text = some (i, obj) ∧
        (raucStatus (some d.text)).boot = (jsonTokenIn obj (lit "boot_status") [] 24).2 ∧
        (raucStatus (some d.text)).image = (jsonTokenIn obj (lit "version") [] 64).2 := by
  by_cases hempty : d.text.isEmpty = true
  · refine Or.inl ⟨?_, by simp [raucStatus, hempty]⟩
    rw [List.isEmpty_iff.mp hempty]
    rfl
  rw [raucStatus, if_neg hempty, raucParse, raucBootedSlotRange_eq]
  cases hfound : raucBootedSlotObject (raucText d.text) with
  | none => exact Or.inl ⟨rfl, rfl, rfl⟩
  | some found =>
    obtain ⟨rest, hrest⟩ := raucText_prefix d.text
    have hwhole := raucBootedSlotObject_append hfound rest
    rw [hrest] at hwhole
    exact Or.inr ⟨found.1, found.2, rfl, hwhole, rfl, rfl⟩

/-- The result is the right one only in one of the cases. -/
theorem fits_of_isBooted {d : Value} (h : IsBooted d (raucBootedSlotObject d.text)) : Fits d := by
  cases hmark : strstr (lit "\"state\":\"booted\"") d.text with
  | none =>
    have hfails : raucBootedSlotObject d.text = none := by rw [raucBootedSlotObject, hmark]
    exact .missing ((strstr_eq_none_iff d).mp hmark) (h.fails.mp hfails)
  | some found =>
    obtain ⟨m, hfirst⟩ := firstSpelled_of_strstr hmark
    obtain ⟨b, hlast, hstart⟩ := hfirst.1.exists_lastBrace
    cases hobject : raucBootedSlotObject d.text with
    | none =>
      have hopen := raucBootedSlotObject_eq hfirst hlast
      rw [hobject] at hopen
      exact .unclosed m _ b hfirst hlast
        ((closeBrace_eq_none_iff Nat.one_pos).mp (Option.map_eq_none_iff.mp hopen.symm))
        (h.fails.mp hobject)
    | some object =>
      obtain ⟨ms, hbooted, htext⟩ := h.found _ _ hobject
      have hb : object.1 = b := by
        rw [raucBootedSlotObject_eq hfirst hlast] at hobject
        obtain ⟨w, -, heq⟩ := Option.map_eq_some_iff.mp hobject
        rw [← heq]
      rw [hb] at hbooted
      have hbalances : Balances ms := by
        apply balances_of_raucBootedSlotObject hfirst hlast
        rw [hobject, ← hb, ← htext]
      rcases Nat.eq_or_lt_of_le hstart with rfl | hlt
      · obtain ⟨hinside, -⟩ := Value.places_spec d hfirst.1.1
        have hms : ms = m.members := Value.objects_unique d hbooted.mem hinside.mem
        rw [hms] at hbooted hbalances
        exact .own m _ hfirst hlast hbooted hbalances
      · exact .nested m _ b ms hfirst hlt hlast hbooted hbalances

theorem Fits.isBooted {d : Value} (h : Fits d) : IsBooted d (raucBootedSlotObject d.text) := by
  cases h with
  | missing hnone hbooted =>
    rw [raucBootedSlotObject, (strstr_eq_none_iff d).mpr hnone]
    exact hbooted.isBooted
  | own m i hfirst hlast hbooted hbalances =>
    rw [raucBootedSlotObject_of_balances hfirst hlast hbooted.mem hbalances]
    exact hbooted.isBooted
  | nested m i b ms hfirst hinner hlast hbooted hbalances =>
    rw [raucBootedSlotObject_of_balances hfirst hlast hbooted.mem hbalances]
    exact hbooted.isBooted
  | unclosed m i b hfirst hlast hopen hbooted =>
    rw [raucBootedSlotObject_eq hfirst hlast, (closeBrace_eq_none_iff Nat.one_pos).mpr hopen]
    exact hbooted.isBooted

/-- Where an object has a member that spells `"state":"booted"` just where it has one that
says so, the search fits only by the member's own object. -/
theorem Fits.own_of_plain {d : Value} (h : Fits d)
    (hplain : ∀ o ∈ d.objects 0,
      o.2.has (spells (lit "state") (lit "booted")) = o.2.has saysBooted)
    (hbooted : ¬NoneBooted d) : ∃ m i, FirstSpelled d m i ∧ LastBrace d.text i m.start ∧
      BootedObject d m.start m.members ∧ Balances m.members := by
  cases h with
  | missing hnone hno => exact absurd hno hbooted
  | own m i hfirst hlast hown hbalances => exact ⟨m, i, hfirst, hlast, hown, hbalances⟩
  | unclosed m i b hfirst hlast hopen hno => exact absurd hno hbooted
  | nested m i b ms hfirst hinner hlast hnested hbalances =>
    exfalso
    have hspells : ms.has (spells (lit "state") (lit "booted")) = true := by
      rw [hplain _ hnested.mem, hnested.has]
    obtain ⟨m', hm', hstart⟩ := Value.exists_place d hnested.mem hspells
    obtain ⟨hinside, -⟩ := Value.places_spec d hm'
    -- the member that the object spells stands behind the first one
    obtain ⟨A, C, htext, hstands, -⟩ := Value.text_of_place hm'
    have hle := hfirst.2 m' A.length ⟨hm', hstands.congr (Nat.zero_add _)⟩
    have hms : ms = m'.members := by
      rw [← hstart] at hnested
      exact Value.objects_unique d hnested.mem hinside.mem
    have hend := hinside.lt_end
    have hcolon := hfirst.1.2
    have hlt := hlast.lt
    rw [Place.StandsAt] at hstands hcolon
    have haround : Around b ms m.colon := by
      rw [hms, ← hstart]
      constructor <;> omega
    have hb := Value.around_le d hfirst.1.1 hnested.mem haround
    omega

/-- Without such spellings the search fits if there is nothing to find, or if the first
member leads to its own object. -/
theorem fits_iff_of_plain {d : Value}
    (hplain : ∀ o ∈ d.objects 0,
      o.2.has (spells (lit "state") (lit "booted")) = o.2.has saysBooted) :
    Fits d ↔ NoneBooted d ∨ ∃ m i, FirstSpelled d m i ∧ LastBrace d.text i m.start ∧
      BootedObject d m.start m.members ∧ Balances m.members := by
  constructor
  · intro h
    by_cases hbooted : NoneBooted d
    · exact Or.inl hbooted
    · exact Or.inr (h.own_of_plain hplain hbooted)
  · rintro (hnone | ⟨m, i, hfirst, hlast, hbooted, hbalances⟩)
    · refine .missing (fun m i hm => ?_) hnone
      obtain ⟨hinside, -⟩ := Value.places_spec d hm.1
      have hsays := hplain _ hinside.mem
      rw [hinside.has, hnone _ hinside.mem] at hsays
      exact absurd hsays (by simp)
    · exact .own m i hfirst hlast hbooted hbalances

/-- The object that is found is the one that the first member leads to. -/
theorem Fits.exists_mark {d : Value} (h : Fits d) {b : ℕ} {obj : List UInt8}
    (hobject : raucBootedSlotObject d.text = some (b, obj)) :
    ∃ m i ms, FirstSpelled d m i ∧ LastBrace d.text i b ∧ BootedObject d b ms ∧ Balances ms ∧
      obj = (Value.obj ms).text := by
  cases h with
  | missing hnone hbooted =>
    rw [raucBootedSlotObject, (strstr_eq_none_iff d).mpr hnone] at hobject
    exact absurd hobject (by simp)
  | own m i hfirst hlast hbooted hbalances =>
    rw [raucBootedSlotObject_of_balances hfirst hlast hbooted.mem hbalances] at hobject
    obtain ⟨rfl, rfl⟩ := Prod.mk.inj (Option.some.inj hobject)
    exact ⟨m, i, m.members, hfirst, hlast, hbooted, hbalances, rfl⟩
  | nested m i b ms hfirst hinner hlast hbooted hbalances =>
    rw [raucBootedSlotObject_of_balances hfirst hlast hbooted.mem hbalances] at hobject
    obtain ⟨rfl, rfl⟩ := Prod.mk.inj (Option.some.inj hobject)
    exact ⟨m, i, ms, hfirst, hlast, hbooted, hbalances, rfl⟩
  | unclosed m i b hfirst hlast hopen hbooted =>
    rw [raucBootedSlotObject_eq hfirst hlast, (closeBrace_eq_none_iff Nat.one_pos).mpr hopen]
      at hobject
    exact absurd hobject (by simp)

/-- The search finds the right object, and what is taken from it is its own. -/
theorem SelectsBooted.fits {d : Value} (h : SelectsBooted d) : Fits d ∧ StringsOwn d := by
  refine ⟨fits_of_isBooted h.range, fun m i b ms hfirst hlast hmem hbalances hread => ?_⟩
  have hfound := (raucBootedSlotObject_read hfirst hlast hmem hbalances).mpr hread
  rcases h.status with ⟨hnone, -⟩ | ⟨i', ms', hfound', hbooted, -, -, hboot, himage⟩
  · rw [hfound] at hnone
    exact absurd hnone (by simp)
  · rw [hfound] at hfound'
    obtain ⟨rfl, -⟩ := Prod.mk.inj (Option.some.inj hfound')
    obtain rfl := Value.objects_unique d hmem hbooted.mem
    exact ⟨(takesOwn_iff isWord_bootStatus 24).mp hboot,
      (takesOwn_iff isWord_version 64).mp himage⟩

theorem Fits.selectsBooted {d : Value} (h : Fits d) (hown : StringsOwn d) : SelectsBooted d := by
  refine ⟨h.isBooted, ?_⟩
  rcases raucStatus_cases d with hempty | ⟨b, obj, hread, hobject, hboot, himage⟩
  · exact Or.inl hempty
  · obtain ⟨m, i, ms, hfirst, hlast, hbooted, hbalances, rfl⟩ := h.exists_mark hobject
    have hisRead := (raucBootedSlotObject_read hfirst hlast hbooted.mem hbalances).mp hread
    obtain ⟨hstatus, hversion⟩ := hown m i b ms hfirst hlast hbooted.mem hbalances hisRead
    exact Or.inr ⟨b, ms, hread, hbooted, hboot, himage,
      (takesOwn_iff isWord_bootStatus 24).mpr hstatus,
      (takesOwn_iff isWord_version 64).mpr hversion⟩

/-- The search returns the object of a booted slot, and status and version are taken from it,
exactly where the first member that spells `"state":"booted"` leads to it and the first
strings of both kinds in it are its own. Where no string is spelled otherwise, it leads to
its own object. -/
theorem selectsBooted_iff (d : Value) :
    (SelectsBooted d ↔ Fits d ∧ StringsOwn d) ∧
    ((∀ o ∈ d.objects 0, o.2.has (spells (lit "state") (lit "booted")) = o.2.has saysBooted) →
      (SelectsBooted d ↔ (NoneBooted d ∨ ∃ m i, FirstSpelled d m i ∧
        LastBrace d.text i m.start ∧ BootedObject d m.start m.members ∧ Balances m.members) ∧
        StringsOwn d)) := by
  have hiff : SelectsBooted d ↔ Fits d ∧ StringsOwn d :=
    ⟨SelectsBooted.fits, fun h => h.1.selectsBooted h.2⟩
  refine ⟨hiff, fun hplain => ?_⟩
  rw [hiff, fits_iff_of_plain hplain]

/-- A string member without escapes. -/
def stringMember (k v : String) (hk : ∀ c ∈ lit k, 0x20 ≤ c ∧ c ≠ 0x22 ∧ c ≠ 0x5c)
    (hv : ∀ c ∈ lit v, 0x20 ≤ c ∧ c ≠ 0x22 ∧ c ≠ 0x5c) (rest : Members) : Members :=
  .cons (plainly (lit k) hk) (.str (plainly (lit v) hv)) rest

/-- `{"A":{"state":"inactive"},"B":{"state":"booted","boot_status":"good"}}`. -/
def plainSlots : Value :=
  .obj (.cons (plainly (lit "A") (by decide +kernel))
    (.obj (stringMember "state" "inactive" (by decide +kernel) (by decide +kernel) .nil))
    (.cons (plainly (lit "B") (by decide +kernel))
      (.obj (stringMember "state" "booted" (by decide +kernel) (by decide +kernel)
        (stringMember "boot_status" "good" (by decide +kernel) (by decide +kernel) .nil))) .nil))

theorem selectsBooted_plain : SelectsBooted plainSlots ↔
    (NoneBooted plainSlots ∨ ∃ m i, FirstSpelled plainSlots m i ∧
      LastBrace plainSlots.text i m.start ∧ BootedObject plainSlots m.start m.members ∧
      Balances m.members) ∧ StringsOwn plainSlots :=
  (selectsBooted_iff plainSlots).2 (by decide +kernel)

/-- `{"boot_status":"bad"}`. -/
def badStatus : Members :=
  stringMember "boot_status" "bad" (by decide +kernel) (by decide +kernel) .nil

/-- `{"group":{"boot_status":"bad"},"state":"booted","boot_status":"good"}`. -/
def groupFirst : Value :=
  .obj (.cons (plainly (lit "group") (by decide +kernel)) (.obj badStatus)
    (stringMember "state" "booted" (by decide +kernel) (by decide +kernel)
      (stringMember "boot_status" "good" (by decide +kernel) (by decide +kernel) .nil)))

/-- `"state":"booted","other":{"boot_status":"bad"},"boot_status":"good"`. -/
def otherWithin : Members :=
  stringMember "state" "booted" (by decide +kernel) (by decide +kernel)
    (.cons (plainly (lit "other") (by decide +kernel)) (.obj badStatus)
      (stringMember "boot_status" "good" (by decide +kernel) (by decide +kernel) .nil))

/-- With an object before the state, the search returns that object, and its status. With an
object before the status, the search returns the right object, and the status of the other. -/
theorem groupFirst_not_selectsBooted : ¬SelectsBooted groupFirst ∧
    (raucStatus (some groupFirst.text)).boot = lit "bad" ∧ ¬SelectsBooted (.obj otherWithin) ∧
    (raucStatus (some (Value.obj otherWithin).text)).boot = lit "bad" := by
  refine ⟨fun h => ?_, by decide +kernel, fun h => ?_, by decide +kernel⟩
  · obtain ⟨ms, hbooted, -⟩ := h.range.found 9 (lit "\x7b\"boot_status\":\"bad\"\x7d")
      (by decide +kernel)
    have hmem : (9, badStatus) ∈ groupFirst.objects 0 :=
      List.mem_cons_of_mem _ (List.mem_append_left _ List.mem_cons_self)
    have hhas := hbooted.has
    rw [Value.objects_unique groupFirst hbooted.mem hmem] at hhas
    exact absurd hhas (by decide +kernel)
  · have hfound : raucBootedSlotObject (raucText (Value.obj otherWithin).text) =
        some (0, (Value.obj otherWithin).text) := by decide +kernel
    rcases h.status with ⟨hnone, -⟩ | ⟨i, ms, hobject, hbooted, -, -, htakes, -⟩
    · rw [hfound] at hnone
      exact absurd hnone (by simp)
    · rw [hfound] at hobject
      obtain ⟨rfl, -⟩ := Prod.mk.inj (Option.some.inj hobject)
      obtain rfl := Value.objects_unique (.obj otherWithin) hbooted.mem List.mem_cons_self
      obtain ⟨m, hm, hstart, hfind⟩ := htakes (lit "bad") (by decide +kernel)
      -- the string found is none of the object itself
      have hother : ∀ m ∈ (Value.obj otherWithin).places (keyed (lit "boot_status")) 0,
          m.start = 0 → jsonFind (lit "\"" ++ lit "boot_status" ++ lit "\":\"")
            (Value.obj otherWithin).text ≠
              some ((Value.obj otherWithin).text.drop (m.colon + 2)) := by decide +kernel
      exact hother m hm hstart hfind

end Faceplate.Collector
