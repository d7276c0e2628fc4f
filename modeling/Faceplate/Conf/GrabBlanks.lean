import Faceplate.Conf.FileLines
import Faceplate.Conf.Grab

/-!
# Blanks in grabs

A grab text as its modifiers, names and separators, with numbers of blanks between them.
More blanks leave the grabs as they are where the parser skips them.
-/

namespace Faceplate.Conf

open CString

/-- Some blanks. -/
def blanks (n : ℕ) : Str := List.replicate n 0x20

/-- A key of an element: blanks, modifiers each with the blanks behind it, a name unless it
is empty, and the blanks at the end. -/
structure GrabKey where
  lead : ℕ
  mods : List (Str × ℕ)
  name : Str
  trail : ℕ
  deriving DecidableEq

/-- Modifiers as they are written. -/
def modsText (mods : List (Str × ℕ)) : Str :=
  mods.flatMap fun mod => 0x3c :: (mod.1 ++ 0x3e :: blanks mod.2)

namespace GrabKey

/-- A key as it is written. -/
def text (key : GrabKey) : Str :=
  blanks key.lead ++ (modsText key.mods ++ (key.name ++ blanks key.trail))

/-- Modifiers and names are whole: blanks, brackets and separators are not part of them. -/
structure WellFormed (key : GrabKey) : Prop where
  mods : ∀ mod ∈ key.mods, modifierMask mod.1 ≠ none
  plain : 0x2b ∉ key.name ∧ 0x2c ∉ key.name
  head : key.name.head? ≠ some 0x20 ∧ key.name.head? ≠ some 0x3c
  last : key.name.getLast? ≠ some 0x20

/-- Blanks are inserted into a key. -/
structure Widens (key wider : GrabKey) : Prop where
  lead : key.lead ≤ wider.lead
  mods : List.Forall₂ (fun mod other => mod.1 = other.1 ∧ mod.2 ≤ other.2) key.mods wider.mods
  name : key.name = wider.name
  trail : key.trail ≤ wider.trail

/-- The modifiers of a key. -/
def mask (key : GrabKey) : ℕ :=
  key.mods.foldl (fun mask mod => mask ||| (modifierMask mod.1).getD 0) 0

end GrabKey

/-- A grab text, element by element and key by key. -/
def grabText (layout : List (List GrabKey)) : Str :=
  [0x2c].intercalate (layout.map fun keys => [0x2b].intercalate (keys.map GrabKey.text))

/-- No key with modifiers stands behind one that the parser sees. -/
def ModsFirst : Bool → List GrabKey → Prop
  | _, [] => True
  | first, key :: keys =>
    if key.text = [] then ModsFirst first keys
    else (key.mods ≠ [] → first = true) ∧ ModsFirst false keys

/-- There is no blank behind a name, and none between separators before a modifier. -/
def BlanksMeet (layout : List (List GrabKey)) : Prop :=
  ∀ keys ∈ layout, (∀ key ∈ keys, key.name ≠ [] → key.trail = 0) ∧ ModsFirst true keys

/-! ## One key -/

/-- The loop over words runs to the end, so that `end` is behind the last blank. -/
theorem wordsEnd_eq {n : ℕ} {s : Str} (h : s.length < n) : wordsEnd n s = [] := by
  induction n generalizing s with
  | zero => omega
  | succ n ih =>
    unfold wordsEnd
    split_ifs with hend
    · rfl
    · refine ih ?_
      obtain ⟨c, rest, hc⟩ := List.exists_cons_of_ne_nil hend
      have hblank := List.head?_dropWhile_not (· != 0x20) s
      rw [hc] at hblank ⊢
      have hrest : (List.dropWhile (· == 0x20) (c :: rest)).length ≤ rest.length := by
        rw [List.dropWhile_cons_of_pos (by simpa using hblank)]
        exact (List.dropWhile_suffix _).length_le
      have hlen := (List.dropWhile_suffix (l := s) (· != 0x20)).length_le
      rw [hc, List.length_cons] at hlen
      omega

/-- A key is looked up by all that stands behind its modifiers. -/
theorem parseSingleGrab_eq (fromName : Str → ℕ) (arg : Str) (mods : ℕ) (allowMods : Bool) :
    parseSingleGrab fromName arg mods allowMods =
      match parseModifiers allowMods (arg.length + 1) arg mods with
      | none => none
      | some (tmp, mods) =>
        let start := tmp.dropWhile (· == 0x20)
        if start = [] then some (mods, none)
        else if fromName start = 0 then none else some (mods, some (fromName start)) := by
  unfold parseSingleGrab
  cases parseModifiers allowMods (arg.length + 1) arg mods with
  | none => rfl
  | some found =>
    have hname (start : Str) :
        start.take (start.length - (wordsEnd (start.length + 1) start).length) = start := by
      rw [wordsEnd_eq (Nat.lt_succ_self _), List.length_nil, Nat.sub_zero, List.take_length]
    simp only [hname]

/-- The letters of a modifier. -/
theorem modifierMask_letters {name : Str} (h : modifierMask name ≠ none) :
    ∀ c ∈ name, 0x61 ≤ tolower c ∧ tolower c ≤ 0x7a := by
  have hwords : ∀ s ∈ ["shift", "lock", "control", "ctrl", "alt", "logo"].map lit,
      (∀ d ∈ s, 0x61 ≤ d ∧ d ≤ 0x7a) ∧ s.map tolower = s := by
    decide +kernel
  by_contra hnot
  have hother : ∀ s ∈ ["shift", "lock", "control", "ctrl", "alt", "logo"].map lit,
      sameLetters name s = false := by
    intro s hs
    cases hsame : sameLetters name s with
    | false => rfl
    | true =>
      obtain ⟨hletters, hlower⟩ := hwords s hs
      have heq : name.map tolower = s.map tolower := by simpa [sameLetters] using hsame
      rw [hlower] at heq
      exact absurd (fun c hc => hletters _ (heq ▸ List.mem_map_of_mem hc)) hnot
  simp only [List.map_cons, List.map_nil, List.forall_mem_cons] at hother
  obtain ⟨hshift, hlock, hcontrol, hctrl, halt, hlogo, -⟩ := hother
  exact h (by simp [modifierMask, hshift, hlock, hcontrol, hctrl, halt, hlogo])

/-- Brackets, blanks and separators are no letters. -/
theorem not_mem_modifier {name : Str} (h : modifierMask name ≠ none) {c : UInt8}
    (hc : ¬ (0x61 ≤ tolower c ∧ tolower c ≤ 0x7a)) : c ∉ name :=
  fun hmem => hc (modifierMask_letters h c hmem)

@[simp] theorem dropWhile_blanks (n : ℕ) (s : Str) :
    (blanks n ++ s).dropWhile (· == 0x20) = s.dropWhile (· == 0x20) :=
  List.dropWhile_append_of_pos fun c hc => by simp [List.eq_of_mem_replicate hc]

theorem dropWhile_of_head {s : Str} (h : s.head? ≠ some 0x20) : s.dropWhile (· == 0x20) = s := by
  cases s with
  | nil => rfl
  | cons c s => simpa using h

/-- All modifiers in front are read. -/
theorem parseModifiers_text {mods : List (Str × ℕ)}
    (hmods : ∀ mod ∈ mods, modifierMask mod.1 ≠ none) {rest : Str}
    (hrest : (rest.dropWhile (· == 0x20)).head? ≠ some 0x3c) {n : ℕ} (hn : mods.length < n)
    (lead mask : ℕ) :
    parseModifiers true n (blanks lead ++ (modsText mods ++ rest)) mask =
      some (rest.dropWhile (· == 0x20),
        mods.foldl (fun mask mod => mask ||| (modifierMask mod.1).getD 0) mask) := by
  induction mods generalizing n lead mask with
  | nil =>
    obtain ⟨n, rfl⟩ := Nat.exists_eq_succ_of_ne_zero (Nat.ne_of_gt hn)
    have htext : blanks lead ++ (modsText [] ++ rest) = blanks lead ++ rest := rfl
    unfold parseModifiers
    rw [htext, dropWhile_blanks]
    simp only [Bool.not_true, Bool.false_eq_true, if_false, List.foldl_nil]
    split
    · next start heq => simp [heq] at hrest
    · rfl
  | cons mod mods ih =>
    have hpos : n ≠ 0 := Nat.ne_zero_of_lt hn
    obtain ⟨n, rfl⟩ := Nat.exists_eq_succ_of_ne_zero hpos
    have hmod := hmods mod List.mem_cons_self
    obtain ⟨own, hown⟩ := Option.ne_none_iff_exists'.mp hmod
    have htext : modsText (mod :: mods) ++ rest =
        0x3c :: (mod.1 ++ 0x3e :: (blanks mod.2 ++ (modsText mods ++ rest))) := by
      simp [modsText]
    have hname := takeWhile_until (c := 0x3e) (not_mem_modifier hmod (by decide))
      (.inr ⟨blanks mod.2 ++ (modsText mods ++ rest), rfl⟩)
    have hnext := ih (fun other hmem => hmods other (List.mem_cons_of_mem _ hmem))
      (Nat.lt_of_succ_lt_succ hn) mod.2 (mask ||| own)
    unfold parseModifiers
    rw [htext, dropWhile_blanks, dropWhile_of_head (by simp)]
    simp only [Bool.not_true, Bool.false_eq_true, if_false, hname.1, hname.2, hown, hnext,
      List.foldl_cons, Option.getD_some]

/-- A library that knows no name that ends in a blank or starts with a bracket. -/
def NamesWhole (fromName : Str → ℕ) : Prop :=
  ∀ name, fromName name ≠ 0 → name.getLast? ≠ some 0x20 ∧ name.head? ≠ some 0x3c

variable {fromName : Str → ℕ}

namespace GrabKey

variable {key : GrabKey}

/-- The modifiers of a key in the first place, and its keysym if it has a name. -/
def found (fromName : Str → ℕ) (key : GrabKey) : ℕ × Option ℕ :=
  (key.mask, if key.name = [] then none else some (fromName key.name))

/-- A key that is refused: by its place, by a blank behind its name, or by its name. -/
def Refused (fromName : Str → ℕ) (first : Bool) (key : GrabKey) : Prop :=
  (key.mods ≠ [] ∧ first = false) ∨ (key.name ≠ [] ∧ (key.trail ≠ 0 ∨ fromName key.name = 0))

instance (fromName : Str → ℕ) (first : Bool) (key : GrabKey) :
    Decidable (key.Refused fromName first) :=
  inferInstanceAs (Decidable (_ ∨ _))

/-- What stands behind the modifiers of a key. -/
theorem WellFormed.start (h : key.WellFormed) :
    (key.name ++ blanks key.trail).dropWhile (· == 0x20) =
      if key.name = [] then [] else key.name ++ blanks key.trail := by
  split_ifs with hname
  · have hnil := dropWhile_blanks key.trail []
    simpa [hname] using hnil
  · refine dropWhile_of_head ?_
    rw [List.head?_append_of_ne_nil _ hname]
    exact h.head.1

/-- A name with blanks behind it is unknown. -/
theorem fromName_trail (hnames : NamesWhole fromName) (key : GrabKey) :
    fromName (key.name ++ blanks key.trail) = 0 ↔ key.trail ≠ 0 ∨ fromName key.name = 0 := by
  cases htrail : key.trail with
  | zero => simp [blanks]
  | succ n =>
    refine iff_of_true ?_ (.inl (Nat.succ_ne_zero n))
    by_contra hknown
    refine (hnames _ hknown).1 ?_
    simp [blanks, List.getLast?_append, List.getLast?_replicate]

/-- A key is looked up by its name and the blanks behind it. -/
theorem WellFormed.lookup (h : key.WellFormed) (hnames : NamesWhole fromName) (mods : ℕ) :
    (let start := (key.name ++ blanks key.trail).dropWhile (· == 0x20)
      if start = [] then some (mods, none)
      else if fromName start = 0 then none else some (mods, some (fromName start))) =
      if key.name ≠ [] ∧ (key.trail ≠ 0 ∨ fromName key.name = 0) then none
      else some (mods, if key.name = [] then none else some (fromName key.name)) := by
  by_cases hname : key.name = []
  · have hstart := h.start.trans (if_pos hname)
    simp only [hstart, if_true]
    rw [if_neg fun hboth => hboth.1 hname, if_pos hname]
  · have hstart := h.start.trans (if_neg hname)
    have hne : key.name ++ blanks key.trail ≠ [] := by simp [hname]
    simp only [hstart, if_neg hne, fromName_trail hnames]
    by_cases hrefused : key.trail ≠ 0 ∨ fromName key.name = 0
    · rw [if_pos hrefused, if_pos ⟨hname, hrefused⟩]
    · rw [if_neg hrefused, if_neg fun hboth => hrefused hboth.2, if_neg hname]
      push Not at hrefused
      simp [hrefused.1, blanks]

/-- There are at least as many characters as modifiers. -/
theorem length_mods_le (mods : List (Str × ℕ)) : mods.length ≤ (modsText mods).length := by
  induction mods with
  | nil => rfl
  | cons mod mods ih =>
    have htext : modsText (mod :: mods) =
        0x3c :: (mod.1 ++ 0x3e :: blanks mod.2) ++ modsText mods := rfl
    rw [htext, List.length_append, List.length_cons, List.length_cons]
    omega

/-- `parse_single_grab` of a key as it is written. -/
theorem WellFormed.parseSingleGrab (h : key.WellFormed) (hnames : NamesWhole fromName)
    (first : Bool) :
    parseSingleGrab fromName key.text 0 first =
      if key.Refused fromName first then none else some (key.found fromName) := by
  have hlookup := h.lookup hnames
  have hidem : ∀ s : Str, (s.dropWhile (· == 0x20)).dropWhile (· == 0x20) =
      s.dropWhile (· == 0x20) := fun s => List.dropWhile_idempotent _ _
  have hskipped : first = true ∨ key.mods = [] →
      Conf.parseSingleGrab fromName key.text 0 first =
        if key.name ≠ [] ∧ (key.trail ≠ 0 ∨ fromName key.name = 0) then none
        else some (key.mask, if key.name = [] then none else some (fromName key.name)) := by
    intro hfirst
    rw [parseSingleGrab_eq]
    have hread : parseModifiers first (key.text.length + 1) key.text 0 =
        some ((key.name ++ blanks key.trail).dropWhile (· == 0x20), key.mask) := by
      cases first with
      | true =>
        refine parseModifiers_text h.mods ?_ ?_ key.lead 0
        · rw [h.start]
          split_ifs with hname
          · simp
          · rw [List.head?_append_of_ne_nil _ hname]
            exact h.head.2
        · have := length_mods_le key.mods
          simp only [text, List.length_append]
          omega
      | false =>
        have hnone : key.mods = [] := hfirst.resolve_left (by decide)
        simp [parseModifiers, text, hnone, modsText, mask]
    simp only [hread, hidem]
    exact hlookup key.mask
  by_cases hfirst : first = true ∨ key.mods = []
  · rw [hskipped hfirst]
    have hplace : ¬ (key.mods ≠ [] ∧ first = false) := by
      rintro ⟨hmods, rfl⟩
      exact hfirst.elim (by decide) hmods
    simp only [Refused, hplace, false_or, found]
  · push Not at hfirst
    have hrefused : key.Refused fromName first := .inl ⟨hfirst.2, by simpa using hfirst.1⟩
    obtain ⟨mod, mods, hmods⟩ := List.exists_cons_of_ne_nil hfirst.2
    have htext : key.text.dropWhile (· == 0x20) = 0x3c :: (mod.1 ++ 0x3e :: (blanks mod.2 ++
        (modsText mods ++ (key.name ++ blanks key.trail)))) := by
      simp [text, hmods, modsText]
    have hunknown : fromName (key.text.dropWhile (· == 0x20)) = 0 := by
      by_contra hknown
      exact (hnames _ hknown).2 (by rw [htext]; rfl)
    have hne : key.text.dropWhile (· == 0x20) ≠ [] := by simp [htext]
    have hplace : first = false := by simpa using hfirst.1
    rw [if_pos hrefused]
    simp only [parseSingleGrab_eq, parseModifiers, hplace, Bool.not_false, if_true, hidem,
      if_neg hne, hunknown]

/-- A key that is not there. -/
theorem of_text_nil (h : key.text = []) : key.mods = [] ∧ key.name = [] := by
  unfold text at h
  simp only [List.append_eq_nil_iff] at h
  obtain ⟨-, hmods, hname, -⟩ := h
  refine ⟨?_, hname⟩
  cases hlist : key.mods with
  | nil => rfl
  | cons mod mods => simp [hlist, modsText] at hmods

end GrabKey

/-! ## The keys of an element -/

/-- The modifiers of all keys, and the keysyms of those with a name. -/
def keysFound (fromName : Str → ℕ) : List GrabKey → ℕ × List ℕ
  | [] => (0, [])
  | key :: keys =>
    (key.mask ||| (keysFound fromName keys).1,
      (key.found fromName).2.toList ++ (keysFound fromName keys).2)

/-- Every key is read: names are known and have no blanks behind them, and modifiers stand
in the first place. -/
def KeysRead (fromName : Str → ℕ) (first : Bool) (keys : List GrabKey) : Prop :=
  (∀ key ∈ keys, key.name ≠ [] → key.trail = 0 ∧ fromName key.name ≠ 0) ∧ ModsFirst first keys

theorem keysRead_cons {first : Bool} {key : GrabKey} {keys : List GrabKey} :
    KeysRead fromName first (key :: keys) ↔
      if key.text = [] then KeysRead fromName first keys
      else ¬ key.Refused fromName first ∧ KeysRead fromName false keys := by
  unfold KeysRead
  rw [ModsFirst]
  split_ifs with htext
  · have hname := (GrabKey.of_text_nil htext).2
    simp [hname]
  · unfold GrabKey.Refused
    simp only [List.forall_mem_cons]
    cases first <;> simp <;> tauto

/-- The keys of an element as they are written. -/
theorem parseKeys_eq_some_iff (hnames : NamesWhole fromName) {keys : List GrabKey}
    (hwf : ∀ key ∈ keys, key.WellFormed) (first : Bool) (found : ℕ × List ℕ) :
    parseKeys fromName first ((keys.map GrabKey.text).filter (· != [])) 0 = some found ↔
      KeysRead fromName first keys ∧ found = keysFound fromName keys := by
  induction keys generalizing first found with
  | nil => simp [parseKeys, KeysRead, ModsFirst, keysFound, eq_comm]
  | cons key keys ih =>
    have hkey := hwf key List.mem_cons_self
    have hrest := ih fun other hmem => hwf other (List.mem_cons_of_mem _ hmem)
    rw [keysRead_cons, List.map_cons]
    by_cases htext : key.text = []
    · obtain ⟨hmods, hname⟩ := GrabKey.of_text_nil htext
      have hskip : keysFound fromName (key :: keys) = keysFound fromName keys := by
        simp [keysFound, GrabKey.found, GrabKey.mask, hmods, hname]
      rw [List.filter_cons_of_neg (by simp [htext]), if_pos htext, hskip]
      exact hrest first found
    · rw [List.filter_cons_of_pos (by simpa using htext), if_neg htext]
      simp only [parseKeys, hkey.parseSingleGrab hnames first]
      by_cases hrefused : key.Refused fromName first
      · simp [hrefused]
      · rw [if_neg hrefused]
        simp only [GrabKey.found]
        rw [parseKeys_or]
        cases hread : parseKeys fromName false ((keys.map GrabKey.text).filter (· != [])) 0 with
        | none =>
          have hnot : ¬ KeysRead fromName false keys := fun hkeys => by
            have hsome := (hrest false _).mpr ⟨hkeys, rfl⟩
            rw [hread] at hsome
            cases hsome
          simp [hnot]
        | some rest =>
          obtain ⟨hkeys, rfl⟩ := (hrest false rest).mp hread
          simp [hkeys, hrefused, keysFound, GrabKey.found, eq_comm]

/-! ## Texts -/

/-- The parts of a text have no separator, and nothing that is not in the text. -/
theorem mem_splitOn {sep : UInt8} {s part : Str} (h : part ∈ s.splitOn sep) :
    sep ∉ part ∧ ∀ c ∈ part, c ∈ s := by
  induction s generalizing part with
  | nil =>
    obtain rfl : part = [] := by simpa using h
    simp
  | cons d s ih =>
    rw [List.splitOn_cons_eq_if_modifyHead] at h
    split_ifs at h with hd
    · obtain rfl | hmem := List.mem_cons.mp h
      · simp
      · exact ⟨(ih hmem).1, fun c hc => List.mem_cons_of_mem _ ((ih hmem).2 c hc)⟩
    · obtain ⟨first, rest, hsplit⟩ := List.exists_cons_of_ne_nil (List.splitOn_ne_nil sep s)
      rw [hsplit] at h ih
      obtain rfl | hmem := List.mem_cons.mp h
      · have hfirst := ih List.mem_cons_self
        refine ⟨fun hmem => ?_, fun c hc => ?_⟩
        · obtain rfl | hmem := List.mem_cons.mp hmem
          · simp at hd
          · exact hfirst.1 hmem
        · obtain rfl | hmem := List.mem_cons.mp hc
          · exact List.mem_cons_self
          · exact List.mem_cons_of_mem _ (hfirst.2 c hmem)
      · have hlater := ih (List.mem_cons_of_mem _ hmem)
        exact ⟨hlater.1, fun c hc => List.mem_cons_of_mem _ (hlater.2 c hc)⟩

/-- What is in no name and is no bracket, blank or letter is not in a key. -/
theorem GrabKey.WellFormed.not_mem {key : GrabKey} (h : key.WellFormed) {c : UInt8}
    (hname : c ∉ key.name) (hblank : c ≠ 0x20) (hopen : c ≠ 0x3c) (hclose : c ≠ 0x3e)
    (hletter : ¬ (0x61 ≤ tolower c ∧ tolower c ≤ 0x7a)) : c ∉ key.text := by
  have hblanks : ∀ n, c ∉ blanks n := fun n hmem => hblank (List.eq_of_mem_replicate hmem)
  have hmods : c ∉ modsText key.mods := by
    unfold modsText
    rw [List.mem_flatMap]
    rintro ⟨mod, hmem, hc⟩
    have hmod := not_mem_modifier (h.mods mod hmem) hletter
    simp [hopen, hclose, hmod, hblanks] at hc
  simp [GrabKey.text, hblanks, hmods, hname]

/-- An element as it is written. -/
def elementText (keys : List GrabKey) : Str := [0x2b].intercalate (keys.map GrabKey.text)

theorem comma_not_mem_elementText {keys : List GrabKey} (hwf : ∀ key ∈ keys, key.WellFormed) :
    0x2c ∉ elementText keys := by
  intro hmem
  obtain heq | ⟨part, hpart, hc⟩ := mem_intercalate hmem
  · exact absurd heq (by decide)
  · obtain ⟨key, hkey, rfl⟩ := List.mem_map.mp hpart
    have hwf := hwf key hkey
    exact hwf.not_mem hwf.plain.2 (by decide) (by decide) (by decide) (by decide) hc

/-- An element is read key by key. -/
theorem parseElement_eq_some_iff (hnames : NamesWhole fromName) {keys : List GrabKey}
    (hwf : ∀ key ∈ keys, key.WellFormed) (found : ℕ × List ℕ) :
    parseElement fromName (elementText keys) = some found ↔
      KeysRead fromName true keys ∧ found = keysFound fromName keys := by
  have hsplit : shlSplitString (elementText keys) 0x2b false =
      (keys.map GrabKey.text).filter (· != []) := by
    cases keys with
    | nil => decide
    | cons key keys =>
      have hplus : ∀ part ∈ (key :: keys).map GrabKey.text, 0x2b ∉ part := fun part hpart => by
        obtain ⟨other, hother, rfl⟩ := List.mem_map.mp hpart
        have hwf := hwf other hother
        exact hwf.not_mem hwf.plain.1 (by decide) (by decide) (by decide) (by decide)
      rw [shlSplitString, elementText, List.splitOn_intercalate _ hplus (by simp)]
      rfl
  rw [parseElement, hsplit]
  exact parseKeys_eq_some_iff hnames hwf true found

/-! ## Every valid text -/

/-- Blanks in front of a text. -/
theorem exists_blanks (s : Str) : ∃ n, s = blanks n ++ s.dropWhile (· == 0x20) := by
  refine ⟨(s.takeWhile (· == 0x20)).length, ?_⟩
  have hall : s.takeWhile (· == 0x20) = blanks (s.takeWhile (· == 0x20)).length :=
    List.eq_replicate_iff.mpr ⟨rfl, fun c hc => by simpa using List.mem_takeWhile_imp hc⟩
  rw [← hall, List.takeWhile_append_dropWhile]

theorem head_dropWhile_blank (s : Str) : (s.dropWhile (· == 0x20)).head? ≠ some 0x20 := by
  intro h
  have hnot := List.head?_dropWhile_not (· == 0x20) s
  rw [h] at hnot
  simp at hnot

/-- What the first loop reads is modifiers. -/
theorem exists_mods {allowMods : Bool} {n : ℕ} {tmp rest : Str} {mods mods' : ℕ}
    (h : parseModifiers allowMods n tmp mods = some (rest, mods')) :
    ∃ lead ms, tmp = blanks lead ++ (modsText ms ++ rest) ∧
      (∀ mod ∈ ms, modifierMask mod.1 ≠ none) ∧ rest.head? ≠ some 0x20 ∧
      (allowMods = true → rest.head? ≠ some 0x3c) := by
  induction n generalizing tmp mods with
  | zero => cases h
  | succ n ih =>
    obtain ⟨lead, htmp⟩ := exists_blanks tmp
    have hhead := head_dropWhile_blank tmp
    unfold parseModifiers at h
    split_ifs at h with hallow
    · obtain ⟨rfl, -⟩ := Prod.mk.inj (Option.some.inj h)
      exact ⟨lead, [], htmp, by simp, hhead, fun htrue => by simp [htrue] at hallow⟩
    · split at h
      · next start hstart =>
        obtain ⟨name, tail, rfl, hname, htail⟩ := exists_until 0x3e start
        obtain ⟨htake, hdrop⟩ := takeWhile_until hname htail
        rw [htake, hdrop] at h
        obtain rfl | ⟨after, rfl⟩ := htail
        · cases h
        · simp only at h
          cases hmask : modifierMask name with
          | none => simp [hmask] at h
          | some mask =>
            simp only [hmask] at h
            obtain ⟨behind, ms, hafter, hms, hrest⟩ := ih h
            refine ⟨lead, (name, behind) :: ms, ?_, ?_, hrest⟩
            · rw [htmp, hstart, hafter]
              simp [modsText]
            · exact List.forall_mem_cons.mpr ⟨by simp [hmask], hms⟩
      · next hother =>
        obtain ⟨rfl, -⟩ := Prod.mk.inj (Option.some.inj h)
        refine ⟨lead, [], htmp, by simp, hhead, fun _ hopen => ?_⟩
        cases hstart : tmp.dropWhile (· == 0x20) with
        | nil => simp [hstart] at hopen
        | cons c start =>
          obtain rfl : c = 0x3c := by simpa [hstart] using hopen
          exact hother start hstart

/-- A key that is read is well formed as it is written. -/
theorem exists_key (hnames : NamesWhole fromName) {arg : Str} {mods : ℕ} {allowMods : Bool}
    (hplain : 0x2b ∉ arg ∧ 0x2c ∉ arg)
    (h : parseSingleGrab fromName arg mods allowMods ≠ none) :
    ∃ key : GrabKey, key.WellFormed ∧ key.text = arg := by
  rw [parseSingleGrab_eq] at h
  cases hread : parseModifiers allowMods (arg.length + 1) arg mods with
  | none => simp [hread] at h
  | some found =>
    obtain ⟨rest, mods'⟩ := found
    obtain ⟨lead, ms, htext, hms, hblank, hopen⟩ := exists_mods hread
    simp only [hread, dropWhile_of_head hblank] at h
    have hkey : (⟨lead, ms, rest, 0⟩ : GrabKey).text = arg := by
      simp [GrabKey.text, htext, blanks]
    have hsub : ∀ c ∈ rest, c ∈ arg := fun c hc => by
      rw [htext]
      simp [hc]
    refine ⟨⟨lead, ms, rest, 0⟩, ⟨hms, ⟨fun hmem => hplain.1 (hsub _ hmem),
      fun hmem => hplain.2 (hsub _ hmem)⟩, ?_, ?_⟩, hkey⟩
    · by_cases hrest : rest = []
      · simp [hrest]
      · have hknown : fromName rest ≠ 0 := fun hzero => by simp [hrest, hzero] at h
        exact ⟨hblank, (hnames rest hknown).2⟩
    · by_cases hrest : rest = []
      · simp [hrest]
      · have hknown : fromName rest ≠ 0 := fun hzero => by simp [hrest, hzero] at h
        exact (hnames rest hknown).1

/-- In keys that are read each one is. -/
theorem parseSingleGrab_of_keys {keys : List Str} {mods : ℕ} {allowMods : Bool}
    (h : parseKeys fromName allowMods keys mods ≠ none) :
    ∀ key ∈ keys, ∃ allow own, parseSingleGrab fromName key own allow ≠ none := by
  induction keys generalizing mods allowMods with
  | nil => simp
  | cons key keys ih =>
    unfold parseKeys at h
    cases hkey : parseSingleGrab fromName key mods allowMods with
    | none => simp [hkey] at h
    | some found =>
      have hrest : parseKeys fromName false keys found.1 ≠ none := fun hnone => by
        simp [hkey, hnone] at h
      exact List.forall_mem_cons.mpr ⟨⟨allowMods, mods, by simp [hkey]⟩, ih hrest⟩

/-- An element that is read is made of well-formed keys. -/
theorem exists_keys (hnames : NamesWhole fromName) {element : Str} (hcomma : 0x2c ∉ element)
    (h : parseElement fromName element ≠ none) :
    ∃ keys : List GrabKey, (∀ key ∈ keys, key.WellFormed) ∧ elementText keys = element := by
  have hpart : ∀ part : Str, ∃ key : GrabKey, part ∈ element.splitOn 0x2b →
      key.WellFormed ∧ key.text = part := by
    intro part
    by_cases hmem : part ∈ element.splitOn 0x2b
    · by_cases hempty : part = []
      · exact ⟨⟨0, [], [], 0⟩, fun _ => ⟨⟨by simp, by simp, by simp, by simp⟩, hempty.symm⟩⟩
      · have hkeys : part ∈ shlSplitString element 0x2b false :=
          List.mem_filter.mpr ⟨hmem, by simpa using hempty⟩
        obtain ⟨allow, own, hread⟩ := parseSingleGrab_of_keys h part hkeys
        obtain ⟨hplus, hsub⟩ := mem_splitOn hmem
        obtain ⟨key, hkey⟩ := exists_key hnames ⟨hplus, fun hc => hcomma (hsub _ hc)⟩ hread
        exact ⟨key, fun _ => hkey⟩
    · exact ⟨⟨0, [], [], 0⟩, fun hnot => absurd hnot hmem⟩
  choose f hf using hpart
  refine ⟨(element.splitOn 0x2b).map f, fun key hkey => ?_, ?_⟩
  · obtain ⟨part, hmem, rfl⟩ := List.mem_map.mp hkey
    exact (hf part hmem).1
  · have htexts : ((element.splitOn 0x2b).map f).map GrabKey.text = element.splitOn 0x2b := by
      rw [List.map_map]
      exact (List.map_congr_left fun part hmem => (hf part hmem).2).trans (List.map_id' _)
    rw [elementText, htexts, List.intercalate_splitOn]

/-- The keys of a text are well formed. -/
def LayoutFormed (layout : List (List GrabKey)) : Prop :=
  ∀ keys ∈ layout, ∀ key ∈ keys, key.WellFormed

/-- Blanks are inserted into a text. -/
def LayoutWidens : List (List GrabKey) → List (List GrabKey) → Prop :=
  List.Forall₂ (List.Forall₂ GrabKey.Widens)

/-- The grabs of a text are those of its elements. -/
theorem list_confParseGrab_layout {layout : List (List GrabKey)} (hwf : LayoutFormed layout) :
    (confParseGrab fromName (grabText layout)).map ConfGrab.list =
      elementGrabs fromName 0 (layout.map elementText) := by
  refine list_confParseGrab_intercalate fun element helement => ?_
  obtain ⟨keys, hkeys, rfl⟩ := List.mem_map.mp helement
  exact comma_not_mem_elementText (hwf keys hkeys)

/-- All elements of a valid text are read. -/
theorem parseElement_ne_none {elements : List Str} {mods : ℕ}
    (h : elementGrabs fromName mods elements ≠ none) :
    ∀ element ∈ elements, parseElement fromName element ≠ none := by
  intro element hmem hfails
  exact h (elementGrabs_eq_none ⟨element, hmem, hfails⟩ mods)

/-- Every valid text is one with blanks between modifiers, names and separators. -/
theorem exists_layout (hnames : NamesWhole fromName) {text : Str}
    (h : (confParseGrab fromName text).isSome) :
    ∃ layout, LayoutFormed layout ∧ grabText layout = text := by
  have hread : elementGrabs fromName 0 (shlSplitString text 0x2c false) ≠ none := by
    rw [← list_confParseGrab]
    simpa [Option.isSome_iff_ne_none] using h
  have hpart : ∀ element : Str, ∃ keys : List GrabKey, element ∈ text.splitOn 0x2c →
      (∀ key ∈ keys, key.WellFormed) ∧ elementText keys = element := by
    intro element
    by_cases hmem : element ∈ text.splitOn 0x2c
    · by_cases hempty : element = []
      · exact ⟨[], fun _ => ⟨by simp, hempty.symm⟩⟩
      · have helement : element ∈ shlSplitString text 0x2c false :=
          List.mem_filter.mpr ⟨hmem, by simpa using hempty⟩
        obtain ⟨keys, hkeys⟩ := exists_keys hnames (mem_splitOn hmem).1
          (parseElement_ne_none hread element helement)
        exact ⟨keys, fun _ => hkeys⟩
    · exact ⟨[], fun hnot => absurd hnot hmem⟩
  choose f hf using hpart
  refine ⟨(text.splitOn 0x2c).map f, fun keys hkeys => ?_, ?_⟩
  · obtain ⟨element, hmem, rfl⟩ := List.mem_map.mp hkeys
    exact (hf element hmem).1
  · have htexts : ((text.splitOn 0x2c).map f).map elementText = text.splitOn 0x2c := by
      rw [List.map_map]
      exact (List.map_congr_left fun element hmem => (hf element hmem).2).trans (List.map_id' _)
    have hgrab : grabText ((text.splitOn 0x2c).map f) =
        [0x2c].intercalate (((text.splitOn 0x2c).map f).map elementText) := rfl
    rw [hgrab, htexts, List.intercalate_splitOn]

/-! ## More blanks -/

theorem GrabKey.Widens.names {key wider : GrabKey} (h : key.Widens wider) :
    key.mods.map Prod.fst = wider.mods.map Prod.fst := by
  have hmods := h.mods
  generalize key.mods = ms at hmods ⊢
  generalize wider.mods = ms' at hmods ⊢
  induction hmods with
  | nil => rfl
  | cons hmod _ ih => rw [List.map_cons, List.map_cons, hmod.1, ih]

theorem GrabKey.Widens.wellFormed {key wider : GrabKey} (h : key.Widens wider)
    (hwf : key.WellFormed) : wider.WellFormed := by
  refine ⟨fun mod hmod => ?_, h.name ▸ hwf.plain, h.name ▸ hwf.head, h.name ▸ hwf.last⟩
  have hname : mod.1 ∈ key.mods.map Prod.fst := h.names ▸ List.mem_map_of_mem hmod
  obtain ⟨own, hown, heq⟩ := List.mem_map.mp hname
  exact heq ▸ hwf.mods own hown

theorem GrabKey.Widens.mask {key wider : GrabKey} (h : key.Widens wider) :
    key.mask = wider.mask := by
  have hfold : ∀ key : GrabKey, key.mask = (key.mods.map Prod.fst).foldl
      (fun mask name => mask ||| (modifierMask name).getD 0) 0 := fun key => by
    rw [List.foldl_map]
    rfl
  rw [hfold, hfold, h.names]

/-- The modifiers and keysyms do not depend on blanks. -/
theorem keysFound_widens {keys wider : List GrabKey} (h : List.Forall₂ GrabKey.Widens keys wider) :
    keysFound fromName keys = keysFound fromName wider := by
  induction h with
  | nil => rfl
  | cons hkey _ ih => simp only [keysFound, GrabKey.found, ih, hkey.mask, hkey.name]

/-- Neither do the names, which are known. -/
theorem keysRead_widens {keys wider : List GrabKey} (h : List.Forall₂ GrabKey.Widens keys wider)
    (hread : KeysRead fromName true keys) :
    KeysRead fromName true wider ↔
      (∀ key ∈ wider, key.name ≠ [] → key.trail = 0) ∧ ModsFirst true wider := by
  have hknown : ∀ key ∈ wider, key.name ≠ [] → fromName key.name ≠ 0 := by
    have hkeys := hread.1
    clear hread
    induction h with
    | nil => simp
    | cons hkey _ ih =>
      obtain ⟨hown, hrest⟩ := List.forall_mem_cons.mp hkeys
      exact List.forall_mem_cons.mpr ⟨fun hname => hkey.name ▸ (hown (hkey.name ▸ hname)).2,
        ih hrest⟩
  unfold KeysRead
  refine and_congr_left' ⟨fun h key hmem hname => (h key hmem hname).1, fun h key hmem hname =>
    ⟨h key hmem hname, hknown key hmem hname⟩⟩

/-- Elements that are read alike give the same grabs. -/
theorem elementGrabs_congr {elements others : List Str}
    (h : List.Forall₂ (fun element other => parseElement fromName element =
      parseElement fromName other) elements others) (mods : ℕ) :
    elementGrabs fromName mods elements = elementGrabs fromName mods others := by
  induction h generalizing mods with
  | nil => rfl
  | cons helement _ ih => simp only [elementGrabs, helement, ih]

/-- The grabs are the same after blanks are inserted. -/
def BlanksKeep (fromName : Str → ℕ) (layout wider : List (List GrabKey)) : Prop :=
  (confParseGrab fromName (grabText wider)).map ConfGrab.list =
    (confParseGrab fromName (grabText layout)).map ConfGrab.list

theorem LayoutWidens.formed {layout wider : List (List GrabKey)} (h : LayoutWidens layout wider)
    (hwf : LayoutFormed layout) : LayoutFormed wider := by
  have hkeys : ∀ {keys other : List GrabKey}, List.Forall₂ GrabKey.Widens keys other →
      (∀ key ∈ keys, key.WellFormed) → ∀ key ∈ other, key.WellFormed := by
    intro keys other h hwf
    induction h with
    | nil => simp
    | cons hkey _ ih =>
      obtain ⟨hown, hrest⟩ := List.forall_mem_cons.mp hwf
      exact List.forall_mem_cons.mpr ⟨hkey.wellFormed hown, ih hrest⟩
  unfold LayoutFormed at hwf ⊢
  induction h with
  | nil => simp
  | cons helement _ ih =>
    obtain ⟨hown, hrest⟩ := List.forall_mem_cons.mp hwf
    exact List.forall_mem_cons.mpr ⟨hkeys helement hown, ih hrest⟩

/-- Elements that are read before and after blanks are inserted are read alike. -/
theorem parseElement_widens (hnames : NamesWhole fromName) {layout wider : List (List GrabKey)}
    (h : LayoutWidens layout wider) (hwf : LayoutFormed layout)
    (hread : ∀ keys ∈ layout, KeysRead fromName true keys) (hmeets : BlanksMeet wider) :
    List.Forall₂ (fun element other => parseElement fromName element =
      parseElement fromName other) (wider.map elementText) (layout.map elementText) := by
  have hformed := h.formed hwf
  unfold LayoutFormed at hwf hformed
  unfold BlanksMeet at hmeets
  induction h with
  | nil => exact .nil
  | cons helement _ ih =>
    obtain ⟨hown, hrest⟩ := List.forall_mem_cons.mp hwf
    obtain ⟨hownRead, hrestRead⟩ := List.forall_mem_cons.mp hread
    obtain ⟨hownMeets, hrestMeets⟩ := List.forall_mem_cons.mp hmeets
    obtain ⟨hownFormed, hrestFormed⟩ := List.forall_mem_cons.mp hformed
    refine .cons ?_ (ih hrest hrestRead hrestMeets hrestFormed)
    have hnext := (keysRead_widens helement hownRead).mpr hownMeets
    rw [(parseElement_eq_some_iff hnames hown _).mpr ⟨hownRead, rfl⟩,
      (parseElement_eq_some_iff hnames hownFormed _).mpr ⟨hnext, rfl⟩, keysFound_widens helement]

/-- The keys of every element of a valid text are read. -/
theorem keysRead_of_valid (hnames : NamesWhole fromName) {layout : List (List GrabKey)}
    (hwf : LayoutFormed layout)
    (hvalid : elementGrabs fromName 0 (layout.map elementText) ≠ none) :
    ∀ keys ∈ layout, KeysRead fromName true keys := by
  intro keys hmem
  obtain ⟨found, hfound⟩ := Option.ne_none_iff_exists'.mp
    (parseElement_ne_none hvalid _ (List.mem_map_of_mem hmem))
  exact ((parseElement_eq_some_iff hnames (hwf keys hmem) found).mp hfound).1

theorem blanksKeep_layout_iff (hnames : NamesWhole fromName) {layout wider : List (List GrabKey)}
    (hwf : LayoutFormed layout) (hwider : LayoutWidens layout wider)
    (hvalid : (confParseGrab fromName (grabText layout)).isSome) :
    BlanksKeep fromName layout wider ↔ BlanksMeet wider := by
  have hformed := hwider.formed hwf
  have hsome : elementGrabs fromName 0 (layout.map elementText) ≠ none := by
    rw [← list_confParseGrab_layout hwf]
    simpa [Option.isSome_iff_ne_none] using hvalid
  have hread := keysRead_of_valid hnames hwf hsome
  rw [BlanksKeep, list_confParseGrab_layout hwf, list_confParseGrab_layout hformed]
  constructor
  · intro hsame keys hmem
    have hwide := keysRead_of_valid hnames hformed (hsame ▸ hsome) keys hmem
    exact ⟨fun key hkey hname => (hwide.1 key hkey hname).1, hwide.2⟩
  · exact fun hmeets => elementGrabs_congr (parseElement_widens hnames hwider hwf hread hmeets) 0

/-- A valid text is one with blanks between its modifiers, names and separators. More of them
leave the grabs as they are if and only if there is none behind a name, and none between
separators before a modifier. -/
theorem blanksKeep_iff (hnames : NamesWhole fromName) {text : Str}
    (hvalid : (confParseGrab fromName text).isSome) :
    (∃ layout, LayoutFormed layout ∧ grabText layout = text) ∧
      ∀ layout wider, LayoutFormed layout → grabText layout = text → LayoutWidens layout wider →
        (BlanksKeep fromName layout wider ↔ BlanksMeet wider) := by
  refine ⟨exists_layout hnames hvalid, fun layout wider hwf htext hwider => ?_⟩
  exact blanksKeep_layout_iff hnames hwf hwider (htext ▸ hvalid)

theorem namesWhole_smallLetters : NamesWhole smallLetters := by
  intro name hname
  unfold smallLetters at hname
  split at hname
  · next c =>
    split_ifs at hname with hletter
    · refine ⟨fun hblank => ?_, fun hopen => ?_⟩
      · obtain rfl : c = 0x20 := by simpa using hblank
        exact absurd hletter (by decide)
      · obtain rfl : c = 0x3c := by simpa using hopen
        exact absurd hletter (by decide)
    · exact absurd rfl hname
  · exact absurd rfl hname

/-- A blank between a modifier and a letter. -/
theorem blanksKeep_iff_letters :
    BlanksKeep smallLetters [[⟨0, [(lit "Shift", 0)], lit "a", 0⟩]]
        [[⟨0, [(lit "Shift", 1)], lit "a", 0⟩]] ↔
      BlanksMeet [[⟨0, [(lit "Shift", 1)], lit "a", 0⟩]] := by
  have hvalid : (confParseGrab smallLetters (lit "<Shift>a")).isSome := by decide +kernel
  have hkey : GrabKey.WellFormed ⟨0, [(lit "Shift", 0)], lit "a", 0⟩ := by
    constructor <;> decide +kernel
  have hwider : GrabKey.Widens ⟨0, [(lit "Shift", 0)], lit "a", 0⟩
      ⟨0, [(lit "Shift", 1)], lit "a", 0⟩ :=
    ⟨le_rfl, .cons ⟨rfl, Nat.zero_le _⟩ .nil, rfl, le_rfl⟩
  refine (blanksKeep_iff namesWhole_smallLetters hvalid).2 _ _ ?_ (by decide +kernel)
    (.cons (.cons hwider .nil) .nil)
  simpa [LayoutFormed] using hkey

/-- A blank behind a letter makes `a` invalid. -/
theorem letterThenBlank_not_blanksKeep :
    (confParseGrab smallLetters (lit "a")).isSome ∧
      ¬ BlanksKeep smallLetters [[⟨0, [], lit "a", 0⟩]] [[⟨0, [], lit "a", 1⟩]] := by
  unfold BlanksKeep
  decide +kernel

end Faceplate.Conf
