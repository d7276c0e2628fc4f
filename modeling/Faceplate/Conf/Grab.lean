import Mathlib.Data.Nat.Bitwise
import Faceplate.Conf.Option

/-!
# Grabs

The value of a grab option is a list with commas, each element a key or several keys with
plus signs and modifiers before them. Keysyms are looked up by libxkbcommon, which is not
part of this repository and so a parameter.
-/

namespace Faceplate.Conf

open CString

/-! ## Splitting -/

/-- `shl_split_string`, as long as its counters do not wrap around; see
`splitString_of_length`. -/
def shlSplitString (arg : Str) (sep : UInt8) (keepEmpty : Bool) : List Str :=
  (arg.splitOn sep).filter fun entry => keepEmpty || entry != []

/-- `tolower` of an ASCII letter. -/
def tolower (c : UInt8) : UInt8 := if 0x41 ≤ c ∧ c ≤ 0x5a then c + 0x20 else c

/-- `!strcasecmp`. -/
def sameLetters (s t : Str) : Bool := s.map tolower == t.map tolower

/-! ## One key -/

/-- The mask of a modifier by its name. -/
def modifierMask (name : Str) : Option ℕ :=
  if sameLetters name (lit "shift") then some 1
  else if sameLetters name (lit "lock") then some 2
  else if sameLetters name (lit "control") || sameLetters name (lit "ctrl") then some 4
  else if sameLetters name (lit "alt") then some 8
  else if sameLetters name (lit "logo") then some 16
  else none

/-- The first loop of `parse_single_grab`, for at most `n` rounds: what is left, and the
modifiers. -/
def parseModifiers (allowMods : Bool) : ℕ → Str → ℕ → Option (Str × ℕ)
  | 0, _, _ => none
  | n + 1, tmp, mods =>
    if !allowMods then some (tmp.dropWhile (· == 0x20), mods)
    else
      match tmp.dropWhile (· == 0x20) with
      | 0x3c :: start =>
        match start.dropWhile (· != 0x3e) with
        | [] => none
        | _ :: tmp =>
          match modifierMask (start.takeWhile (· != 0x3e)) with
          | none => none
          | some mask => parseModifiers allowMods n tmp (mods ||| mask)
      | tmp => some (tmp, mods)

/-- The last loop of `parse_single_grab`, for at most `n` words: what stands from `end` on. -/
def wordsEnd : ℕ → Str → Str
  | 0, tmp => tmp
  | n + 1, tmp =>
    if tmp.dropWhile (· != 0x20) = [] then []
    else wordsEnd n ((tmp.dropWhile (· != 0x20)).dropWhile (· == 0x20))

/-- `parse_single_grab`, with `xkb_keysym_from_name`: the modifiers and the keysym if there is
one. A name that is found only when case is ignored is an error, too. -/
def parseSingleGrab (fromName : Str → ℕ) (arg : Str) (mods : ℕ) (allowMods : Bool) :
    Option (ℕ × Option ℕ) :=
  match parseModifiers allowMods (arg.length + 1) arg mods with
  | none => none
  | some (tmp, mods) =>
    let start := tmp.dropWhile (· == 0x20)
    let name := start.take (start.length - (wordsEnd (start.length + 1) start).length)
    if name = [] then some (mods, none)
    else if fromName name = 0 then none
    else some (mods, some (fromName name))

/-! ## All keys -/

/-- `struct conf_grab`. The number of keysyms of a slot is the length of their list. -/
structure ConfGrab where
  num : ℕ
  mods : ℕ → ℕ
  keysyms : ℕ → List ℕ

/-- A grab in zeroed memory. -/
def ConfGrab.zero : ConfGrab := ⟨0, fun _ => 0, fun _ => []⟩

/-- The grabs that are there, each with its modifiers and keysyms. -/
def ConfGrab.list (grab : ConfGrab) : List (ℕ × List ℕ) :=
  (List.range grab.num).map fun l => (grab.mods l, grab.keysyms l)

section Parse

variable (fromName : Str → ℕ)

/-- The keys of one element, where only the first may have modifiers. -/
def parseKeys : Bool → List Str → ℕ → Option (ℕ × List ℕ)
  | _, [], mods => some (mods, [])
  | allowMods, key :: keys, mods =>
    match parseSingleGrab fromName key mods allowMods with
    | none => none
    | some (mods, keysym) =>
      match parseKeys false keys mods with
      | none => none
      | some (mods, keysyms) => some (mods, keysym.toList ++ keysyms)

/-- The loop of `conf_parse_grab`. A slot is left for the next element as it is when no
keysym has come of it. -/
def parseElements : List Str → ConfGrab → Option ConfGrab
  | [], grab => some grab
  | element :: elements, grab =>
    let keys := shlSplitString element 0x2b false
    if keys = [] then parseElements elements grab
    else
      match parseKeys fromName true keys (grab.mods grab.num) with
      | none => none
      | some (mods, keysyms) =>
        let grab :=
          { grab with
            mods := Function.update grab.mods grab.num mods
            keysyms := Function.update grab.keysyms grab.num keysyms }
        if keysyms = [] then parseElements elements grab
        else parseElements elements { grab with num := grab.num + 1 }

/-- `conf_parse_grab`, up to where the value is stored. -/
def confParseGrab (arg : Str) : Option ConfGrab :=
  parseElements fromName (shlSplitString arg 0x2c false) .zero

/-- The grabs of all elements, each parsed on its own, unless one fails. -/
def ownGrabs (elements : List Str) : Option (List (ℕ × List ℕ)) :=
  (elements.mapM fun element => (confParseGrab fromName element).map ConfGrab.list).map List.flatten

/-- Elements parse one by one: a list of them gives the grabs of each, and fails when one
fails. -/
def ElementWise (elements : List Str) : Prop :=
  (confParseGrab fromName ([0x2c].intercalate elements)).map ConfGrab.list =
    ownGrabs fromName elements

/-- What an element says on its own: its modifiers and keysyms. -/
def parseElement (element : Str) : Option (ℕ × List ℕ) :=
  parseKeys fromName true (shlSplitString element 0x2b false) 0

/-- Each element with a keysym has all modifiers of those without one directly before it,
and the first one those given. -/
def Unmixed : ℕ → List Str → Prop
  | _, [] => True
  | mods, element :: elements =>
    match parseElement fromName element with
    | none => True
    | some (own, []) => Unmixed (mods ||| own) elements
    | some (own, _ :: _) => mods ||| own = own ∧ Unmixed 0 elements

/-- An element fails, or none gets modifiers of another. -/
def GrabMeets (elements : List Str) : Prop :=
  (∃ element ∈ elements, parseElement fromName element = none) ∨ Unmixed fromName 0 elements

end Parse

/-! ## The modifiers of one element -/

theorem parseModifiers_or (allowMods : Bool) (n : ℕ) (tmp : Str) (mods : ℕ) :
    parseModifiers allowMods n tmp mods =
      (parseModifiers allowMods n tmp 0).map fun rest => (rest.1, mods ||| rest.2) := by
  induction n generalizing tmp mods with
  | zero => rfl
  | succ n ih =>
    unfold parseModifiers
    split_ifs
    · simp
    · split
      · split
        · rfl
        · split
          · rfl
          · next mask _ =>
            rw [ih _ (mods ||| mask), ih _ (0 ||| mask), Option.map_map]
            congr 1
            funext rest
            simp [Nat.lor_assoc]
      · simp

variable {fromName : Str → ℕ}

theorem parseSingleGrab_or (arg : Str) (mods : ℕ) (allowMods : Bool) :
    parseSingleGrab fromName arg mods allowMods =
      (parseSingleGrab fromName arg 0 allowMods).map fun key => (mods ||| key.1, key.2) := by
  unfold parseSingleGrab
  rw [parseModifiers_or]
  cases parseModifiers allowMods (arg.length + 1) arg 0 with
  | none => rfl
  | some rest =>
    simp only [Option.map_some]
    split_ifs <;> rfl

/-- Modifiers from before are added to those of the keys. -/
theorem parseKeys_or (allowMods : Bool) (keys : List Str) (mods : ℕ) :
    parseKeys fromName allowMods keys mods =
      (parseKeys fromName allowMods keys 0).map fun found => (mods ||| found.1, found.2) := by
  induction keys generalizing allowMods mods with
  | nil => simp [parseKeys]
  | cons key keys ih =>
    simp only [parseKeys]
    rw [parseSingleGrab_or key mods]
    cases parseSingleGrab fromName key 0 allowMods with
    | none => rfl
    | some found =>
      simp only [Option.map_some]
      rw [ih false (mods ||| found.1), ih false found.1]
      cases parseKeys fromName false keys 0 with
      | none => rfl
      | some rest => simp [Nat.lor_assoc]

/-! ## The elements of a list -/

section Elements

variable (fromName)

/-- The grabs of elements whose first slot has some modifiers already. -/
def elementGrabs : ℕ → List Str → Option (List (ℕ × List ℕ))
  | _, [] => some []
  | mods, element :: elements =>
    match parseElement fromName element with
    | none => none
    | some (own, []) => elementGrabs (mods ||| own) elements
    | some (own, keysym :: keysyms) =>
      (elementGrabs 0 elements).map ((mods ||| own, keysym :: keysyms) :: ·)

end Elements

/-- The slot that is not used stays out of the list. -/
theorem ConfGrab.list_keep (grab : ConfGrab) (mods : ℕ) (keysyms : List ℕ) :
    ConfGrab.list
      { num := grab.num
        mods := Function.update grab.mods grab.num mods
        keysyms := Function.update grab.keysyms grab.num keysyms } = grab.list := by
  unfold ConfGrab.list
  refine List.map_congr_left fun l hl => ?_
  have hne : l ≠ grab.num := (List.mem_range.mp hl).ne
  simp only [Function.update_of_ne hne]

/-- A slot is filled and the next one is turned to. -/
theorem ConfGrab.list_push (grab : ConfGrab) (mods : ℕ) (keysyms : List ℕ) :
    ConfGrab.list
      { num := grab.num + 1
        mods := Function.update grab.mods grab.num mods
        keysyms := Function.update grab.keysyms grab.num keysyms } =
      grab.list ++ [(mods, keysyms)] := by
  have hkeep := grab.list_keep mods keysyms
  unfold ConfGrab.list at hkeep ⊢
  rw [← hkeep]
  simp only [List.range_succ, List.map_append, List.map_singleton, Function.update_self]

/-- The loop adds the grabs of the elements, beginning with the modifiers that are left in
its slot. Slots behind it are untouched. -/
theorem list_parseElements (elements : List Str) {grab : ConfGrab}
    (hzero : ∀ l, grab.num < l → grab.mods l = 0) :
    (parseElements fromName elements grab).map ConfGrab.list =
      (elementGrabs fromName (grab.mods grab.num) elements).map (grab.list ++ ·) := by
  induction elements generalizing grab with
  | nil => simp [parseElements, elementGrabs]
  | cons element elements ih =>
    unfold parseElements elementGrabs parseElement
    by_cases hkeys : shlSplitString element 0x2b false = []
    · simp [hkeys, parseKeys, ih hzero]
    · simp only [if_neg hkeys]
      rw [parseKeys_or _ _ (grab.mods grab.num)]
      cases parseKeys fromName true (shlSplitString element 0x2b false) 0 with
      | none => rfl
      | some found =>
        obtain ⟨own, keysyms⟩ := found
        simp only [Option.map_some]
        cases keysyms with
        | nil =>
          rw [if_pos rfl, ih fun l hl => ?_]
          · simp only [Function.update_self, ConfGrab.list_keep]
          · exact (Function.update_of_ne hl.ne' _ _).trans (hzero l hl)
        | cons keysym keysyms =>
          rw [if_neg (List.cons_ne_nil _ _), ih fun l hl => ?_]
          · simp only [ConfGrab.list_push, Function.update_of_ne (Nat.succ_ne_self _),
              hzero _ (Nat.lt_succ_self _)]
            cases elementGrabs fromName 0 elements with
            | none => rfl
            | some rest => simp
          · have hlt : grab.num < l := Nat.lt_of_succ_lt hl
            exact (Function.update_of_ne hlt.ne' _ _).trans (hzero l hlt)

/-- An option value gives the grabs of its elements. -/
theorem list_confParseGrab (arg : Str) :
    (confParseGrab fromName arg).map ConfGrab.list =
      elementGrabs fromName 0 (shlSplitString arg 0x2c false) := by
  have hlist := @list_parseElements fromName (shlSplitString arg 0x2c false) .zero fun _ _ => rfl
  rw [confParseGrab, hlist]
  simp [ConfGrab.zero, ConfGrab.list]

/-! ## Elements on their own -/

/-- An empty element says nothing. -/
theorem parseElement_nil : parseElement fromName [] = some (0, []) := rfl

theorem elementGrabs_filter (mods : ℕ) (elements : List Str) :
    elementGrabs fromName mods (elements.filter (· != [])) =
      elementGrabs fromName mods elements := by
  induction elements generalizing mods with
  | nil => rfl
  | cons element elements ih =>
    by_cases hempty : element = []
    · subst hempty
      simp [elementGrabs, parseElement_nil, ih]
    · rw [List.filter_cons_of_pos (by simpa using hempty)]
      simp only [elementGrabs, ih]

/-- The grabs of one element. -/
theorem list_confParseGrab_single {element : Str} (hcomma : 0x2c ∉ element) :
    (confParseGrab fromName element).map ConfGrab.list =
      (parseElement fromName element).map fun found =>
        if found.2 = [] then [] else [found] := by
  have hsplit : shlSplitString element 0x2c false = [element].filter (· != []) := by
    rw [shlSplitString, List.splitOn_eq_singleton hcomma]
    rfl
  rw [list_confParseGrab, hsplit, elementGrabs_filter]
  unfold elementGrabs
  split
  · next hfails => rw [hfails]; rfl
  · next own hown => simp [hown, elementGrabs]
  · next own keysym keysyms hown => simp [hown, elementGrabs]

/-- The elements of a list are the texts between its commas. -/
theorem list_confParseGrab_intercalate {elements : List Str}
    (hcomma : ∀ element ∈ elements, 0x2c ∉ element) :
    (confParseGrab fromName ([0x2c].intercalate elements)).map ConfGrab.list =
      elementGrabs fromName 0 elements := by
  have hsplit : shlSplitString ([0x2c].intercalate elements) 0x2c false =
      elements.filter (· != []) := by
    cases elements with
    | nil => decide
    | cons element elements =>
      rw [shlSplitString, List.splitOn_intercalate _ hcomma (List.cons_ne_nil _ _)]
      rfl
  rw [list_confParseGrab, hsplit, elementGrabs_filter]

theorem ownGrabs_cons {element : Str} (hcomma : 0x2c ∉ element) (elements : List Str) :
    ownGrabs fromName (element :: elements) =
      match parseElement fromName element with
      | none => none
      | some (_, []) => ownGrabs fromName elements
      | some (own, keysym :: keysyms) =>
        (ownGrabs fromName elements).map ((own, keysym :: keysyms) :: ·) := by
  unfold ownGrabs
  rw [List.mapM_cons, list_confParseGrab_single hcomma]
  generalize elements.mapM
    (fun element => (confParseGrab fromName element).map ConfGrab.list) = rest
  split
  · next hfails => simp [hfails]
  · next own hown => cases rest <;> simp [hown]
  · next own keysym keysyms hown => cases rest <;> simp [hown]

/-- A failing element is the first one or a later one. -/
theorem fails_cons {element : Str} {elements : List Str} {found : ℕ × List ℕ}
    (hown : parseElement fromName element = some found)
    (h : ∃ other ∈ element :: elements, parseElement fromName other = none) :
    ∃ other ∈ elements, parseElement fromName other = none := by
  obtain ⟨other, hmem, hfails⟩ := h
  obtain rfl | hmem := List.mem_cons.mp hmem
  · simp [hfails] at hown
  · exact ⟨other, hmem, hfails⟩

/-- One failing element makes the list fail. -/
theorem elementGrabs_eq_none {elements : List Str}
    (h : ∃ element ∈ elements, parseElement fromName element = none) (mods : ℕ) :
    elementGrabs fromName mods elements = none := by
  induction elements generalizing mods with
  | nil => simp at h
  | cons element elements ih =>
    unfold elementGrabs
    split
    · rfl
    · next own hown => exact ih (fails_cons hown h) _
    · next own keysym keysyms hown =>
      rw [ih (fails_cons hown h)]
      rfl

/-- It makes them fail one by one, too. -/
theorem ownGrabs_eq_none {elements : List Str} (hcomma : ∀ element ∈ elements, 0x2c ∉ element)
    (h : ∃ element ∈ elements, parseElement fromName element = none) :
    ownGrabs fromName elements = none := by
  induction elements with
  | nil => simp at h
  | cons element elements ih =>
    have hcomma' := fun other hmem => hcomma other (List.mem_cons_of_mem _ hmem)
    rw [ownGrabs_cons (hcomma element List.mem_cons_self)]
    split
    · rfl
    · next own hown => exact ih hcomma' (fails_cons hown h)
    · next own keysym keysyms hown =>
      rw [ih hcomma' (fails_cons hown h)]
      rfl

/-- Without failures there are grabs. -/
theorem exists_elementGrabs {elements : List Str}
    (h : ∀ element ∈ elements, parseElement fromName element ≠ none) (mods : ℕ) :
    ∃ grabs, elementGrabs fromName mods elements = some grabs := by
  induction elements generalizing mods with
  | nil => exact ⟨[], rfl⟩
  | cons element elements ih =>
    have hrest := fun other hmem => h other (List.mem_cons_of_mem _ hmem)
    unfold elementGrabs
    split
    · next hfails => exact absurd hfails (h element List.mem_cons_self)
    · exact ih hrest _
    · obtain ⟨grabs, hgrabs⟩ := ih hrest 0
      exact ⟨_, by rw [hgrabs]; rfl⟩

/-- Without failures the elements are independent if modifiers stay with theirs. -/
theorem elementGrabs_eq_iff {elements : List Str} (hcomma : ∀ element ∈ elements, 0x2c ∉ element)
    (h : ∀ element ∈ elements, parseElement fromName element ≠ none) (mods : ℕ) :
    elementGrabs fromName mods elements = ownGrabs fromName elements ↔
      Unmixed fromName mods elements := by
  induction elements generalizing mods with
  | nil => exact iff_of_true rfl trivial
  | cons element elements ih =>
    have hrest := fun other hmem => h other (List.mem_cons_of_mem _ hmem)
    have hcomma' := fun other hmem => hcomma other (List.mem_cons_of_mem _ hmem)
    rw [ownGrabs_cons (hcomma element List.mem_cons_self)]
    unfold elementGrabs Unmixed
    split
    · exact iff_of_true rfl trivial
    · exact ih hcomma' hrest _
    · rw [← ih hcomma' hrest 0]
      obtain ⟨grabs, hgrabs⟩ := exists_elementGrabs hrest 0
      rw [hgrabs]
      cases ownGrabs fromName elements with
      | none => simp
      | some own => simp

/-- A list parses element by element, if and only if one of them fails or none gets
modifiers of those before it. -/
theorem elementWise_iff {elements : List Str} (hcomma : ∀ element ∈ elements, 0x2c ∉ element) :
    ElementWise fromName elements ↔ GrabMeets fromName elements := by
  rw [ElementWise, list_confParseGrab_intercalate hcomma, GrabMeets]
  by_cases hfails : ∃ element ∈ elements, parseElement fromName element = none
  · rw [elementGrabs_eq_none hfails, ownGrabs_eq_none hcomma hfails]
    exact iff_of_true rfl (.inl hfails)
  · rw [or_iff_right hfails]
    push Not at hfails
    exact elementGrabs_eq_iff hcomma hfails 0

/-- A keymap of small letters alone, each its own keysym. -/
def smallLetters : Str → ℕ
  | [c] => if 0x61 ≤ c ∧ c ≤ 0x7a then c.toNat else 0
  | _ => 0

/-- Two letters parse as two grabs. -/
theorem elementWise_iff_letters :
    ElementWise smallLetters [lit "<Shift>a", lit "b"] ↔
      GrabMeets smallLetters [lit "<Shift>a", lit "b"] :=
  elementWise_iff (by decide)

/-- `<Shift>,a` is not a grab of `a` alone, but of `a` with Shift. -/
theorem shiftThenLetter_not_elementWise :
    ¬ ElementWise smallLetters [lit "<Shift>", lit "a"] := by
  unfold ElementWise
  decide +kernel

end Faceplate.Conf
