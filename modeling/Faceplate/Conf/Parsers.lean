import Mathlib.Data.List.FinRange
import Faceplate.Conf.Types
import Faceplate.Conf.Grab

/-!
# Parsing into a value

The `parse` functions of all types of the option table, with the allocations in them. All
but one compute the new value first and free and set the old one at the end.
-/

namespace Faceplate.Conf

open CString

/-- `-ENOMEM`. -/
def enomem : ℤ := -12

/-! ## Numbers -/

/-- The value of a digit in some base up to 36. -/
def digitValue (c : UInt8) : ℕ :=
  if 0x30 ≤ c ∧ c ≤ 0x39 then c.toNat - 0x30
  else if 0x61 ≤ tolower c ∧ tolower c ≤ 0x7a then (tolower c).toNat - 0x61 + 10
  else 36

/-- A digit of this base. -/
def isDigitOf (base : ℕ) (c : UInt8) : Bool := digitValue c < base

/-- The base that `strtoul` finds in front of a number, and the number behind it. -/
def strtoulBase (s : Str) : ℕ × Str :=
  match s with
  | 0x30 :: x :: c :: rest =>
    if tolower x = 0x78 ∧ isDigitOf 16 c = true then (16, c :: rest) else (8, s)
  | 0x30 :: _ => (8, s)
  | _ => (10, s)

/-- `strtoul` with base 0: the value, whether it was out of range, and what follows. Without
a digit nothing is read. -/
def strtoul (s : Str) : ℕ × Bool × Str :=
  let t := s.dropWhile isSpace
  let (negative, t) :=
    match t with
    | 0x2d :: rest => (true, rest)
    | 0x2b :: rest => (false, rest)
    | _ => (false, t)
  let (base, t) := strtoulBase t
  let digits := t.takeWhile (isDigitOf base)
  let n := digits.foldl (fun n c => base * n + digitValue c) 0
  if digits = [] then (0, false, s)
  else if 2 ^ 64 ≤ n then (2 ^ 64 - 1, true, t.drop digits.length)
  else (if negative then (2 ^ 64 - n) % 2 ^ 64 else n, false, t.drop digits.length)

/-- `shl_strtou`, where nothing stands for `-EINVAL`. -/
def shlStrtou (input : Str) : Option ℕ :=
  let (val, range, tail) := strtoul input
  if input = [] ∨ tail ≠ [] ∨ range = true ∨ 2 ^ 32 ≤ val then none else some val

/-! ## Allocations -/

/-- A computation that allocates memory: it gets the answers of the allocator, one for each
call, of which all further ones succeed, and fails with an error. -/
abbrev Attempt (α : Type) := StateT (List Bool) (Except ℤ) α

/-- `malloc`, `strdup` or `asprintf`. -/
def malloc : Attempt Unit := fun answers =>
  match answers with
  | false :: _ => .error enomem
  | answers => .ok ((), answers.tail)

/-- A new value is stored in place of the old one when the attempt has succeeded. -/
def store {α : Type} (attempt : Attempt α) (answers : List Bool) (old : α) : ℤ × α :=
  match attempt.run answers with
  | .error ret => (ret, old)
  | .ok (value, _) => (0, value)

/-! ## The types -/

/-- `conf_parse_string`. -/
def confParseString (arg : Str) : Attempt (Option Str) := do
  malloc
  return some arg

/-- `conf_parse_string_list`. -/
def confParseStringList (arg : Str) : Attempt (Option (List Str)) := do
  malloc
  return some (shlSplitString arg 0x2c true)

/-- `conf_parse_vt`. -/
def confParseVt (arg : Str) : Attempt (Option Str) := do
  malloc
  match shlStrtou arg with
  | some val => return some (lit "/dev/tty" ++ decimal val)
  | none =>
    if arg.head?.isSome && arg.head? != some 0x2e && arg.head? != some 0x2f then
      return some (lit "/dev/" ++ arg)
    else return some arg

/-- `file_login`. -/
def fileLoginAttempt (on : Bool) (arg : Option Str) : Attempt (Bool × Option (List Str)) := do
  match arg with
  | none => throw efault
  | some arg =>
    match shlSplitCommandString arg with
    | none => throw einval
    | some words =>
      malloc
      if words = [] then throw efault else return (on, some words)

/-- `enum kmscon_conf_gpu_selection`. -/
inductive GpuSelection where
  | all
  | aux
  | primary
  deriving DecidableEq, Repr

/-- `conf_parse_gpus`. -/
def confParseGpus (arg : Str) : Attempt GpuSelection :=
  if arg = lit "all" then return .all
  else if arg = lit "aux" ∨ arg = lit "auxiliary" then return .aux
  else if arg = lit "primary" ∨ arg = lit "single" then return .primary
  else throw efault

section Grabs

variable (fromName : Str → ℕ)

/-- The loop of `conf_parse_grab` with its allocations. -/
def parseElementsAttempt : List Str → ConfGrab → Attempt ConfGrab
  | [], grab => return grab
  | element :: elements, grab => do
    malloc
    let keys := shlSplitString element 0x2b false
    if keys = [] then parseElementsAttempt elements grab
    else
      malloc
      match parseKeys fromName true keys (grab.mods grab.num) with
      | none => throw efault
      | some (mods, keysyms) =>
        let grab :=
          { grab with
            mods := Function.update grab.mods grab.num mods
            keysyms := Function.update grab.keysyms grab.num keysyms }
        if keysyms = [] then parseElementsAttempt elements grab
        else parseElementsAttempt elements { grab with num := grab.num + 1 }

/-- `conf_parse_grab`. -/
def confParseGrabAttempt (arg : Str) : Attempt (Option ConfGrab) := do
  malloc
  let list := shlSplitString arg 0x2c false
  malloc
  if list ≠ [] then
    malloc
    malloc
    malloc
  let grab ← parseElementsAttempt fromName list .zero
  return some grab

end Grabs

/-- `uint8_t[3]`. -/
abbrev Color := Fin 3 → UInt8

/-- A component of a colour, if it is valid. -/
def component (part : Str) : Option UInt8 :=
  (shlStrtou part).bind fun val => if val > 255 then none else some val.toUInt8

/-- The loop of `conf_parse_color`, which writes each component at once. -/
def parseComponents (list : List Str) : List (Fin 3) → Color → ℤ × Color
  | [], color => (0, color)
  | i :: is, color =>
    match shlStrtou (list.getD i []) with
    | none => (einval, color)
    | some val =>
      if val > 255 then (efault, color)
      else parseComponents list is (Function.update color i val.toUInt8)

/-- `conf_parse_color`. -/
def confParseColor (arg : Str) (answers : List Bool) (color : Color) : ℤ × Color :=
  match malloc.run answers with
  | .error ret => (ret, color)
  | .ok _ =>
    let list := shlSplitString arg 0x2c true
    if list.length ≠ 3 then (efault, color) else parseComponents list (List.finRange 3) color

/-- The types of the option table, and the way in which files set the login. -/
inductive OptionType where
  | bool
  | int
  | uint
  | string
  | stringList
  | grab
  | vt
  | login
  | fileLogin
  | gpus
  | color
  deriving DecidableEq, Repr

/-- What is stored for a type. -/
def OptionType.Val : OptionType → Type
  | .bool => Bool
  | .int => ℤ
  | .uint => ℤ
  | .string => Option Str
  | .stringList => Option (List Str)
  | .grab => Option ConfGrab
  | .vt => Option Str
  | .login => Bool × Option (List Str)
  | .fileLogin => Bool × Option (List Str)
  | .gpus => GpuSelection
  | .color => Color

/-- The `parse` function of a type: the result and the value that is stored afterwards. Types
that take an argument always get one. -/
def OptionType.parse (fromName : Str → ℕ) (on : Bool) (arg : Option Str) (answers : List Bool) :
    (type : OptionType) → type.Val → ℤ × type.Val
  | .bool, _ => (0, on)
  | .int, _ => (0, atoi (arg.getD []))
  | .uint, _ => (0, atoi (arg.getD []) % 2 ^ 32)
  | .string, old => store (confParseString (arg.getD [])) answers old
  | .stringList, old => store (confParseStringList (arg.getD [])) answers old
  | .grab, old => store (confParseGrabAttempt fromName (arg.getD [])) answers old
  | .vt, old => store (confParseVt (arg.getD [])) answers old
  | .login, _ => (0, on, none)
  | .fileLogin, old => store (fileLoginAttempt on arg) answers old
  | .gpus, old => store (confParseGpus (arg.getD [])) answers old
  | .color, old => confParseColor (arg.getD []) answers old

/-- A parse that fails leaves the value as it was. -/
def Atomic (fromName : Str → ℕ) (on : Bool) (arg : Option Str) (answers : List Bool)
    (type : OptionType) (old : type.Val) : Prop :=
  (type.parse fromName on arg answers old).1 ≠ 0 →
    (type.parse fromName on arg answers old).2 = old

/-- For a colour in three parts, those before the first one that is not valid are the
components that are there already. -/
def ParseMeets (arg : Option Str) (answers : List Bool) : (type : OptionType) → type.Val → Prop
  | .color, color =>
    let list := shlSplitString (arg.getD []) 0x2c true
    answers.head? ≠ some false → list.length = 3 →
      ∀ i : Fin 3, component (list.getD i []) = none →
        (∀ j < i, component (list.getD j []) ≠ none) →
          ∀ j < i, component (list.getD j []) = some (color j)
  | _, _ => True

/-! ## Which parses are atomic -/

/-- What computes the new value first is atomic. -/
theorem store_of_ne_zero {α : Type} {attempt : Attempt α} {answers : List Bool} {old : α}
    (h : (store attempt answers old).1 ≠ 0) : (store attempt answers old).2 = old := by
  unfold store at h ⊢
  split at h
  · rfl
  · exact absurd rfl h

/-- A component that is not valid ends the loop. -/
theorem parseComponents_of_none {list : List Str} {i : Fin 3} (is : List (Fin 3)) (color : Color)
    (h : component (list.getD i []) = none) :
    (parseComponents list (i :: is) color).1 ≠ 0 ∧
      (parseComponents list (i :: is) color).2 = color := by
  have heinval : einval ≠ 0 := by decide
  have hefault : efault ≠ 0 := by decide
  unfold component at h
  unfold parseComponents
  cases hval : shlStrtou (list.getD i []) with
  | none => exact ⟨heinval, rfl⟩
  | some val =>
    have hlarge : val > 255 := by
      by_contra hsmall
      simp only [hval, Option.bind_some, if_neg hsmall] at h
      cases h
    dsimp only
    rw [if_pos hlarge]
    exact ⟨hefault, rfl⟩

/-- A valid component is written. -/
theorem parseComponents_of_some {list : List Str} {i : Fin 3} (is : List (Fin 3)) {color : Color}
    {val : UInt8} (h : component (list.getD i []) = some val) :
    parseComponents list (i :: is) color =
      parseComponents list is (Function.update color i val) := by
  unfold component at h
  conv_lhs => unfold parseComponents
  cases hval : shlStrtou (list.getD i []) with
  | none =>
    simp only [hval, Option.bind_none] at h
    cases h
  | some n =>
    have hsmall : ¬ n > 255 := by
      intro hlarge
      simp only [hval, Option.bind_some, if_pos hlarge] at h
      cases h
    simp only [hval, Option.bind_some, if_neg hsmall] at h
    obtain rfl := Option.some.inj h
    dsimp only
    rw [if_neg hsmall]

/-- A write leaves a colour as it was if the component was there already. -/
theorem update_eq_iff {color : Color} {i : Fin 3} {val : UInt8} :
    Function.update color i val = color ↔ some val = some (color i) := by
  rw [Function.update_eq_self_iff, Option.some.injEq]

/-- A write at another place leaves a component as it was. -/
theorem update_update_eq_iff {color : Color} {i j : Fin 3} (hij : i ≠ j) {val other : UInt8} :
    Function.update (Function.update color i val) j other = color ↔
      some val = some (color i) ∧ some other = some (color j) := by
  constructor
  · intro h
    have hi := congrFun h i
    have hj := congrFun h j
    rw [Function.update_of_ne hij, Function.update_self] at hi
    rw [Function.update_self] at hj
    exact ⟨congrArg some hi, congrArg some hj⟩
  · rintro ⟨hi, hj⟩
    rw [update_eq_iff.mpr hi]
    exact update_eq_iff.mpr hj

/-- The loop is atomic where the components before the first one that is not valid were there
already. -/
theorem parseComponents_atomic_iff (list : List Str) (color : Color) :
    ((parseComponents list (List.finRange 3) color).1 ≠ 0 →
        (parseComponents list (List.finRange 3) color).2 = color) ↔
      ∀ i : Fin 3, component (list.getD i []) = none →
        (∀ j < i, component (list.getD j []) ≠ none) →
          ∀ j < i, component (list.getD j []) = some (color j) := by
  have hrange : List.finRange 3 = [0, 1, 2] := by decide
  have hforall : ∀ {P : Fin 3 → Prop}, (∀ i, P i) ↔ P 0 ∧ P 1 ∧ P 2 := Fin.forall_fin_succ.trans
    (by simp [Fin.forall_fin_succ])
  have hbefore : ¬ (1 : Fin 3) < 0 ∧ ¬ (2 : Fin 3) < 0 ∧ ¬ (2 : Fin 3) < 1 := by decide
  have hafter : (0 : Fin 3) < 1 ∧ (0 : Fin 3) < 2 ∧ (1 : Fin 3) < 2 := by decide
  rw [hrange]
  simp only [hforall, lt_self_iff_false, hbefore, hafter, false_imp_iff, true_imp_iff, true_and,
    and_true, implies_true]
  -- the first component that is not valid decides what has been written
  cases h0 : component (list.getD (0 : Fin 3) []) with
  | none =>
    obtain ⟨-, hkept⟩ := parseComponents_of_none [1, 2] color h0
    simp only [hkept, ne_eq, not_true_eq_false, false_and, false_imp_iff, implies_true, and_self]
  | some val0 =>
    rw [parseComponents_of_some [1, 2] h0]
    cases h1 : component (list.getD (1 : Fin 3) []) with
    | none =>
      obtain ⟨hret, hkept⟩ := parseComponents_of_none [2] (Function.update color 0 val0) h1
      simp only [hkept, hret, ne_eq, not_false_eq_true, reduceCtorEq, not_true_eq_false, and_false,
        false_imp_iff, implies_true, and_true, true_imp_iff]
      exact update_eq_iff
    | some val1 =>
      rw [parseComponents_of_some [2] h1]
      cases h2 : component (list.getD (2 : Fin 3) []) with
      | none =>
        obtain ⟨hret, hkept⟩ := parseComponents_of_none []
          (Function.update (Function.update color 0 val0) 1 val1) h2
        simp only [hkept, hret, ne_eq, not_false_eq_true, reduceCtorEq, and_self, false_imp_iff,
          true_and, true_imp_iff]
        exact update_update_eq_iff (by decide)
      | some val2 =>
        rw [parseComponents_of_some [] h2]
        have hret : ∀ c : Color, (parseComponents list [] c).1 = 0 := fun c => rfl
        simp only [hret, ne_eq, not_true_eq_false, false_imp_iff, reduceCtorEq, and_self]

/-- A call of the allocator fails when it is answered so. -/
theorem malloc_run (answers : List Bool) :
    malloc.run answers =
      if answers.head? = some false then .error enomem else .ok ((), answers.tail) := by
  rcases answers with - | ⟨_ | _, answers⟩ <;> rfl

/-- A colour is parsed atomically where its parts are. -/
theorem confParseColor_atomic_iff (arg : Str) (answers : List Bool) (color : Color) :
    ((confParseColor arg answers color).1 ≠ 0 → (confParseColor arg answers color).2 = color) ↔
      (answers.head? ≠ some false → (shlSplitString arg 0x2c true).length = 3 →
        ∀ i : Fin 3, component ((shlSplitString arg 0x2c true).getD i []) = none →
          (∀ j < i, component ((shlSplitString arg 0x2c true).getD j []) ≠ none) →
            ∀ j < i, component ((shlSplitString arg 0x2c true).getD j []) = some (color j)) := by
  unfold confParseColor
  rw [malloc_run]
  by_cases hanswer : answers.head? = some false
  · rw [if_pos hanswer]
    exact iff_of_true (fun _ => rfl) fun h => absurd hanswer h
  · by_cases hlength : (shlSplitString arg 0x2c true).length = 3
    · rw [if_neg hanswer]
      dsimp only
      rw [if_neg (not_not.mpr hlength), parseComponents_atomic_iff]
      exact ⟨fun h _ _ => h, fun h => h hanswer hlength⟩
    · rw [if_neg hanswer]
      dsimp only
      rw [if_pos hlength]
      exact iff_of_true (fun _ => rfl) fun _ h => absurd h hlength

/-- A parse that fails leaves the stored value as it was, if and only if a colour has its
first components already. -/
theorem atomic_iff (fromName : Str → ℕ) (on : Bool) (arg : Option Str) (answers : List Bool)
    (type : OptionType) (old : type.Val) :
    Atomic fromName on arg answers type old ↔ ParseMeets arg answers type old := by
  have hzero : (0 : ℤ) ≠ 0 → False := fun h => h rfl
  cases type with
  | bool => exact iff_of_true (fun h => absurd rfl h) trivial
  | int => exact iff_of_true (fun h => absurd rfl h) trivial
  | uint => exact iff_of_true (fun h => absurd rfl h) trivial
  | string => exact iff_of_true store_of_ne_zero trivial
  | stringList => exact iff_of_true store_of_ne_zero trivial
  | grab => exact iff_of_true store_of_ne_zero trivial
  | vt => exact iff_of_true store_of_ne_zero trivial
  | login => exact iff_of_true (fun h => absurd rfl h) trivial
  | fileLogin => exact iff_of_true store_of_ne_zero trivial
  | gpus => exact iff_of_true store_of_ne_zero trivial
  | color =>
    exact confParseColor_atomic_iff (arg.getD []) answers old

/-- A black colour. -/
def black : Color := fun _ => 0

/-- `1,2,x` is refused, with its first two components written. -/
theorem twoOfThree_not_atomic :
    ¬ Atomic smallLetters true (some (lit "1,2,x")) [] .color black := by
  have hret : (confParseColor (lit "1,2,x") [] black).1 ≠ 0 := by decide +kernel
  have hwritten : (confParseColor (lit "1,2,x") [] black).2 0 ≠ 0 := by decide +kernel
  intro h
  exact hwritten (congrFun (h hret) 0)

end Faceplate.Conf
