import Mathlib.Data.List.Nodup
import Mathlib.Data.List.DropRight
import Mathlib.Data.Option.Basic
import Mathlib.Logic.Function.Basic
import Faceplate.Lib.CString

/-!
# Configuration options

`conf.c` works on a table of options. An option has names, a type that parses and copies
its values, a field of the user's structure that holds the value, a default, and
callbacks. Fields are taken from `Φ` and values from `V`; the memory of the user is a map
from fields to values.
-/

namespace Faceplate.Conf

open CString

/-- A C string without its terminator. -/
abbrev Str := List UInt8

/-- `-EAGAIN`, for a line that is not understood. -/
def eagain : ℤ := -11

/-- `-EFAULT`. -/
def efault : ℤ := -14

/-- `-EINVAL`. -/
def einval : ℤ := -22

/-- The `parse` callback of a type, or the `file` callback of an option: its result and
the new value, from the sign of the key, the argument, and the old value. A new value
does not depend on the old one, and no callback fails with `-EAGAIN`. -/
structure Parser (V : Type*) where
  run : Bool → Option Str → V → ℤ × V
  fresh : ∀ on arg old other, (run on arg old).1 = 0 → run on arg other = run on arg old
  hard : ∀ on arg old, (run on arg old).1 ≠ eagain

/-- `struct conf_type`, known by its address `id`. `copy` gets the values of destination
and source, and when it succeeds it has copied. -/
structure ConfType (V : Type*) where
  id : ℕ
  hasArg : Bool
  parse : Parser V
  copy : V → V → ℤ × V
  copied : ∀ dest source, (copy dest source).1 = 0 → (copy dest source).2 = source

/-- An `aftercheck` that completes the value of its own option. It gets the remaining
arguments, or none outside the command line, and returns an error or how many of them it
has taken. A value that is complete stays as it is. -/
structure OwnCheck (V : Type*) where
  run : Option (List Str) → V → ℤ × V
  complete : ∀ args value, 0 ≤ (run args value).1 →
    (run none (run args value).2).2 = (run args value).2

/-- An `aftercheck`: one for the option itself, or one that sets another field when the
option is on. -/
inductive Aftercheck (Φ V : Type*) where
  | own (check : OwnCheck V)
  | implies (on : V → Bool) (target : Φ) (value : V)

/-- `struct conf_option`, without its flags. The long name is the one without the `no-`
before it. -/
structure ConfOption (Φ V : Type*) where
  shortName : Option UInt8
  longName : Option Str
  type : ConfType V
  aftercheck : Option (Aftercheck Φ V)
  copy : Option ((Φ → V) → (Φ → V) → ℤ × (Φ → V))
  file : Option (Parser V)
  mem : Φ
  default : V

/-- A table of options. Each has a field of its own, a copy helper copies what belongs to
no option, and what one option implies implies nothing further. -/
structure ConfTable (Φ V : Type*) where
  opts : List (ConfOption Φ V)
  nodup : (opts.map (·.mem)).Nodup
  helper : ∀ o ∈ opts, ∀ copy, o.copy = some copy →
    ∀ dest source, ∀ p ∈ opts, (copy dest source).2 p.mem = dest p.mem
  shallow : ∀ o ∈ opts, ∀ on target value, o.aftercheck = some (.implies on target value) →
    ∀ p ∈ opts, ∀ on' target' value', p.aftercheck = some (.implies on' target' value') →
      target ≠ p.mem

/-! ### `getopt_long` -/

/-- What `getopt_long` returns: an option by its short name, by its long name, or by its
long name with `no-`, or one of its two errors. -/
inductive GetoptResult where
  | short (c : UInt8) (optarg : Option Str)
  | long (i : ℕ) (optarg : Option Str)
  | noLong (i : ℕ)
  | missing
  | unknown
  deriving DecidableEq, Repr

/-- An entry of `long_options`. -/
structure LongOption where
  name : Str
  hasArg : Bool
  val : Option Str → GetoptResult

section Getopt

variable {Φ V : Type*}

/-- Whether a short option is there, and takes an argument. -/
def shortArg (opts : List (ConfOption Φ V)) (c : UInt8) : Option Bool :=
  if c = 0x3a ∨ c = 0x3b then none
  else (opts.find? (·.shortName == some c)).map (·.type.hasArg)

/-- The entries of an option in `long_options`. -/
def longEntries (o : ConfOption Φ V) (i : ℕ) : List LongOption :=
  match o.longName with
  | none => []
  | some name =>
    ⟨name, o.type.hasArg, .long i⟩ ::
      if o.type.hasArg then [] else [⟨lit "no-" ++ name, false, fun _ => .noLong i⟩]

/-- `long_options`. -/
def longOptions (opts : List (ConfOption Φ V)) : List LongOption :=
  opts.zipIdx.flatMap fun (o, i) => longEntries o i

/-- The entry for a long option, given by its name or by a prefix of one name only. -/
def findLong (longs : List LongOption) (name : Str) : Option LongOption :=
  match longs.find? (·.name == name) with
  | some entry => some entry
  | none =>
    match longs.filter fun entry => name.isPrefixOf entry.name with
    | [entry] => some entry
    | _ => none

/-- Short options behind one dash, with the arguments that follow: what is returned, and
the arguments that remain unless there was an error. -/
def getoptShort (opts : List (ConfOption Φ V)) :
    Str → List Str → List GetoptResult × Option (List Str)
  | [], args => ([], some args)
  | c :: cs, args =>
    match shortArg opts c with
    | none => ([.unknown], none)
    | some false =>
      let (results, rest) := getoptShort opts cs args
      (.short c none :: results, rest)
    | some true =>
      match cs, args with
      | _ :: _, args => ([.short c (some cs)], some args)
      | [], arg :: args => ([.short c (some arg)], some args)
      | [], [] => ([.missing], none)

/-- A long option behind two dashes. -/
def getoptLongOption (opts : List (ConfOption Φ V)) (body : Str) (args : List Str) :
    List GetoptResult × Option (List Str) :=
  let name := body.takeWhile (· != 0x3d)
  let value := if 0x3d ∈ body then some ((body.dropWhile (· != 0x3d)).drop 1) else none
  match findLong (longOptions opts) name with
  | none => ([.unknown], none)
  | some entry =>
    match entry.hasArg, value, args with
    | false, none, args => ([entry.val none], some args)
    | false, some _, _ => ([.unknown], none)
    | true, some value, args => ([entry.val (some value)], some args)
    | true, none, arg :: args => ([entry.val (some arg)], some args)
    | true, none, [] => ([.missing], none)

/-- An element of the command line, unless it is an operand. -/
def getoptElement (opts : List (ConfOption Φ V)) :
    Str → List Str → Option (List GetoptResult × Option (List Str))
  | 0x2d :: 0x2d :: body, args => some (getoptLongOption opts body args)
  | 0x2d :: c :: cs, args => some (getoptShort opts (c :: cs) args)
  | _, _ => none

/-- All that repeated calls of `getopt_long` return for at most `n` elements, and the
operands, which are moved to the end, unless there was an error. -/
def getoptLong (opts : List (ConfOption Φ V)) :
    ℕ → List Str → List Str → List GetoptResult × Option (List Str)
  | 0, operands, args => ([], some (operands ++ args))
  | _ + 1, operands, [] => ([], some operands)
  | n + 1, operands, arg :: args =>
    if arg = lit "--" then ([], some (operands ++ args))
    else
      match getoptElement opts arg args with
      | none => getoptLong opts n (operands ++ [arg]) args
      | some (results, none) => (results, none)
      | some (results, some args) =>
        let (more, rest) := getoptLong opts n operands args
        (results ++ more, rest)

end Getopt

end Faceplate.Conf
