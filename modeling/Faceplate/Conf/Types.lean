import Mathlib.Algebra.Group.Int.Defs
import Mathlib.Tactic.SplitIfs
import Faceplate.Conf.Basic

/-!
# Types of configuration options

The types of `conf.c` whose values are plain, and the login option of `config.c`, which
is a switch on the command line and a command in a file, and whose aftercheck fills in
the command.
-/

namespace Faceplate.Conf

open CString

/-- The value of an option. -/
inductive ConfValue where
  | bool (on : Bool)
  | int (n : ℤ)
  | string (s : Option Str)
  | login (login : Bool) (argv : Option (List Str))
  deriving DecidableEq, Repr

namespace ConfValue

/-- A `bool` that is set. -/
def isOn : ConfValue → Bool
  | bool on => on
  | _ => false

/-- A `char *`. -/
def text : ConfValue → Option Str
  | string s => s
  | _ => none

end ConfValue

/-- `atoi`. -/
def atoi (s : Str) : ℤ :=
  let s := s.dropWhile isSpace
  let (negative, s) :=
    match s with
    | 0x2d :: rest => (true, rest)
    | 0x2b :: rest => (false, rest)
    | _ => (false, s)
  let n : ℤ := digitsValue (s.takeWhile isDigit)
  (if negative then max (-n) (-2 ^ 63) else min n (2 ^ 63 - 1)).bmod (2 ^ 32)

/-- A callback that cannot fail. -/
def Parser.total (value : Bool → Option Str → ConfValue) : Parser ConfValue where
  run on arg _ := (0, value on arg)
  fresh _ _ _ _ _ := rfl
  hard _ _ _ := show (0 : ℤ) ≠ eagain by decide

/-- A type whose values are copied as they are. -/
def plainType (id : ℕ) (hasArg : Bool) (parse : Parser ConfValue) : ConfType ConfValue where
  id := id
  hasArg := hasArg
  parse := parse
  copy _ source := (0, source)
  copied _ _ _ := rfl

/-- `conf_bool`. -/
def confBool : ConfType ConfValue := plainType 0 false (.total fun on _ => .bool on)

/-- `conf_uint`. -/
def confUint : ConfType ConfValue :=
  plainType 2 true (.total fun _ arg => .int (atoi (arg.getD []) % 2 ^ 32))

/-- `conf_string`. -/
def confString : ConfType ConfValue := plainType 3 true (.total fun _ arg => .string arg)

/-! ### The login option -/

/-- `quote_status`. -/
inductive QuoteStatus where
  | unquoted
  | doubleQuoted
  | singleQuoted
  deriving DecidableEq, Repr

/-- `shl_split_command_string` between two bytes: the quotes, whether a backslash is
pending, the word that is being read, and the words before. -/
structure Splitter where
  quote : QuoteStatus
  escaped : Bool
  word : Option Str
  words : List Str

namespace Splitter

/-- A byte of a word. -/
def put (c : UInt8) (s : Splitter) : Splitter :=
  { s with escaped := false, word := some (s.word.getD [] ++ [c]) }

/-- One byte. In double quotes a backslash stands for itself unless a quote or a backslash
follows. -/
def step (s : Splitter) (c : UInt8) : Splitter :=
  match s.quote, s.escaped with
  | .unquoted, true => s.put c
  | .unquoted, false =>
    if c = 0x20 ∨ c = 0x09 then { s with word := none, words := s.words ++ s.word.toList }
    else if c = 0x22 then { s with quote := .doubleQuoted }
    else if c = 0x27 then { s with quote := .singleQuoted }
    else if c = 0x5c then { s with escaped := true }
    else s.put c
  | .doubleQuoted, true => if c = 0x22 ∨ c = 0x5c then s.put c else (s.put 0x5c).put c
  | .doubleQuoted, false =>
    if c = 0x22 then { s with quote := .unquoted }
    else if c = 0x5c then { s with escaped := true }
    else s.put c
  | .singleQuoted, _ => if c = 0x27 then { s with quote := .unquoted } else s.put c

end Splitter

/-- `shl_split_command_string`, as long as its counters do not wrap around; see
`splitCommand_of_length`. -/
def shlSplitCommandString (arg : Str) : Option (List Str) :=
  let s := arg.foldl Splitter.step ⟨.unquoted, false, none, []⟩
  if s.quote ≠ .unquoted ∨ s.escaped = true then none else some (s.words ++ s.word.toList)

/-- `def_argv`. -/
def defArgv : List Str := [lit "/bin/login", lit "-p"]

/-- `conf_login`. -/
def confLogin : ConfType ConfValue := plainType 4 false (.total fun on _ => .login on none)

/-- `aftercheck_login`. The words behind the options are the command. When there is none,
the default is copied with the entry that ends it, as an empty word. -/
def aftercheckLogin : OwnCheck ConfValue where
  run args value :=
    match value, args with
    | .login true _, some [] => (efault, value)
    | .login true _, some (word :: words) =>
      ((words.length + 1 : ℕ), .login true (some (word :: words)))
    | .login on none, _ => (0, .login on (some (defArgv ++ [[]])))
    | value, _ => (0, value)
  complete args value h := by
    rcases value with on | n | s | ⟨on, argv⟩
    · rfl
    · rfl
    · rfl
    · have hmissing : ¬ (0 : ℤ) ≤ efault := by decide
      rcases args with - | - | ⟨word, words⟩
      · cases on <;> cases argv <;> rfl
      · cases on with
        | false => cases argv <;> rfl
        | true => exact absurd h hmissing
      · cases on <;> cases argv <;> rfl

/-- `file_login`. -/
def fileLogin : Parser ConfValue where
  run on arg old :=
    match arg.map shlSplitCommandString with
    | none => (efault, old)
    | some none => (einval, old)
    | some (some []) => (efault, old)
    | some (some words) => (0, .login on (some words))
  fresh on arg old other h := by
    have hefault : efault ≠ 0 := by decide
    have heinval : einval ≠ 0 := by decide
    generalize arg.map shlSplitCommandString = split at h ⊢
    rcases split with - | - | - | ⟨word, words⟩
    · exact absurd h hefault
    · exact absurd h heinval
    · exact absurd h hefault
    · rfl
  hard on arg old := by
    have hefault : efault ≠ eagain := by decide
    have heinval : einval ≠ eagain := by decide
    have hzero : (0 : ℤ) ≠ eagain := by decide
    generalize arg.map shlSplitCommandString = split
    rcases split with - | - | - | ⟨word, words⟩
    · exact hefault
    · exact heinval
    · exact hefault
    · exact hzero

/-! ### Options -/

section Options

variable {Φ : Type*}

/-- `CONF_OPTION_BOOL_FULL` without copy and file callbacks. -/
def optionBool (short : Option Char) (long : String) (check : Option (Aftercheck Φ ConfValue))
    (mem : Φ) (default : Bool) : ConfOption Φ ConfValue :=
  ⟨short.map (·.toNat.toUInt8), some (lit long), confBool, check, none, none, mem, .bool default⟩

/-- `CONF_OPTION_UINT`. -/
def optionUint (long : String) (mem : Φ) (default : ℕ) : ConfOption Φ ConfValue :=
  ⟨none, some (lit long), confUint, none, none, none, mem, .int default⟩

/-- `CONF_OPTION_STRING`. -/
def optionString (short : Option Char) (long : String) (mem : Φ) (default : Option String) :
    ConfOption Φ ConfValue :=
  ⟨short.map (·.toNat.toUInt8), some (lit long), confString, none, none, none, mem,
    .string (default.map lit)⟩

end Options

/-- The fields of `struct kmscon_conf_t` for some options of `kmscon_conf_new`. -/
inductive Field where
  | exit
  | help
  | version
  | verbose
  | debug
  | configdir
  | login
  | sbSize
  | useOriginalMode
  | mode
  | fontSize
  | fontName
  deriving DecidableEq, Repr

/-- Eleven options of `kmscon_conf_new`: switches, numbers, strings, and the login. Options of
the other types, such as grabs, colours and lists, are not among them. -/
def confOptions : List (ConfOption Field ConfValue) :=
  [optionBool (some 'h') "help" (some (.implies ConfValue.isOn .exit (.bool true))) .help false,
    optionBool (some 'V') "version" (some (.implies ConfValue.isOn .exit (.bool true))) .version
      false,
    optionBool (some 'v') "verbose" none .verbose false,
    optionBool none "debug" (some (.implies ConfValue.isOn .verbose (.bool true))) .debug false,
    optionString (some 'c') "configdir" .configdir (some "/etc/kmscon"),
    ⟨some 0x6c, some (lit "login"), confLogin, some (.own aftercheckLogin), none, some fileLogin,
      .login, .login false (some defArgv)⟩,
    optionUint "sb-size" .sbSize 1000,
    optionBool none "use-original-mode" none .useOriginalMode true,
    optionString none "mode" .mode none,
    optionUint "font-size" .fontSize 16,
    optionString none "font-name" .fontName (some "monospace")]

/-- What implies something there is on by itself, and what is implied is no option or
the verbosity. -/
theorem confOptions_implies {o : ConfOption Field ConfValue} (ho : o ∈ confOptions)
    {on : ConfValue → Bool} {target : Field} {value : ConfValue}
    (h : o.aftercheck = some (.implies on target value)) :
    (o.mem = .help ∨ o.mem = .version ∨ o.mem = .debug) ∧
      (target = .exit ∨ target = .verbose) := by
  simp only [confOptions, List.mem_cons, List.not_mem_nil, or_false] at ho
  rcases ho with rfl | rfl | rfl | rfl | rfl | rfl | rfl | rfl | rfl | rfl | rfl
  · cases h
    exact ⟨Or.inl rfl, Or.inl rfl⟩
  · cases h
    exact ⟨Or.inr (Or.inl rfl), Or.inl rfl⟩
  · cases h
  · cases h
    exact ⟨Or.inr (Or.inr rfl), Or.inr rfl⟩
  all_goals cases h

/-- The table of these options. -/
def confTable : KmsconTable Field ConfValue where
  opts := confOptions
  nodup := by decide
  helper o ho copy hcopy := by
    simp only [confOptions, List.mem_cons, List.not_mem_nil, or_false] at ho
    rcases ho with rfl | rfl | rfl | rfl | rfl | rfl | rfl | rfl | rfl | rfl | rfl <;> cases hcopy
  shallow o ho on target value himplies p hp on' target' value' himplies' := by
    obtain ⟨-, htarget⟩ := confOptions_implies ho himplies
    obtain ⟨hmem, -⟩ := confOptions_implies hp himplies'
    rcases htarget with rfl | rfl <;> rcases hmem with hmem | hmem | hmem <;> rw [hmem] <;> decide
  exit := .exit
  configdir := .configdir
  mode := .mode
  useOriginalMode := .useOriginalMode
  on := ConfValue.isOn
  off := .bool false
  text := ConfValue.text
  apart := by decide
  plain o ho on target value himplies := by
    obtain ⟨hmem, -⟩ := confOptions_implies ho himplies
    rcases hmem with hmem | hmem | hmem <;> rw [hmem] <;> decide

end Faceplate.Conf
