import Mathlib.Data.List.Basic
import Faceplate.Conf.Types

/-!
# The login command

The login option of a context is set from the command line, from files and from another
context, in any order. This file follows the vector in `conf->argv`, an array of pointers
that ends with NULL, and compares it with the words that were given.
-/

namespace Faceplate.Conf

open CString

/-! ## Vectors of strings -/

/-- An array of strings that ends with NULL somewhere. -/
structure ArgVector where
  cells : List (Option Str)
  terminated : none ∈ cells

theorem none_mem_concat (cells : List (Option Str)) : none ∈ cells ++ [none] :=
  List.mem_append_right cells List.mem_cons_self

/-- The vector of these words, and nothing else. -/
def ArgVector.ofWords (words : List Str) : ArgVector :=
  ⟨words.map some ++ [none], none_mem_concat (words.map some)⟩

/-- `shl_dup_array_size`: the first `len` entries are copied, a NULL among them as an empty
word, and NULL is put behind them. -/
def shlDupArraySize (argv : List (Option Str)) (len : ℕ) (_ : len ≤ argv.length) : ArgVector :=
  ⟨(argv.take len).map (fun cell => some (cell.getD [])) ++ [none], none_mem_concat _⟩

/-- `shl_dup_array`. -/
def shlDupArray (argv : ArgVector) : ArgVector :=
  shlDupArraySize argv.cells (argv.cells.idxOf none) List.idxOf_le_length

/-- A copy of the words in front of NULL. -/
theorem shlDupArraySize_words {argv : List (Option Str)} {len : ℕ} {words : List Str}
    (hlen : len ≤ argv.length) (h : argv.take len = words.map some) :
    shlDupArraySize argv len hlen = .ofWords words := by
  have hcells : (argv.take len).map (fun cell => some (cell.getD [])) = words.map some := by
    rw [h, List.map_map]
    rfl
  simp only [shlDupArraySize, hcells]
  rfl

/-- The words in front of the first NULL. -/
def frontWords : List (Option Str) → List Str
  | some word :: cells => word :: frontWords cells
  | _ => []

/-- The words of a vector. -/
def ArgVector.words (argv : ArgVector) : List Str := frontWords argv.cells

@[simp] theorem ArgVector.words_ofWords (words : List Str) : (ofWords words).words = words := by
  change frontWords (words.map some ++ [none]) = words
  induction words with
  | nil => rfl
  | cons word words ih => exact congrArg (word :: ·) ih

theorem take_idxOf_none (cells : List (Option Str)) :
    cells.take (cells.idxOf none) = (frontWords cells).map some := by
  induction cells with
  | nil => rfl
  | cons cell cells ih =>
    cases cell with
    | none => rfl
    | some word =>
      rw [List.idxOf_cons_ne _ (Option.some_ne_none word), List.take_succ_cons, ih]
      rfl

/-- A copy has the words of the vector. -/
theorem shlDupArray_eq (argv : ArgVector) : shlDupArray argv = .ofWords argv.words :=
  shlDupArraySize_words _ (take_idxOf_none argv.cells)

@[simp] theorem shlDupArray_ofWords (words : List Str) :
    shlDupArray (.ofWords words) = .ofWords words := by
  rw [shlDupArray_eq, ArgVector.words_ofWords]

theorem ArgVector.ofWords_injective : Function.Injective ArgVector.ofWords :=
  Function.LeftInverse.injective ArgVector.words_ofWords

/-! ## The option -/

/-- The login option of a context: `CONF_LOCKED`, and the two fields that it sets. -/
structure LoginConf where
  locked : Bool
  login : Bool
  argv : Option ArgVector

/-- `def_argv`, with the NULL that ends it. -/
def defArgvCells : List (Option Str) := defArgv.map some ++ [none]

/-- `sizeof(def_argv) / sizeof(*def_argv)`. -/
def defArgvSize : ℕ := 3

theorem defArgvSize_le : defArgvSize ≤ defArgvCells.length := by decide

namespace LoginConf

/-- `conf_default_login`, in a context that is reset. -/
def confDefault : LoginConf := ⟨false, false, some (.ofWords defArgv)⟩

/-- `conf_parse_login`, and the lock that `conf_ctx_parse_argv` sets. -/
def confParse (conf : LoginConf) (on : Bool) : LoginConf :=
  { conf with locked := true, login := on, argv := none }

/-- `conf_copy_login`. -/
def confCopy (src conf : LoginConf) : LoginConf :=
  { conf with login := src.login, argv := src.argv.map shlDupArray }

/-- The operands are the end of `argv`, in front of its NULL. -/
theorem length_le_operands (words : List Str) :
    words.length ≤ (words.map some ++ [none]).length := by
  rw [List.length_append, List.length_map]
  exact Nat.le_add_right _ _

theorem shlDupArraySize_operands (words : List Str) :
    shlDupArraySize (words.map some ++ [none]) words.length (length_le_operands words) =
      .ofWords words :=
  shlDupArraySize_words _ (List.take_left' (List.length_map some))

/-- `aftercheck_login`: how many operands it takes. -/
def aftercheck (args : Option (List Str)) (conf : LoginConf) : Except ℤ (ℕ × LoginConf) :=
  match conf.login, args with
  | true, some words =>
    if words = [] then .error efault
    else
      let t := shlDupArraySize (words.map some ++ [none]) words.length (length_le_operands words)
      .ok (words.length, { conf with argv := some t })
  | _, _ =>
    if conf.argv.isNone then
      .ok (0, { conf with argv := some (shlDupArraySize defArgvCells defArgvSize defArgvSize_le) })
    else .ok (0, conf)

/-- `file_login`. -/
def fileLogin (on : Bool) (arg : Option Str) (conf : LoginConf) : Except ℤ LoginConf :=
  match arg with
  | none => .error efault
  | some arg =>
    match shlSplitCommandString arg with
    | none => .error einval
    | some words =>
      if words = [] then .error efault
      else .ok { conf with login := on, argv := some (.ofWords words) }

/-- The lines of a file for this option. -/
def parseLines : List (Bool × Option Str) → LoginConf → Except ℤ LoginConf
  | [], conf => .ok conf
  | (on, value) :: lines, conf =>
    if conf.locked then parseLines lines conf
    else
      match fileLogin on value conf with
      | .error ret => .error ret
      | .ok conf => parseLines lines conf

/-- `conf_ctx_parse_ctx`. -/
def parseCtx (src conf : LoginConf) : Except ℤ LoginConf :=
  let conf := if conf.locked then conf else confCopy src { conf with locked := src.locked }
  (aftercheck none conf).map Prod.snd

end LoginConf

/-! ## The option in the table -/

namespace LoginConf

/-- The value of the option. -/
def value (conf : LoginConf) : ConfValue := .login conf.login (conf.argv.map ArgVector.words)

theorem confParse_value (conf : LoginConf) (on : Bool) (arg : Option Str) :
    confLogin.parse.run on arg conf.value = (0, (conf.confParse on).value) := rfl

theorem confCopy_value (src conf : LoginConf) :
    confLogin.copy conf.value src.value = (0, (confCopy src conf).value) := by
  have hwords : (src.argv.map shlDupArray).map ArgVector.words =
      src.argv.map ArgVector.words := by
    rw [Option.map_map]
    congr 1
    funext t
    rw [Function.comp_apply, shlDupArray_eq, ArgVector.words_ofWords]
  unfold value confCopy
  rw [hwords]
  rfl

/-- The callback of the table is `aftercheck_login`. -/
theorem aftercheck_value (args : Option (List Str)) (conf : LoginConf) :
    aftercheckLogin.run args conf.value =
      match aftercheck args conf with
      | .error ret => (ret, conf.value)
      | .ok (ret, next) => (ret, next.value) := by
  obtain ⟨locked, login, argv⟩ := conf
  rcases args with - | - | ⟨word, words⟩
  · cases login <;> cases argv <;> rfl
  · cases login <;> cases argv <;> rfl
  · cases login with
    | false => cases argv <;> rfl
    | true =>
      simp only [aftercheck, if_neg (List.cons_ne_nil word words),
        shlDupArraySize_operands (word :: words)]
      simp only [value, Option.map_some, ArgVector.words_ofWords]
      rfl

/-- The callback of the table is `file_login`. -/
theorem fileLogin_value (on : Bool) (arg : Option Str) (conf : LoginConf) :
    Conf.fileLogin.run on arg conf.value =
      match fileLogin on arg conf with
      | .error ret => (ret, conf.value)
      | .ok next => (0, next.value) := by
  cases arg with
  | none => rfl
  | some arg =>
    simp only [Conf.fileLogin, fileLogin, Option.map_some]
    rcases shlSplitCommandString arg with - | - | ⟨word, words⟩
    · rfl
    · rfl
    · simp only [value, if_neg (List.cons_ne_nil word words), Option.map_some,
        ArgVector.words_ofWords]

end LoginConf

/-! ## What is given -/

section Sources

variable {Φ V : Type*} (opts : List (ConfOption Φ V)) (login : ℕ)

/-- A result of `getopt_long` for the login option. -/
def loginFlag (result : GetoptResult) : Option Bool :=
  (result.option opts).bind fun (i, _, on, _) => if i = login then some on else none

/-- The login switches of a command line. -/
def loginFlags (argv : List Str) : List Bool :=
  (getoptLong opts argv.length [] argv.tail).1.filterMap (loginFlag opts login)

/-- The entries of a file for the login option. -/
def loginLines : ConfFile → List (Bool × Option Str)
  | .content buf => (bufferEntries buf.length buf).filterMap fun (key, value) =>
      (findKey opts key).bind fun (i, _, on) => if i = login then some (on, value) else none
  | _ => []

/-- The operands in front of `--`, and the words behind it. -/
def splitOperands : ℕ → List Str → List Str × List Str
  | 0, args => (args, [])
  | _ + 1, [] => ([], [])
  | n + 1, arg :: args =>
    if arg = lit "--" then ([], args)
    else
      match getoptElement opts arg args with
      | none =>
        let (front, behind) := splitOperands n args
        (arg :: front, behind)
      | some (_, none) => ([], [])
      | some (_, some args) => splitOperands n args

/-- The operands of a command line that stand in front of `--`. -/
def frontOperands (argv : List Str) : List Str := (splitOperands opts argv.length argv.tail).1

/-- The words of a command line behind `--`. -/
def dashWords (argv : List Str) : List Str := (splitOperands opts argv.length argv.tail).2

namespace LoginConf

/-- `conf_ctx_parse_argv`, where nothing but the login option takes operands. -/
def parseArgv (argv : List Str) (conf : LoginConf) : Except ℤ LoginConf :=
  match (getoptLong opts argv.length [] argv.tail).2 with
  | none => .error efault
  | some operands =>
    match aftercheck (some operands) ((loginFlags opts login argv).foldl confParse conf) with
    | .error ret => .error ret
    | .ok (ret, conf) => if ret < operands.length then .error efault else .ok conf

/-- `conf_ctx_parse_file`. -/
def parseFile (file : ConfFile) (conf : LoginConf) : Except ℤ LoginConf :=
  match file with
  | .absent => .ok conf
  | .unreadable ret => .error ret
  | .content buf =>
    match parseLines (loginLines opts login (.content buf)) conf with
    | .error ret => .error ret
    | .ok conf => (aftercheck none conf).map Prod.snd

end LoginConf

end Sources

/-- What has been parsed into a context, with the runs of the contexts that were copied. Each
command line is gone through from its start: `optind` is global and not reset, but the program
parses only one. -/
inductive LoginRun where
  | new
  | argv (run : LoginRun) (args : List Str)
  | file (run : LoginRun) (source : ConfFile)
  | ctx (run parent : LoginRun)

/-- Where the command comes from. -/
inductive Given where
  | default
  | commandLine (words : List Str)
  | file (words : List Str)

/-- The words of the command. -/
def Given.words : Given → List Str
  | default => defArgv
  | commandLine words => words
  | file words => words

namespace LoginRun

variable {Φ V : Type*} (opts : List (ConfOption Φ V)) (login : ℕ)

/-- The option at the end of a run. -/
def conf : LoginRun → Except ℤ LoginConf
  | new => .ok .confDefault
  | argv run args => (run.conf).bind (LoginConf.parseArgv opts login args)
  | file run source => (run.conf).bind (LoginConf.parseFile opts login source)
  | ctx run parent => (run.conf).bind fun conf =>
      (parent.conf).bind fun src => LoginConf.parseCtx src conf

/-- Whether a login switch has been given. -/
def locked : LoginRun → Bool
  | new => false
  | argv run args => run.locked || !(loginFlags opts login args).isEmpty
  | file run _ => run.locked
  | ctx run parent => run.locked || parent.locked

/-- Where the command comes from at the end of a run: from the last switch if there is one,
else from the last line or what was copied. -/
def given : LoginRun → Given
  | new => .default
  | argv run args =>
    match (loginFlags opts login args).getLast? with
    | none => run.given
    | some true => .commandLine (dashWords opts args)
    | some false => .default
  | file run source =>
    match run.locked opts login, (loginLines opts login source).getLast? with
    | false, some (_, value) => .file ((value.bind shlSplitCommandString).getD [])
    | _, _ => run.given
  | ctx run parent => if run.locked opts login then run.given else parent.given

/-- Something holds at the end of a run and at all ends before. -/
def Throughout (P : LoginRun → Prop) : LoginRun → Prop
  | new => P new
  | argv run args => run.Throughout P ∧ P (argv run args)
  | file run source => run.Throughout P ∧ P (file run source)
  | ctx run parent => run.Throughout P ∧ parent.Throughout P ∧ P (ctx run parent)

/-- The vector has exactly the words that were given. -/
def Exact (run : LoginRun) : Prop :=
  ∀ conf, run.conf opts login = .ok conf →
    conf.argv = some (.ofWords (run.given opts login).words)

/-- The last step is none that goes wrong: a command line with `--login` has no operands in
front of `--`, none has `--no-login` as its last switch, and one without a switch has no
other words for a login that is on. -/
def StepMeets : LoginRun → Prop
  | argv run args =>
    match (loginFlags opts login args).getLast? with
    | some true => frontOperands opts args = []
    | some false => False
    | none => ∀ conf, run.conf opts login = .ok conf → conf.login = true →
        frontOperands opts args ++ dashWords opts args = (run.given opts login).words
  | _ => True

end LoginRun

/-! ## One step -/

/-- The copy of the default that `aftercheck_login` makes. -/
def defaultCopy : ArgVector := shlDupArraySize defArgvCells defArgvSize defArgvSize_le

/-- The NULL that ends the default becomes an empty word. -/
theorem defaultCopy_eq : defaultCopy = .ofWords (defArgv ++ [[]]) := rfl

theorem defaultCopy_ne : some defaultCopy ≠ some (.ofWords defArgv) := by
  intro h
  have hwords : defArgv ++ [[]] = defArgv :=
    ArgVector.ofWords_injective (defaultCopy_eq.symm.trans (Option.some.inj h))
  exact List.cons_ne_nil _ _ (List.append_right_eq_self.mp hwords)

namespace LoginConf

/-- The vector that an aftercheck leaves behind. -/
def settled (args : Option (List Str)) (conf : LoginConf) : ArgVector :=
  match conf.login, args with
  | true, some words => .ofWords words
  | _, _ => conf.argv.getD defaultCopy

theorem aftercheck_ok {args : Option (List Str)} {conf next : LoginConf} {ret : ℕ}
    (h : aftercheck args conf = .ok (ret, next)) :
    next = { conf with argv := some (settled args conf) } := by
  obtain ⟨locked, login, argv⟩ := conf
  have hdefault : (if argv.isNone then
      (Except.ok (0, ⟨locked, login, some defaultCopy⟩) : Except ℤ (ℕ × LoginConf))
      else .ok (0, ⟨locked, login, argv⟩)) = .ok (ret, next) →
        next = ⟨locked, login, some (argv.getD defaultCopy)⟩ := by
    intro h
    cases argv with
    | none => exact (congrArg Prod.snd (Except.ok.inj h)).symm
    | some t => exact (congrArg Prod.snd (Except.ok.inj h)).symm
  cases login with
  | false => exact hdefault h
  | true =>
    cases args with
    | none => exact hdefault h
    | some words =>
      unfold aftercheck at h
      dsimp only at h
      split at h
      · cases h
      · rw [shlDupArraySize_operands] at h
        exact (congrArg Prod.snd (Except.ok.inj h)).symm

/-- The last of some switches counts. -/
theorem foldl_confParse (flags : List Bool) (conf : LoginConf) :
    flags.foldl confParse conf = flags.getLast?.elim conf (⟨true, ·, none⟩) := by
  induction flags using List.reverseRecOn with
  | nil => rfl
  | append_singleton flags on ih =>
    rw [List.foldl_append, List.getLast?_append]
    rfl

theorem fileLogin_ok {on : Bool} {value : Option Str} {conf next : LoginConf}
    (h : fileLogin on value conf = .ok next) :
    next = { conf with
      login := on
      argv := some (.ofWords ((value.bind shlSplitCommandString).getD [])) } := by
  unfold fileLogin at h
  cases value with
  | none => cases h
  | some arg =>
    rw [Option.bind_some]
    cases hsplit : shlSplitCommandString arg with
    | none =>
      simp only [hsplit] at h
      cases h
    | some words =>
      simp only [hsplit] at h
      split at h
      · cases h
      · exact (Except.ok.inj h).symm

/-- The last line that is not refused counts. -/
theorem parseLines_ok {lines : List (Bool × Option Str)} {conf next : LoginConf}
    (hlocked : conf.locked = false) (h : parseLines lines conf = .ok next) :
    next.locked = false ∧ next.argv = lines.getLast?.elim conf.argv fun line =>
      some (.ofWords ((line.2.bind shlSplitCommandString).getD [])) := by
  induction lines generalizing conf with
  | nil =>
    obtain rfl := Except.ok.inj h
    exact ⟨hlocked, rfl⟩
  | cons line lines ih =>
    obtain ⟨on, value⟩ := line
    unfold parseLines at h
    rw [hlocked, if_neg Bool.false_ne_true] at h
    cases hline : fileLogin on value conf with
    | error ret =>
      rw [hline] at h
      cases h
    | ok mid =>
      rw [hline] at h
      have hmid := fileLogin_ok hline
      have hstill : mid.locked = false := by
        rw [hmid]
        exact hlocked
      obtain ⟨hnext, hargv⟩ := ih hstill h
      refine ⟨hnext, hargv.trans ?_⟩
      rw [hmid]
      cases lines with
      | nil => rfl
      | cons line lines => rfl

/-- Lines change nothing about an option that is locked. -/
theorem parseLines_locked {conf : LoginConf} (hlocked : conf.locked = true)
    (lines : List (Bool × Option Str)) : parseLines lines conf = .ok conf := by
  induction lines with
  | nil => rfl
  | cons line lines ih =>
    unfold parseLines
    rw [if_pos hlocked]
    exact ih

/-- A vector that is there is not replaced outside the command line. -/
theorem aftercheck_none_ok {conf next : LoginConf} {t : ArgVector} (hargv : conf.argv = some t)
    (h : (aftercheck none conf).map Prod.snd = .ok next) : next = conf := by
  cases hcheck : aftercheck none conf with
  | error ret =>
    rw [hcheck] at h
    cases h
  | ok result =>
    rw [hcheck] at h
    obtain rfl := Except.ok.inj h
    have hkept : settled none conf = t := by
      unfold settled
      rw [hargv]
      cases conf.login <;> rfl
    rw [@aftercheck_ok none conf result.2 result.1 hcheck, hkept, ← hargv]

/-- A file sets the vector to the words of its last line, unless a switch was given. -/
theorem parseFile_ok {Φ V : Type*} {opts : List (ConfOption Φ V)} {login : ℕ}
    {source : ConfFile} {conf next : LoginConf} {t : ArgVector} (hargv : conf.argv = some t)
    (h : parseFile opts login source conf = .ok next) :
    next.locked = conf.locked ∧ next.argv =
      match conf.locked, (loginLines opts login source).getLast? with
      | false, some (_, value) =>
        some (.ofWords ((value.bind shlSplitCommandString).getD []))
      | _, _ => conf.argv := by
  unfold parseFile at h
  cases source with
  | absent =>
    obtain rfl := Except.ok.inj h
    refine ⟨rfl, ?_⟩
    cases conf.locked <;> rfl
  | unreadable ret => cases h
  | content buf =>
    dsimp only at h
    revert h
    generalize loginLines opts login (.content buf) = lines
    intro h
    cases hlocked : conf.locked with
    | true =>
      rw [parseLines_locked hlocked] at h
      obtain rfl := aftercheck_none_ok hargv h
      exact ⟨hlocked, rfl⟩
    | false =>
      cases hlines : parseLines lines conf with
      | error ret =>
        rw [hlines] at h
        cases h
      | ok mid =>
        rw [hlines] at h
        obtain ⟨hmid, hmidArgv⟩ := parseLines_ok hlocked hlines
        cases hlast : lines.getLast? with
        | none =>
          rw [hlast] at hmidArgv
          obtain rfl := aftercheck_none_ok (hmidArgv.trans hargv) h
          exact ⟨hmid, hmidArgv⟩
        | some line =>
          rw [hlast] at hmidArgv
          obtain rfl := aftercheck_none_ok hmidArgv h
          exact ⟨hmid, hmidArgv⟩

/-- A copy takes the vector and the lock, unless a switch was given. -/
theorem parseCtx_ok {src conf next : LoginConf} {words others : List Str}
    (hsrc : src.argv = some (.ofWords others)) (hargv : conf.argv = some (.ofWords words))
    (h : parseCtx src conf = .ok next) :
    next.locked = (conf.locked || src.locked) ∧
      next.argv = some (.ofWords (if conf.locked then words else others)) := by
  unfold parseCtx at h
  cases hlocked : conf.locked with
  | true =>
    rw [hlocked, if_pos rfl] at h
    obtain rfl := aftercheck_none_ok hargv h
    exact ⟨hlocked, hargv⟩
  | false =>
    rw [hlocked, if_neg Bool.false_ne_true] at h
    have hcopied : (confCopy src { conf with locked := src.locked }).argv =
        some (.ofWords others) := by
      unfold confCopy
      rw [hsrc, Option.map_some, shlDupArray_ofWords]
    obtain rfl := aftercheck_none_ok hcopied h
    exact ⟨rfl, hcopied⟩

end LoginConf

/-- The operands of a command line are those in front of `--` and the words behind it. -/
theorem getoptLong_operands {Φ V : Type*} (opts : List (ConfOption Φ V)) (n : ℕ)
    (operands args : List Str) {all : List Str}
    (h : (getoptLong opts n operands args).2 = some all) :
    all = operands ++ ((splitOperands opts n args).1 ++ (splitOperands opts n args).2) := by
  induction n generalizing operands args with
  | zero =>
    obtain rfl := Option.some.inj h
    exact congrArg (operands ++ ·) (List.append_nil args).symm
  | succ n ih =>
    cases args with
    | nil =>
      obtain rfl := Option.some.inj h
      exact (List.append_nil operands).symm
    | cons arg args =>
      unfold getoptLong at h
      unfold splitOperands
      by_cases hdash : arg = lit "--"
      · rw [if_pos hdash] at h ⊢
        exact (Option.some.inj h).symm
      · rw [if_neg hdash] at h ⊢
        revert h
        rcases getoptElement opts arg args with - | ⟨results, - | rest⟩
        · intro h
          rw [ih _ _ h, List.append_assoc]
          rfl
        · intro h
          cases h
        · intro h
          exact ih _ _ h

variable {Φ V : Type*} {opts : List (ConfOption Φ V)} {login : ℕ}

/-- A command line sets the vector to its operands where its last switch is `--login`, or
where it has none and the login is on. -/
theorem LoginConf.parseArgv_ok {args : List Str} {conf next : LoginConf} {t : ArgVector}
    (hargv : conf.argv = some t) (h : parseArgv opts login args conf = .ok next) :
    next.locked = (conf.locked || !(loginFlags opts login args).isEmpty) ∧
      next.argv = some
        (match (loginFlags opts login args).getLast? with
        | some true => .ofWords (frontOperands opts args ++ dashWords opts args)
        | some false => defaultCopy
        | none =>
          if conf.login then .ofWords (frontOperands opts args ++ dashWords opts args) else t) := by
  unfold parseArgv at h
  cases hoperands : (getoptLong opts args.length [] args.tail).2 with
  | none =>
    rw [hoperands] at h
    cases h
  | some operands =>
    have hsplit : operands = frontOperands opts args ++ dashWords opts args :=
      getoptLong_operands opts args.length [] args.tail hoperands
    rw [hoperands] at h
    dsimp only at h
    revert h
    generalize hmid : (loginFlags opts login args).foldl confParse conf = mid
    rw [foldl_confParse] at hmid
    cases hcheck : aftercheck (some operands) mid with
    | error ret =>
      intro h
      cases h
    | ok result =>
      intro h
      have hresult := @aftercheck_ok (some operands) mid result.2 result.1 hcheck
      have hnext : next = { mid with argv := some (settled (some operands) mid) } := by
        rw [← hresult]
        dsimp only at h
        split at h
        · cases h
        · exact (Except.ok.inj h).symm
      rw [hnext, ← hsplit]
      cases hflags : (loginFlags opts login args).getLast? with
      | none =>
        rw [hflags, Option.elim_none] at hmid
        obtain rfl := hmid
        have hempty : loginFlags opts login args = [] := List.getLast?_eq_none_iff.mp hflags
        refine ⟨?_, congrArg some ?_⟩
        · rw [hempty]
          exact (Bool.or_false _).symm
        · unfold settled
          change _ = if conf.login = true then _ else _
          rw [hargv]
          cases conf.login <;> rfl
      | some on =>
        rw [hflags] at hmid
        obtain rfl := hmid
        have hsome : (loginFlags opts login args).isEmpty = false := by
          cases hempty : loginFlags opts login args with
          | nil =>
            rw [hempty] at hflags
            cases hflags
          | cons flag flags => rfl
        refine ⟨?_, ?_⟩
        · rw [hsome]
          exact (Bool.or_true _).symm
        · cases on <;> rfl

namespace LoginRun

/-- A run that succeeds has succeeded before its last step. -/
theorem ok_of_bind {α β : Type} {x : Except ℤ α} {f : α → Except ℤ β} {b : β}
    (h : x.bind f = .ok b) : ∃ a, x = .ok a ∧ f a = .ok b := by
  cases x with
  | error ret => cases h
  | ok a => exact ⟨a, rfl, h⟩

/-- Where something holds throughout, it holds at the end. -/
theorem Throughout.last {P : LoginRun → Prop} {run : LoginRun} (h : run.Throughout P) : P run := by
  cases run with
  | new => exact h
  | argv run args => exact h.2
  | file run source => exact h.2
  | ctx run parent => exact h.2.2

theorem exact_iff {run : LoginRun} {conf : LoginConf} (h : run.conf opts login = .ok conf) :
    run.Exact opts login ↔ conf.argv = some (.ofWords (run.given opts login).words) := by
  constructor
  · intro hexact
    exact hexact conf h
  · intro hargv conf' h'
    obtain rfl := Except.ok.inj (h.symm.trans h')
    exact hargv

/-- A context is locked when a switch was given to it or to one that it copies. -/
theorem conf_locked {run : LoginRun} {conf : LoginConf} (h : run.conf opts login = .ok conf)
    (hexact : run.Throughout (Exact opts login)) : conf.locked = run.locked opts login := by
  induction run generalizing conf with
  | new =>
    obtain rfl := Except.ok.inj h
    rfl
  | argv run args ih =>
    obtain ⟨before, hbefore, hstep⟩ := ok_of_bind h
    have hargv := hexact.1.last before hbefore
    rw [(LoginConf.parseArgv_ok hargv hstep).1, ih hbefore hexact.1]
    rfl
  | file run source ih =>
    obtain ⟨before, hbefore, hstep⟩ := ok_of_bind h
    have hargv := hexact.1.last before hbefore
    rw [(LoginConf.parseFile_ok hargv hstep).1, ih hbefore hexact.1]
    rfl
  | ctx run parent ih ihParent =>
    obtain ⟨before, hbefore, hcopy⟩ := ok_of_bind h
    obtain ⟨src, hsrc, hstep⟩ := ok_of_bind hcopy
    have hargv := hexact.1.last before hbefore
    have hsrcArgv := hexact.2.1.last src hsrc
    rw [(LoginConf.parseCtx_ok hsrcArgv hargv hstep).1, ih hbefore hexact.1,
      ihParent hsrc hexact.2.1]
    rfl

/-- After a command line the vector is right if and only if the command line is none that
goes wrong. -/
theorem exact_argv_iff {run : LoginRun} {args : List Str} {before conf : LoginConf}
    (hbefore : run.conf opts login = .ok before)
    (hstep : LoginConf.parseArgv opts login args before = .ok conf)
    (hexact : run.Exact opts login) :
    conf.argv = some (.ofWords ((argv run args).given opts login).words) ↔
      (argv run args).StepMeets opts login := by
  have hargv := hexact before hbefore
  rw [(LoginConf.parseArgv_ok hargv hstep).2, given, StepMeets]
  cases (loginFlags opts login args).getLast? with
  | none =>
    dsimp only
    rw [Option.some.injEq]
    constructor
    · intro h conf' h' hlogin
      obtain rfl := Except.ok.inj (hbefore.symm.trans h')
      rw [if_pos hlogin] at h
      exact ArgVector.ofWords_injective h
    · intro h
      split
      · rename_i hlogin
        rw [h before hbefore hlogin]
      · rfl
  | some on =>
    cases on with
    | false => exact iff_of_false defaultCopy_ne not_false
    | true =>
      dsimp only
      rw [Option.some.injEq]
      constructor
      · intro h
        exact List.append_left_eq_self.mp (ArgVector.ofWords_injective h)
      · intro h
        rw [h]
        rfl

/-- In every run that succeeds the vector has exactly the words that were given, at the end
and at all ends before, if and only if no step is one that goes wrong. -/
theorem exact_throughout_iff (run : LoginRun) {conf : LoginConf}
    (h : run.conf opts login = .ok conf) :
    run.Throughout (Exact opts login) ↔ run.Throughout (StepMeets opts login) := by
  induction run generalizing conf with
  | new =>
    refine iff_of_true ((exact_iff h).mpr ?_) trivial
    obtain rfl := Except.ok.inj h
    rfl
  | argv run args ih =>
    obtain ⟨before, hbefore, hstep⟩ := ok_of_bind h
    change run.Throughout _ ∧ _ ↔ run.Throughout _ ∧ _
    rw [← ih hbefore, exact_iff h]
    exact and_congr_right fun hexact => exact_argv_iff hbefore hstep hexact.last
  | file run source ih =>
    obtain ⟨before, hbefore, hstep⟩ := ok_of_bind h
    change run.Throughout _ ∧ _ ↔ run.Throughout _ ∧ _
    rw [← ih hbefore, exact_iff h]
    refine and_congr_right fun hexact => iff_of_true ?_ trivial
    have hargv := hexact.last before hbefore
    rw [(LoginConf.parseFile_ok hargv hstep).2, conf_locked hbefore hexact, hargv, given]
    cases run.locked opts login with
    | true => rfl
    | false =>
      cases (loginLines opts login source).getLast? with
      | none => rfl
      | some line => rfl
  | ctx run parent ih ihParent =>
    obtain ⟨before, hbefore, hcopy⟩ := ok_of_bind h
    obtain ⟨src, hsrc, hstep⟩ := ok_of_bind hcopy
    change run.Throughout _ ∧ parent.Throughout _ ∧ _ ↔
      run.Throughout _ ∧ parent.Throughout _ ∧ _
    rw [← ih hbefore, ← ihParent hsrc, exact_iff h]
    refine and_congr_right fun hexact => and_congr_right fun hparent => iff_of_true ?_ trivial
    have hargv := hexact.last before hbefore
    have hsrcArgv := hparent.last src hsrc
    rw [(LoginConf.parseCtx_ok hsrcArgv hargv hstep).2, conf_locked hbefore hexact, given]
    split <;> rfl

/-- The login option among some options of `kmscon_conf_new`. -/
def loginIndex : ℕ := 5

/-- `kmscon --login -- sh -l`, into a context that has copied one with a file. -/
def copiedLogin : LoginRun :=
  argv (ctx new (file new (.content (lit "login='my login' -f\n"))))
    [lit "kmscon", lit "--login", lit "--", lit "sh", lit "-l"]

/-- The words of this run are those behind `--`. -/
theorem exact_throughout_copied :
    copiedLogin.Throughout (Exact confOptions loginIndex) ↔
      copiedLogin.Throughout (StepMeets confOptions loginIndex) :=
  @exact_throughout_iff _ _ confOptions loginIndex copiedLogin
    ⟨true, true, some (.ofWords [lit "sh", lit "-l"])⟩ rfl

/-- `kmscon --no-login`. -/
def noLogin : LoginRun := argv new [lit "kmscon", lit "--no-login"]

/-- `--no-login` leaves an empty word behind the default. -/
theorem noLogin_not_exact : ¬ noLogin.Exact confOptions loginIndex := by
  have hrun : noLogin.conf confOptions loginIndex = .ok ⟨true, false, some defaultCopy⟩ := rfl
  have hgiven : (noLogin.given confOptions loginIndex).words = defArgv := rfl
  intro hexact
  have hargv := hexact _ hrun
  rw [hgiven] at hargv
  exact defaultCopy_ne hargv

end LoginRun

end Faceplate.Conf
