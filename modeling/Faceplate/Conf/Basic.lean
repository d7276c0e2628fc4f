import Faceplate.Conf.Option

/-!
# Configuration contexts

A context is a table with a flag for each option that locks it, and the memory of the
user. It is filled from the command line, from files and from another context. The
second part has the two loaders of `config.c`.
-/

namespace Faceplate.Conf

open CString

/-- `struct conf_ctx`, with `CONF_LOCKED` of each option. -/
structure ConfCtx (Φ V : Type*) where
  opts : List (ConfOption Φ V)
  locked : ℕ → Bool
  conf : Φ → V

section Options

variable {Φ V : Type*}

/-- Whether a key names an option, and with which sign. -/
def ConfOption.matches (o : ConfOption Φ V) (key : Str) : Option Bool :=
  match o.longName with
  | none => none
  | some name => if key = lit "no-" ++ name then some false else if key = name then some true
    else none

/-- The first option that a key names. -/
def findKey (opts : List (ConfOption Φ V)) (key : Str) : Option (ℕ × ConfOption Φ V × Bool) :=
  opts.zipIdx.findSome? fun (o, i) => (o.matches key).map fun on => (i, o, on)

/-- The option that a result of `getopt_long` stands for, with sign and argument. -/
def GetoptResult.option (opts : List (ConfOption Φ V)) :
    GetoptResult → Option (ℕ × ConfOption Φ V × Bool × Option Str)
  | .short c optarg =>
    (opts.zipIdx.find? (·.1.shortName == some c)).map fun (o, i) => (i, o, true, optarg)
  | .long i optarg => opts[i]?.map fun o => (i, o, true, optarg)
  | .noLong i => opts[i]?.map fun o => (i, o, false, none)
  | .missing | .unknown => none

variable [DecidableEq Φ]

/-- The `aftercheck` of an option. -/
def ConfOption.check (o : ConfOption Φ V) (args : Option (List Str)) (conf : Φ → V) :
    ℤ × (Φ → V) :=
  match o.aftercheck with
  | none => (0, conf)
  | some (.own check) =>
    let (ret, value) := check.run args (conf o.mem)
    (ret, Function.update conf o.mem value)
  | some (.implies on target value) =>
    (0, if on (conf o.mem) then Function.update conf target value else conf)

/-- All afterchecks in order. Each may take some of the arguments that are left. -/
def runChecks : List (ConfOption Φ V) → Option (List Str) → (Φ → V) →
    ℤ × Option (List Str) × (Φ → V)
  | [], args, conf => (0, args, conf)
  | o :: opts, args, conf =>
    let (ret, conf) := o.check args conf
    if ret < 0 then (ret, args, conf) else runChecks opts (args.map (·.drop ret.toNat)) conf

end Options

/-! ### Lines of a file -/

/-- A blank that `strip_spaces` removes. -/
def blank (c : UInt8) : Bool := c == 0x20 || c == 0x0d || c == 0x09

/-- `strip_spaces`. -/
def stripSpaces (s : Str) : Str := (s.dropWhile blank).rdropWhile blank

/-- The buffer behind the end of the line. -/
def skipLine (buf : List UInt8) : List UInt8 := (buf.dropWhile (· != 0x0a)).drop 1

/-- The first part of `parse_line`: key and value as they stand in the buffer, and the
buffer behind the line. -/
def splitLine (buf : List UInt8) : List UInt8 × Option (List UInt8) × List UInt8 :=
  let key := buf.takeWhile fun c => c != 0x0a && c != 0x23 && c != 0x3d
  match buf.drop key.length with
  | 0x3d :: rest =>
    let value := rest.takeWhile fun c => c != 0x0a && c != 0x23
    (key, some value, skipLine (rest.drop value.length))
  | rest => (key, none, skipLine rest)

/-- The entries of a file with at most `n` lines: keys that are not empty, with their
values. -/
def bufferEntries : ℕ → List UInt8 → List (Str × Option Str)
  | 0, _ => []
  | _ + 1, [] => []
  | n + 1, buf =>
    let (key, value, rest) := splitLine buf
    let key := stripSpaces (cstr key)
    if key = [] then bufferEntries n rest
    else (key, value.map fun value => stripSpaces (cstr value)) :: bufferEntries n rest

/-- A configuration file as `conf_parse_file` finds it. -/
inductive ConfFile where
  | absent
  | unreadable (ret : ℤ)
  | content (buf : List UInt8)
  deriving DecidableEq, Repr

namespace ConfCtx

variable {Φ V : Type*} [DecidableEq Φ]

/-- `conf_ctx_new`, on memory that is given. -/
def new (opts : List (ConfOption Φ V)) (mem : Φ → V) : ConfCtx Φ V :=
  ⟨opts, fun _ => false, opts.foldl (fun conf o => Function.update conf o.mem o.default) mem⟩

/-- The value of an option changes. -/
def set (o : ConfOption Φ V) (value : V) (ctx : ConfCtx Φ V) : ConfCtx Φ V :=
  { ctx with conf := Function.update ctx.conf o.mem value }

/-- An option is set for good. -/
def lock (i : ℕ) (ctx : ConfCtx Φ V) : ConfCtx Φ V :=
  { ctx with locked := Function.update ctx.locked i true }

/-- A callback parses into an option. -/
def parseInto (o : ConfOption Φ V) (parser : Parser V) (on : Bool) (arg : Option Str)
    (ctx : ConfCtx Φ V) : ℤ × ConfCtx Φ V :=
  let (ret, value) := parser.run on arg (ctx.conf o.mem)
  (ret, ctx.set o value)

/-- All afterchecks, with the error if there is one and the arguments that are left. -/
def check (args : Option (List Str)) (ctx : ConfCtx Φ V) :
    ℤ × Option (List Str) × ConfCtx Φ V :=
  let (ret, args, conf) := runChecks ctx.opts args ctx.conf
  (ret, args, { ctx with conf := conf })

/-- One round of the loop of `conf_ctx_parse_argv`. -/
def parseResult (result : GetoptResult) (ctx : ConfCtx Φ V) : ℤ × ConfCtx Φ V :=
  match result with
  | .missing | .unknown => (efault, ctx)
  | result =>
    match result.option ctx.opts with
    | none => (0, ctx)
    | some (i, o, on, arg) =>
      let (ret, ctx) := ctx.parseInto o o.type.parse on arg
      if ret ≠ 0 then (ret, ctx) else (0, ctx.lock i)

/-- The loop of `conf_ctx_parse_argv`. -/
def parseResults : List GetoptResult → ConfCtx Φ V → ℤ × ConfCtx Φ V
  | [], ctx => (0, ctx)
  | result :: results, ctx =>
    let (ret, ctx) := ctx.parseResult result
    if ret ≠ 0 then (ret, ctx) else parseResults results ctx

/-- `conf_ctx_parse_argv`. -/
def parseArgv (argv : List Str) (ctx : ConfCtx Φ V) : ℤ × ConfCtx Φ V :=
  let (results, operands) := getoptLong ctx.opts argv.length [] argv.tail
  let (ret, ctx) := ctx.parseResults results
  if ret ≠ 0 then (ret, ctx)
  else
    let (ret, rest, ctx) := ctx.check (some (operands.getD []))
    if ret < 0 then (ret, ctx) else if rest ≠ some [] then (efault, ctx) else (0, ctx)

/-- `parse_kv_pair`. -/
def parseKvPair (key : Str) (value : Option Str) (ctx : ConfCtx Φ V) : ℤ × ConfCtx Φ V :=
  match findKey ctx.opts key with
  | none => (eagain, ctx)
  | some (i, o, on) =>
    if ctx.locked i then (0, ctx)
    else
      match o.file with
      | some file => ctx.parseInto o file on value
      | none =>
        if o.type.hasArg ≠ value.isSome then (eagain, ctx)
        else ctx.parseInto o o.type.parse on value

/-- The loop of `parse_buffer`, over the entries of the buffer. -/
def parseEntries : List (Str × Option Str) → ConfCtx Φ V → ℤ × ConfCtx Φ V
  | [], ctx => (0, ctx)
  | (key, value) :: entries, ctx =>
    let (ret, ctx) := ctx.parseKvPair key value
    if ret ≠ 0 ∧ ret ≠ eagain then (ret, ctx) else parseEntries entries ctx

/-- `parse_buffer`. -/
def parseBuffer (buf : List UInt8) (ctx : ConfCtx Φ V) : ℤ × ConfCtx Φ V :=
  let (ret, ctx) := ctx.parseEntries (bufferEntries buf.length buf)
  if ret ≠ 0 then (ret, ctx)
  else
    let (ret, _, ctx) := ctx.check none
    (if ret < 0 then ret else 0, ctx)

/-- `conf_ctx_parse_file`. -/
def parseFile (file : ConfFile) (ctx : ConfCtx Φ V) : ℤ × ConfCtx Φ V :=
  match file with
  | .absent => (0, ctx)
  | .unreadable ret => (ret, ctx)
  | .content buf => ctx.parseBuffer buf

/-- One round of the first loop of `conf_ctx_parse_ctx`. -/
def copyOption (ctx src : ConfCtx Φ V) (i : ℕ) (d s : ConfOption Φ V) : ℤ × ConfCtx Φ V :=
  if d.type.id ≠ s.type.id ∨ ctx.locked i = true then (0, ctx)
  else
    let ctx := if src.locked i then ctx.lock i else ctx
    let (ret, value) := d.type.copy (ctx.conf d.mem) (src.conf s.mem)
    let ctx := ctx.set d value
    if ret ≠ 0 then (ret, ctx)
    else
      match d.copy with
      | none => (0, ctx)
      | some copy =>
        let (ret, conf) := copy ctx.conf src.conf
        (ret, { ctx with conf := conf })

/-- The first loop of `conf_ctx_parse_ctx`, from option `i` on. -/
def copyOptions (ctx src : ConfCtx Φ V) : ℕ → List (ConfOption Φ V) → List (ConfOption Φ V) →
    ℤ × ConfCtx Φ V
  | i, d :: ds, s :: ss =>
    let (ret, ctx) := ctx.copyOption src i d s
    if ret ≠ 0 then (ret, ctx) else copyOptions ctx src (i + 1) ds ss
  | _, _, _ => (0, ctx)

/-- `conf_ctx_parse_ctx`. -/
def parseCtx (ctx src : ConfCtx Φ V) : ℤ × ConfCtx Φ V :=
  let (ret, ctx) := ctx.copyOptions src 0 ctx.opts src.opts
  if ret ≠ 0 then (ret, ctx)
  else
    let (ret, _, ctx) := ctx.check none
    (if ret < 0 then ret else 0, ctx)

end ConfCtx

/-! ### The loaders of `config.c` -/

/-- The options of `kmscon_conf_new`, what its loaders look at in `struct kmscon_conf_t`,
and how they read it. The option that a given mode disables is another one, and implies
nothing. -/
structure KmsconTable (Φ V : Type*) extends ConfTable Φ V where
  exit : Φ
  configdir : Φ
  mode : Φ
  useOriginalMode : Φ
  on : V → Bool
  off : V
  text : V → Option Str
  apart : mode ≠ useOriginalMode
  plain : ∀ o ∈ opts, ∀ on target value, o.aftercheck = some (.implies on target value) →
    o.mem ≠ useOriginalMode

namespace KmsconTable

variable {Φ V : Type*} [DecidableEq Φ] (table : KmsconTable Φ V)

/-- `conf->configdir` as `%s` prints it. -/
def dir (conf : Φ → V) : Str := (table.text (conf table.configdir)).getD (lit "(null)")

/-- The main file. -/
def mainFile (files : Str → ConfFile) (ctx : ConfCtx Φ V) : ConfFile :=
  files (table.dir ctx.conf ++ lit "/kmscon.conf")

/-- The file of a seat. -/
def seatFile (files : Str → ConfFile) (seat : Str) (ctx : ConfCtx Φ V) : ConfFile :=
  files (table.dir ctx.conf ++ lit "/" ++ seat ++ lit ".seat.conf")

/-- A given mode disables `use-original-mode`. -/
def preferMode (ctx : ConfCtx Φ V) : ConfCtx Φ V :=
  if table.on (ctx.conf table.useOriginalMode) && (table.text (ctx.conf table.mode)).isSome then
    { ctx with conf := Function.update ctx.conf table.useOriginalMode table.off }
  else ctx

/-- `kmscon_conf_load_main`. -/
def loadMain (files : Str → ConfFile) (argv : List Str) (ctx : ConfCtx Φ V) : ℤ × ConfCtx Φ V :=
  let (_, ctx) := ctx.parseArgv argv
  if table.on (ctx.conf table.exit) then (0, ctx)
  else
    let (ret, ctx) := ctx.parseFile (table.mainFile files ctx)
    if ret ≠ 0 then (ret, ctx) else (0, table.preferMode ctx)

/-- `kmscon_conf_load_seat`. -/
def loadSeat (files : Str → ConfFile) (main : ConfCtx Φ V) (seat : Str) (ctx : ConfCtx Φ V) :
    ℤ × ConfCtx Φ V :=
  let (ret, ctx) := ctx.parseCtx main
  if ret ≠ 0 then (ret, ctx) else ctx.parseFile (table.seatFile files seat ctx)

end KmsconTable

end Faceplate.Conf
