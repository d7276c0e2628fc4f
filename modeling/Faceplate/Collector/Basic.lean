import Faceplate.Feed.File

/-!
# The system collector

`faceplate_collector.c` gathers a few values and writes them as one text of
`key=value` lines. The sources it reads are arguments: the contents of two files,
the interface list, the hostname, and the output of `rauc status`. An output
buffer that a function fills on some paths only is passed in and returned.
-/

namespace Faceplate.Collector

open CString

/-- `token_ok`. -/
def tokenOk (s : List UInt8) (max : ℕ) : Bool :=
  Feed.charsOk (fun c => Feed.alnum c || c == 0x2e || c == 0x5f || c == 0x2d || c == 0x3a ||
    c == 0x2f) max s

/-- One `fgets` into a buffer of `cap` bytes: the bytes up to and with a newline,
but at most `cap - 1`. -/
def fgets (cap : ℕ) (content : List UInt8) : List UInt8 × List UInt8 :=
  let line := content.takeWhile (· ≠ 0x0a)
  let n := min (cap - 1) (min (line.length + 1) content.length)
  (content.take n, content.drop n)

/-- `value[strcspn(value, "\r\n")] = '\0'`. -/
def cutLine (s : List UInt8) : List UInt8 := s.takeWhile fun c => c ≠ 0x0d && c ≠ 0x0a

/-- A value between double quotes loses them. -/
def unquote (value : List UInt8) : List UInt8 :=
  match value with
  | 0x22 :: rest =>
    match strrchr 0x22 rest with
    | some (inner, _) => inner
    | none => rest
  | _ => value

/-- Copy a token into a buffer of `cap` bytes, or leave the buffer. -/
def store (max cap : ℕ) (value out : List UInt8) : List UInt8 :=
  if tokenOk value max ∧ value.length < cap then value else out

/-- The loop of `os_image`; the content itself bounds the number of lines. -/
def osImageLoop : ℕ → List UInt8 → List UInt8 → ℕ → List UInt8
  | 0, _, out, _ => out
  | rounds + 1, content, out, cap =>
    if content.isEmpty then out
    else
      let (line, rest) := fgets 256 content
      match stripPrefix (lit "VERSION_ID=") (cstr line) with
      | none => osImageLoop rounds rest out cap
      | some value => store 63 cap (unquote (cutLine value)) out

/-- `os_image`; `none` if the file cannot be opened. -/
def osImage (osRelease : Option (List UInt8)) (out : List UInt8) (cap : ℕ) : List UInt8 :=
  match osRelease with
  | none => out
  | some content => osImageLoop content.length content out cap

/-- `build_channel`. -/
def buildChannel (file : Option (List UInt8)) (out : List UInt8) (cap : ℕ) : List UInt8 :=
  match file with
  | none => out
  | some content =>
    if content.isEmpty then out else store 31 cap (cutLine (cstr (fgets 64 content).1)) out

/-- An entry of `getifaddrs`: the name, and the address if it is an `AF_INET` one. -/
structure Interface where
  name : List UInt8
  inet : Option (UInt8 × UInt8 × UInt8 × UInt8)

/-- `inet_ntop` for `AF_INET`. -/
def dotted (a b c d : UInt8) : List UInt8 :=
  decimal a.toNat ++ lit "." ++ decimal b.toNat ++ lit "." ++ decimal c.toNat ++ lit "." ++
    decimal d.toNat

/-- `primary_ip`; `none` if the interfaces cannot be listed. -/
def primaryIp (interfaces : Option (List Interface)) (out : List UInt8) (cap : ℕ) : List UInt8 :=
  let addresses := (interfaces.getD []).filterMap fun it =>
    if it.name = lit "lo" then none
    else
      match it.inet with
      | none => none
      | some (a, b, c, d) => if (dotted a b c d).length < cap then some (dotted a b c d) else none
  addresses.head?.getD out

/-- `device_hostname`; the buffer of `gethostname` is cut at its last byte. -/
def deviceHostname (hostname : Option (List UInt8)) (out : List UInt8) (cap : ℕ) : List UInt8 :=
  match hostname with
  | none => out
  | some buf => store 63 cap (cstr (buf.take 255)) out

/-- The search loop of `json_token_in`: the bytes behind the first needle that is
followed by at least one more byte. -/
def jsonFind (needle : List UInt8) : List UInt8 → Option (List UInt8)
  | [] => none
  | c :: rest =>
    if (c :: rest).length ≤ needle.length then none
    else
      match stripPrefix needle (c :: rest) with
      | some found => some found
      | none => jsonFind needle rest

/-- The string value of a key, as far as `json_token_in` gets before it checks
the characters: up to the next quote, and short enough for the buffer. -/
def jsonString (text : List UInt8) (key : List UInt8) (cap : ℕ) : Option (List UInt8) :=
  match jsonFind (lit "\"" ++ key ++ lit "\":\"") text with
  | none => none
  | some found =>
    match strchr 0x22 found with
    | none => none
    | some (value, _) => if cap ≤ value.length then none else some value

/-- `json_token_in`: the result and the buffer. The buffer is filled before the
characters are checked. -/
def jsonTokenIn (text : List UInt8) (key : List UInt8) (out : List UInt8) (cap : ℕ) :
    Bool × List UInt8 :=
  match jsonString text key cap with
  | none => (false, out)
  | some value => (tokenOk value (cap - 1), value)

/-- `strstr`: what stands before the first occurrence, and the text from it on. -/
def strstr (needle : List UInt8) : List UInt8 → Option (List UInt8 × List UInt8)
  | [] => none
  | c :: rest =>
    if needle.isPrefixOf (c :: rest) then some ([], c :: rest)
    else (strstr needle rest).map fun (before, found) => (c :: before, found)

/-- The brace-counting loop of `rauc_booted_slot_range`: the text up to the brace
that closes the first one. -/
def closeBrace : ℕ → List UInt8 → Option (List UInt8)
  | _, [] => none
  | depth, c :: rest =>
    if c = 0x7b then (closeBrace (depth + 1) rest).map (c :: ·)
    else if c = 0x7d then
      if depth = 1 then some [c] else (closeBrace (depth - 1) rest).map (c :: ·)
    else (closeBrace depth rest).map (c :: ·)

/-- `rauc_booted_slot_range`: the text from the last opening brace before the
mark to the brace that closes it. -/
def raucBootedSlotRange (json : List UInt8) : Option (List UInt8) :=
  match strstr (lit "\"state\":\"booted\"") json with
  | none => none
  | some (before, mark) =>
    match strrchr 0x7b before with
    | none => none
    | some (_, inner) => closeBrace 0 (0x7b :: inner ++ mark)

/-- The three buffers of `rauc_status`. -/
structure Rauc where
  slot : List UInt8
  image : List UInt8
  boot : List UInt8
  deriving DecidableEq, Repr

/-- The part of `rauc_status` behind the read loop, on the text that was read. -/
def raucParse (json : List UInt8) : Rauc :=
  let (ok, slot) := jsonTokenIn json (lit "booted") [] 32
  let slot := if ok then slot else []
  match raucBootedSlotRange json with
  | none => ⟨slot, [], []⟩
  | some obj =>
    let slot := if slot.isEmpty then (jsonTokenIn obj (lit "bootname") slot 32).2 else slot
    let boot := (jsonTokenIn obj (lit "boot_status") [] 24).2
    let image := (jsonTokenIn obj (lit "version") [] 64).2
    ⟨slot, image, boot⟩

/-- The text `rauc_status` works on: what the command wrote, cut at the size of
the buffer and at its first NUL. -/
def raucText (output : List UInt8) : List UInt8 := cstr (output.take 8191)

/-- `rauc_status`; `none` unless the command ran and succeeded. -/
def raucStatus (output : Option (List UInt8)) : Rauc :=
  match output with
  | none => ⟨[], [], []⟩
  | some output => if output.isEmpty then ⟨[], [], []⟩ else raucParse (raucText output)

/-- Everything the collector looks at. -/
structure Inputs where
  osRelease : Option (List UInt8)
  channelFile : Option (List UInt8)
  interfaces : Option (List Interface)
  hostname : Option (List UInt8)
  rauc : Option (List UInt8)
  /-- The value of `uptime_seconds`. -/
  uptime : UInt64
  /-- `adjtimex` succeeded without `STA_UNSYNC`. -/
  synced : Bool
  /-- The value of `boottime_ms`. -/
  boottime : UInt64

namespace Inputs

/-- The variable `host` of `main`. -/
def host (i : Inputs) : List UInt8 := deviceHostname i.hostname (lit "unknown") 64

/-- The variable `image` of `main`. -/
def image (i : Inputs) : List UInt8 := osImage i.osRelease (lit "unknown") 64

/-- The variable `ip` of `main`. -/
def ip (i : Inputs) : List UInt8 := primaryIp i.interfaces (lit "unknown") 48

/-- The variable `channel` of `main`. -/
def channel (i : Inputs) : List UInt8 := buildChannel i.channelFile [] 32

/-- The `rauc_slot`, `rauc_image` and `rauc_boot` variables of `main`. -/
def raucVars (i : Inputs) : Rauc := raucStatus i.rauc

end Inputs

/-- The lines of the snapshot behind its header, as keys and values. -/
def fields (i : Inputs) : List (List UInt8 × List UInt8) :=
  [(lit "hostname", i.host), (lit "os_image", i.image),
    (lit "uptime_seconds", decimal i.uptime.toNat),
    (lit "clock_synced", if i.synced then lit "yes" else lit "unknown"),
    (lit "primary_ip", i.ip)] ++
  (if i.channel.isEmpty then [] else [(lit "build_channel", i.channel)]) ++
  (if i.raucVars.slot.isEmpty then []
    else
      [(lit "rauc_slot", i.raucVars.slot)] ++
      (if i.raucVars.image.isEmpty then [] else [(lit "rauc_image", i.raucVars.image)]) ++
      [(lit "rauc_boot", if i.raucVars.boot.isEmpty then lit "unknown" else i.raucVars.boot)]) ++
  [(lit "updated_boottime_ms", decimal i.boottime.toNat)]

/-- One line of the snapshot without its newline. -/
def fieldLine (field : List UInt8 × List UInt8) : List UInt8 := field.1 ++ 0x3d :: field.2

/-- All lines of the snapshot. -/
def snapshotLines (i : Inputs) : List (List UInt8) :=
  lit "FACEPLATE_SYSTEM_V1" :: (fields i).map fieldLine

/-- `main` up to `write_snapshot`: the text, unless it would not fit into the
`data` buffer. An append is skipped only after the text has outgrown the buffer,
and then nothing is written. -/
def main (i : Inputs) : Option (List UInt8) :=
  let data := (snapshotLines i).flatMap (· ++ [0x0a])
  if 1024 ≤ data.length then none else some data

end Faceplate.Collector
