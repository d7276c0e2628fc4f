import Faceplate.Collector.Basic
import Faceplate.Misc.AddrBook

/-!
# The escapes of the issue text

In the issue text a backslash and a letter stand for something the system knows: a name of
the kernel, the date, the terminal, a field of `os-release`, a color, an address. Some of
them have a parameter.
-/

namespace Faceplate.Misc

open CString
open Collector (fgets)

/-- What the system knows while the text is expanded: `struct utsname` (cleared if `uname`
fails), the date and the time as `strftime` prints them (empty if there is no local time),
the name of the terminal, the files with the fields of the system, and the addresses of the
interfaces, if they can be had. -/
structure IssueFacts where
  sysname : CharArray 65
  nodename : CharArray 65
  release : CharArray 65
  version : CharArray 65
  machine : CharArray 65
  domainname : CharArray 65
  datebuf : CharArray 64
  timebuf : CharArray 64
  ptyName : Str
  etcOsRelease : Option (List UInt8)
  usrLibOsRelease : Option (List UInt8)
  genBook : Option AddrBook

/-- Ways to fail: an access outside of the text, a loop that does not end within the rounds
it is given, and the list of addresses, which is written or read outside of its buffer. -/
inductive IssueFault where
  | outside
  | unended
  | list
  deriving DecidableEq

/-! ## Fields of the system -/

/-- The value of a field, without its newline and the quotes around it. -/
def osReleaseValue (val : List UInt8) : List UInt8 :=
  let val := if val.getLast? = some 0x0a then val.dropLast else val
  if 2 ≤ val.length ∧ val.head? = some 0x22 ∧ val.getLast? = some 0x22 then val.tail.dropLast
  else val

/-- The loop over the lines; the content itself bounds their number. -/
def osReleaseLoop (field : List UInt8) : ℕ → List UInt8 → Option (List UInt8)
  | 0, _ => none
  | rounds + 1, content =>
    if content.isEmpty then none
    else
      let (line, rest) := fgets 512 content
      match stripPrefix (field ++ lit "=") (cstr line) with
      | none => osReleaseLoop field rounds rest
      | some val => some (osReleaseValue val)

/-- `read_os_release_field`. -/
def readOsReleaseField (facts : IssueFacts) (field : List UInt8) : Option (List UInt8) :=
  match facts.etcOsRelease <|> facts.usrLibOsRelease with
  | none => none
  | some content =>
    if field.length ≥ 512 then none else osReleaseLoop field content.length content

/-! ## Colors -/

/-- `basic_schemes`, sorted by name. -/
def basicSchemes : List (List UInt8 × List UInt8) :=
  [("black", "[30m"), ("blink", "[5m"), ("blue", "[34m"), ("bold", "[1m"), ("brown", "[33m"),
    ("cyan", "[36m"), ("darkgray", "[1;30m"), ("gray", "[37m"), ("green", "[32m"),
    ("halfbright", "[2m"), ("lightblue", "[1;34m"), ("lightcyan", "[1;36m"),
    ("lightgray", "[37m"), ("lightgreen", "[1;32m"), ("lightmagenta", "[1;35m"),
    ("lightred", "[1;31m"), ("magenta", "[35m"), ("red", "[31m"), ("reset", "[0m"),
    ("reverse", "[7m"), ("white", "[1;37m"), ("yellow", "[1;33m")].map fun (name, seq) =>
      (lit name, lit seq)

-- `bsearch` finds a name that is there: they are sorted as `strcmp` compares them.
example : (basicSchemes.map Prod.fst).Pairwise (· < ·) := by decide +kernel

/-- `color_sequence_from_colorname`. -/
def colorSequenceFromColorname (str : List UInt8) : Option (List UInt8) :=
  basicSchemes.lookup str

/-! ## Addresses -/

/-- One round of the search for the best address. -/
def betterIp (best : Option IpAddr) (ip : IpAddr) : Option IpAddr :=
  match best with
  | none => some ip
  | some best =>
    if best.quality.rank > ip.quality.rank then some best
    else if best.quality = ip.quality ∧ best.valid > ip.valid then some best
    else some ip

/-- `issue_network_get_best_ip`. -/
def issueNetworkGetBestIp (book : AddrBook) (interface : List UInt8) (ipv6 : Bool) :
    Option (List UInt8) :=
  let head := if ipv6 then book.ipv6 else book.ipv4
  let best := head.foldl (fun best ip =>
    if !interface.isEmpty ∧ ip.interface.text ≠ interface then best else betterIp best ip) none
  best.map (·.addr.text)

/-- The string at the front of memory of which not every byte is written. -/
def readString : List (Option UInt8) → Except IssueFault (List UInt8)
  | some c :: mem => if c = 0 then .ok [] else (readString mem).map (c :: ·)
  | _ => .error .list

/-- `expand_all_ip`. -/
def expandAllIp (facts : IssueFacts) (filter : Bool) : Except IssueFault (List UInt8) :=
  match facts.genBook with
  | none => .ok []
  | some book =>
    match issueNetworkGetAllIp book filter with
    | none => .error .list
    | some p => readString p.out

/-! ## The escapes without a parameter, and what the others print -/

/-- The name of the terminal without its directory. -/
def ttyShort (facts : IssueFacts) : List UInt8 :=
  (stripPrefix (lit "/dev/") facts.ptyName.bytes).getD facts.ptyName.bytes

/-- What `expand_os_release` prints. -/
def osReleaseText (facts : IssueFacts) (param : Option (List UInt8)) : List UInt8 :=
  (readOsReleaseField facts ((param.map cstr).getD (lit "PRETTY_NAME"))).getD []

/-- What `expand_color` prints. -/
def colorText (param : Option (List UInt8)) : List UInt8 :=
  0x1b :: (param.bind fun name => colorSequenceFromColorname (cstr name)).getD []

/-- What `expand_ip` prints; without a parameter the name of the interface is empty. -/
def ipText (facts : IssueFacts) (ipv6 : Bool) (param : Option (List UInt8)) : List UInt8 :=
  (facts.genBook.bind fun book =>
    issueNetworkGetBestIp book ((param.map cstr).getD []) ipv6).getD []

end Faceplate.Misc
