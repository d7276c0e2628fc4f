import Faceplate.Collector.Basic
import Faceplate.Misc.Strtod

/-!
# Loading an asciicast

`asciinema.c` reads a recorded session: a header line with the version, and a line for
each event with its time, its kind and its text. Only output events are kept, each
with the delay since the one before. Version 2 gives absolute times and version 3
intervals. `tsm_ucs4_to_utf8` of the terminal library is a parameter.
-/

namespace Faceplate.Misc

open CString
open Collector (strstr)

/-- The errors of the loader. -/
inductive Failure where
  | inval
  | noSpace
  | tooBig
  | noData
  deriving DecidableEq, Repr

/-- `ASCIINEMA_MAX_LINE`. -/
def maxLine : ℕ := 256 * 1024

/-- `ASCIINEMA_MAX_OUTPUT`. -/
def maxOutput : ℕ := 2 * 1024 * 1024

/-- `ASCIINEMA_MAX_EVENTS`. -/
def maxEvents : ℕ := 16384

/-- `struct asciinema_event`. -/
structure AsciinemaEvent where
  delayNs : ℕ
  data : List UInt8
  deriving DecidableEq, Repr

/-- `skip_ws`. -/
def skipWs (p : List UInt8) : List UInt8 := p.dropWhile isSpace

/-- `parse_hex4`. -/
def parseHex4 : List UInt8 → Option ℕ
  | a :: b :: c :: d :: _ =>
    match hexDigit? a, hexDigit? b, hexDigit? c, hexDigit? d with
    | some a, some b, some c, some d => some (16 * (16 * (16 * a + b) + c) + d)
    | _, _, _, _ => none
  | _ => none

section Strings

variable (utf8 : ℕ → List UInt8)

/-- `append_utf8` on a buffer of `alloc` bytes. -/
def appendUtf8 (alloc : ℕ) (dst : List UInt8) (cp : ℕ) : Except Failure (List UInt8) :=
  if 0x10ffff < cp then .error .inval
  else if (utf8 cp).isEmpty || 4 < (utf8 cp).length then .error .inval
  else if alloc < dst.length + (utf8 cp).length then .error .noSpace
  else .ok (dst ++ utf8 cp)

/-- The escapes of one letter. -/
def simpleEscape (c : UInt8) : Option UInt8 :=
  if c = 0x22 || c = 0x5c || c = 0x2f then some c
  else if c = 0x62 then some 8
  else if c = 0x66 then some 12
  else if c = 0x6e then some 10
  else if c = 0x72 then some 13
  else if c = 0x74 then some 9
  else none

/-- A code unit and the low surrogate that may follow it; `none` for a bad digit. -/
def joinSurrogate (cp : ℕ) (pos : List UInt8) : Option (ℕ × List UInt8) :=
  match pos with
  | 0x5c :: 0x75 :: rest =>
    if 0xd800 ≤ cp && cp ≤ 0xdbff then
      match parseHex4 rest with
      | none => none
      | some low =>
        if 0xdc00 ≤ low && low ≤ 0xdfff then
          some (0x10000 + (cp - 0xd800) * 2 ^ 10 + (low - 0xdc00), rest.drop 4)
        else some (cp, pos)
    else some (cp, pos)
  | _ => some (cp, pos)

/-- The decoding loop of `parse_json_string`, in at most so many rounds. -/
def decodeString (alloc : ℕ) :
    ℕ → List UInt8 → List UInt8 → Except Failure (List UInt8 × List UInt8)
  | 0, pos, dst => .ok (dst, pos)
  | _ + 1, [], dst => .ok (dst, [])
  | rounds + 1, c :: pos, dst =>
    if c = 0x22 then .ok (dst, c :: pos)
    else if c ≠ 0x5c then
      if alloc < dst.length + 1 then .error .noSpace
      else decodeString alloc rounds pos (dst ++ [c])
    else
      match pos with
      | [] => .error .inval
      | e :: pos =>
        match simpleEscape e with
        | some b => decodeString alloc rounds pos (dst ++ [b])
        | none =>
          if e ≠ 0x75 then .error .inval
          else
            match (parseHex4 pos).bind fun cp => joinSurrogate cp (pos.drop 4) with
            | none => .error .inval
            | some (cp, pos) =>
              match appendUtf8 utf8 alloc dst cp with
              | .error e => .error e
              | .ok dst => decodeString alloc rounds pos dst

/-- The sizing loop of `parse_json_string`: how far the closing quote is. -/
def closingQuote : List UInt8 → Option ℕ
  | [] => none
  | c :: rest =>
    if c = 0x22 then some 0
    else if c = 0x5c then
      match rest with
      | [] => none
      | _ :: rest => (closingQuote rest).map (· + 2)
    else (closingQuote rest).map (· + 1)

/-- `parse_json_string`: the string and what follows it. -/
def parseJsonString (s : List UInt8) : Except Failure (List UInt8 × List UInt8) :=
  match skipWs s with
  | 0x22 :: src =>
    match closingQuote src with
    | none => .error .inval
    | some len =>
      match decodeString utf8 (len + 1) src.length src [] with
      | .error e => .error e
      | .ok (dst, pos) => .ok (dst, pos.drop 1)
  | _ => .error .inval

/-- The kind and the text of an event, from the comma behind its time. -/
def parseStrings (s : List UInt8) : Except Failure (List UInt8 × List UInt8) :=
  match skipWs s with
  | 0x2c :: pos =>
    match parseJsonString utf8 pos with
    | .error e => .error e
    | .ok (code, pos) =>
      match skipWs pos with
      | 0x2c :: pos =>
        match parseJsonString utf8 pos with
        | .error e => .error e
        | .ok (data, _) => .ok (code, data)
      | _ => .error .inval
  | _ => .error .inval

end Strings

/-- `(int)strtol(p, NULL, 10)`. -/
def strtolInt (p : List UInt8) : ℤ :=
  let (negative, body) := scanSign (p.dropWhile isSpace)
  let n : ℤ := digitsValue (body.takeWhile isDigit)
  let long := if negative then max (-n) (-2 ^ 63) else min n (2 ^ 63 - 1)
  (long + 2 ^ 31) % 2 ^ 32 - 2 ^ 31

/-- `parse_header_version`; `none` for `-EINVAL`. -/
def parseHeaderVersion (line : List UInt8) : Option ℤ :=
  match strstr (lit "\"version\"") line with
  | none => none
  | some (_, p) => (strchr 0x3a p).map fun (_, p) => strtolInt (skipWs p)

/-- `sec < 0`. -/
def Double.isNegative : Double → Bool
  | .finite q => q < 0
  | .infinite negative => negative
  | .nan => false

/-- `sec_to_ns`. The conversion of a NaN is undefined; this is what the processor
makes of it. -/
def secToNs (R : Rounding) : Double → ℕ
  | .finite sec => if sec ≤ 0 then 0 else ⌊R.round (min sec 3600 * 10 ^ 9)⌋₊
  | .infinite negative => if negative then 0 else ⌊R.round (3600 * 10 ^ 9)⌋₊
  | .nan => 2 ^ 63

/-- The state of the loader: the events kept, their bytes, and the two clocks. -/
structure Loader where
  events : List AsciinemaEvent
  totalOutput : ℕ
  lastOutputTime : Double
  pendingInterval : Double
  deriving DecidableEq

/-- `add_event`. -/
def addEvent (player : Loader) (delayNs : ℕ) (data : List UInt8) : Except Failure Loader :=
  if maxEvents ≤ player.events.length then .error .tooBig
  else if maxOutput < data.length || maxOutput - data.length < player.totalOutput then
    .error .tooBig
  else .ok { player with
    events := player.events ++ [⟨delayNs, data⟩], totalOutput := player.totalOutput + data.length }

/-- What `parse_event_line` does with an event at `t`. -/
def applyEvent (R : Rounding) (version : ℤ) (player : Loader) (t : Double)
    (code data : List UInt8) : Except Failure Loader :=
  if code ≠ lit "o" then
    if version = 3 then
      .ok { player with pendingInterval := player.pendingInterval.add R t }
    else .ok player
  else if version = 3 then
    addEvent { player with pendingInterval := .finite 0 }
      (secToNs R (player.pendingInterval.add R t)) data
  else
    let delaySec := t.sub R player.lastOutputTime
    addEvent { player with lastOutputTime := t }
      (secToNs R (if delaySec.isNegative then .finite 0 else delaySec)) data

section Load

variable (R : Rounding) (utf8 : ℕ → List UInt8)

/-- `parse_event_line`. -/
def parseEventLine (version : ℤ) (player : Loader) (line : List UInt8) :
    Except Failure Loader :=
  match skipWs line with
  | 0x5b :: pos =>
    let (t, pos, outOfRange) := strtod R pos
    if outOfRange then .error .inval
    else
      match parseStrings utf8 pos with
      | .error e => .error e
      | .ok (code, data) => applyEvent R version player t code data
  | _ => .ok player

/-- `getline`. -/
def getline (content : List UInt8) : Option (List UInt8 × List UInt8) :=
  if content.isEmpty then none
  else
    let len := min ((content.takeWhile (· ≠ 0x0a)).length + 1) content.length
    some (content.take len, content.drop len)

/-- The loop of `kmscon_asciinema_new` over the lines, in at most so many rounds. -/
def loadLines (version : ℤ) : ℕ → List UInt8 → Loader → Except Failure Loader
  | 0, _, player => .ok player
  | rounds + 1, content, player =>
    match getline content with
    | none => .ok player
    | some (line, content) =>
      if maxLine < line.length then .error .tooBig
      else if version = 3 ∧ line.head? = some 0x23 then loadLines version rounds content player
      else
        match parseEventLine R utf8 version player (cstr line) with
        | .error e => .error e
        | .ok player => loadLines version rounds content player

/-- `kmscon_asciinema_new` on a file that can be opened: the events of the player. -/
def asciinemaNew (content : List UInt8) : Except Failure (List AsciinemaEvent) :=
  match getline content with
  | none => .error .inval
  | some (line, content) =>
    if maxLine < line.length then .error .tooBig
    else
      match parseHeaderVersion (cstr line) with
      | none => .error .inval
      | some version =>
        if version ≠ 2 ∧ version ≠ 3 then .error .inval
        else
          match loadLines R utf8 version content.length content
              ⟨[], 0, .finite 0, .finite 0⟩ with
          | .error e => .error e
          | .ok player => if player.events.isEmpty then .error .noData else .ok player.events

end Load

end Faceplate.Misc
