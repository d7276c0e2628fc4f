import Mathlib.Data.List.Basic
import Mathlib.Data.Nat.Notation
import Faceplate.Lib.Runs

/-!
# Seats

A seat owns the sessions, displays and video devices of one virtual terminal. It
attaches displays to the terminals of its sessions, switches between the sessions
and follows the VT. Of a terminal it uses four functions, so a terminal is here
its awake flag and the displays of its screens. Callbacks of the video layer that
arrive inside a call are part of the event.
-/

namespace Faceplate

/-- What a seat sees of a terminal. -/
structure Term where
  awake : Bool
  screens : List ℕ
  deriving DecidableEq, Repr

namespace Term

/-- A new terminal. -/
def new : Term := ⟨false, []⟩

/-- `terminal_activate`. -/
def activate (term : Term) : Term :=
  if term.screens.isEmpty then term else { term with awake := true }

/-- `terminal_deactivate`. -/
def deactivate (term : Term) : Term := { term with awake := false }

/-- `terminal_add_display`; `ok` tells whether a screen can be set up. -/
def addDisplay (d : ℕ) (ok : Bool) (term : Term) : Term :=
  if d ∈ term.screens then term
  else if ok then { term with screens := d :: term.screens } else term

/-- `terminal_rm_display`. -/
def rmDisplay (d : ℕ) (term : Term) : Term :=
  { term with screens := term.screens.filter (· ≠ d) }

end Term

/-- `struct kmscon_session`. -/
structure Session where
  id : ℕ
  foreground : Bool
  term : Term
  deriving DecidableEq, Repr

/-- `struct kmscon_display`, with the video device it belongs to. -/
structure Shown where
  disp : ℕ
  video : ℕ
  activated : Bool
  deriving DecidableEq, Repr

/-- `struct kmscon_video`; `up` tells whether `video` is set. -/
structure VideoDev where
  id : ℕ
  up : Bool
  deriving DecidableEq, Repr

/-- The configuration of a seat as far as the handlers read it. -/
structure SeatConf where
  /-- `dpms_timeout` is not zero, and the timer could be created. -/
  dpms : Bool
  sessionControl : Bool
  sessionMax : ℕ
  deriving DecidableEq, Repr

/-- What the video layer does to a seat: displays come and go, and their state
becomes `DISPLAY_ACTIVE` or something else. -/
inductive VideoAct where
  | newDisplay (d video : ℕ) (active : Bool)
  | removeDisplay (d : ℕ)
  | state (d : ℕ) (active : Bool)
  deriving DecidableEq, Repr

/-- What is outside during one handler of a seat. -/
structure SeatEnv where
  /-- The callbacks while video devices are set up and woken. -/
  acts : List VideoAct
  /-- `seat_video_init` works for this device. -/
  inits : ℕ → Bool
  /-- The `KMSCON_SEAT_WAKE_UP` callback agrees. -/
  wakes : Bool
  /-- A session and its terminal can be allocated. -/
  newTerm : Bool
  /-- `uterm_vt_restore` works. -/
  restore : Bool

/-- `struct kmscon_seat`. Sessions are known by a number; `active` is the state of
each display in the video layer. -/
structure Seat where
  conf : SeatConf
  sessions : List Session
  displays : List Shown
  videos : List VideoDev
  awake : Bool
  foreground : Bool
  current : Option ℕ
  dpmsBlanked : Bool
  active : ℕ → Bool
  nextId : ℕ

namespace Seat

/-- Apply a function to the terminal of one session. -/
def onTerm (id : ℕ) (f : Term → Term) (seat : Seat) : Seat :=
  { seat with
    sessions := seat.sessions.map fun s => if s.id = id then { s with term := f s.term } else s }

/-- Apply a function to the terminal of the current session. -/
def onCurrent (f : Term → Term) (seat : Seat) : Seat :=
  { seat with
    sessions := seat.sessions.map fun s =>
      if seat.current = some s.id then { s with term := f s.term } else s }

/-- Apply a function to the terminals of all sessions. -/
def onTerms (f : ℕ → Term → Term) (seat : Seat) : Seat :=
  { seat with sessions := seat.sessions.map fun s => { s with term := f s.id s.term } }

/-- `seat_dpms_reset_timer`; the DPMS state of the displays is left out. -/
def dpmsResetTimer (seat : Seat) : Seat :=
  if !seat.conf.dpms then seat
  else if seat.dpmsBlanked then { seat.onCurrent Term.activate with dpmsBlanked := false }
  else seat

/-- Set the mark of a display. -/
def markActivated (d : ℕ) (seat : Seat) : Seat :=
  { seat with
    displays := seat.displays.map fun shown =>
      if shown.disp = d then { shown with activated := true } else shown }

variable (adds : ℕ → ℕ → Bool) (env : SeatEnv)

/-- `activate_display`. -/
def activateDisplay (seat : Seat) (d : ℕ) : Seat :=
  match seat.displays.find? (·.disp = d) with
  | none => seat
  | some shown =>
    if shown.activated || !seat.awake || !seat.foreground then seat
    else if seat.active d then
      let seat := (seat.markActivated d).dpmsResetTimer
      let seat := seat.onTerms fun id term => term.addDisplay d (adds id d)
      seat.onCurrent Term.activate
    else seat

/-- Whether a terminal holds a screen on a display. -/
def held (seat : Seat) (d : ℕ) : Bool := seat.sessions.any (d ∈ ·.term.screens)

/-- A display that the seat has, or a screen of its terminals. -/
def known (seat : Seat) (d : ℕ) : Bool := seat.displays.any (·.disp = d) || seat.held d

/-- Set the state of a display. -/
def setActive (d : ℕ) (active : Bool) (seat : Seat) : Seat :=
  { seat with active := fun e => if e = d then active else seat.active e }

/-- Link a display. -/
def linkDisplay (shown : Shown) (seat : Seat) : Seat :=
  { seat with displays := shown :: seat.displays }

/-- Unlink a display. -/
def unlinkDisplay (d : ℕ) (seat : Seat) : Seat :=
  { seat with displays := seat.displays.filter (·.disp ≠ d) }

/-- `seat_new_display`. A new display is a new object, which nobody knows yet. -/
def seatNewDisplay (d video : ℕ) (active : Bool) (seat : Seat) : Seat :=
  if seat.known d then seat
  else ((seat.setActive d active).linkDisplay ⟨d, video, false⟩).activateDisplay adds d

/-- `_seat_remove_display`. -/
def removeShown (shown : Shown) (seat : Seat) : Seat :=
  let seat := seat.unlinkDisplay shown.disp
  if shown.activated then seat.onTerms fun _ term => term.rmDisplay shown.disp else seat

/-- `seat_remove_display`. -/
def seatRemoveDisplay (d : ℕ) (seat : Seat) : Seat :=
  match seat.displays.find? (·.disp = d) with
  | none => seat
  | some shown => seat.removeShown shown

/-- One act of the video layer. -/
def videoAct (seat : Seat) : VideoAct → Seat
  | .newDisplay d video active => seat.seatNewDisplay adds d video active
  | .removeDisplay d => seat.seatRemoveDisplay d
  | .state d active => seat.setActive d active

/-- The start of `seat_go_foreground`, without the callbacks: devices that cannot be
set up are dropped. -/
def raise (seat : Seat) : Seat :=
  { seat with
    foreground := true
    videos := (seat.videos.filter fun vid => vid.up || env.inits vid.id).map
      ({ · with up := true }) }

/-- The last loop of `seat_go_foreground`. -/
def activateDisplays (seat : Seat) : Seat :=
  (seat.displays.map (·.disp)).foldl (activateDisplay adds) seat

/-- `seat_go_foreground`, with `true` for success. -/
def seatGoForeground (seat : Seat) : Bool × Seat :=
  if seat.foreground then (true, seat)
  else if !seat.awake then (false, seat)
  else
    (true, (env.acts.foldl (videoAct adds) (seat.raise env)).activateDisplays adds)

/-- `seat_go_background`, with `true` for success. The devices go to sleep, and no
display of a sleeping device is active. -/
def seatGoBackground (seat : Seat) : Bool × Seat :=
  if !seat.foreground then (true, seat)
  else if !seat.awake then (false, seat)
  else (true, { seat with foreground := false, active := fun _ => false })

/-- `seat_go_awake`, with `true` for success. -/
def seatGoAwake (seat : Seat) : Bool × Seat :=
  if seat.awake then (true, seat)
  else if !env.wakes then (false, seat)
  else (true, { seat with awake := true })

/-- `seat_go_asleep`. -/
def seatGoAsleep (seat : Seat) : Seat := { seat with awake := false }

/-- The foreground flag of a session. -/
def sessionForeground (seat : Seat) (id : ℕ) : Bool :=
  seat.sessions.any fun s => s.id = id && s.foreground

/-- The change of ground in `seat_switch`. -/
def followSession (id : ℕ) (seat : Seat) : Seat :=
  if seat.sessionForeground id && !seat.foreground then (seat.seatGoForeground adds env).2
  else if !seat.sessionForeground id && seat.foreground then seat.seatGoBackground.2
  else seat

/-- `seat_switch`. While the displays of the new session come up, `current_sess` is
still the old one. -/
def seatSwitch (new : Option ℕ) (seat : Seat) : Seat :=
  if seat.current = new then seat
  else
    let seat := seat.onCurrent Term.deactivate
    match new with
    | some id =>
      { (seat.followSession adds env id).onTerm id Term.activate with current := some id }
    | none => { seat.seatGoBackground.2 with current := none }

/-- The sessions in the order of the list. -/
def ids (seat : Seat) : List ℕ := seat.sessions.map (·.id)

/-- The choice of `seat_next`. -/
def nextSession (seat : Seat) : Option ℕ :=
  let next := seat.current.bind fun id => (seat.ids.dropWhile (· ≠ id)).tail.head?
  let next := next.or seat.ids.head?
  if next = seat.current then none else next

/-- The choice of `seat_prev`. -/
def prevSession (seat : Seat) : Option ℕ :=
  let prev := seat.current.bind fun id => (seat.ids.takeWhile (· ≠ id)).getLast?
  let prev := prev.or seat.ids.getLast?
  if prev = seat.current then none else prev

/-- The place of a new session, next to the current one. -/
def insertSession (s : Session) (current : Option ℕ) (sessions : List Session) : List Session :=
  match current with
  | none => sessions ++ [s]
  | some id =>
    sessions.takeWhile (·.id ≠ id) ++ (sessions.dropWhile (·.id ≠ id)).take 1 ++ [s] ++
      (sessions.dropWhile (·.id ≠ id)).drop 1

/-- The terminal of a new session: all displays of the seat are added to it. -/
def newTerm (seat : Seat) : Term :=
  (seat.displays.map (·.disp)).foldl (fun term d => term.addDisplay d (adds seat.nextId d)) Term.new

/-- Link a new session. -/
def linkSession (seat : Seat) : Seat :=
  { seat with
    sessions := insertSession ⟨seat.nextId, true, seat.newTerm adds⟩ seat.current seat.sessions
    nextId := seat.nextId + 1 }

/-- `kmscon_seat_new_session`, with the session. -/
def kmsconSeatNewSession (seat : Seat) : Option ℕ × Seat :=
  if seat.conf.sessionMax ≠ 0 && seat.conf.sessionMax ≤ seat.sessions.length then (none, seat)
  else if !env.newTerm then (none, seat)
  else (some seat.nextId, seat.linkSession adds)

/-- Unlink a session. -/
def unlinkSession (id : ℕ) (seat : Seat) : Seat :=
  { seat with sessions := seat.sessions.filter (·.id ≠ id) }

/-- `kmscon_session_unregister`. -/
def kmsconSessionUnregister (id : ℕ) (seat : Seat) : Seat :=
  let seat :=
    if seat.current = some id then
      let seat := seat.onCurrent Term.deactivate
      seat.seatSwitch adds env seat.nextSession
    else seat
  seat.unlinkSession id

/-- `seat_vt_activate`. -/
def seatVtActivate (seat : Seat) : Seat :=
  let (ok, seat) := seat.seatGoAwake env
  if !ok then seat
  else
    let (ok, seat) := seat.seatGoForeground adds env
    if !ok then seat else seat.onCurrent Term.activate

/-- `seat_vt_deactivate`. -/
def seatVtDeactivate (seat : Seat) : Seat :=
  let (ok, seat) := (seat.onCurrent Term.deactivate).seatGoBackground
  if !ok then seat else seat.seatGoAsleep

/-- `seat_dpms_timeout`. -/
def seatDpmsTimeout (seat : Seat) : Seat :=
  if !seat.conf.dpms || !seat.awake then seat
  else { seat.onCurrent Term.deactivate with dpmsBlanked := true }

/-- The key combinations of a seat. -/
inductive Grab where
  | sessionNext
  | sessionPrev
  | sessionClose
  | terminalNew
  deriving DecidableEq, Repr

/-- Close the current session. -/
def closeSession (seat : Seat) : Seat :=
  match seat.current with
  | none => seat
  | some id => seat.kmsconSessionUnregister adds env id

/-- Open a session and switch to it. -/
def openSession (seat : Seat) : Seat :=
  match seat.kmsconSeatNewSession adds env with
  | (none, seat) => seat
  | (some id, seat) => seat.seatSwitch adds env (some id)

/-- The action of a grab in `seat_input_event`, where sessions may be controlled. -/
def grabAction (seat : Seat) : Grab → Seat
  | .sessionNext =>
    if seat.sessions.length < 2 then seat else seat.seatSwitch adds env seat.nextSession
  | .sessionPrev =>
    if seat.sessions.length < 2 then seat else seat.seatSwitch adds env seat.prevSession
  | .sessionClose => if seat.sessions.length < 2 then seat else seat.closeSession adds env
  | .terminalNew => seat.openSession adds env

/-- `seat_input_event` for a key that nobody has handled. -/
def seatInputEvent (grab : Option Grab) (seat : Seat) : Seat :=
  let seat := seat.dpmsResetTimer
  if !seat.awake then seat
  else
    match grab with
    | none => seat
    | some grab => if !seat.conf.sessionControl then seat else seat.grabAction adds env grab

/-- `kmscon_seat_add_video` for a device that is not ignored. -/
def kmsconSeatAddVideo (id : ℕ) (seat : Seat) : Seat :=
  if !seat.awake then { seat with videos := ⟨id, false⟩ :: seat.videos }
  else
    let seat := env.acts.foldl (videoAct adds) seat
    if env.inits id then { seat with videos := ⟨id, true⟩ :: seat.videos } else seat

/-- Unlink a video device. -/
def unlinkVideo (id : ℕ) (seat : Seat) : Seat :=
  { seat with videos := seat.videos.filter (·.id ≠ id) }

/-- The loop of `kmscon_seat_remove_video`. -/
def removeDisplaysOf (id : ℕ) (seat : Seat) : Seat :=
  (seat.displays.filter (·.video = id)).foldl (fun seat shown => seat.removeShown shown) seat

/-- `kmscon_seat_remove_video`. -/
def kmsconSeatRemoveVideo (id : ℕ) (seat : Seat) : Seat :=
  if seat.videos.any fun vid => vid.id = id && vid.up then
    (seat.unlinkVideo id).removeDisplaysOf id
  else seat.unlinkVideo id

/-- Set the foreground flag of a session. -/
def setSessionForeground (id : ℕ) (foreground : Bool) (seat : Seat) : Seat :=
  { seat with
    sessions := seat.sessions.map fun s =>
      if s.id = id then { s with foreground := foreground } else s }

/-- `kmscon_session_set_foreground`. -/
def kmsconSessionSetForeground (id : ℕ) (seat : Seat) : Seat :=
  if seat.sessionForeground id then seat
  else if seat.current = some id && !seat.foreground then
    if !env.restore then seat
    else
      let (ok, seat) := seat.seatGoForeground adds env
      if !ok then seat else seat.setSessionForeground id true
  else seat.setSessionForeground id true

/-- `kmscon_session_set_background`. -/
def kmsconSessionSetBackground (id : ℕ) (seat : Seat) : Seat :=
  if !seat.sessionForeground id then seat
  else if seat.current = some id && seat.foreground then
    let (ok, seat) := seat.seatGoBackground
    if !ok then seat else seat.setSessionForeground id false
  else seat.setSessionForeground id false

/-- What happens to a seat. `key` is a key that no one else has handled with the
grab it matches, `pointer` a user action, `poll` a time at which the video layer
calls back on its own. -/
inductive Event where
  | vtActivate
  | vtDeactivate
  | dpmsTimeout
  | key (grab : Option Grab)
  | pointer
  | addVideo (id : ℕ)
  | removeVideo (id : ℕ)
  | poll
  | setForeground (id : ℕ)
  | setBackground (id : ℕ)
  deriving DecidableEq, Repr

/-- One event. -/
def step (seat : Seat) : SeatEnv × Event → Seat
  | (env, .vtActivate) => seat.seatVtActivate adds env
  | (_, .vtDeactivate) => seat.seatVtDeactivate
  | (_, .dpmsTimeout) => seat.seatDpmsTimeout
  | (env, .key grab) => seat.seatInputEvent adds env grab
  | (_, .pointer) => seat.dpmsResetTimer
  | (env, .addVideo id) => seat.kmsconSeatAddVideo adds env id
  | (_, .removeVideo id) => seat.kmsconSeatRemoveVideo id
  | (env, .poll) => env.acts.foldl (videoAct adds) seat
  | (env, .setForeground id) => seat.kmsconSessionSetForeground adds env id
  | (_, .setBackground id) => seat.kmsconSessionSetBackground id

/-- The seat after `kmscon_seat_startup`: one session, and no devices yet. -/
def init (conf : SeatConf) : Seat where
  conf := conf
  sessions := [⟨0, true, Term.new⟩]
  displays := []
  videos := []
  awake := false
  foreground := false
  current := some 0
  dpmsBlanked := false
  active _ := false
  nextId := 1

end Seat

end Faceplate
