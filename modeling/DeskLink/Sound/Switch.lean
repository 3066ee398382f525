import DeskLink.Sound.Session

/-!
# `DeskLink.Sound.Switch`: the handlers that start and stop sound

`handle_audio_message` and `audio_switch` of `src/device_links/webrtc/coordinator.rs`.
The phone's worker runs the one, for a message at a time, and the desk's commands
run the other. Each changes the session table and the sound pipelines in steps, and
the steps of the two mix in any order: `Worker` and `Desk` say which step comes
next, and `World.after` runs one.

A start switches what is sent or played, or fails. The end of the connection closes
the peer, which stops both ways, and drops the table's entry. `granted` keeps
whether the setting allowed the microphone when the session was asked for. The
notices to the desk are left out.
-/

set_option autoImplicit false

namespace DeskLink.Sound

/-- The next step of `handle_audio_message`. -/
inductive Worker where
  | idle
  | deny (id reason : String)
  /-- Whether the phone's own sound plays here. -/
  | checkBusy (id : String)
  | request (id : String) (source : Source)
  | startSend (id : String) (source : Source)
  | sendingStarted (id : String)
  /-- The start failed: `stop_audio_send`, and then the denial. -/
  | stopFailed (id : String)
  | sendingFailed (id : String)
  | ready (message : ControlMessage)
  | startPlayback (source : Source)
  | ended (message : ControlMessage)
  | stopSend
  | stopPlayback
deriving DecidableEq, Repr

/-- The next step of `audio_switch`. -/
inductive Desk where
  | idle
  | checkLoops (what : String) (on : Bool)
  /-- Sound both ways at once would loop: the other way stops. -/
  | quietOther (what : String)
  | stopOther (what : String)
  | quiet (sending : Bool)
  | stop (sending : Bool)
  /-- Whether the phone asked for it already. -/
  | checkSending
  | offer
  | sayReplaced (id : String) (stop : ControlMessage)
  | startSend (id : String)
  | startFailed
  | sendingStarted (id : String)
  /-- The connection has a sound section, or this fails. -/
  | checkNegotiated (source : Source)
  | ask (source : Source)
deriving DecidableEq, Repr

structure World where
  phone : Phone := {}
  /-- What goes to the phone. -/
  send : Option Source := none
  /-- What of the phone plays here. -/
  play : Option Source := none
  deskMicToPhone : Bool := false
  /-- The setting when the message in progress came. -/
  asked : Bool := false
  /-- The setting when this computer's sound was asked for. -/
  granted : Bool := false
  worker : Worker := .idle
  desk : Desk := .idle
  /-- The messages sent to the phone. -/
  sent : List ControlMessage := []
deriving DecidableEq, Repr

inductive Event where
  /-- A phone's message comes. -/
  | message (message : ControlMessage)
  /-- A switch at the desk is turned. -/
  | switch (what : String) (on : Bool)
  | setDeskMicToPhone (on : Bool)
  /-- A step of the worker. The start in it succeeds when `ok`. -/
  | worker (ok : Bool)
  /-- A step of the desk. The start in it succeeds, or its message goes out, when
  `ok`; `fresh` is a random id. -/
  | desk (ok : Bool) (fresh : String)
  /-- The connection ends. -/
  | close
deriving DecidableEq, Repr

namespace World

variable (world : World)

def say (messages : List ControlMessage) : World := { world with sent := world.sent ++ messages }

/-- The first step of a phone's message. The setting is read here. -/
def firstStep (message : ControlMessage) : Worker :=
  let id := message.remoteSessionId
  match message.kind with
  | .audioRequest =>
    -- The requester hears: this desk is never asked to hear.
    if message.audioDirection ≠ some deskToPhone then .deny id "unsupported"
    else
      match parseSource message.source with
      | .mic => if world.deskMicToPhone then .request id .mic else .deny id "declined"
      | .system => .checkBusy id
  | .audioReady => .ready message
  | .audioStop | .audioDenied => .ended message
  | .audioControl => .idle

def arrive (message : ControlMessage) : World :=
  { world with worker := world.firstStep message, asked := world.deskMicToPhone }

/-- `deny` under the lock, and its message. -/
def refuse (id reason : String) : World :=
  let (phone, denied) := world.phone.deny id reason
  { world with phone, worker := .idle }.say [denied]

/-- `sending_started` under the lock, and its message. -/
def started (id : String) : World :=
  let (phone, ready) := world.phone.sendingStarted id
  { world with phone }.say ready.toList

def workerStep (ok : Bool) : World :=
  match world.worker with
  | .idle => world
  | .deny id reason => world.refuse id reason
  | .checkBusy id =>
    -- Sending this computer's sound back would loop it.
    { world with
      worker := if world.phone.hearingSystem then .deny id "busy" else .request id .system }
  | .request id source =>
    { world with
      phone := world.phone.requested id source, worker := .startSend id source
      granted := world.asked }
  | .startSend id source =>
    if ok then { world with send := some source, worker := .sendingStarted id }
    else { world with send := none, worker := .stopFailed id }
  | .sendingStarted id => { world.started id with worker := .idle }
  | .stopFailed id => { world with send := none, worker := .sendingFailed id }
  | .sendingFailed id =>
    let (phone, denied) := world.phone.sendingFailed id
    { world with phone, worker := .idle }.say [denied]
  | .ready message =>
    let (phone, plays) := world.phone.ready message
    { world with phone, worker := plays.elim .idle .startPlayback }
  | .startPlayback source =>
    { world with play := if ok then some source else none, worker := .idle }
  | .ended message =>
    let (phone, ended) := world.phone.ended message
    { world with
      phone
      worker := match ended with
        | .stopSending => .stopSend
        | .stopHearing _ => .stopPlayback
        | .ignored => .idle }
  | .stopSend => { world with send := none, worker := .idle }
  | .stopPlayback => { world with play := none, worker := .idle }

/-- Stops what is sent, or what plays. -/
def hush (sending : Bool) : World :=
  if sending then { world with send := none } else { world with play := none }

/-- `stop` under the lock, and its message. -/
def stopSession (sending : Bool) : World :=
  let (phone, stop) := world.phone.stop sending
  { world with phone }.say stop.toList

/-- `desk-sound` is this computer's sound; the others are the phone's. -/
def isDeskSound (what : String) : Bool := what = "desk-sound"

/-- What a switch does once the other way is quiet. -/
def switched (what : String) (on : Bool) : Desk :=
  if !on then .quiet (isDeskSound what)
  else if isDeskSound what then .checkSending
  else .checkNegotiated (if what = "phone-mic" then .mic else .system)

def loops (what : String) : Bool :=
  if isDeskSound what then world.phone.hearingSystem
  else what = "phone-sound" && world.phone.sendingSystem

def deskStep (ok : Bool) (fresh : String) : World :=
  match world.desk with
  | .idle => world
  | .checkLoops what on =>
    { world with desk := if on && world.loops what then .quietOther what else switched what on }
  | .quietOther what => { world.hush (!isDeskSound what) with desk := .stopOther what }
  | .stopOther what =>
    if (world.phone.stop (!isDeskSound what)).2.isSome && !ok then
      { world with phone := (world.phone.stop (!isDeskSound what)).1, desk := .idle }
    else { world.stopSession (!isDeskSound what) with desk := switched what true }
  | .quiet sending => { world.hush sending with desk := .stop sending }
  | .stop sending => { world.stopSession sending with desk := .idle }
  | .checkSending => { world with desk := if world.phone.sendingSystem then .idle else .offer }
  | .offer =>
    let (phone, replaced) := world.phone.offerDeskSound fresh
    { world with phone, desk := replaced.elim (.startSend fresh) (.sayReplaced fresh) }
  | .sayReplaced id stop =>
    if ok then { world.say [stop] with desk := .startSend id } else { world with desk := .idle }
  | .startSend id =>
    if ok then { world with send := some .system, desk := .sendingStarted id }
    else { world with send := none, desk := .startFailed }
  -- The stop that this makes is not sent.
  | .startFailed => { world with phone := (world.phone.stop true).1, desk := .idle }
  | .sendingStarted id => { world.started id with desk := .idle }
  | .checkNegotiated source =>
    -- A replaced session's sound stops here; the new one plays on `audio-ready`.
    if ok then { world.hush false with desk := .ask source } else { world with desk := .idle }
  | .ask source =>
    let (phone, messages) := world.phone.askPhone source fresh
    { world with phone, desk := .idle }.say messages

def after : Event → World
  | .message message => if world.worker = .idle then world.arrive message else world
  | .switch what on =>
    if world.desk = .idle then { world with desk := .checkLoops what on } else world
  | .setDeskMicToPhone on => { world with deskMicToPhone := on }
  | .worker ok => world.workerStep ok
  | .desk ok fresh => world.deskStep ok fresh
  | .close => { world with phone := {}, send := none, play := none }

def run (events : List Event) : World := Lib.applyAll after {} events

end World

end DeskLink.Sound
