import DeskLink.Lib.Unwind

/-!
# `DeskLink.Sound.Session`: who sends sound to whom

`src/device_links/webrtc/audio_session.rs`. `Phone` is the entry of one phone in
the session table: the session in which this computer's sound goes to the phone,
and the one in which the phone's sound comes here. Each function below is one
section that runs under the table's lock.

Of a control message only what the sound messages carry is kept. A random id is an
argument.
-/

set_option autoImplicit false

namespace DeskLink.Sound

def deskToPhone : String := "desk-to-phone"

def phoneToDesk : String := "phone-to-desk"

inductive Source where
  | system | mic
deriving DecidableEq, Repr

def sourceName : Source → String
  | .system => "system"
  | .mic => "mic"

def parseSource (source : Option String) : Source :=
  if source = some "mic" then .mic else .system

structure Session where
  id : String
  source : Source
  /-- Sound flows, else it is asked for. -/
  live : Bool
deriving DecidableEq, Repr

inductive ControlKind where
  | audioRequest | audioReady | audioDenied | audioStop | audioControl
deriving DecidableEq, Repr

structure ControlMessage where
  kind : ControlKind
  remoteSessionId : String
  sequence : Nat := 1
  audioDirection : Option String := none
  source : Option String := none
  sampleRate : Option Nat := none
  channels : Option Nat := none
  reason : Option String := none
deriving DecidableEq, Repr

structure Phone where
  /-- This computer's sound going to the phone. -/
  sending : Option Session := none
  /-- The phone's sound coming here. -/
  hearing : Option Session := none
  sequence : Nat := 0
deriving DecidableEq, Repr

/-- What a phone's `audio-stop` or `audio-denied` ends. -/
inductive Ended where
  | stopSending
  /-- With the reason, when the phone refused. -/
  | stopHearing (reason : Option String)
  | ignored
deriving DecidableEq, Repr

namespace Phone

variable (phone : Phone)

def message (kind : ControlKind) (id : String) : Phone × ControlMessage :=
  ({ phone with sequence := phone.sequence + 1 },
    { kind, remoteSessionId := id, sequence := phone.sequence + 1 })

def stopMessage (id reason : String) : Phone × ControlMessage :=
  let (phone, stop) := phone.message .audioStop id
  (phone, { stop with reason := some reason })

/-- The desk asks to hear the phone. A live session's replacement comes first. -/
def askPhone (source : Source) (id : String) : Phone × List ControlMessage :=
  let (phone, replaced) := match phone.hearing with
    | some old =>
      let (phone, stop) := phone.stopMessage old.id "replaced"
      (phone, [stop])
    | none => (phone, [])
  let (phone, request) := phone.message .audioRequest id
  ({ phone with hearing := some { id, source, live := false } },
    replaced ++ [{ request with
      audioDirection := some phoneToDesk, source := some (sourceName source) }])

/-- The desk offers its own sound unasked; and a replaced session's stop. -/
def offerDeskSound (id : String) : Phone × Option ControlMessage :=
  let (phone, replaced) := match phone.sending with
    | some old =>
      let (phone, stop) := phone.stopMessage old.id "replaced"
      (phone, some stop)
    | none => (phone, none)
  ({ phone with sending := some { id, source := .system, live := false } }, replaced)

/-- The `audio-ready` for a sending session that just started, unless it was ended
or replaced meanwhile. -/
def sendingStarted (id : String) : Phone × Option ControlMessage :=
  match phone.sending.filter (fun session => session.id = id) with
  | none => (phone, none)
  | some session =>
    let (phone, ready) :=
      { phone with sending := some { session with live := true } }.message .audioReady id
    (phone, some { ready with
      audioDirection := some deskToPhone, source := some (sourceName session.source)
      sampleRate := some 48000, channels := some 2 })

def deny (id reason : String) : Phone × ControlMessage :=
  let phone := if phone.sending.any (fun session => session.id = id)
    then { phone with sending := none } else phone
  let (phone, denied) := phone.message .audioDenied id
  (phone, { denied with reason := some reason })

/-- A sending session that could not start. -/
def sendingFailed (id : String) : Phone × ControlMessage := phone.deny id "unsupported"

/-- Ends one direction here: the `audio-stop` to send, if one was running. -/
def stop (sending : Bool) : Phone × Option ControlMessage :=
  match if sending then phone.sending else phone.hearing with
  | none => (phone, none)
  | some ended =>
    let phone := if sending then { phone with sending := none } else { phone with hearing := none }
    let (phone, stop) := phone.stopMessage ended.id "stopped"
    (phone, some stop)

/-- The phone's sound (not its microphone) is asked for or plays here. -/
def hearingSystem : Bool := phone.hearing.any (fun session => session.source = .system)

/-- This computer's sound (not its microphone) goes to the phone. -/
def sendingSystem : Bool := phone.sending.any (fun session => session.source = .system)

/-- A phone's request, once nothing speaks against it. -/
def requested (id : String) (source : Source) : Phone :=
  { phone with sending := some { id, source, live := false } }

/-- A phone's `audio-ready`: what to play. -/
def ready (message : ControlMessage) : Phone × Option Source :=
  if message.audioDirection = some deskToPhone then (phone, none)
  else
    match phone.hearing.filter (fun session => session.id = message.remoteSessionId) with
    | none => (phone, none)
    | some session =>
      if session.live then (phone, none)
      else ({ phone with hearing := some { session with live := true } }, some session.source)

/-- A phone's `audio-stop` or `audio-denied`. -/
def ended (message : ControlMessage) : Phone × Ended :=
  let id := message.remoteSessionId
  if phone.sending.any (fun session => session.id = id) then
    ({ phone with sending := none }, .stopSending)
  else if phone.hearing.any (fun session => session.id = id) then
    ({ phone with hearing := none }, .stopHearing
      (if message.kind = .audioDenied then some (message.reason.getD "declined") else none))
  else (phone, .ignored)

end Phone

end DeskLink.Sound
