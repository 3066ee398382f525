import Mathlib.Tactic

/-!
# `DeskLink.Remote.Session`: the desktop half of a remote session

`RemoteSession` of `webrtc/remote_session.rs`: screen sharing and remote
control of one phone. `accept` applies a control message, from the phone or
one of this side's own; the other functions are what this side calls.

A wall-clock reading is the parameter `now`, in milliseconds, and a reading
of the monotonic clock is `instant`. A session identifier that is drawn is a
parameter. Of a control message there are the fields that are read here;
an input packet is the three fields of its body that are read.

`Op` is one call, and `RemoteSession.after` is the session after it.
-/

set_option autoImplicit false

namespace DeskLink.Remote

/-- How long a control lease survives without a heartbeat or inbound input,
in milliseconds. -/
def leaseLifetime : Int := 30 * 1000
/-- How long a request for the other side's screen may go unanswered. -/
def viewRequestTimeout : Nat := 150 * 1000
/-- How long a request for control (or the host's decision on one) may
wait. -/
def controlRequestTimeout : Nat := 30 * 1000

/-- Which screen a session is showing. -/
inductive ScreenDirection where
  | phoneToDesktop
  | desktopToPhone
deriving DecidableEq, Repr

inductive ControlKind where
  | requestView
  | viewGranted
  | viewDenied
  | requestControl
  | controlGranted
  | controlDenied
  | takeoverRequest
  | takeoverGranted
  | release
  | heartbeat
  | screenReady
  | screenStopped
  | screenError
  | pauseLocked
  | resume
  | inputFocus
  | switchScreen
  | offerView
  | audioRequest
  | audioReady
  | audioControl
  | audioStop
  | audioDenied
  | captureRequest
  | captureResult
  | captureCancelled
deriving DecidableEq, Repr

structure ControlMessage where
  kind : ControlKind
  remoteSessionId : String
  sequence : Int
  leaseId : Option String := none
  direction : Option ScreenDirection := none
  ownerDeviceId : Option String := none
  leaseExpiresAt : Option Int := none
  reason : Option String := none
  screenWidth : Option Int := none
  screenHeight : Option Int := none
deriving DecidableEq, Repr

/-- A phone input packet. -/
structure InputPacket where
  remoteSessionId : Option String
  leaseId : Option String
  inputSequence : Option Int
deriving DecidableEq, Repr

/-- A control lease held by this desktop over the paired phone. -/
structure ControlLease where
  id : String
  expiresAt : Int
deriving DecidableEq, Repr

/-! ### The window of sequence numbers -/

/-- Accepts a small amount of cross-channel reordering while rejecting
replayed input. -/
structure InputSequenceWindow where
  highest : Int := 0
  seen : List Int := []
deriving DecidableEq, Repr

def InputSequenceWindow.width : Int := 128

def InputSequenceWindow.accept (window : InputSequenceWindow) (sequence : Int) :
    InputSequenceWindow × Bool :=
  if sequence ≤ 0 then (window, false)
  else if window.highest < sequence then
    let oldest := sequence - (width - 1)
    ({ highest := sequence
       seen := (sequence :: window.seen).filter (fun seen => oldest ≤ seen) }, true)
  else if width ≤ window.highest - sequence then (window, false)
  else if sequence ∈ window.seen then (window, false)
  else ({ window with seen := sequence :: window.seen }, true)

/-- A host-approved lease for input arriving from the paired phone. -/
structure PeerInputLease where
  id : String
  ownerDeviceId : String
  expiresAt : Int
  sequenceWindow : InputSequenceWindow := {}
deriving DecidableEq, Repr

/-! ### The session -/

inductive SessionState where
  | idle
  | requestingView
  | viewing
  | requestingControl
  | authorizingPeerControl
  | peerControlling
  | controlling
  | pausedLocked
  | stopped
deriving DecidableEq, Repr

structure RemoteSession where
  state : SessionState := .idle
  remoteSessionId : Option String := none
  direction : Option ScreenDirection := none
  lease : Option ControlLease := none
  peerInputLease : Option PeerInputLease := none
  sequence : Int := 0
  /-- When `state` was entered. -/
  stateSince : Nat := 0
  phoneScreen : Option (Int × Int) := none
  controlDenial : Option String := none
  /-- The last few sessions that ended. -/
  ended : List String := []
deriving DecidableEq, Repr

/-- Two readings of the clocks. -/
structure Clock where
  now : Int
  instant : Nat := 0
deriving DecidableEq, Repr

namespace RemoteSession

variable (s : RemoteSession)

def setState (state : SessionState) (clock : Clock) : RemoteSession :=
  { s with state, stateSince := if s.state ≠ state then clock.instant else s.stateSince }

def setPhoneScreen (width height : Int) : RemoteSession :=
  if 0 < width ∧ 0 < height then { s with phoneScreen := some (width, height) } else s

/-- The next value for a control message or an input packet. -/
def nextSequence : RemoteSession × Int :=
  ({ s with sequence := s.sequence + 1 }, s.sequence + 1)

/-- Revokes a silent phone-owned input lease without ending the screen
view. -/
def expirePeerInputLease (clock : Clock) : RemoteSession × Bool :=
  match s.peerInputLease with
  | none => (s, false)
  | some lease =>
    if lease.expiresAt ≤ clock.now then
      let s' := { s with peerInputLease := none }
      (if s.state = .peerControlling then s'.setState .viewing clock else s', true)
    else (s, false)

/-- A session of the identifier `id` starts, and waits for a view. -/
def requestUnder (id : String) (direction : Option ScreenDirection) (clock : Clock) :
    RemoteSession :=
  { s with
    remoteSessionId := some id
    controlDenial := none
    direction
    lease := none
    peerInputLease := none }.setState .requestingView clock

/-- Starts a view request under the identifier that was drawn. -/
def beginView (id : String) (direction : ScreenDirection) (clock : Clock) : RemoteSession :=
  s.requestUnder id (some direction) clock

/-- Takes up a phone's offer of its screen. -/
def adoptOffer (id : String) (clock : Clock) : RemoteSession × Except String Unit :=
  if id ∈ s.ended then (s, .error "stale")
  else if s.state ≠ .idle ∧ s.state ≠ .stopped then (s, .error "busy")
  else (s.requestUnder id (some .phoneToDesktop) clock, .ok ())

def beginControl (clock : Clock) : RemoteSession × Except String Unit :=
  if s.state ≠ .viewing ∧ s.state ≠ .requestingControl then
    (s, .error "Remote control needs an active view")
  else (s.setState .requestingControl clock, .ok ())

def stop (clock : Clock) : RemoteSession :=
  { s.setState .stopped clock with
    remoteSessionId := none
    ended := match s.remoteSessionId with
      | some id => (if s.ended.length = 8 then s.ended.drop 1 else s.ended) ++ [id]
      | none => s.ended
    direction := none
    lease := none
    peerInputLease := none
    controlDenial := none }

/-- `stop`, only while `id` is the current session. -/
def stopIfCurrent (id : String) (clock : Clock) : RemoteSession × Bool :=
  if s.remoteSessionId = some id then (s.stop clock, true) else (s, false)

/-- Both leases go, and the view is what is left. -/
def backToView (clock : Clock) : RemoteSession :=
  { s with lease := none, peerInputLease := none }.setState .viewing clock

/-- Ends a request the other side never answered, returning the state it
was stuck in. -/
def expirePending (clock : Clock) : RemoteSession × Option SessionState :=
  let waited := clock.instant - s.stateSince
  match s.state with
  | .requestingView =>
    if viewRequestTimeout ≤ waited then (s.stop clock, some .requestingView) else (s, none)
  | .requestingControl =>
    if controlRequestTimeout ≤ waited then (s.backToView clock, some .requestingControl)
    else (s, none)
  | .authorizingPeerControl =>
    if controlRequestTimeout ≤ waited then (s.backToView clock, some .authorizingPeerControl)
    else (s, none)
  | _ => (s, none)

/-! ### A control message -/

/-- The message names another session. -/
def mismatched (message : ControlMessage) : Bool :=
  s.remoteSessionId ≠ some message.remoteSessionId

/-- The message is about a session that is not the current one, where that
counts. A message that ends a session is honoured only for the current one,
and with nothing active there is nothing to disturb. -/
def stale (message : ControlMessage) : Bool :=
  match message.kind with
  | .inputFocus | .requestView | .heartbeat | .offerView => false
  | .release | .screenStopped | .viewDenied | .controlDenied | .screenError =>
    s.remoteSessionId.isSome && s.mismatched message
  | _ => s.mismatched message

/-- The checks of `accept`, before anything is applied. -/
def checkMessage (message : ControlMessage) : Except String Unit :=
  if message.kind = .inputFocus then .error "input-focus is reported by the desktop only"
  else if s.stale message then .error "Remote-session id is stale"
  else if (message.kind = .controlGranted ∨ message.kind = .takeoverGranted) ∧
      s.state ≠ .requestingControl ∧ s.state ≠ .controlling then
    .error "Remote-control lease was not requested"
  else .ok ()

/-- The screen that the message says the phone has, from a
`screen-ready`. -/
def takeScreen (message : ControlMessage) : RemoteSession :=
  match message.kind, message.screenWidth, message.screenHeight with
  | .screenReady, some width, some height => s.setPhoneScreen width height
  | _, _, _ => s

def acceptReady (message : ControlMessage) (clock : Clock) : RemoteSession :=
  let shown : RemoteSession :=
    { s with direction := message.direction.or s.direction }.takeScreen message
  -- Another `screen-ready` is a rotation, which does not end control.
  if message.kind = .screenReady ∧ (s.state = .controlling ∨ s.state = .requestingControl)
  then shown else shown.setState .viewing clock

def acceptGranted (message : ControlMessage) (clock : Clock) :
    RemoteSession × Except String Unit :=
  match message.leaseId with
  | none => (s, .error "A granted lease needs an identifier")
  | some id => match message.leaseExpiresAt with
    | none => (s, .error "A granted lease needs an expiry")
    | some expiresAt =>
      ({ s with
          lease := some { id, expiresAt }
          peerInputLease := none
          controlDenial := none }.setState .controlling clock, .ok ())

def acceptHeartbeat (message : ControlMessage) (clock : Clock) :
    RemoteSession × Except String Unit :=
  match s.lease, s.peerInputLease with
  | some lease, _ =>
    ({ s with lease := some { lease with expiresAt := clock.now + leaseLifetime } }, .ok ())
  | none, some lease =>
    if lease.expiresAt ≤ clock.now then
      ({ s with peerInputLease := none }.setState .viewing clock,
        .error "Peer input lease has expired")
    else
      let window := lease.sequenceWindow.accept message.sequence
      if message.leaseId ≠ some lease.id ∨ message.ownerDeviceId ≠ some lease.ownerDeviceId
          ∨ window.2 = false then
        (s, .error "Peer input lease heartbeat is stale or mismatched")
      else
        ({ s with peerInputLease := some { lease with
            sequenceWindow := window.1
            expiresAt := clock.now + leaseLifetime } }, .ok ())
  | none, none => (s, .ok ())

def acceptControlDenied (message : ControlMessage) (clock : Clock) : RemoteSession :=
  if s.remoteSessionId = none then s
  -- A grant wins over the late denial of an earlier request.
  else if s.state = .controlling ∧ s.lease.any (fun lease => clock.now < lease.expiresAt) then s
  else { s with controlDenial := some (message.reason.getD "The phone refused control") }.backToView
    clock

/-- What `accept` applies once the checks have passed. -/
def applyMessage (message : ControlMessage) (clock : Clock) :
    RemoteSession × Except String Unit :=
  match message.kind with
  | .inputFocus | .offerView => (s, .ok ())
  | .audioRequest | .audioReady | .audioControl | .audioStop | .audioDenied | .captureRequest
  | .captureResult | .captureCancelled =>
    (s, .error "Sound and capture controls are not part of the screen session")
  | .switchScreen =>
    (s, if s.mismatched message ∨ s.direction ≠ some .desktopToPhone
      then .error "Switching screens needs a desktop share in progress" else .ok ())
  | .requestView => (s.requestUnder message.remoteSessionId message.direction clock, .ok ())
  | .viewGranted | .screenReady => (s.acceptReady message clock, .ok ())
  | .controlGranted | .takeoverGranted => s.acceptGranted message clock
  | .heartbeat => s.acceptHeartbeat message clock
  | .pauseLocked =>
    ({ s with lease := none, peerInputLease := none }.setState .pausedLocked clock, .ok ())
  | .resume => ({ s with state := .viewing }, .ok ())
  | .viewDenied | .screenError => (s.stop clock, .ok ())
  | .controlDenied => (s.acceptControlDenied message clock, .ok ())
  | .release | .screenStopped => (s.stop clock, .ok ())
  | .requestControl | .takeoverRequest =>
    if (s.state = .viewing ∨ s.state = .authorizingPeerControl ∨ s.state = .peerControlling)
        ∧ s.direction = some .desktopToPhone then
      (s.setState .authorizingPeerControl clock, .ok ())
    else (s, .error "Phone control needs an active desktop-screen session")

/-- Applies a validated inbound message. -/
def accept (message : ControlMessage) (clock : Clock) : RemoteSession × Except String Unit :=
  match s.checkMessage message with
  | .error error => (s, .error error)
  | .ok () => s.applyMessage message clock

/-! ### The phone's lease -/

/-- Converts a pending host authorization into a revocable peer-owned
lease. -/
def grantPeerControl (leaseId ownerDeviceId : String) (expiresAt : Int) (clock : Clock) :
    RemoteSession × Except String Unit :=
  if s.state ≠ .authorizingPeerControl ∨ s.direction ≠ some .desktopToPhone then
    (s, .error "Phone control has no host-approved desktop-screen request")
  else if leaseId = "" ∨ ownerDeviceId = "" ∨ expiresAt ≤ 0 then
    (s, .error "Peer input lease is malformed")
  else
    ({ s with
        lease := none
        peerInputLease := some { id := leaseId, ownerDeviceId, expiresAt } }.setState
      .peerControlling clock, .ok ())

/-- Validates a phone input packet before it can reach the portal
adapter. -/
def verifyPeerInput (packet : InputPacket) (ownerDeviceId : String) (clock : Clock) :
    RemoteSession × Except String Unit :=
  if s.state ≠ .peerControlling then
    (s, .error "DeskLink has no active host-approved input lease")
  else match s.remoteSessionId, s.peerInputLease with
    | none, _ => (s, .error "DeskLink remote input has no active session")
    | some _, none => (s, .error "DeskLink remote input has no active lease")
    | some sessionId, some lease =>
      if lease.ownerDeviceId ≠ ownerDeviceId then
        (s, .error "DeskLink remote input came from a different device")
      else if lease.expiresAt ≤ clock.now then
        ({ s with peerInputLease := none }.setState .viewing clock,
          .error "DeskLink remote-input lease has expired")
      else if packet.remoteSessionId ≠ some sessionId ∨ packet.leaseId ≠ some lease.id then
        (s, .error "DeskLink remote input session or lease mismatch")
      else match packet.inputSequence with
        | none => (s, .error "DeskLink remote input has no sequence")
        | some sequence =>
          let window := lease.sequenceWindow.accept sequence
          if window.2 = false then (s, .error "Replayed DeskLink remote input")
          else
            ({ s with peerInputLease := some { lease with
                sequenceWindow := window.1
                expiresAt := clock.now + leaseLifetime } }, .ok ())

/-! ### This computer's lease -/

/-- Whether a heartbeat is due, and the lease it should quote. -/
def heartbeatLease (now : Int) : Option ControlLease :=
  if s.state ≠ .controlling then none else s.lease.filter (fun lease => now < lease.expiresAt)

/-- The credentials of an outgoing remote-input packet. -/
def stampInputAt (now : Int) : RemoteSession × Except String InputPacket :=
  if s.state ≠ .controlling then (s, .error "DeskLink remote control is not active")
  else match s.remoteSessionId, s.lease with
    | none, _ => (s, .error "DeskLink remote control has no session")
    | some _, none => (s, .error "DeskLink remote control has no lease")
    | some sessionId, some lease =>
      if lease.expiresAt ≤ now then (s, .error "DeskLink remote-control lease has expired")
      else
        (s.nextSequence.1, .ok
          { remoteSessionId := some sessionId
            leaseId := some lease.id
            inputSequence := some s.nextSequence.2 })

end RemoteSession

/-! ### Calls -/

inductive Op where
  /-- A control message, of the phone or one that this side applies to its
  own copy. -/
  | accept (message : ControlMessage)
  | beginView (id : String) (direction : ScreenDirection)
  | adoptOffer (id : String)
  | beginControl
  | expirePending
  | expirePeerInputLease
  | stop
  | stopIfCurrent (id : String)
  /-- The expiry of the lease was fixed `waited` milliseconds ago, before
  the password was hashed. -/
  | grantPeerControl (leaseId ownerDeviceId : String) (waited : Nat)
  | verifyPeerInput (packet : InputPacket) (ownerDeviceId : String)
  | nextSequence
  | stampInput
deriving DecidableEq, Repr

/-- The session after a call, and whether the call did what it was for. -/
def RemoteSession.call (s : RemoteSession) (clock : Clock) : Op → RemoteSession × Bool
  | .accept message => ((s.accept message clock).1, (s.accept message clock).2.isOk)
  | .beginView id direction => (s.beginView id direction clock, true)
  | .adoptOffer id => ((s.adoptOffer id clock).1, (s.adoptOffer id clock).2.isOk)
  | .beginControl => ((s.beginControl clock).1, (s.beginControl clock).2.isOk)
  | .expirePending => ((s.expirePending clock).1, (s.expirePending clock).2.isSome)
  | .expirePeerInputLease => s.expirePeerInputLease clock
  | .stop => (s.stop clock, true)
  | .stopIfCurrent id => s.stopIfCurrent id clock
  | .grantPeerControl leaseId owner waited =>
    let granted := s.grantPeerControl leaseId owner (clock.now - waited + leaseLifetime) clock
    (granted.1, granted.2.isOk)
  | .verifyPeerInput packet owner =>
    ((s.verifyPeerInput packet owner clock).1, (s.verifyPeerInput packet owner clock).2.isOk)
  | .nextSequence => (s.nextSequence.1, true)
  | .stampInput => ((s.stampInputAt clock.now).1, (s.stampInputAt clock.now).2.isOk)

end DeskLink.Remote
