import DeskLink.Lib.KeyMap
import DeskLink.Pairing.Handler

/-!
# `DeskLink.Session.Manager`: the sessions of the devices

`core/device_manager.rs`, `core/device_session.rs` and what they use of
`core/session_link.rs`. A lock-held section is one function.

An `Arc` is its number: two are the same when the numbers are. The manager
keeps the links and the cancellation tokens that were ever made, because a
binding keeps its own after the session has moved on. A peer and a transfer
manager are numbers, a feature packet is a text, and of `HandoverRuntime`
there is the flag `features_ready` computes. Instants are numbers, and a
clock reading is the parameter `now`. No lock is poisoned.
-/

set_option autoImplicit false

namespace DeskLink.Session

open DeskLink.Pairing (PairState PairingHandler Packet)

/-- Identifiers retained per attempt for replay rejection. -/
def replayCacheCapacity : Nat := 4096
/-- Oldest-first eviction bound for `pendingFeatures`. -/
def pendingFeatureLimit : Nat := 64
/-- A queued feature older than this is dropped, in milliseconds. -/
def pendingFeatureMaxAge : Nat := 30 * 1000

def u64Max : Nat := 2 ^ 64 - 1

/-! ### The parts of a session -/

/-- Bounded, insertion-ordered set of identifiers already accepted once. -/
structure ReplayCache where
  /-- A `HashSet`: the order means nothing. -/
  seen : List String := []
  /-- Oldest first. -/
  order : List String := []
  capacity : Nat := replayCacheCapacity
deriving DecidableEq, Repr

def ReplayCache.withCapacity (capacity : Nat) : ReplayCache := { capacity := max capacity 1 }

/-- The loop of `accept`: the oldest go while there are more than `capacity`. -/
def evictOldest (capacity : Nat) : List String → List String → List String × List String
  | seen, [] => (seen, [])
  | seen, oldest :: rest =>
    if capacity < (oldest :: rest).length then
      evictOldest capacity (seen.filter (· ≠ oldest)) rest
    else (seen, oldest :: rest)

/-- Records an identifier, returning false if it has been seen before. -/
def ReplayCache.accept (cache : ReplayCache) (id : String) : ReplayCache × Bool :=
  if id ∈ cache.seen then (cache, false)
  else
    let kept := evictOldest cache.capacity (id :: cache.seen) (cache.order ++ [id])
    ({ cache with seen := kept.1, order := kept.2 }, true)

def ReplayCache.clear (cache : ReplayCache) : ReplayCache := { cache with seen := [], order := [] }

inductive SessionState where
  | connecting
  | authenticating
  | ready
  | disconnecting
  | disconnected
  | reconnecting
  | terminated
deriving DecidableEq, Repr

/-- A link. Which socket it carries, whether it is closed and how many
sockets it adopted can change. -/
structure SessionLink where
  certificatePem : String
  localPublicDer : List UInt8 := []
  remotePublicDer : List UInt8 := []
  transport : Nat := 0
  closed : Bool := false
  epoch : UInt64 := 0
deriving DecidableEq, Repr

structure HandoverRuntime where
  attemptId : String
  wireBinding : String
  featuresReady : Bool := false
deriving DecidableEq, Repr

structure DeviceSession where
  sessionId : Nat
  connectionGeneration : Nat
  deviceId : String
  pairing : PairingHandler
  state : SessionState
  /-- The number of the link. -/
  activeLink : Option Nat
  activeWebrtc : Option Nat := none
  transferManager : Option Nat := none
  webrtcAttemptId : Option String := none
  webrtcRecoveryAttempt : Nat := 0
  webrtcHandover : Option HandoverRuntime := none
  seenWebrtcRequestIds : ReplayCache := {}
  seenSignalRequestIds : ReplayCache := {}
  seenWebrtcMessageIds : ReplayCache := {}
  /-- The number of the cancellation token. -/
  cancellation : Nat
  connectedAt : Option Nat
  lastDisconnectReason : Option String := none
  reconnectAttempt : Nat := 0
  reconnectScheduled : Bool := false
  nextReconnectAt : Option Nat := none
  lastInboundAt : Nat
  linkedAt : Nat
  lastNotPairedNotice : Option Nat := none
  pendingFeatures : List (Nat × String) := []
deriving DecidableEq, Repr

structure SessionBinding where
  deviceId : String
  sessionId : Nat
  generation : Nat
  link : Nat
  cancellation : Nat
deriving DecidableEq, Repr

def DeviceSession.binding (s : DeviceSession) : Option SessionBinding :=
  s.activeLink.map (fun link =>
    { deviceId := s.deviceId
      sessionId := s.sessionId
      generation := s.connectionGeneration
      link
      cancellation := s.cancellation })

/-- Whether the session has a WebRTC peer that is ready for features. -/
def DeviceSession.featuresReady (s : DeviceSession) : Bool :=
  s.webrtcHandover.any (·.featuresReady)

/-- Drops all state that is bound to a particular paired relationship. The
second is the peer it had. -/
def DeviceSession.clearWebrtcState (s : DeviceSession) : DeviceSession × Option Nat :=
  ({ s with
      webrtcAttemptId := none
      webrtcHandover := none
      transferManager := none
      seenWebrtcRequestIds := s.seenWebrtcRequestIds.clear
      seenWebrtcMessageIds := s.seenWebrtcMessageIds.clear
      activeWebrtc := none }, s.activeWebrtc)

inductive SessionError where
  | unknownSession
  | staleBinding
  | terminatedSession
  | notPaired
  | replayDetected
deriving DecidableEq, Repr

def SessionError.text : SessionError → String
  | .unknownSession => "Device session is unknown"
  | .staleBinding => "Connection was replaced by a newer session generation"
  | .terminatedSession => "Device session is terminated"
  | .notPaired => "DeskLink WebRTC requires a paired device session"
  | .replayDetected => "DeskLink WebRTC signaling request was replayed"

structure DeviceManager where
  nextSessionId : Nat := 1
  sessions : KeyMap DeviceSession := ∅
  /-- The links that were made; a link's number is its place. -/
  links : List SessionLink := []
  /-- How many cancellation tokens were made. -/
  tokens : Nat := 0
  /-- The tokens that are set. -/
  cancelled : List Nat := []

namespace DeviceManager

variable (m : DeviceManager)

def closeLink (link : Nat) : DeviceManager :=
  { m with links := m.links.modify link ({ · with closed := true }) }

/-! ### Links come and go -/

/-- A negotiation belongs to the link that started it, so a new link
abandons it; and the trust store decides whether the device is paired. -/
def relinkPairing (pairing : PairingHandler) (initiallyPaired : Bool) : PairingHandler :=
  let pairing := if pairing.state = .requested ∨ pairing.state = .requestedByPeer
    then .new false else pairing
  if initiallyPaired ≠ decide (pairing.state = .paired) ∧
      ¬(pairing.state = .requested ∨ pairing.state = .requestedByPeer)
    then .new initiallyPaired else pairing

/-- The session of a device that is there already takes the link, with a
new token and the next generation. -/
def relink (s : DeviceSession) (link : Nat) (token : Nat) (initiallyPaired : Bool)
    (now : Nat) : DeviceSession :=
  { s.clearWebrtcState.1 with
    activeLink := some link
    connectionGeneration := min (s.connectionGeneration + 1) u64Max
    cancellation := token
    pairing := relinkPairing s.pairing initiallyPaired
    state := .ready
    connectedAt := some now
    lastDisconnectReason := none
    reconnectAttempt := 0
    webrtcRecoveryAttempt := 0
    reconnectScheduled := false
    nextReconnectAt := none
    lastInboundAt := now
    linkedAt := now }

def registerLink (deviceId : String) (link : SessionLink) (initiallyPaired : Bool) (now : Nat) :
    DeviceManager × Except SessionError SessionBinding :=
  let id := m.links.length
  let made := { m with links := m.links ++ [link] }
  match m.sessions[deviceId]? with
  | some s =>
    if s.state = .terminated then (m, .error .terminatedSession)
    else
      let s' := relink s id m.tokens initiallyPaired now
      let registered := { made with
        sessions := m.sessions.insert deviceId s'
        tokens := m.tokens + 1
        cancelled := m.cancelled ++ [s.cancellation] }
      let binding : SessionBinding := ⟨s'.deviceId, s'.sessionId, s'.connectionGeneration, id,
        s'.cancellation⟩
      -- The replaced link is closed once the lock is released.
      (match s.activeLink with
        | some replaced => registered.closeLink replaced
        | none => registered, .ok binding)
  | none =>
    let s : DeviceSession :=
      { sessionId := m.nextSessionId
        connectionGeneration := 1
        deviceId
        pairing := .new initiallyPaired
        state := .ready
        activeLink := some id
        cancellation := m.tokens
        connectedAt := some now
        lastInboundAt := now
        linkedAt := now }
    ({ made with
        nextSessionId := m.nextSessionId + 1
        sessions := m.sessions.insert deviceId s
        tokens := m.tokens + 1 },
      .ok ⟨deviceId, s.sessionId, 1, id, m.tokens⟩)

inductive Adoption where
  | keep
  | adopted (binding : SessionBinding) (replaced : Nat) (epoch : UInt64)
  | register
  | refuse
deriving DecidableEq, Repr

/-- Adopt a replacement bootstrap socket into the existing session. -/
def adoptOrKeep (deviceId : String) (transport : Nat) (certificatePem : String)
    (answeringWithin now : Nat) : DeviceManager × Adoption :=
  match m.sessions[deviceId]? with
  | none => (m, .register)
  | some s =>
    if s.state = .terminated ∨ s.featuresReady = false then (m, .register)
    else match s.activeLink with
      | none => (m, .register)
      | some id => match m.links[id]? with
        | none => (m, .register)
        | some link =>
          if link.certificatePem ≠ certificatePem then (m, .refuse)
          else if link.closed = false ∧ now - s.lastInboundAt < answeringWithin then (m, .keep)
          else
            let s' := { s with
              state := .ready
              webrtcRecoveryAttempt := 0
              lastDisconnectReason := none
              lastInboundAt := now }
            ({ m with
                links := m.links.set id { link with
                  transport, epoch := link.epoch + 1, closed := false }
                sessions := m.sessions.insert deviceId s' },
              match s'.binding with
              | some binding => .adopted binding link.transport (link.epoch + 1)
              | none => .register)

/-! ### Bindings -/

def currentBinding (deviceId : String) : Option SessionBinding :=
  match m.sessions[deviceId]? with
  | none => none
  | some s => if s.state = .terminated then none else s.binding

/-- Whether the device has a paired session whose WebRTC feature transport
is ready. -/
def holdsPairedTransport (deviceId : String) : Bool :=
  m.sessions[deviceId]?.any (fun s =>
    s.state ≠ .terminated && s.pairing.state = .paired && s.featuresReady)

/-- The session is the one the binding was made for. -/
def holds (s : DeviceSession) (b : SessionBinding) : Bool :=
  s.sessionId = b.sessionId ∧ s.connectionGeneration = b.generation ∧ s.activeLink = some b.link
    ∧ s.cancellation = b.cancellation

def isCurrent (b : SessionBinding) : Bool :=
  if b.cancellation ∈ m.cancelled then false
  else match m.sessions[b.deviceId]? with
    | none => false
    | some s => s.state ≠ .terminated && holds s b

def withSession {R : Type} (b : SessionBinding) (operation : DeviceSession → DeviceSession × R) :
    DeviceManager × Except SessionError R :=
  match m.sessions[b.deviceId]? with
  | none => (m, .error .unknownSession)
  | some s =>
    if s.state = .terminated then (m, .error .terminatedSession)
    else if holds s b ∧ b.cancellation ∉ m.cancelled then
      ({ m with sessions := m.sessions.insert b.deviceId (operation s).1 }, .ok (operation s).2)
    else (m, .error .staleBinding)

structure DisconnectResult where
  wasCurrent : Bool := false
  featureTransportRetained : Bool := false
  link : Option Nat := none
  webrtc : Option Nat := none
deriving DecidableEq, Repr

def disconnectIfCurrent (b : SessionBinding) (reason : String) :
    DeviceManager × DisconnectResult :=
  match m.sessions[b.deviceId]? with
  | none => (m, {})
  | some s =>
    if !holds s b ∨ s.state = .terminated then (m, {})
    else
      let s' := { s with
        state := .disconnected
        lastDisconnectReason := some reason
        connectedAt := none
        activeLink := none }
      ({ m with
          sessions := m.sessions.insert b.deviceId s'.clearWebrtcState.1
          cancelled := m.cancelled ++ [s.cancellation] },
        { wasCurrent := true, link := s.activeLink, webrtc := s'.clearWebrtcState.2 })

/-- The socket of a link ended: with `epoch`, that number of the link's
sockets. A peer that is ready for features keeps the session. -/
def bootstrapDisconnected (b : SessionBinding) (reason : String) (epoch : Option UInt64) :
    DeviceManager × DisconnectResult :=
  match m.sessions[b.deviceId]? with
  | none => (m, {})
  | some s =>
    if !holds s b ∨ epoch.any (fun e => m.links[b.link]?.map (·.epoch) ≠ some e)
        ∨ s.state = .terminated then (m, {})
    else if s.featuresReady then
      let s' := { s with state := .ready, lastDisconnectReason := none }
      ({ m with sessions := m.sessions.insert b.deviceId s' },
        { wasCurrent := true, featureTransportRetained := true, link := s.activeLink })
    else m.disconnectIfCurrent b reason

def bootstrapDisconnectedIfCurrent (b : SessionBinding) (reason : String) :
    DeviceManager × DisconnectResult :=
  m.bootstrapDisconnected b reason none

def readerDisconnected (b : SessionBinding) (epoch : UInt64) (reason : String) :
    DeviceManager × DisconnectResult :=
  m.bootstrapDisconnected b reason (some epoch)

end DeviceManager

end DeskLink.Session
