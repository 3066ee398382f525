import DeskLink.Session.Manager

/-!
# `DeskLink.Session.Operations`: what is done to a session

The operations of `core/device_manager.rs` that go through a binding, and
those that name a device. A closure of `with_session` is the function given
to `withSession`; one that returns a `Result` has its error flattened.

`Call` is one call of the manager, from anywhere: with any device, any
binding, any link and any clock reading. The closures that callers give to
`with_session` themselves change the pairing (`changePairing`) or the rung
of the recovery ladder (`changeRecovery`, and `restart`, which drops the
peer too).
-/

set_option autoImplicit false

namespace DeskLink.Session

open DeskLink.Pairing (PairState PairingHandler Packet)

namespace DeviceManager

variable (m : DeviceManager)

/-- `with_session(..)?` around a closure that returns a `Result`. -/
def trySession {R : Type} (b : SessionBinding)
    (operation : DeviceSession → DeviceSession × Except SessionError R) :
    DeviceManager × Except SessionError R :=
  let result := m.withSession b operation
  (result.1, result.2.bind id)

/-! ### WebRTC -/

inductive Installed where
  | replaced (peer : Option Nat)
  | occupied (peer : Nat)
deriving DecidableEq, Repr

def installWebrtcPeerWith (b : SessionBinding) (attemptId wireBinding : String)
    (peer transferManager : Nat) (onlyIfNone : Bool) :
    DeviceManager × Except SessionError Installed :=
  m.trySession b (fun s =>
    if s.pairing.state ≠ .paired then (s, .error .notPaired)
    else if onlyIfNone ∧ s.activeWebrtc.isSome then (s, .ok (.occupied peer))
    else ({ s with
      activeWebrtc := some peer
      transferManager := some transferManager
      webrtcHandover := some { attemptId, wireBinding }
      webrtcAttemptId := some attemptId
      seenWebrtcRequestIds := s.seenWebrtcRequestIds.clear
      seenWebrtcMessageIds := s.seenWebrtcMessageIds.clear }, .ok (.replaced s.activeWebrtc)))

def activeWebrtcPeer (b : SessionBinding) (attemptId : String) :
    DeviceManager × Except SessionError Nat :=
  m.trySession b (fun s => (s,
    if s.webrtcAttemptId ≠ some attemptId then .error .staleBinding
    else match s.activeWebrtc with
      | some peer => .ok peer
      | none => .error .unknownSession))

/-- Invalidates one WebRTC attempt without dropping the bootstrap
session. -/
def clearWebrtcIfCurrent (b : SessionBinding) (attemptId reason : String) :
    DeviceManager × Except SessionError (Option Nat) :=
  m.trySession b (fun s =>
    if s.webrtcAttemptId ≠ some attemptId then (s, .error .staleBinding)
    else
      let s' := { s with lastDisconnectReason := some reason }
      (s'.clearWebrtcState.1, .ok s'.clearWebrtcState.2))

/-- Runs an operation on the handover runtime of the attempt. -/
def withWebrtcHandover {R : Type} (b : SessionBinding) (attemptId : String)
    (operation : HandoverRuntime → HandoverRuntime × Except String R) :
    DeviceManager × Except String R :=
  let result := m.withSession b (fun s =>
    if s.webrtcAttemptId ≠ some attemptId then
      (s, .error "DeskLink WebRTC session was replaced")
    else match s.webrtcHandover with
      | none => (s, .error "DeskLink WebRTC handover is not initialized")
      | some handover =>
        ({ s with webrtcHandover := some (operation handover).1 }, (operation handover).2))
  (result.1, (result.2.mapError SessionError.text).bind id)

/-- Returns the active peer only once for a signed signaling request. -/
def acceptWebrtcSignal (b : SessionBinding) (attemptId requestId : String) :
    DeviceManager × Except SessionError Nat :=
  m.trySession b (fun s =>
    if s.pairing.state ≠ .paired then (s, .error .notPaired)
    else if s.webrtcAttemptId ≠ some attemptId then (s, .error .staleBinding)
    else
      let seen := s.seenWebrtcRequestIds.accept requestId
      let s' := { s with seenWebrtcRequestIds := seen.1 }
      if !seen.2 then (s', .error .replayDetected)
      else match s'.activeWebrtc with
        | some peer => (s', .ok peer)
        | none => (s', .error .unknownSession))

def noteSignalRequest (b : SessionBinding) (requestId : String) :
    DeviceManager × Except SessionError Unit :=
  m.trySession b (fun s =>
    if s.pairing.state ≠ .paired then (s, .error .notPaired)
    else
      let seen := s.seenSignalRequestIds.accept requestId
      ({ s with seenSignalRequestIds := seen.1 },
        if !seen.2 then .error .replayDetected else .ok ()))

def acceptWebrtcEnvelope (b : SessionBinding) (attemptId messageId : String) :
    DeviceManager × Except SessionError Unit :=
  m.trySession b (fun s =>
    if s.webrtcAttemptId ≠ some attemptId then (s, .error .staleBinding)
    else
      let seen := s.seenWebrtcMessageIds.accept messageId
      ({ s with seenWebrtcMessageIds := seen.1 },
        if !seen.2 then .error .replayDetected else .ok ()))

/-- Holds a feature until WebRTC is ready. -/
def queueFeature (b : SessionBinding) (packet : String) (now : Nat) :
    DeviceManager × Except SessionError Bool :=
  m.withSession b (fun s =>
    if s.featuresReady then (s, false)
    else
      let pending := if pendingFeatureLimit ≤ s.pendingFeatures.length
        then s.pendingFeatures.drop 1 else s.pendingFeatures
      ({ s with pendingFeatures := pending ++ [(now, packet)] }, true))

def takePendingFeatures (b : SessionBinding) (now : Nat) : DeviceManager × List String :=
  let result := m.withSession b (fun s => ({ s with pendingFeatures := [] },
    (s.pendingFeatures.filter (fun p => now - p.1 ≤ pendingFeatureMaxAge)).map (·.2)))
  (result.1, result.2.toOption.getD [])

/-! ### Pairing -/

/-- Revokes the local pairing state and every WebRTC object derived from
it. -/
def revokePairing (b : SessionBinding) (reason : String) :
    DeviceManager × Except SessionError (Packet × Option Nat) :=
  m.withSession b (fun s =>
    let s' := { s with
      pairing := s.pairing.rejectPacket.1
      lastDisconnectReason := some reason
      pendingFeatures := [] }
    (s'.clearWebrtcState.1, (s.pairing.rejectPacket.2, s'.clearWebrtcState.2)))

/-- Drops the pairing state of a device that has no live link. -/
def forgetPairing (deviceId : String) : DeviceManager × Option Nat :=
  match m.sessions[deviceId]? with
  | none => (m, none)
  | some s =>
    let s' := { s with pairing := .new false, pendingFeatures := [] }
    ({ m with sessions := m.sessions.insert deviceId s'.clearWebrtcState.1 },
      s'.clearWebrtcState.2)

/-- Abandons every pairing negotiation whose deadline has passed, and says
which. -/
def expirePairing (nowSecs : Int) : DeviceManager × List String :=
  ({ m with sessions := m.sessions.map (fun _ s =>
      { s with pairing := (s.pairing.expireIfDue nowSecs).1 }) },
    (m.sessions.toList.filter (fun p => (p.2.pairing.expireIfDue nowSecs).2)).map (·.2.deviceId))

/-- Whether to tell the peer that this side does not consider it paired,
recording the notice so the next one is damped. -/
def claimNotPairedNotice (b : SessionBinding) (interval now : Nat) : DeviceManager × Bool :=
  match m.sessions[b.deviceId]? with
  | none => (m, false)
  | some s =>
    if s.pairing.state ≠ .notPaired then (m, false)
    else if s.lastNotPairedNotice.any (fun last => now - last < interval) then (m, false)
    else
      let s' := { s with lastNotPairedNotice := some now }
      ({ m with sessions := m.sessions.insert b.deviceId s' }, true)

/-! ### Everything else -/

def noteInbound (deviceId : String) (now : Nat) : DeviceManager :=
  match m.sessions[deviceId]? with
  | none => m
  | some s => { m with sessions := m.sessions.insert deviceId { s with lastInboundAt := now } }

/-- Every session ends. -/
def terminateAll : DeviceManager × List Nat :=
  ({ m with
      sessions := m.sessions.map (fun _ s =>
        { s with
          state := .terminated
          reconnectScheduled := false
          nextReconnectAt := none
          activeLink := none : DeviceSession }.clearWebrtcState.1)
      cancelled := m.cancelled ++ m.sessions.toList.map (·.2.cancellation) },
    m.sessions.toList.filterMap (·.2.activeLink))

end DeviceManager

/-- One call of the manager. -/
inductive Call where
  | register (deviceId : String) (link : SessionLink) (initiallyPaired : Bool) (now : Nat)
  | adopt (deviceId : String) (transport : Nat) (certificatePem : String) (within now : Nat)
  | closeLink (link : Nat)
  | disconnect (b : SessionBinding) (reason : String)
  | bootstrapDisconnected (b : SessionBinding) (reason : String)
  | readerDisconnected (b : SessionBinding) (epoch : UInt64) (reason : String)
  | install (b : SessionBinding) (attemptId wireBinding : String) (peer transferManager : Nat)
      (onlyIfNone : Bool)
  | clearWebrtc (b : SessionBinding) (attemptId reason : String)
  | handover (b : SessionBinding) (attemptId : String)
      (operation : HandoverRuntime → HandoverRuntime × Except String Unit)
  | acceptSignal (b : SessionBinding) (attemptId requestId : String)
  | noteSignal (b : SessionBinding) (requestId : String)
  | acceptEnvelope (b : SessionBinding) (attemptId messageId : String)
  | queueFeature (b : SessionBinding) (packet : String) (now : Nat)
  | takePending (b : SessionBinding) (now : Nat)
  | revoke (b : SessionBinding) (reason : String)
  | changePairing (b : SessionBinding) (change : PairingHandler → PairingHandler)
  | changeRecovery (b : SessionBinding) (change : Nat → Nat)
  | restart (b : SessionBinding) (change : Nat → Nat)
  | forgetPairing (deviceId : String)
  | expirePairing (nowSecs : Int)
  | claimNotice (b : SessionBinding) (interval now : Nat)
  | noteInbound (deviceId : String) (now : Nat)
  | terminateAll

def DeviceManager.after (m : DeviceManager) : Call → DeviceManager
  | .register deviceId link paired now => (m.registerLink deviceId link paired now).1
  | .adopt deviceId transport pem within now => (m.adoptOrKeep deviceId transport pem within now).1
  | .closeLink link => m.closeLink link
  | .disconnect b reason => (m.disconnectIfCurrent b reason).1
  | .bootstrapDisconnected b reason => (m.bootstrapDisconnectedIfCurrent b reason).1
  | .readerDisconnected b epoch reason => (m.readerDisconnected b epoch reason).1
  | .install b attempt wire peer transfers onlyIfNone =>
    (m.installWebrtcPeerWith b attempt wire peer transfers onlyIfNone).1
  | .clearWebrtc b attempt reason => (m.clearWebrtcIfCurrent b attempt reason).1
  | .handover b attempt operation =>
    (m.withWebrtcHandover b attempt operation).1
  | .acceptSignal b attempt request => (m.acceptWebrtcSignal b attempt request).1
  | .noteSignal b request => (m.noteSignalRequest b request).1
  | .acceptEnvelope b attempt message => (m.acceptWebrtcEnvelope b attempt message).1
  | .queueFeature b packet now => (m.queueFeature b packet now).1
  | .takePending b now => (m.takePendingFeatures b now).1
  | .revoke b reason => (m.revokePairing b reason).1
  | .changePairing b change =>
    (m.withSession b (fun s => ({ s with pairing := change s.pairing }, ()))).1
  | .changeRecovery b change =>
    (m.withSession b (fun s =>
      ({ s with webrtcRecoveryAttempt := change s.webrtcRecoveryAttempt }, ()))).1
  | .restart b change =>
    (m.withSession b (fun s => DeviceSession.clearWebrtcState
      { s with webrtcRecoveryAttempt := change s.webrtcRecoveryAttempt })).1
  | .forgetPairing deviceId => (m.forgetPairing deviceId).1
  | .expirePairing now => (m.expirePairing now).1
  | .claimNotice b interval now => (m.claimNotPairedNotice b interval now).1
  | .noteInbound deviceId now => m.noteInbound deviceId now
  | .terminateAll => m.terminateAll.1

/-- The binding a call goes through. -/
def Call.through : Call → Option SessionBinding
  | .disconnect b _ | .bootstrapDisconnected b _ | .readerDisconnected b _ _
  | .install b _ _ _ _ _ | .clearWebrtc b _ _ | .handover b _ _ | .acceptSignal b _ _
  | .noteSignal b _ | .acceptEnvelope b _ _ | .queueFeature b _ _ | .takePending b _
  | .revoke b _ | .changePairing b _ | .changeRecovery b _ | .restart b _ => some b
  | .register .. | .adopt .. | .closeLink _ | .forgetPairing _ | .expirePairing _
  | .claimNotice .. | .noteInbound .. | .terminateAll => none

end DeskLink.Session
