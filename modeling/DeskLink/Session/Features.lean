import DeskLink.Session.Operations

/-!
# `DeskLink.Session.Features`: sending features, and the queue of a session

`FeatureTransport` of `transport.rs` and `flush_pending_features` of
`webrtc/coordinator.rs`. A handle is a snapshot of a session. `send` reads
the readiness, and then sends on the handle's own peer, or queues, or takes a
fresh handle; each lock-held section, and each write to a data channel, is a
step of its own. A flush empties the queue and sends what it found, packet by
packet, with `send`.

A packet is a name, and no two calls of `send` have the same one. What the
source checks of a packet's own fields, and whether a channel takes the text,
is the parameter `refused` of a step.

`Features` is the manager, the handles, the sends of the threads and the
flushes. A thread has one send at a time.
-/

set_option autoImplicit false

namespace DeskLink.Session

/-- A handle on the feature transport of a session. -/
structure FeatureTransportSnapshot where
  binding : SessionBinding
  paired : Bool
  webRtcPeer : Option Nat
  webRtcReady : Bool
deriving DecidableEq, Repr

namespace DeviceManager

variable (m : DeviceManager)

def featureTransportSnapshot (b : SessionBinding) :
    Except SessionError FeatureTransportSnapshot :=
  (m.withSession b (fun s => (s,
    { binding := b
      paired := s.pairing.state = .paired
      webRtcPeer := if s.webrtcHandover.isSome then s.activeWebrtc else none
      webRtcReady := s.activeWebrtc.isSome && s.featuresReady }))).2

/-- `FeatureTransport::for_binding`. -/
def forBinding (b : SessionBinding) : Except String FeatureTransportSnapshot :=
  match m.featureTransportSnapshot b with
  | .error error => .error error.text
  | .ok snapshot =>
    if snapshot.paired then .ok snapshot
    else .error "Device must be paired before sending DeskLink features"

/-- `is_ready`: what the handle says, while its binding is current. -/
def isReady (h : FeatureTransportSnapshot) : Bool := h.webRtcReady && m.isCurrent h.binding

def webrtcFeaturesReady (b : SessionBinding) (attemptId : String) : Bool :=
  match (m.trySession b (fun s => (s, if s.webrtcAttemptId ≠ some attemptId
      then .error .staleBinding else .ok s.featuresReady))).2 with
  | .ok ready => ready
  | .error _ => false

end DeviceManager

/-! ### One packet -/

/-- Where a `send` stands. -/
inductive SendPc where
  /-- Before the test of the readiness. -/
  | check (h : FeatureTransportSnapshot)
  /-- Ready: before the section of `send_feature_packet`. -/
  | direct (h : FeatureTransportSnapshot)
  /-- Before the text is written to the channel of the peer. -/
  | write (h : FeatureTransportSnapshot) (peer : Nat)
  /-- Not ready: before `queue_feature`. -/
  | enqueue (h : FeatureTransportSnapshot)
  /-- The handover finished meanwhile: before a fresh handle is taken. -/
  | refresh (b : SessionBinding)
  /-- Before the test of the fresh handle. -/
  | recheck (h : FeatureTransportSnapshot)
deriving DecidableEq, Repr

def SendPc.binding : SendPc → SessionBinding
  | .check h | .direct h | .write h _ | .enqueue h | .recheck h => h.binding
  | .refresh b => b

inductive SendResult where
  | next (pc : SendPc)
  | wrote (peer : Nat)
  | queued
  | failed
deriving DecidableEq, Repr

/-- The next step of a `send`. -/
def SendPc.run (m : DeviceManager) (packet : String) (now : Nat) (refused : Bool) :
    SendPc → DeviceManager × SendResult
  | .check h => (m, .next (if m.isReady h then .direct h else .enqueue h))
  | .direct h =>
    (m, if !m.isCurrent h.binding ∨ !h.paired ∨ !h.webRtcReady ∨ refused then .failed
      else match h.webRtcPeer with
        | some peer => .next (.write h peer)
        | none => .failed)
  | .write _ peer => (m, if refused then .failed else .wrote peer)
  | .enqueue h =>
    if refused then (m, .failed)
    else
      let queued := m.queueFeature h.binding packet now
      (queued.1, match queued.2 with
        | .ok true => .queued
        -- Queueing behind a flush that already ran would lose the packet.
        | .ok false => .next (.refresh h.binding)
        | .error _ => .failed)
  | .refresh b => (m, match m.forBinding b with
    | .ok h => .next (.recheck h)
    | .error _ => .failed)
  | .recheck h => (m, if m.isReady h then .next (.check h) else .failed)

/-! ### The queue -/

/-- Where a `flush_pending_features` stands. -/
inductive FlushPc where
  /-- Before the queue is taken. -/
  | take
  /-- Before the handle is taken. -/
  | handle (pending : List String)
  /-- `packet` is being sent. -/
  | send (h : FeatureTransportSnapshot) (packet : String) (rest : List String) (pc : SendPc)
  | done
deriving DecidableEq, Repr

/-- Before the next packet of a flush. -/
def FlushPc.next (h : FeatureTransportSnapshot) : List String → FlushPc
  | [] => .done
  | packet :: rest => .send h packet rest (.check h)

structure Flush where
  binding : SessionBinding
  pc : FlushPc := .take
  /-- The session was ready through the binding ever since. -/
  ready : Bool := true
deriving DecidableEq, Repr

/-! ### Threads -/

/-- A call of `send`. -/
structure SendCall where
  thread : Nat
  deviceId : String
  packet : String
deriving DecidableEq, Repr

/-- A text that a data channel took, and how often the device was unpaired
before that. -/
structure Written where
  deviceId : String
  packet : String
  era : Nat
deriving DecidableEq, Repr

structure Features where
  manager : DeviceManager := {}
  handles : List FeatureTransportSnapshot := []
  /-- What each thread is sending. -/
  sends : Nat → Option (String × SendPc) := fun _ => none
  flushes : List Flush := []
  /-- The calls of `send`, the first one first. -/
  calls : List SendCall := []
  /-- What the data channels took, the first one first. -/
  channel : List Written := []
  /-- The packets that were queued, and how often their device was unpaired
  before that. -/
  queued : List (String × Nat) := []
  /-- How often the device was unpaired. -/
  unpairings : String → Nat := fun _ => 0

inductive FeatureMove where
  /-- A handle is taken. -/
  | takeHandle (b : SessionBinding)
  /-- A thread sends a packet on a handle. -/
  | start (thread handle : Nat) (packet : String)
  /-- The next step of the thread's `send`. -/
  | send (thread now : Nat) (refused : Bool)
  /-- The attempt is ready for features, and its flush begins. -/
  | flush (b : SessionBinding) (attemptId : String)
  /-- The next step of the flush at the place `i`. -/
  | flushStep (i now : Nat) (refused : Bool)
  /-- Any other call of the manager. -/
  | call (call : Call)

/-- The call is one that `send` and a flush make. -/
def Call.ofFeatures : Call → Bool
  | .queueFeature .. | .takePending .. => true
  | _ => false

/-- The device that the call unpairs. -/
def Call.unpairs (m : DeviceManager) : Call → Option String
  | .revoke b _ => if m.isCurrent b then some b.deviceId else none
  | .forgetPairing deviceId => some deviceId
  | _ => none

namespace Features

variable (w : Features)

/-- The packet is at the end of its `send`, or goes on. -/
def finishSend (deviceId packet : String) (m : DeviceManager) (result : SendResult) : Features :=
  match result with
  | .next _ | .failed => { w with manager := m }
  | .wrote _ => { w with
      manager := m
      channel := w.channel ++ [{ deviceId, packet, era := w.unpairings deviceId }] }
  | .queued => { w with
      manager := m
      queued := w.queued ++ [(packet, w.unpairings deviceId)] }

def sendStep (thread now : Nat) (refused : Bool) : Features :=
  match w.sends thread with
  | none => w
  | some (packet, pc) =>
    let ran := pc.run w.manager packet now refused
    { w.finishSend pc.binding.deviceId packet ran.1 ran.2 with
      sends := Function.update w.sends thread (match ran.2 with
        | .next pc' => some (packet, pc')
        | _ => none) }

def flushStep (i now : Nat) (refused : Bool) : Features :=
  match w.flushes[i]? with
  | none => w
  | some f => match f.pc with
    | .take =>
      let taken := w.manager.takePendingFeatures f.binding now
      { w with
        manager := taken.1
        flushes := w.flushes.set i
          { f with pc := if taken.2 = [] then .done else .handle taken.2 } }
    | .handle pending =>
      { w with flushes := w.flushes.set i { f with pc := match w.manager.forBinding f.binding with
          | .ok h => .next h pending
          | .error _ => .done } }
    | .send h packet rest pc =>
      let ran := pc.run w.manager packet now refused
      { w.finishSend pc.binding.deviceId packet ran.1 ran.2 with
        flushes := w.flushes.set i { f with pc := match ran.2 with
          | .next pc' => .send h packet rest pc'
          | _ => .next h rest } }
    | .done => w

def act : FeatureMove → Features
  | .takeHandle b => match w.manager.forBinding b with
    | .ok h => { w with handles := w.handles ++ [h] }
    | .error _ => w
  | .start thread handle packet => match w.sends thread, w.handles[handle]? with
    | none, some h =>
      if packet ∈ w.calls.map (·.packet) then w
      else { w with
        sends := Function.update w.sends thread (some (packet, .check h))
        calls := w.calls ++ [{ thread, deviceId := h.binding.deviceId, packet }] }
    | _, _ => w
  | .send thread now refused => w.sendStep thread now refused
  | .flush b attemptId =>
    if w.manager.webrtcFeaturesReady b attemptId
    then { w with flushes := w.flushes ++ [{ binding := b }] } else w
  | .flushStep i now refused => w.flushStep i now refused
  | .call call =>
    if call.ofFeatures then w
    else { w with
      manager := w.manager.after call
      unpairings := match call.unpairs w.manager with
        | some d => Function.update w.unpairings d (w.unpairings d + 1)
        | none => w.unpairings }

end Features

/-- The session is ready for features, through the binding. -/
def DeviceManager.readyFor (m : DeviceManager) (b : SessionBinding) : Bool :=
  m.isCurrent b && m.sessions[b.deviceId]?.any (·.featuresReady)

/-- One step of anything, with the flushes that saw their session not
ready. -/
def Features.after (w : Features) (move : FeatureMove) : Features :=
  { w.act move with
    flushes := (w.act move).flushes.map (fun f =>
      { f with ready := f.ready && (w.act move).manager.readyFor f.binding }) }

end DeskLink.Session
