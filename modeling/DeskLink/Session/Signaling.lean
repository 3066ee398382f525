import DeskLink.Lib.Fields

/-!
# `DeskLink.Session.Signaling`: what is signed to set up a WebRTC session

The signaling messages of `src/device_links/webrtc/signaling.rs`, the transcript of
the authentication in `handover.rs`, and what `handle_signaling_packet` of
`coordinator.rs` reads of a message's payload.

A JSON object is the list of its entries, in the order of the keys. Signing itself is
left out.
-/

set_option autoImplicit false

namespace DeskLink.Signaling

open Lib (utf8Bytes sizedAll jsonString)

/-! ### JSON -/

/-- A number as `serde_json` keeps it. -/
inductive Number where
  | posInt (n : UInt64)
  | negInt (n : Int64) (negative : n < 0)
  /-- A double, by its bits. -/
  | float (bits : UInt64)

namespace Number

def ofI64 (n : Int64) : Number :=
  if h : n < 0 then .negInt n h else .posInt (UInt64.ofNat n.toInt.toNat)

def asI64 : Number → Option Int64
  | .posInt n => if n.toNat < 2 ^ 63 then some (Int64.ofInt n.toNat) else none
  | .negInt n _ => some n
  | .float _ => none

def asU64 : Number → Option UInt64
  | .posInt n => some n
  | .negInt _ _ | .float _ => none

end Number

inductive Value where
  | null
  | bool (b : Bool)
  | number (n : Number)
  | string (s : String)
  | array (items : List Value)
  | object (entries : List (String × Value))

namespace Value

def asStr : Value → Option String
  | .string s => some s
  | _ => none

def asI64 : Value → Option Int64
  | .number n => n.asI64
  | _ => none

def asU64 : Value → Option UInt64
  | .number n => n.asU64
  | _ => none

def asObject : Value → Option (List (String × Value))
  | .object entries => some entries
  | _ => none

end Value

/-- `Map<String, Value>`. -/
abbrev Map := List (String × Value)

namespace Map

def get (map : Map) (key : String) : Option Value := map.lookup key

/-- The entry of a key is added in its place, or replaced. -/
def insert : Map → String → Value → Map
  | [], key, value => [(key, value)]
  | entry :: map, key, value =>
    if key = entry.1 then (key, value) :: map
    else if key < entry.1 then (key, value) :: entry :: map
    else entry :: insert map key value

end Map

/-! ### Signaling messages -/

def maxSdpBytes : Nat := 256 * 1024

def maxCandidateBytes : Nat := 16 * 1024

def packetTypeWebrtcSignalV1 : String := "desklink.webrtc.signal.v1"

inductive SignalingMessageType where
  | offer
  | answer
  | iceCandidate
  | endOfCandidates
  | iceRestart
  | restartRequest
  | close
deriving DecidableEq, Repr

namespace SignalingMessageType

def wireName : SignalingMessageType → String
  | .offer => "offer"
  | .answer => "answer"
  | .iceCandidate => "ice_candidate"
  | .endOfCandidates => "end_of_candidates"
  | .iceRestart => "ice_restart"
  | .restartRequest => "restart_request"
  | .close => "close"

def parse (value : String) : Except String SignalingMessageType :=
  if value = "offer" then .ok .offer
  else if value = "answer" then .ok .answer
  else if value = "ice_candidate" then .ok .iceCandidate
  else if value = "end_of_candidates" then .ok .endOfCandidates
  else if value = "ice_restart" then .ok .iceRestart
  else if value = "restart_request" then .ok .restartRequest
  else if value = "close" then .ok .close
  else .error "Unknown DeskLink WebRTC signaling message type"

end SignalingMessageType

structure WebRtcSignalingMessage where
  signalingVersion : Int64
  requestId : String
  sessionAttemptId : String
  fromDeviceId : String
  toDeviceId : String
  timestamp : Int64
  messageType : SignalingMessageType
  payload : Map
  signature : String

/-- The fields of a packet that signaling reads and writes. -/
structure NetworkPacket where
  id : Int64
  packetType : String
  body : Map := []

def NetworkPacket.set (packet : NetworkPacket) (key : String) (value : Value) : NetworkPacket :=
  { packet with body := Map.insert packet.body key value }

/-- The value, or the error. -/
def orError {α : Type} (error : String) : Option α → Except String α
  | some value => .ok value
  | none => .error error

namespace WebRtcSignalingMessage

/-- The packet of a message, made at `now`. -/
def toNetworkPacket (message : WebRtcSignalingMessage) (now : Int64) : NetworkPacket :=
  let packet : NetworkPacket := { id := now, packetType := packetTypeWebrtcSignalV1 }
  let packet := packet.set "signalingVersion" (.number (.ofI64 message.signalingVersion))
  let packet := packet.set "requestId" (.string message.requestId)
  let packet := packet.set "sessionAttemptId" (.string message.sessionAttemptId)
  let packet := packet.set "fromDeviceId" (.string message.fromDeviceId)
  let packet := packet.set "toDeviceId" (.string message.toDeviceId)
  let packet := packet.set "timestamp" (.number (.ofI64 message.timestamp))
  let packet := packet.set "messageType" (.string message.messageType.wireName)
  let packet := packet.set "payload" (.object message.payload)
  packet.set "signature" (.string message.signature)

def fromNetworkPacket (packet : NetworkPacket) : Except String WebRtcSignalingMessage := do
  if packet.packetType ≠ packetTypeWebrtcSignalV1 then
    throw "Wrong DeskLink WebRTC signaling packet type"
  let value (key : String) : Except String Value :=
    orError ("Missing DeskLink WebRTC signaling field: " ++ key) (Map.get packet.body key)
  let signalingVersion ←
    orError "Invalid DeskLink WebRTC signaling version" (← value "signalingVersion").asI64
  let requestId ← orError "Invalid DeskLink WebRTC request ID" (← value "requestId").asStr
  let sessionAttemptId ←
    orError "Invalid DeskLink WebRTC attempt ID" (← value "sessionAttemptId").asStr
  let fromDeviceId ← orError "Invalid DeskLink WebRTC sender" (← value "fromDeviceId").asStr
  let toDeviceId ← orError "Invalid DeskLink WebRTC destination" (← value "toDeviceId").asStr
  let timestamp ← orError "Invalid DeskLink WebRTC timestamp" (← value "timestamp").asI64
  let messageType ← SignalingMessageType.parse
    (← orError "Invalid DeskLink WebRTC message type" (← value "messageType").asStr)
  let payload ← orError "Missing DeskLink WebRTC signaling payload" (← value "payload").asObject
  let signature ← orError "Invalid DeskLink WebRTC signature" (← value "signature").asStr
  return { signalingVersion, requestId, sessionAttemptId, fromDeviceId, toDeviceId, timestamp,
           messageType, payload, signature }

/-- A text of the payload, of no more than so many bytes. -/
def requiredString (message : WebRtcSignalingMessage) (key : String) (maximum : Nat) :
    Except String String :=
  match (Map.get message.payload key).bind Value.asStr with
  | none => .error ("Missing DeskLink WebRTC signaling payload field: " ++ key)
  | some value =>
    if maximum < value.utf8ByteSize then
      .error ("DeskLink WebRTC signaling payload field is too large: " ++ key)
    else .ok value

def canonicalPayload (message : WebRtcSignalingMessage) : Except String String :=
  match message.messageType with
  | .offer | .answer => do
    let sdp ← message.requiredString "sdp" maxSdpBytes
    return "sdp=" ++ sdp
  | .iceCandidate => do
    let index ← orError "Missing DeskLink WebRTC ICE m-line index"
      ((Map.get message.payload "sdpMLineIndex").bind Value.asI64)
    let candidate ← message.requiredString "candidate" maxCandidateBytes
    return "sdpMLineIndex=" ++ (toString index.toInt ++ ("\ncandidate=" ++ candidate))
  | .endOfCandidates | .iceRestart | .restartRequest | .close => return ""

/-- What a signature of the message is over. -/
def canonicalBytes (message : WebRtcSignalingMessage) : Except String (List UInt8) := do
  let payload ← message.canonicalPayload
  return utf8Bytes (sizedAll
    [toString message.signalingVersion.toInt, message.requestId, message.sessionAttemptId,
      message.fromDeviceId, message.toDeviceId, toString message.timestamp.toInt,
      message.messageType.wireName, payload])

/-- What `handle_signaling_packet` takes from a payload. -/
inductive PayloadUse where
  | description (sdp : String)
  | candidate (index : UInt32) (candidate : String)
  | nothing
deriving DecidableEq, Repr

/-- The payload values that `handle_signaling_packet` reads for the message's type. -/
def payloadUse (message : WebRtcSignalingMessage) : Except String PayloadUse :=
  match message.messageType with
  | .offer | .answer => do
    let sdp ← orError "Missing DeskLink WebRTC SDP"
      ((Map.get message.payload "sdp").bind Value.asStr)
    return .description sdp
  | .iceCandidate => do
    let index ← orError "Missing DeskLink WebRTC ICE m-line index"
      (((Map.get message.payload "sdpMLineIndex").bind Value.asU64).bind (fun value =>
        if value.toNat < 2 ^ 32 then some value.toUInt32 else none))
    let candidate ← orError "Missing DeskLink WebRTC ICE candidate"
      ((Map.get message.payload "candidate").bind Value.asStr)
    return .candidate index candidate
  | .endOfCandidates | .iceRestart | .restartRequest | .close => return .nothing

end WebRtcSignalingMessage

/-! ### The authentication's transcript -/

structure AuthenticationTranscript where
  sessionAttemptId : String
  initiatorDeviceId : String
  responderDeviceId : String
  sessionId : UInt64
  connectionGeneration : UInt64
  initiatorNonce : String
  responderNonce : String
  offerSha256 : String
  answerSha256 : String
  initiatorDtlsFingerprint : String
  responderDtlsFingerprint : String
  protocolVersion : Int64
  timestamp : Int64
deriving DecidableEq

/-- The transcript as JSON, field by field. -/
def AuthenticationTranscript.canonicalBytes (t : AuthenticationTranscript) : List UInt8 :=
  utf8Bytes <|
    "\x7b\"sessionAttemptId\":" ++ (jsonString t.sessionAttemptId ++
    (",\"initiatorDeviceId\":" ++ (jsonString t.initiatorDeviceId ++
    (",\"responderDeviceId\":" ++ (jsonString t.responderDeviceId ++
    (",\"sessionId\":" ++ (toString t.sessionId.toNat ++
    (",\"connectionGeneration\":" ++ (toString t.connectionGeneration.toNat ++
    (",\"initiatorNonce\":" ++ (jsonString t.initiatorNonce ++
    (",\"responderNonce\":" ++ (jsonString t.responderNonce ++
    (",\"offerSha256\":" ++ (jsonString t.offerSha256 ++
    (",\"answerSha256\":" ++ (jsonString t.answerSha256 ++
    (",\"initiatorDtlsFingerprint\":" ++ (jsonString t.initiatorDtlsFingerprint ++
    (",\"responderDtlsFingerprint\":" ++ (jsonString t.responderDtlsFingerprint ++
    (",\"protocolVersion\":" ++ (toString t.protocolVersion.toInt ++
    (",\"timestamp\":" ++ (toString t.timestamp.toInt ++
    "\x7d")))))))))))))))))))))))))

end DeskLink.Signaling
