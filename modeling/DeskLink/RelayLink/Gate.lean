import DeskLink.Session.Signaling
import DeskLink.RelayLink.Crypto

/-!
# `DeskLink.RelayLink.Gate`: packets that arrive over the relay

`NetworkPacket::deserialize` of `packet.rs`, `packet_may_cross` of `pairing_transport.rs`,
what `on_link_event` of `relay_link/client.rs` does with a plaintext while a transport is
attached, `deliver` and `read_byte` of `relay_link/transport.rs`, and the loop of
`packet_read_loop` in `daemon/packet_handler.rs`.

The reader of JSON is a parameter `parse`. `Link` is the attached transport and its reader.
-/

set_option autoImplicit false

namespace DeskLink.RelayLink

open Signaling (Value Map packetTypeWebrtcSignalV1)

/-! ### Packets -/

def packetTypePair : String := "desklink.pair"

def packetTypePairQr : String := "desklink.pair.qr"

def packetTypeHeartbeat : String := "desklink.heartbeat"

structure NetworkPacket where
  id : Int64 := 0
  packetType : String := ""
  body : Map := []
  payloadSize : Option Int64 := none
  payloadTransferInfo : Option Map := none

/-- `Value::as_bool`. -/
def asBool : Value → Option Bool
  | .bool b => some b
  | .null | .number _ | .string _ | .array _ | .object _ => none

/-- The packet of a JSON value. One that is no object has no fields. -/
def NetworkPacket.ofValue (value : Value) : NetworkPacket :=
  let object := value.asObject.getD []
  { id := ((Map.get object "id").bind Value.asI64).getD 0
    packetType := ((Map.get object "type").bind Value.asStr).getD ""
    body := ((Map.get object "body").bind Value.asObject).getD []
    payloadSize := (Map.get object "payloadSize").bind Value.asI64
    payloadTransferInfo := (Map.get object "payloadTransferInfo").bind Value.asObject }

def deserialize (parse : Bytes → Option Value) (input : Bytes) : Option NetworkPacket :=
  (parse input).map NetworkPacket.ofValue

/-! ### The gate -/

/-- Pairing off the LAN is not compiled in. -/
def offLanPairingCompiled : Bool := false

def flagOpen (compiled requested : Bool) : Bool := compiled && requested

/-- `packet_may_cross` on a relay link. -/
def packetMayCross (packet : NetworkPacket) (offLan : Bool) : Bool :=
  if packet.packetType = packetTypeWebrtcSignalV1 ∨ packet.packetType = packetTypeHeartbeat then
    true
  else if packet.packetType = packetTypePair then
    offLan || (Map.get packet.body "pair").bind asBool = some false
  else if packet.packetType = packetTypePairQr then offLan
  else false

/-- `requested` is the hidden setting. -/
def allowedOnRelay (requested : Bool) (packet : NetworkPacket) : Bool :=
  packetMayCross packet (flagOpen offLanPairingCompiled requested)

/-- The packet of a plaintext that may come in. -/
def gate (parse : Bytes → Option Value) (requested : Bool) (plaintext : Bytes) :
    Option NetworkPacket :=
  (deserialize parse plaintext).filter (allowedOnRelay requested)

/-! ### The reader -/

def maxUnpairedPacketBytes : Nat := 256 * 1024

def maxPacketBytes : Nat := 32 * 1024 * 1024

/-- The longest line, of one that has `length` bytes by now. -/
def lineLimit (length : Nat) (paired : Bool) : Nat :=
  if maxUnpairedPacketBytes < length && !paired then maxUnpairedPacketBytes else maxPacketBytes

/-- The byte `\n`. -/
def feed : UInt8 := 10

/-- A transport that is attached, and the loop that reads it. -/
structure Link where
  inbound : Bytes := []
  line : Bytes := []
  /-- What was handed to `apply_lan_packet`. -/
  handed : List NetworkPacket := []
  /-- The packets of the plaintexts that the gate let in. -/
  passed : List NetworkPacket := []
  /-- The loop ended at a line that was too long. -/
  ended : Bool := false

inductive LinkStep where
  /-- The peer's plaintext, with the hidden setting as it is then. -/
  | packet (plaintext : Bytes) (requested : Bool)
  /-- One turn of the loop, with a byte to read. `paired` is what the session says of the
  pairing then. -/
  | read (paired : Bool)

namespace Link

/-- `deliver`. -/
def deliver (link : Link) (plaintext : Bytes) : Link :=
  { link with inbound := link.inbound ++ plaintext ++ [feed] }

/-- The loop takes a byte. -/
def push (parse : Bytes → Option Value) (link : Link) (value : UInt8) (paired : Bool) : Link :=
  let line := link.line ++ [value]
  if lineLimit line.length paired < line.length then { link with line, ended := true }
  else if value ≠ feed then { link with line }
  else { link with line := [], handed := link.handed ++ (deserialize parse line).toList }

def step (parse : Bytes → Option Value) (link : Link) : LinkStep → Option Link
  | .packet plaintext requested =>
    match gate parse requested plaintext with
    | none => some link
    | some packet =>
      some { link.deliver plaintext with passed := link.passed ++ [packet] }
  | .read paired =>
    match link.inbound with
    | [] => none
    | value :: inbound =>
      if link.ended then none else some (push parse { link with inbound } value paired)

end Link

end DeskLink.RelayLink
