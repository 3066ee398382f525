import Mathlib.Tactic

/-!
# `DeskLink.Pairing.Handler`: the state of a pairing

`pairing.rs`. A clock reading is the parameter `now`, in unix seconds; a
function that reads the clock twice has one `now` for both.

`Packet` is a `desklink.pair` packet with the two fields that are read from
its body. A request carries a timestamp, an acceptance does not. The hash of
`verificationKey` is the parameter `sha256`.
-/

set_option autoImplicit false

namespace DeskLink.Pairing

/-- The same five minutes the signed WebRTC signaling allows. -/
def allowedTimestampDifferenceSeconds : Nat := 5 * 60

/-- How long a pairing negotiation waits, in either direction. -/
def pairTimeoutSecs : Int := 30

inductive PairState where
  | notPaired
  | requested
  | requestedByPeer
  | paired
deriving DecidableEq, Repr

structure Packet where
  pair : Option Bool
  timestamp : Option Int := none
deriving DecidableEq, Repr

structure PairingHandler where
  state : PairState
  timestamp : Int := 0
  /-- When the current negotiation stops waiting. -/
  deadline : Option Int := none
deriving DecidableEq, Repr

namespace PairingHandler

def new (isPaired : Bool) : PairingHandler :=
  { state := if isPaired then .paired else .notPaired }

/-- Accepts a pair request that is actually outstanding. -/
def acceptPacket (h : PairingHandler) : Except String (PairingHandler × Packet) :=
  if h.state ≠ .requestedByPeer then .error "There is no pairing request to accept"
  else .ok ({ h with state := .paired, deadline := none }, { pair := some true })

/-- Builds the outgoing pair request. Asking while the peer asks is an
acceptance. Asking again does not restamp the negotiation. -/
def requestPacket (h : PairingHandler) (now : Int) : Except String (PairingHandler × Packet) :=
  if h.state = .paired then .error "Device is already paired"
  else if h.state = .requestedByPeer then h.acceptPacket
  else
    let timestamp := if h.state ≠ .requested then now else h.timestamp
    .ok ({ state := .requested, timestamp, deadline := some (now + pairTimeoutSecs) },
      { pair := some true, timestamp := some timestamp })

def rejectPacket (h : PairingHandler) : PairingHandler × Packet :=
  ({ h with state := .notPaired, deadline := none }, { pair := some false })

/-- Whether a peer's request timestamp is close enough to this clock. -/
def timestampIsPlausible (timestamp now : Int) : Bool :=
  (timestamp - now).natAbs ≤ allowedTimestampDifferenceSeconds

/-- Applies an inbound pair packet. -/
def receive (h : PairingHandler) (packet : Packet) (localGoesFirst : Bool) (now : Int) :
    PairingHandler :=
  if packet.pair = some true then
    match h.state with
    | .requested =>
      match packet.timestamp with
      | none => { h with state := .paired, deadline := none }
      | some timestamp =>
        -- Both asked at once: the follower adopts the leader's negotiation.
        if !localGoesFirst && timestampIsPlausible timestamp now then
          { state := .requestedByPeer, timestamp, deadline := some (now + pairTimeoutSecs) }
        else h
    | .paired => h
    | .notPaired =>
      match packet.timestamp with
      | none => { h with state := .notPaired }
      | some timestamp =>
        if !timestampIsPlausible timestamp now then { h with state := .notPaired }
        else { state := .requestedByPeer, timestamp, deadline := some (now + pairTimeoutSecs) }
    | .requestedByPeer => h
  else { h with state := .notPaired, deadline := none }

/-- Abandons a negotiation the peer never answered, and says whether it
did. -/
def expireIfDue (h : PairingHandler) (now : Int) : PairingHandler × Bool :=
  match h.deadline with
  | none => (h, false)
  | some deadline =>
    if now < deadline then (h, false)
    else if h.state ≠ .requested ∧ h.state ≠ .requestedByPeer then
      ({ h with deadline := none }, false)
    else ({ h with state := .notPaired, deadline := none }, true)

end PairingHandler

/-- The first four digest bytes, big-endian, mod 10^6, zero-padded. -/
def sixDigits (digest : List UInt8) : String :=
  let value := (digest.take 4).foldl (fun value byte => value * 256 + byte.toNat) 0
  let digits := toString (value % 1000000)
  String.ofList (List.replicate (6 - digits.length) '0') ++ digits

/-- The code both screens show during pairing. -/
def verificationKey (sha256 : List UInt8 → List UInt8) (localPublicDer remotePublicDer : List UInt8)
    (timestamp : Int) : String :=
  let ordered := if localPublicDer < remotePublicDer then remotePublicDer ++ localPublicDer
    else localPublicDer ++ remotePublicDer
  sixDigits (sha256 (ordered ++ (toString timestamp).toUTF8.data.toList))

/-- Whether an incoming pair packet needs an acknowledgement sent back. -/
def needsPairReconfirmation (previous current : PairState) (packet : Packet) : Bool :=
  previous = .paired ∧ current = .paired ∧ packet.pair = some true ∧ packet.timestamp.isSome

/-- A pairing request that was dropped only because its timestamp is too
far from this clock. -/
def requestRefusedForClock (previous current : PairState) (packet : Packet) : Bool :=
  previous = .notPaired ∧ current = .notPaired ∧ packet.pair = some true
    ∧ packet.timestamp.isSome

/-- What the daemon does with a pair packet: the handler after it, and the
packets sent back (`packet_handler.rs`). -/
def handlePairPacket (h : PairingHandler) (packet : Packet) (localGoesFirst : Bool) (now : Int) :
    PairingHandler × List Packet :=
  let received := h.receive packet localGoesFirst now
  (received,
    (if requestRefusedForClock h.state received.state packet then [{ pair := some false }] else [])
      ++ (if needsPairReconfirmation h.state received.state packet then [{ pair := some true }]
        else []))

end DeskLink.Pairing
