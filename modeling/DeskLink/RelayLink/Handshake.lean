import DeskLink.RelayLink.Crypto

/-!
# `DeskLink.RelayLink.Handshake`: one end of a link

`src/device_links/relay_link/handshake.rs`. A call takes the link to a new
one and answers with a result, so a call that fails may still have changed
the link. What the random generator gives is an argument of the calls that
ask for it.

A message is what the code reads of a JSON value: each field, if it is
there and of the right kind.
-/

set_option autoImplicit false

namespace DeskLink.RelayLink

open Lib (Base64.encode Base64.decode)

/-- The fields of a message. -/
structure Message where
  k : Option String := none
  lv : Option Nat := none
  eph : Option String := none
  nonce : Option String := none
  identity : Option String := none
  sig : Option String := none
  seq : Option UInt64 := none
  ct : Option String := none
deriving DecidableEq, Repr

/-- What the owner should do after a message. -/
inductive Event where
  | send (message : Message)
  | established (identity : String)
  | packet (plaintext : Bytes)
deriving DecidableEq, Repr

/-- Who we are and who the peer must prove to be. -/
structure Identities (P : Primitives) where
  localFp : String
  peerFp : String
  localKey : P.SigningKey
  localIdentity : String
  peerKey : P.VerifyKey
  peerDeviceId : String

inductive State (P : Primitives) where
  | idle
  | awaitingH2 (mine : Ephemeral P)
  | awaitingFin (keys : LinkKeys P) (transcript identity : String)
  | established (keys : LinkKeys P)

structure PeerLink (P : Primitives) where
  ids : Identities P
  role : Role
  state : State P := .idle
  sendSeq : UInt64 := 0
  receiveSeq : UInt64 := 0

/-- A text that must be there. -/
def Message.text (field : Option String) (key : String) : Except String String :=
  match field with
  | some value => .ok value
  | none => .error ("Relay link message has no " ++ key)

/-- Base64 that must be there. -/
def Message.bytes (field : Option String) (key : String) : Except String Bytes := do
  let value ← Message.text field key
  match Base64.decode value with
  | some bytes => .ok bytes
  | none => .error ("Relay link " ++ key ++ " is not base64")

def checkVersion (message : Message) : Except String Unit :=
  if message.lv = some linkVersion then .ok () else .error "Unsupported relay link version"

namespace PeerLink

variable {P : Primitives}

def new (ids : Identities P) : PeerLink P where
  ids := ids
  role := if isInitiator ids.localFp ids.peerFp then .initiator else .responder

/-- Forgets the session. -/
def reset (l : PeerLink P) : PeerLink P :=
  { l with state := .idle, sendSeq := 0, receiveSeq := 0 }

/-- Begins a handshake: the initiator sends `h1`, the responder asks the
initiator to with `kick`. -/
def start (l : PeerLink P) (random : Except String (Ephemeral P)) :
    PeerLink P × Except String Message :=
  let l := l.reset
  match l.role, random with
  | .responder, _ => (l, .ok { k := some "kick" })
  | .initiator, .error e => (l, .error e)
  | .initiator, .ok mine =>
    ({ l with state := .awaitingH2 mine },
      .ok { k := some "h1", lv := some linkVersion, eph := some (Base64.encode mine.public),
            nonce := some (Base64.encode mine.nonce), identity := some l.ids.localIdentity })

/-- Seals one packet for the peer. The number is counted up before the
cipher is called. -/
def sealPacket (l : PeerLink P) (plaintext : Bytes) : PeerLink P × Except String Message :=
  match l.state with
  | .established keys =>
    let seq := l.sendSeq + 1
    ({ l with sendSeq := seq }, (cryptoSeal P keys.send seq plaintext).map
      (fun ct => { k := some "d", seq := some seq, ct := some ct }))
  | .idle | .awaitingH2 _ | .awaitingFin .. => (l, .error "Relay link is not established")

/-- The peer's identity, after checking it names the paired device. -/
def checkedIdentity (l : PeerLink P) (message : Message) : Except String String := do
  let identity ← Message.text message.identity "identity"
  let id ← P.deviceId identity
  if id ≠ l.ids.peerDeviceId then .error "Relay link identity names another device"
  else .ok identity

/-- The body of `on_h1`: the keys, the transcript, the peer's identity and
the `h2` to send. -/
def answerH1 (l : PeerLink P) (message : Message) (random : Except String (Ephemeral P)) :
    Except String (LinkKeys P × String × String × Message) := do
  checkVersion message
  let peerEph ← Message.bytes message.eph "eph"
  let peerNonce ← Message.bytes message.nonce "nonce"
  let identity ← l.checkedIdentity message
  let mine ← random
  let keys ← deriveKeys P mine peerEph .responder l.ids.peerFp l.ids.localFp peerNonce mine.nonce
  let signed := transcript P ⟨l.ids.peerFp, l.ids.localFp, peerEph, mine.public, peerNonce,
    mine.nonce, identity, l.ids.localIdentity⟩
  let sig ← sign P l.ids.localKey .responder signed
  return (keys, signed, identity,
    { k := some "h2", lv := some linkVersion, eph := some (Base64.encode mine.public),
      nonce := some (Base64.encode mine.nonce), identity := some l.ids.localIdentity,
      sig := some sig })

def onH1 (l : PeerLink P) (message : Message) (random : Except String (Ephemeral P)) :
    PeerLink P × Except String (List Event) :=
  let l := l.reset
  match l.answerH1 message random with
  | .error e => (l, .error e)
  | .ok (keys, signed, identity, h2) =>
    ({ l with state := .awaitingFin keys signed identity }, .ok [.send h2])

/-- The body of `on_h2`: the keys, the transcript, the peer's identity and
the `fin` to send. -/
def acceptH2 (l : PeerLink P) (mine : Ephemeral P) (message : Message) :
    Except String (LinkKeys P × String × String × Message) := do
  checkVersion message
  let peerEph ← Message.bytes message.eph "eph"
  let peerNonce ← Message.bytes message.nonce "nonce"
  let identity ← l.checkedIdentity message
  let signed := transcript P ⟨l.ids.localFp, l.ids.peerFp, mine.public, peerEph, mine.nonce,
    peerNonce, l.ids.localIdentity, identity⟩
  let sig ← Message.text message.sig "sig"
  if !verify P l.ids.peerKey .responder signed sig then
    .error "Relay link peer failed to prove its pairing key"
  else
    let keys ← deriveKeys P mine peerEph .initiator l.ids.localFp l.ids.peerFp mine.nonce peerNonce
    let fin ← sign P l.ids.localKey .initiator signed
    return (keys, signed, identity, { k := some "fin", sig := some fin })

/-- The state is taken out first, so an `h2` that is not expected, or
fails, ends the session. -/
def onH2 (l : PeerLink P) (message : Message) : PeerLink P × Except String (List Event) :=
  let taken := { l with state := .idle }
  match l.state with
  | .awaitingH2 mine =>
    match taken.acceptH2 mine message with
    | .error e => (taken, .error e)
    | .ok (keys, _, identity, fin) =>
      ({ taken with state := .established keys }, .ok [.send fin, .established identity])
  | .idle | .awaitingFin .. | .established _ => (taken, .error "Unexpected relay link h2")

/-- Whether a `fin` proves the peer's key. -/
def acceptFin (l : PeerLink P) (transcript : String) (message : Message) : Except String Unit := do
  let sig ← Message.text message.sig "sig"
  if !verify P l.ids.peerKey .initiator transcript sig then
    .error "Relay link peer failed to prove its pairing key"
  else .ok ()

def onFin (l : PeerLink P) (message : Message) : PeerLink P × Except String (List Event) :=
  let taken := { l with state := .idle }
  match l.state with
  | .awaitingFin keys signed identity =>
    match taken.acceptFin signed message with
    | .error e => (taken, .error e)
    | .ok () => ({ taken with state := .established keys }, .ok [.established identity])
  | .idle | .awaitingH2 _ | .established _ => (taken, .error "Unexpected relay link fin")

/-- The body of `on_data`: the number and the packet. -/
def openData (l : PeerLink P) (keys : LinkKeys P) (message : Message) :
    Except String (UInt64 × Bytes) :=
  match message.seq with
  | none => .error "Relay frame has no sequence"
  | some seq =>
    if seq ≤ l.receiveSeq then .error "Replayed relay frame"
    else do
      let ct ← Message.text message.ct "ct"
      let plaintext ← cryptoOpen P keys.receive seq ct
      return (seq, plaintext)

def onData (l : PeerLink P) (message : Message) : PeerLink P × Except String (List Event) :=
  match l.state with
  | .established keys =>
    match l.openData keys message with
    | .error e => (l, .error e)
    | .ok (seq, plaintext) => ({ l with receiveSeq := seq }, .ok [.packet plaintext])
  | .idle | .awaitingH2 _ | .awaitingFin .. => (l, .error "Relay link data before the handshake")

/-- Handles one message from the peer. -/
def receive (l : PeerLink P) (message : Message) (random : Except String (Ephemeral P)) :
    PeerLink P × Except String (List Event) :=
  let kind := message.k.getD ""
  match kind, l.role with
  | "kick", .initiator =>
    match l.state with
    | .awaitingH2 _ => (l, .ok [])
    | .idle | .awaitingFin .. | .established _ =>
      let (l, h1) := l.start random
      (l, h1.map (fun h1 => [.send h1]))
  | "h1", .responder => l.onH1 message random
  | "h2", .initiator => l.onH2 message
  | "fin", .responder => l.onFin message
  | "d", _ => l.onData message
  | _, _ => (l, .error ("Unexpected relay link message " ++ kind.quote))

end PeerLink

end DeskLink.RelayLink
