import DeskLink.Session.Operations

/-!
# `DeskLink.Session.Commands`: pairing, one lock at a time

`daemon/pairing_commands.rs`, the pair packets of `daemon/packet_handler.rs`
and the links of `daemon/handshake.rs`. Each of them takes the lock of the
sessions or of the trust store several times, and anything can happen in
between. A `Task` is one of them on its way: which section it comes to, and
what it holds by then. `Task.run` is that section.

The trust store is the certificate of each device it holds. Whether a send
or a save works, whether a proof is good, and what the clocks say is the
`Choice` of the environment.
-/

set_option autoImplicit false

namespace DeskLink.Session

open DeskLink.Pairing (PairState PairingHandler Packet)

/-- What the user asked for. An acceptance can carry the key that was
shown. -/
inductive Command where
  | request
  | accept (shown : Option String)
deriving DecidableEq, Repr

/-- The packet of a command (`request_packet`, `accept_packet`). -/
def Command.build (pairing : PairingHandler) (now : Int) :
    Command → Except String (PairingHandler × Packet)
  | .request => pairing.requestPacket now
  | .accept _ => pairing.acceptPacket

inductive Task where
  /-- `accept_pair` looks up the binding whose key it compares. -/
  | check (deviceId shown : String)
  | compare (b : SessionBinding) (shown : String)
  /-- `transition` looks up the binding, moves the pairing, and sends. -/
  | seek (deviceId : String) (command : Command)
  | apply (b : SessionBinding) (command : Command)
  | send (b : SessionBinding) (command : Command) (snapshot : PairingHandler) (state : PairState)
      (timestamp : Int)
  | persistTrust (b : SessionBinding) (command : Command) (snapshot : PairingHandler)
      (state : PairState) (timestamp : Int)
  | revert (b : SessionBinding) (snapshot : PairingHandler) (expected : PairState)
  /-- `revoke_pairing`, of a rejection or an unpair. -/
  | revoke (deviceId reason : String)
  | forget (deviceId reason : String)
  | find (deviceId reason : String)
  | drop (b : SessionBinding) (reason : String)
  | untrust (deviceId : String)
  /-- A pair packet. An unpair that comes through a stale binding with the
  stored certificate is taken to the current one. -/
  | read (b : SessionBinding) (packet : Packet) (goesFirst : Bool)
  | recognise (b : SessionBinding) (packet : Packet) (goesFirst : Bool)
  | rebind (b : SessionBinding) (packet : Packet) (goesFirst : Bool)
  | receive (b : SessionBinding) (packet : Packet) (goesFirst : Bool)
  | trust (b : SessionBinding)
  | unpair (b : SessionBinding)
  | clear (b : SessionBinding)
  /-- A QR proof that was found good. -/
  | prove (b : SessionBinding)
  /-- A link arrives; `qr` says that a QR code is on screen. -/
  | pin (deviceId : String) (link : SessionLink) (qr : Bool)
  | proveLink (deviceId : String) (link : SessionLink)
  | ask (deviceId : String) (link : SessionLink)
  | attach (deviceId : String) (link : SessionLink) (paired : Bool)
  | adopt (deviceId : String) (link : SessionLink) (paired : Bool)
  | register (deviceId : String) (link : SessionLink) (paired : Bool)
deriving DecidableEq, Repr

/-- Where an operation starts. -/
inductive Op where
  | sendPairRequest (deviceId : String)
  | acceptPair (deviceId : String) (shownKey : Option String)
  | rejectPair (deviceId : String)
  | unpair (deviceId : String)
  | pairPacket (b : SessionBinding) (packet : Packet) (goesFirst : Bool)
  | qrProof (b : SessionBinding)
  | link (deviceId : String) (newcomer : SessionLink) (qr : Bool)
deriving DecidableEq, Repr

def Op.task : Op → Task
  | .sendPairRequest deviceId => .seek deviceId .request
  | .acceptPair deviceId (some shown) => .check deviceId shown
  | .acceptPair deviceId none => .seek deviceId (.accept none)
  | .rejectPair deviceId => .revoke deviceId "Pairing request was rejected"
  | .unpair deviceId => .revoke deviceId "Device was unpaired"
  | .pairPacket b packet goesFirst => .read b packet goesFirst
  | .qrProof b => .prove b
  | .link deviceId newcomer qr => .pin deviceId newcomer qr

def Task.device : Task → String
  | .check d _ | .seek d _ | .revoke d _ | .forget d _ | .find d _ | .untrust d | .pin d _ _
  | .proveLink d _ | .ask d _ | .attach d _ _ | .adopt d _ _ | .register d _ _ => d
  | .compare b _ | .apply b _ | .send b _ _ _ _ | .persistTrust b _ _ _ _ | .revert b _ _
  | .drop b _ | .read b _ _ | .recognise b _ _ | .rebind b _ _ | .receive b _ _ | .trust b
  | .unpair b | .clear b | .prove b => b.deviceId

/-- What the link race and the newcomer's instance say about a link of a
paired device. -/
inductive Verdict where
  | keepIncumbent
  | adoptOrKeep (answeringWithin : Nat)
  | register
deriving DecidableEq, Repr

structure Choice where
  /-- The send, the save or the proof works. -/
  ok : Bool := true
  verdict : Verdict := .register
  now : Nat := 0
  nowSecs : Int := 0
deriving DecidableEq, Repr

/-- Trust that an acceptance with a key led to: the link whose certificate
was written, and the timestamp of the negotiation that was accepted. -/
structure Granted where
  link : SessionLink
  timestamp : Int
  shown : String
deriving DecidableEq, Repr

structure World where
  manager : DeviceManager := {}
  trust : KeyMap String := ∅
  tasks : List Task := []
  granted : List Granted := []

/-- The certificate of a link. -/
def World.certificate (w : World) (link : Nat) : Option String :=
  w.manager.links[link]?.map (·.certificatePem)

/-- `SessionLink::verification_key`. -/
def SessionLink.verificationKey (sha256 : List UInt8 → List UInt8) (link : SessionLink)
    (timestamp : Int) : String :=
  Pairing.verificationKey sha256 link.localPublicDer link.remotePublicDer timestamp

/-- `trust_device`, with the certificate of the binding's link. -/
def World.trustDevice (w : World) (b : SessionBinding) : World :=
  match w.certificate b.link with
  | some pem => { w with trust := w.trust.insert b.deviceId pem }
  | none => w

def World.through {R : Type} (w : World) (b : SessionBinding)
    (operation : DeviceSession → DeviceSession × R) : World :=
  { w with manager := (w.manager.withSession b operation).1 }

/-- The pairing is set, whatever it was. -/
def World.setPairing (w : World) (b : SessionBinding) (pairing : PairingHandler) : World :=
  w.through b (fun s => ({ s with pairing }, ()))

section
variable (sha256 : List UInt8 → List UInt8)

/-- The closure of `transition`. -/
def applyCommand (command : Command) (now : Int) (s : DeviceSession) :
    DeviceSession × Option (PairingHandler × PairState × Int) :=
  match command.build s.pairing now with
  | .error _ => (s, none)
  | .ok (pairing, _) => ({ s with pairing }, some (s.pairing, pairing.state, pairing.timestamp))

/-- The closure of the packet handler. -/
def receivePacket (packet : Packet) (goesFirst : Bool) (now : Int) (s : DeviceSession) :
    DeviceSession × (PairState × PairState) :=
  let pairing := s.pairing.receive packet goesFirst now
  ({ s with pairing }, (s.pairing.state, pairing.state))

/-- Runs the section the task has come to. The second is the section it
comes to next, if any. -/
def Task.run (w : World) (c : Choice) : Task → World × Option Task
  | .check d shown => (w, (w.manager.currentBinding d).map (.compare · shown))
  | .compare b shown =>
    match (w.manager.withSession b (fun s => (s, s.pairing.timestamp))).2, w.manager.links[b.link]? with
    | .ok timestamp, some link =>
      (w, if link.verificationKey sha256 timestamp = shown
        then some (.seek b.deviceId (.accept (some shown))) else none)
    | _, _ => (w, none)
  | .seek d command => (w, (w.manager.currentBinding d).map (.apply · command))
  | .apply b command =>
    (w.through b (applyCommand command c.nowSecs),
      match (w.manager.withSession b (applyCommand command c.nowSecs)).2 with
      | .ok (some (snapshot, state, timestamp)) => some (.send b command snapshot state timestamp)
      | .ok none | .error _ => none)
  | .send b command snapshot state timestamp =>
    (w, if c.ok then
        if state = .paired then some (.persistTrust b command snapshot state timestamp) else none
      else some (.revert b snapshot state))
  | .persistTrust b command snapshot state timestamp =>
    if c.ok then
      ({ w.trustDevice b with
          granted := w.granted ++ match command, w.manager.links[b.link]? with
            | .accept (some shown), some link => [⟨link, timestamp, shown⟩]
            | _, _ => [] }, none)
    else (w, some (.revert b snapshot state))
  | .revert b snapshot expected =>
    (w.through b (fun s =>
      (if s.pairing.state = expected then { s with pairing := snapshot } else s, ())), none)
  | .revoke d reason =>
    (w, if (w.manager.currentBinding d).isNone then some (.forget d reason)
      else some (.find d reason))
  | .forget d reason => ({ w with manager := (w.manager.forgetPairing d).1 }, some (.find d reason))
  | .find d reason =>
    (w, some (match w.manager.currentBinding d with
      | none => .untrust d
      | some b => .drop b reason))
  | .drop b reason =>
    ({ w with manager := (w.manager.revokePairing b reason).1 }, some (.untrust b.deviceId))
  | .untrust d => (if c.ok then { w with trust := w.trust.erase d } else w, none)
  | .read b packet goesFirst =>
    (w, if packet.pair = some false ∧ (w.manager.withSession b (fun s => (s, ()))).2.isOk = false
      then some (.recognise b packet goesFirst) else some (.receive b packet goesFirst))
  | .recognise b packet goesFirst =>
    (w, if w.trust[b.deviceId]?.isSome ∧ w.trust[b.deviceId]? = w.certificate b.link
      then some (.rebind b packet goesFirst) else some (.receive b packet goesFirst))
  | .rebind b packet goesFirst =>
    (w, some (.receive ((w.manager.currentBinding b.deviceId).getD b) packet goesFirst))
  | .receive b packet goesFirst =>
    (w.through b (receivePacket packet goesFirst c.nowSecs),
      match (w.manager.withSession b (receivePacket packet goesFirst c.nowSecs)).2 with
      | .error _ => none
      | .ok (previous, state) =>
        if state = .paired then some (.trust b)
        else if previous = .paired ∧ state = .notPaired then some (.clear b)
        else none)
  | .trust b => if c.ok then (w.trustDevice b, none) else (w, some (.unpair b))
  | .unpair b => (w.setPairing b (.new false), none)
  | .clear b =>
    ({ w with manager :=
        (w.manager.revokePairing b "The paired device removed this pairing").1 },
      some (.untrust b.deviceId))
  | .prove b => (w.setPairing b (.new true), some (.trust b))
  | .pin d link qr =>
    (w, match w.trust[d]? with
      | none => some (.ask d link)
      | some pem => if pem = link.certificatePem then some (.ask d link)
        else if qr then some (.proveLink d link) else none)
  | .proveLink d link =>
    if c.ok then ({ w with trust := w.trust.insert d link.certificatePem },
      some (.register d link true))
    else (w, none)
  | .ask d link => (w, some (.attach d link w.trust[d]?.isSome))
  | .attach d link paired =>
    (w, if paired = false ∧ w.manager.holdsPairedTransport d then none else some (.adopt d link paired))
  | .adopt d link paired =>
    match paired, c.verdict with
    | true, .keepIncumbent => (w, none)
    | true, .adoptOrKeep within =>
      let adopted := w.manager.adoptOrKeep d link.transport link.certificatePem within c.now
      ({ w with manager := adopted.1 },
        if adopted.2 = .register then some (.register d link paired) else none)
    | _, _ => (w, some (.register d link paired))
  | .register d link paired =>
    ({ w with manager := (w.manager.registerLink d link paired c.now).1 }, none)

/-- Calls of the manager beside the pairing: links that close, peers that
come and go, and negotiations that expire. -/
def Call.aside : Call → Bool
  | .closeLink _ | .disconnect _ _ | .bootstrapDisconnected _ _ | .readerDisconnected _ _ _
  | .install .. | .clearWebrtc .. | .handover .. | .expirePairing _ | .noteInbound .. => true
  | _ => false

inductive Move where
  | start (op : Op)
  /-- The task with the number runs a section. -/
  | advance (task : Nat) (choice : Choice)
  | call (call : Call)

/-- The tasks after the one at `i` has come to `next`. -/
def proceed (tasks : List Task) (i : Nat) : Option Task → List Task
  | some next => tasks.set i next
  | none => tasks.eraseIdx i

def World.after (w : World) : Move → World
  | .start op => { w with tasks := w.tasks ++ [op.task] }
  | .advance i c =>
    match w.tasks[i]? with
    | none => w
    | some task =>
      let ran := task.run sha256 w c
      { ran.1 with tasks := proceed w.tasks i ran.2 }
  | .call call => if call.aside then { w with manager := w.manager.after call } else w

end

end DeskLink.Session
