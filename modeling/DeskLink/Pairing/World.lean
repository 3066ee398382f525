import DeskLink.Pairing.Handler

/-!
# `DeskLink.Pairing.World`: two ends that pair

Two handlers, joined by an ordered channel each way. The leader is the end
with `local_goes_first`. Users ask, accept and reject, packets arrive, and
negotiations expire, in any order, and each end reads its own clock.

Beside its handler an end keeps what its code does not: whether its user
has accepted, and for each request of its own that was answered, the
timestamp it had and the one the answering end had. An end shows its user
the key made with its timestamp, so these are the keys the two users
compared.
-/

set_option autoImplicit false

namespace DeskLink.Pairing

inductive Side where
  | leader
  | follower
deriving DecidableEq, Repr

def Side.other : Side → Side
  | .leader => .follower
  | .follower => .leader

def Side.goesFirst : Side → Bool
  | .leader => true
  | .follower => false

/-- A packet on its way, with the timestamp its sender had. -/
structure Sent where
  packet : Packet
  shown : Int
deriving DecidableEq, Repr

structure End where
  handler : PairingHandler := .new false
  /-- What it sent and has not arrived, oldest first. -/
  outbox : List Sent := []
  accepted : Bool := false
  /-- The timestamps of both ends, for each answer to a request. -/
  joined : List (Int × Int) := []
deriving DecidableEq, Repr

def End.send (e : End) (packets : List Packet) : End :=
  { e with outbox := e.outbox ++ packets.map (fun packet => ⟨packet, e.handler.timestamp⟩) }

/-- A user asks to pair. While the peer asks, this is the acceptance. -/
def End.request (e : End) (now : Int) : End :=
  match e.handler.requestPacket now with
  | .error _ => e
  | .ok (handler, packet) =>
    End.send { e with
      handler
      accepted := e.accepted || e.handler.state = .requestedByPeer } [packet]

/-- A user accepts. -/
def End.accept (e : End) : End :=
  match e.handler.acceptPacket with
  | .error _ => e
  | .ok (handler, packet) => End.send { e with handler, accepted := true } [packet]

/-- A user rejects, or unpairs. -/
def End.reject (e : End) : End :=
  End.send { e with handler := e.handler.rejectPacket.1 } [e.handler.rejectPacket.2]

/-- `expire_pairings`: whoever gives up tells the other. -/
def End.expire (e : End) (now : Int) : End :=
  match e.handler.expireIfDue now with
  | (handler, true) => End.send { e with handler } [{ pair := some false }]
  | (handler, false) => { e with handler }

def End.receive (e : End) (goesFirst : Bool) (now : Int) (sent : Sent) : End :=
  let handled := handlePairPacket e.handler sent.packet goesFirst now
  End.send { e with
    handler := handled.1
    joined := if e.handler.state = .requested ∧ handled.1.state = .paired
      then e.joined ++ [(e.handler.timestamp, sent.shown)] else e.joined } handled.2

abbrev World := Side → End

inductive Action where
  | request (x : Side) (now : Int)
  | accept (x : Side)
  | reject (x : Side)
  | expire (x : Side) (now : Int)
  /-- The oldest packet on its way to `x` arrives. -/
  | deliver (x : Side) (now : Int)
deriving DecidableEq, Repr

def World.start : World := fun _ => {}

def World.after (w : World) : Action → World
  | .request x now => Function.update w x ((w x).request now)
  | .accept x => Function.update w x (w x).accept
  | .reject x => Function.update w x (w x).reject
  | .expire x now => Function.update w x ((w x).expire now)
  | .deliver x now =>
    match (w x.other).outbox with
    | [] => w
    | sent :: rest =>
      Function.update (Function.update w x.other { w x.other with outbox := rest }) x
        ((w x).receive x.goesFirst now sent)

/-- The clocks are within the allowed difference: a request that arrives
is plausible there. -/
def World.InStep (w : World) : Action → Prop
  | .deliver x now => ∀ sent ∈ (w x.other).outbox.head?, ∀ timestamp ∈ sent.packet.timestamp,
      PairingHandler.timestampIsPlausible timestamp now = true
  | _ => True

instance (w : World) : DecidablePred w.InStep
  | .deliver x now => inferInstanceAs (Decidable (∀ sent ∈ (w x.other).outbox.head?,
      ∀ timestamp ∈ sent.packet.timestamp,
        PairingHandler.timestampIsPlausible timestamp now = true))
  | .request _ _ | .accept _ | .reject _ | .expire _ _ => .isTrue trivial

/-- What a packet says to the end that receives it. An acceptance is known
by the timestamp of the end that gave it. -/
inductive Mail where
  | request (timestamp : Int)
  | acceptance (shown : Int)
  | refusal
deriving DecidableEq, Repr

def Mail.isRequest : Mail → Bool
  | .request _ => true
  | .acceptance _ | .refusal => false

def Sent.mail (sent : Sent) : Mail :=
  if sent.packet.pair = some true then
    match sent.packet.timestamp with
    | some timestamp => .request timestamp
    | none => .acceptance sent.shown
  else .refusal

/-- What is on its way to `x`. -/
def World.mailTo (w : World) (x : Side) : List Mail := (w x.other).outbox.map Sent.mail

/-- Every request is followed by a refusal. -/
def withdrawn : List Mail → Bool
  | [] => true
  | m :: mail => (!m.isRequest || mail.contains .refusal) && withdrawn mail

/-- A packet that answers one negotiation does not meet another. A new
request is made when no acceptance and no refusal is on its way to the
user; and while a refusal of the user's own is on its way, only if no
earlier request is and the other end is not being asked. A request is
repeated when no refusal is on its way. And a negotiation is refused or
abandoned when every request on its way is withdrawn behind it. -/
def World.Timely (w : World) : Action → Prop
  | .request x _ =>
    match (w x).handler.state with
    | .notPaired => (∀ m ∈ w.mailTo x, m.isRequest = true) ∧
        (.refusal ∈ w.mailTo x.other → (∀ m ∈ w.mailTo x.other, m.isRequest = false) ∧
          (w x.other).handler.state ≠ .requestedByPeer)
    | .requested => .refusal ∉ w.mailTo x
    | .requestedByPeer | .paired => True
  | .reject x => withdrawn (w.mailTo x) = true
  | .expire x now => ((w x).handler.expireIfDue now).2 = true → withdrawn (w.mailTo x) = true
  | .accept _ | .deliver _ _ => True

instance (w : World) : DecidablePred w.Timely
  | .request x now =>
    match h : (w x).handler.state with
    | .notPaired => decidable_of_iff ((∀ m ∈ w.mailTo x, m.isRequest = true) ∧
        (.refusal ∈ w.mailTo x.other → (∀ m ∈ w.mailTo x.other, m.isRequest = false) ∧
          (w x.other).handler.state ≠ .requestedByPeer)) (by simp only [World.Timely, h])
    | .requested => decidable_of_iff (.refusal ∉ w.mailTo x) (by simp only [World.Timely, h])
    | .requestedByPeer => .isTrue (by simp only [World.Timely, h])
    | .paired => .isTrue (by simp only [World.Timely, h])
  | .reject x => inferInstanceAs (Decidable (withdrawn (w.mailTo x) = true))
  | .expire x now => inferInstanceAs (Decidable (((w x).handler.expireIfDue now).2 = true →
      withdrawn (w.mailTo x) = true))
  | .accept _ | .deliver _ _ => .isTrue trivial

/-- What two honest ends can rely on. Nobody is paired before a user
accepted; an end whose request was answered had the timestamp of the end
that answered; and when nothing is on its way, both are paired or neither
is. -/
structure World.Agrees (w : World) : Prop where
  accepted : ∀ x, (w x).handler.state = .paired → ∃ y, (w y).accepted = true
  compared : ∀ x, ∀ times ∈ (w x).joined, times.2 = times.1
  both : (∀ x, (w x).outbox = []) →
    ∀ x, (w x).handler.state = .paired → (w x.other).handler.state = .paired

end DeskLink.Pairing
