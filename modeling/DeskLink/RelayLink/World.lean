import DeskLink.RelayLink.Handshake

/-!
# `DeskLink.RelayLink.World`: two ends and a relay

A `Journal` is a link and what happened at it: the ephemerals it drew, the
transcripts it signed with the keys it had derived for each, the sessions
it opened, and the packets it sealed and delivered. A session is named by
its transcript; its keys are the two that the link uses in it.

In a `World` two ends exchange messages through a relay, which hands over
what it likes. `CanBuild` says what that is: it cannot sign for the other
end, and it cannot seal under a key agreed between the two.
-/

set_option autoImplicit false

namespace DeskLink.RelayLink

variable {P : Primitives}

structure Session (P : Primitives) where
  transcript : String
  keys : LinkKeys P

/-- A packet under the key and the number it was sealed with. -/
structure Frame (P : Primitives) where
  key : P.Key
  seq : UInt64
  plaintext : Bytes

/-- What a message made happen. -/
structure Notes (P : Primitives) where
  signed : List (Session P) := []
  opened : List (Session P) := []
  delivered : List (Frame P) := []

/-- What `receive` makes happen: the sessions it signs and opens, and the
packet it delivers. -/
def PeerLink.notes (l : PeerLink P) (message : Message) (random : Except String (Ephemeral P)) :
    Notes P :=
  match message.k.getD "", l.role, l.state with
  | "h1", .responder, _ =>
    match l.reset.answerH1 message random with
    | .ok (keys, signed, _, _) => { signed := [⟨signed, keys⟩] }
    | .error _ => {}
  | "h2", .initiator, .awaitingH2 mine =>
    match PeerLink.acceptH2 { l with state := .idle } mine message with
    | .ok (keys, signed, _, _) => { signed := [⟨signed, keys⟩], opened := [⟨signed, keys⟩] }
    | .error _ => {}
  | "fin", .responder, .awaitingFin keys signed _ =>
    match PeerLink.acceptFin { l with state := .idle } signed message with
    | .ok () => { opened := [⟨signed, keys⟩] }
    | .error _ => {}
  | "d", _, .established keys =>
    match l.openData keys message with
    | .ok (seq, plaintext) => { delivered := [⟨keys.receive, seq, plaintext⟩] }
    | .error _ => {}
  | _, _, _ => {}

/-- The packet that `seal` sealed. -/
def PeerLink.frames (l : PeerLink P) (plaintext : Bytes) : List (Frame P) :=
  match l.state, (l.sealPacket plaintext).2 with
  | .established keys, .ok _ => [⟨keys.send, (l.sealPacket plaintext).1.sendSeq, plaintext⟩]
  | _, _ => []

/-! ### One end -/

structure Journal (P : Primitives) where
  link : PeerLink P
  drawn : List (Ephemeral P) := []
  signed : List (Session P) := []
  opened : List (Session P) := []
  sealed : List (Frame P) := []
  delivered : List (Frame P) := []

inductive Call (P : Primitives) where
  | start (random : Except String (Ephemeral P))
  | receive (message : Message) (random : Except String (Ephemeral P))
  | sealPacket (plaintext : Bytes)
  | reset

/-- The ephemeral that the generator gives during a call. -/
def Call.drawn : Call P → List (Ephemeral P)
  | .start (.ok mine) | .receive _ (.ok mine) => [mine]
  | .start (.error _) | .receive _ (.error _) | .sealPacket _ | .reset => []

def Journal.after (j : Journal P) (c : Call P) : Journal P :=
  match c with
  | .start random => { j with link := (j.link.start random).1, drawn := j.drawn ++ c.drawn }
  | .receive message random =>
    { j with
      link := (j.link.receive message random).1
      drawn := j.drawn ++ c.drawn
      signed := j.signed ++ (j.link.notes message random).signed
      opened := j.opened ++ (j.link.notes message random).opened
      delivered := j.delivered ++ (j.link.notes message random).delivered }
  | .sealPacket plaintext =>
    { j with
      link := (j.link.sealPacket plaintext).1
      sealed := j.sealed ++ j.link.frames plaintext }
  | .reset => { j with link := j.link.reset }

def Journal.run (j : Journal P) (calls : List (Call P)) : Journal P := calls.foldl Journal.after j

/-! ### Two ends -/

/-- Each end holds the other's fingerprint and the key that checks its
signatures. -/
structure Pairing (P : Primitives) where
  ids : Role → Identities P
  fps : ∀ r, (ids r).peerFp = (ids r.other).localFp
  order : isInitiator (ids .initiator).localFp (ids .initiator).peerFp = true
  order' : isInitiator (ids .responder).localFp (ids .responder).peerFp = false

abbrev World (P : Primitives) := Role → Journal P

def Pairing.world (ids : Pairing P) : World P := fun r => { link := .new (ids.ids r) }

def World.after (w : World P) (action : Role × Call P) : World P :=
  Function.update w action.1 ((w action.1).after action.2)

/-- A key that comes from the agreement of two ephemerals drawn by the
ends. -/
def World.Guards (w : World P) (key : P.Key) : Prop :=
  ∃ r r' : Role, ∃ e ∈ (w r).drawn, ∃ e' ∈ (w r').drawn, ∃ secret salt info okm,
    P.agree e.key e'.public = .ok secret ∧ P.hkdf salt secret info = .ok okm ∧
      (key = okm.1 ∨ key = okm.2)

/-- What the relay can hand to the end `r`. A text that a signature in it
proves under the other end's key was signed by the other end. A sealed
packet in it that opens under a key of the two ends was sealed by one of
them, under that key and that initialisation vector. -/
structure World.CanBuild (w : World P) (r : Role) (message : Message) : Prop where
  signature : ∀ sig ∈ message.sig, ∀ bytes ∈ Lib.Base64.decode sig, ∀ text : String,
    P.verifyText (w r).link.ids.peerKey text bytes = true →
      ∃ s ∈ (w r.other).signed, text = r.other.label ++ s.transcript
  sealed : ∀ ct ∈ message.ct, ∀ (key : P.Key) (seq : UInt64) (plaintext : Bytes), w.Guards key →
    cryptoOpen P key seq ct = .ok plaintext →
      ∃ r' : Role, ∃ f ∈ (w r').sealed, f.key = key ∧ iv f.seq = iv seq ∧ f.plaintext = plaintext

/-- What may happen in a world. -/
def World.Allows (w : World P) (action : Role × Call P) : Prop :=
  match action.2 with
  | .receive message _ => w.CanBuild action.1 message
  | .start _ | .sealPacket _ | .reset => True

end DeskLink.RelayLink
