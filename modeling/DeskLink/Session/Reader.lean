import DeskLink.Session.Operations

/-!
# `DeskLink.Session.Reader`: the end of a socket, in two sections

`bootstrap_disconnected` takes the session lock twice. `bootstrapLost` is the
section that looks at the socket and at the peer, and `disconnectIfCurrent`
the one that takes the session down. Between the two the lock is free.

`Reading` is the manager and the ends of sockets that are between their two
sections. A move is one section of one of them, or any other call of the
manager.
-/

set_option autoImplicit false

namespace DeskLink.Session

/-- The first section of `bootstrap_disconnected`. No result means that the
session is to be disconnected, in a section of its own. -/
def DeviceManager.bootstrapLost (m : DeviceManager) (b : SessionBinding) (epoch : Option UInt64) :
    DeviceManager × Option DisconnectResult :=
  match m.sessions[b.deviceId]? with
  | none => (m, some {})
  | some s =>
    if !holds s b ∨ epoch.any (fun e => m.links[b.link]?.map (·.epoch) ≠ some e)
        ∨ s.state = .terminated then (m, some {})
    else if s.featuresReady then
      let s' := { s with state := .ready, lastDisconnectReason := none }
      ({ m with sessions := m.sessions.insert b.deviceId s' },
        some { wasCurrent := true, featureTransportRetained := true, link := s.activeLink })
    else (m, none)

/-- The end of a socket, between the two sections: `epoch` is the reader's. -/
structure Teardown where
  binding : SessionBinding
  epoch : Option UInt64
  reason : String
deriving DecidableEq, Repr

structure Reading where
  manager : DeviceManager := {}
  pending : List Teardown := []

inductive ReadMove where
  /-- A socket ended: the first section. -/
  | lost (t : Teardown)
  /-- The second section of the one at the place `i`. -/
  | teardown (i : Nat)
  /-- Any other call. -/
  | call (call : Call)

/-- The call takes the lock once. -/
def Call.single : Call → Bool
  | .bootstrapDisconnected .. | .readerDisconnected .. => false
  | _ => true

def Reading.after (w : Reading) : ReadMove → Reading
  | .lost t =>
    let found := w.manager.bootstrapLost t.binding t.epoch
    { manager := found.1
      pending := if found.2 = none then w.pending ++ [t] else w.pending }
  | .teardown i => match w.pending[i]? with
    | some t =>
      { manager := (w.manager.disconnectIfCurrent t.binding t.reason).1
        pending := w.pending.eraseIdx i }
    | none => w
  | .call call =>
    -- The two calls that take the lock twice are the moves above.
    if call.single then { w with manager := w.manager.after call } else w

end DeskLink.Session
