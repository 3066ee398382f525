import DeskLink.Relay.Limits

/-!
# `DeskLink.Relay.Server`: connections and grants, as the server takes and gives them back

What `relay/src/server.rs` does with the limits. A connection has a thread
of its own, and its steps are those at which the thread takes the lock on the
limits: the socket is accepted, its upgrade asks for a place in its network,
an `auth` frame is judged, and the two slots are dropped, one after the other,
when the thread ends or panics. `Server` is the limits and the threads, at one
moment between such steps.

A `turn` request is charged before the backend is asked, and given back when
the backend fails. `Ledger` is the quota and the grants that were not given
back.

Left out: the frames of a connection, the hub, the metrics and the hosts that
a forwarded address is believed from; the address is an argument.
-/

set_option autoImplicit false

namespace DeskLink.Relay

/-! ### Connections -/

/-- How far a connection's thread is. -/
inductive Phase where
  /-- It holds a `GlobalSlot`. -/
  | started
  /-- And a `NetworkSlot`, of the network of this address. -/
  | admitted (ip : IpAddr)
  /-- The network slot is dropped, or was never had. -/
  | left
deriving DecidableEq, Repr

structure Conn where
  phase : Phase := .started
  /-- `fp` is set. -/
  authenticated : Bool := false
  /-- `GlobalSlot::authenticated`. -/
  slot : Bool := false
deriving DecidableEq, Repr

structure Server where
  limits : NetLimits
  conns : List Conn := []

/-- A step of a connection's thread; `i` says which connection. -/
inductive ConnOp where
  /-- The listener accepts a socket. -/
  | accept
  /-- Its upgrade came, from this address. -/
  | upgrade (i : Nat) (ip : IpAddr)
  /-- An `auth` frame, and whether its signature is right. -/
  | auth (i : Nat) (now : Rat) (verified : Bool)
  /-- `websocket` returns, or another request was answered. -/
  | done (i : Nat)
  /-- The thread panics. -/
  | panic (i : Nat)
  /-- The `GlobalSlot` is dropped. -/
  | drop (i : Nat)
  | prune (now : Rat)
deriving DecidableEq, Repr

namespace Server

/-- `NetworkSlot::drop`, where there is one. -/
def dropNetwork (limits : NetLimits) : Phase → NetLimits
  | .admitted ip => limits.closeNetwork (.ofIp ip)
  | _ => limits

/-- The state after a step: `none` where it is not one of a connection there. -/
def step (s : Server) : ConnOp → Option Server
  | .accept =>
    match s.limits.openGlobal with
    | (true, limits) => some { limits, conns := {} :: s.conns }
    | (false, limits) => some { s with limits }
  | .upgrade i ip =>
    s.conns[i]?.bind (fun c =>
      if c.phase = .started then
        match s.limits.openNetwork (.ofIp ip) with
        | (true, limits) =>
          some { limits, conns := s.conns.set i { c with phase := .admitted ip } }
        | (false, limits) => some { limits, conns := s.conns.set i { c with phase := .left } }
      else none)
  | .auth i now verified =>
    s.conns[i]?.bind (fun c =>
      match c.phase with
      | .admitted ip =>
        if c.authenticated then none
        else
          match s.limits.allowAuth (.ofIp ip) now with
          | (allowed, limits) =>
            if allowed && verified then
              some { limits := limits.authenticated
                     conns := s.conns.set i { c with authenticated := true } }
            else some { s with limits }
      | _ => none)
  | .done i =>
    s.conns[i]?.bind (fun c =>
      if c.phase = .left then none
      else
        some { limits := dropNetwork s.limits c.phase
               conns := s.conns.set i { c with phase := .left, slot := c.authenticated } })
  | .panic i =>
    s.conns[i]?.bind (fun c =>
      if c.phase = .left then none
      else
        some { limits := dropNetwork s.limits c.phase
               conns := s.conns.set i { c with phase := .left } })
  | .drop i =>
    s.conns[i]?.bind (fun c =>
      if c.phase = .left then
        some { limits := s.limits.closeGlobal c.slot, conns := s.conns.eraseIdx i }
      else none)
  | .prune now => some { s with limits := s.limits.prune now }

end Server

/-! ### Grants -/

/-- A device's fingerprint: base64url, so without a line break. -/
structure Fingerprint where
  text : String
  oneLine : '\n' ∉ text.toList
deriving DecidableEq

/-- A grant that was not given back, and what it was asked for. -/
structure Held where
  grant : Grant
  a : Fingerprint
  b : Fingerprint
  ip : IpAddr
deriving DecidableEq

structure Ledger where
  quota : TurnQuota := {}
  /-- The clock, in seconds. -/
  now : Nat := 0
  held : List Held := []

inductive QuotaOp where
  /-- A `turn` request of `a` for `b`, from this address. -/
  | turn (a b : Fingerprint) (ip : IpAddr) (unixSecs : Nat) (random : Vector UInt8 16)
  /-- The backend fails the grant at place `i`. -/
  | failed (i : Nat)

namespace Ledger

variable (digest : String → Option (List UInt8)) (limits : Limits)

/-- The ledger after a step. A clock that goes back, or a grant that is not
there, is no step. -/
def step (s : Ledger) : QuotaOp → Option Ledger
  | .turn a b ip unixSecs random =>
    if unixSecs < s.now then none
    else
      match s.quota.tryGrant digest random a.text b.text (.ofIp ip) unixSecs limits with
      | (.ok grant, quota) => some ⟨quota, unixSecs, ⟨grant, a, b, ip⟩ :: s.held⟩
      | (.error _, quota) => some ⟨quota, unixSecs, s.held⟩
  | .failed i =>
    s.held[i]?.map (fun h =>
      { s with quota := s.quota.refund h.grant, held := s.held.eraseIdx i })

end Ledger

end DeskLink.Relay
