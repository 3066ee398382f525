import DeskLink.Lib.KeyMap

/-!
# `DeskLink.Relay.Hub`: who is online, and who allows whom

`relay/src/hub.rs`. A device is named by its fingerprint, and a
registration of it by its connection number. The `Outbox` of a connection
is kept under that number: everything the hub put into it, how much of
that its thread has read, and the bytes that wait.

A `HashSet` is a list without repeats, and a loop over one goes through it
in some order (`Iteration`). The length of a frame's JSON text is the
parameter `size`, and the data of a forwarded message has the type `α`:
the hub looks at neither.
-/

set_option autoImplicit false

namespace DeskLink.Relay

/-- Forwarded bytes that may wait for one receiver. -/
def maxQueuedBytes : Nat := 2 * 1024 * 1024
/-- Extra room for control frames. -/
def controlHeadroom : Nat := 256 * 1024
def closeReplaced : Nat := 4409
def closeRateLimited : Nat := 4429

/-- The codes `forward` answers with. -/
inductive ErrorCode where
  | offline
  | notAllowed
deriving DecidableEq, Repr

/-- The frames the hub makes. -/
inductive ServerMessage (α : Type) where
  | presence (fp : String) (online : Bool)
  | msg (source : String) (data : α)
deriving DecidableEq, Repr

inductive Outbound (α : Type) where
  | frame (message : ServerMessage α)
  | close (code : Nat) (reason : String)
deriving DecidableEq, Repr

structure Outbox (α : Type) where
  /-- Everything put in, oldest first. -/
  sent : List (Outbound α) := []
  /-- How many of those were read. -/
  read : Nat := 0
  /-- The bytes of frames that wait. -/
  queued : Nat := 0
  /-- The receiver is gone. -/
  dropped : Bool := false
deriving DecidableEq, Repr

/-- The order in which a `HashSet` is walked. -/
structure Iteration where
  order : List String → List String
  perm : ∀ l, (order l).Perm l

structure Peer where
  conn : Nat
  allow : List String
deriving DecidableEq, Repr

structure Hub (α : Type) where
  peers : KeyMap Peer := ∅
  outboxes : Nat → Outbox α := fun _ => {}

section
variable {α : Type} (size : ServerMessage α → Nat)

namespace Outbox

def close (o : Outbox α) (code : Nat) (reason : String) : Outbox α :=
  { o with sent := o.sent ++ [.close code reason] }

/-- `Outbox::push`: forwarded payloads (`bounded`) stop at the first bound;
a control frame past the second closes the receiver. -/
def push (o : Outbox α) (message : ServerMessage α) (bounded : Bool) : Outbox α × Bool :=
  let queued := o.queued + size message
  if bounded && decide (maxQueuedBytes < queued) then (o, false)
  else if maxQueuedBytes + controlHeadroom < queued then
    (o.close closeRateLimited "too far behind", false)
  else ({ o with sent := o.sent ++ [.frame message], queued := queued }, !o.dropped)

/-- `Inbox::try_recv`. -/
def tryRecv (o : Outbox α) : Outbox α :=
  match o.sent[o.read]? with
  | none => o
  | some (.frame message) => { o with read := o.read + 1, queued := o.queued - size message }
  | some (.close ..) => { o with read := o.read + 1 }

end Outbox

namespace Hub

/-- Calls from a replaced connection are ignored. -/
def current (h : Hub α) (fp : String) (conn : Nat) : Option Peer :=
  (h.peers[fp]?).filter (fun peer => peer.conn == conn)

/-- Both online, and each in the other's allow set. -/
def isMutual (h : Hub α) (a b : String) : Bool :=
  match h.peers[a]?, h.peers[b]? with
  | some pa, some pb => a != b && pa.allow.contains b && pb.allow.contains a
  | _, _ => false

def mutualPeers (h : Hub α) (fp : String) : List String :=
  ((h.peers[fp]?).map (fun peer => peer.allow.filter (h.isMutual fp ·))).getD []

def setOutbox (h : Hub α) (conn : Nat) (o : Outbox α) : Hub α :=
  { h with outboxes := Function.update h.outboxes conn o }

/-- `dest` is told whether `about` is online. -/
def presence (h : Hub α) (dest about : String) (online : Bool) : Hub α :=
  match h.peers[dest]? with
  | none => h
  | some peer =>
    h.setOutbox peer.conn ((h.outboxes peer.conn).push size (.presence about online) false).1

variable (walk : Iteration)

def remove (h : Hub α) (fp : String) : Hub α :=
  let told := (walk.order (h.mutualPeers fp)).foldl (fun h peer => h.presence size peer fp false) h
  { told with peers := told.peers.erase fp }

/-- Newest connection wins. It starts with an empty allow set. -/
def register (h : Hub α) (fp : String) (conn : Nat) : Hub α :=
  let h := match h.peers[fp]? with
    | none => h
    | some old =>
      (h.setOutbox old.conn ((h.outboxes old.conn).close closeReplaced
        "replaced by a newer connection")).remove size walk fp
  { h with peers := h.peers.insert fp ⟨conn, []⟩ }

def unregister (h : Hub α) (fp : String) (conn : Nat) : Hub α :=
  if (h.current fp conn).isSome then h.remove size walk fp else h

/-- Replaces the allow set and announces every change to both sides. -/
def setAllow (h : Hub α) (fp : String) (conn : Nat) (fps : List String) : Hub α :=
  match h.current fp conn with
  | none => h
  | some peer =>
    let before := h.mutualPeers fp
    let h := { h with
      peers := h.peers.insert fp { peer with allow := (fps.filter (· ≠ fp)).dedup } }
    let after := h.mutualPeers fp
    let h := ((walk.order after).filter (fun x => !before.contains x)).foldl
      (fun h gained => (h.presence size fp gained true).presence size gained fp true) h
    ((walk.order before).filter (fun x => !after.contains x)).foldl
      (fun h lost => (h.presence size fp lost false).presence size lost fp false) h

/-- `not-allowed` only when the sender has not allowed `dest`; everything
else that prevents delivery reads as `offline`. -/
def forward (h : Hub α) (source : String) (conn : Nat) (dest : String) (data : α) :
    Hub α × Except ErrorCode Unit :=
  match h.current source conn with
  | none => (h, .error .offline)
  | some sender =>
    if !sender.allow.contains dest then (h, .error .notAllowed)
    else
      match h.peers[dest]? with
      | none => (h, .error .offline)
      | some target =>
        if !h.isMutual source dest then (h, .error .offline)
        else
          let (o, sent) := (h.outboxes target.conn).push size (.msg source data) true
          (h.setOutbox target.conn o, if sent then .ok () else .error .offline)

def canTurn (h : Hub α) (source : String) (conn : Nat) (peer : String) : Bool :=
  (h.current source conn).isSome && h.isMutual source peer

end Hub

/-! ### Calls -/

/-- A call of the hub, or what the thread of a connection does with its
inbox. -/
inductive Call (α : Type) where
  | register (fp : String) (conn : Nat)
  | unregister (fp : String) (conn : Nat)
  | setAllow (fp : String) (conn : Nat) (fps : List String)
  | forward (source : String) (conn : Nat) (dest : String) (data : α)
  | canTurn (source : String) (conn : Nat) (peer : String)
  | tryRecv (fp : String) (conn : Nat)
  /-- The receiver is dropped. -/
  | hangUp (fp : String) (conn : Nat)

/-- The device whose connection makes the call. -/
def Call.device : Call α → String
  | .register fp _ | .unregister fp _ | .setAllow fp _ _ | .forward fp _ _ _ | .canTurn fp _ _
  | .tryRecv fp _ | .hangUp fp _ => fp

/-- The connection that makes the call. -/
def Call.conn : Call α → Nat
  | .register _ conn | .unregister _ conn | .setAllow _ conn _ | .forward _ conn _ _
  | .canTurn _ conn _ | .tryRecv _ conn | .hangUp _ conn => conn

variable (walk : Iteration)

namespace Hub

/-- The hub after a call. -/
def after (h : Hub α) : Call α → Hub α
  | .register fp conn => h.register size walk fp conn
  | .unregister fp conn => h.unregister size walk fp conn
  | .setAllow fp conn fps => h.setAllow size walk fp conn fps
  | .forward source conn dest data => (h.forward size source conn dest data).1
  | .canTurn .. => h
  | .tryRecv _ conn => h.setOutbox conn ((h.outboxes conn).tryRecv size)
  | .hangUp _ conn => h.setOutbox conn { h.outboxes conn with dropped := true }

/-- What a call returns. -/
inductive Answer where
  | forwarded (result : Except ErrorCode Unit)
  | turn (granted : Bool)
deriving DecidableEq

def answer (h : Hub α) : Call α → Option Answer
  | .forward source conn dest data => some (.forwarded (h.forward size source conn dest data).2)
  | .canTurn source conn peer => some (.turn (h.canTurn source conn peer))
  | .register .. | .unregister .. | .setAllow .. | .tryRecv .. | .hangUp .. => none

/-- The hub after `calls`. -/
def run (h : Hub α) (calls : List (Call α)) : Hub α := calls.foldl (fun h c => h.after size walk c) h

end Hub

end

end DeskLink.Relay
