import DeskLink.Transfer.Wire

/-!
# `DeskLink.Transfer.Outgoing`: one outgoing file

`Outgoing` of `transfer_manager/send.rs` and its methods. The hasher of a
block in progress is the bytes it has been fed, as for an `Incoming`. The
source is a parameter of what reads it (`Source`): whether it is still the
offered file, and what a read of it gives.

A handler of a message gives the send after it, or how the send ended. A
lane is what the sender takes it for (`LaneTx`); the clocks that decide when
it is dialled, given up or asked for again are free.

Left out are the fields that only the Transfers page, the clocks, the
checkpoints and the back-off of a peer read.
-/

set_option autoImplicit false

namespace DeskLink.Transfer

/-- Sent but not yet block-acknowledged bytes a sender allows. -/
def unackedMax : Nat := 8 * 1024 * 1024

/-- `pause.reason`. -/
def reasonBacklog : String := "backlog"
def reasonNoProgress : String := "no-progress"

inductive SendState where
  | queued
  | offered
  /-- Reading the blocks again that the receiver holds. -/
  | verifying
  | sending
  | awaitComplete
deriving DecidableEq, Repr

inductive LaneTx where
  | off
  /-- The accept brought a token. -/
  | pending
  | dialing
  | up
deriving DecidableEq, Repr

/-- A prefix check in progress. -/
structure Verify where
  upto : Nat
  expect : Hash
  hashes : List Hash := []
  passOk : UInt8
  passBad : UInt8
deriving DecidableEq

structure Outgoing where
  id : String
  token : String
  total : Nat
  folder : Option FolderRef := none
  state : SendState := .queued
  seq : Nat := 0
  retryAt : Option Nat := none
  offered : Bool := false
  /-- The largest message to send: the smaller of both sides' maxima. -/
  frameMax : Nat := Wire.frameBytesProven
  pass : UInt8 := 0
  rewinds : Nat := 0
  /-- Hashes of the blocks sent so far. -/
  hashes : List Hash := []
  hasher : Option Bytes := none
  nextOffset : Nat := 0
  /-- Blocks the receiver has acknowledged. -/
  acked : Nat := 0
  /-- Why the receiver told us to hold still, if it did. -/
  peerPause : Option String := none
  verify : Option Verify := none
  /-- The offer said a lane would do. -/
  laneOffered : Bool := false
  lane : LaneTx := .off
  /-- After a failover: the pass under which the receiver says where it is. -/
  laneAwait : Option UInt8 := none
  /-- Blocks refused on the lane since the last one accepted. -/
  laneNacks : Nat := 0
deriving DecidableEq

/-- Why the source cannot be sent. -/
inductive Trouble where
  | gone
  | changed
  | failed (words : String)
deriving DecidableEq, Repr

/-- The source file, as a step finds it. -/
structure Source where
  /-- `stat_source`: it is still the offered file. -/
  stat : Except Trouble Unit
  /-- `read_exact_at`, of an offset and a length. -/
  read : Nat → Nat → Except Trouble Bytes

/-- What a sender tells the receiver, its frames apart. -/
inductive Told where
  | offer
  | done (fileHash : Hash) (blocks total : Nat)
  /-- `lane`; `tcp` says which way. -/
  | lane (tcp : Bool) (startBlock : Nat) (pass : UInt8)
deriving DecidableEq

namespace Outgoing

variable (sha : Bytes → Hash) (idBytes : String → Vector UInt8 16)

def blocksTotal (o : Outgoing) : Nat := blocksFor o.total

/-- The receiver asked us to hold still. -/
def isHeld (o : Outgoing) : Bool := o.peerPause.any (· != reasonNoProgress)

def onLane (o : Outgoing) : Bool := o.lane == .up

def canSend (o : Outgoing) : Bool :=
  o.state == .sending && o.lane != .pending && o.lane != .dialing && o.laneAwait.isNone
    && !o.isHeld && decide (o.nextOffset < o.total)
    && decide (o.nextOffset - min (o.acked * blockBytes) o.total < unackedMax)

/-! ### Where the sending is -/

/-- Sends from block `blocks` on, under `pass`. -/
def beginAt (o : Outgoing) (blocks : Nat) (pass : UInt8) : Outgoing :=
  { o with
    hashes := o.hashes.take blocks
    hasher := none
    nextOffset := min (blocks * blockBytes) o.total
    acked := blocks
    pass := pass
    state := .sending
    verify := none }

/-- Goes back to block `blocks` after a refused or mismatched block. -/
def rewindTo (o : Outgoing) (blocks : Nat) (pass : UInt8) : Outgoing :=
  { o with
    hashes := o.hashes.take blocks
    hasher := none
    nextOffset := min (blocks * blockBytes) o.total
    acked := min o.acked blocks
    pass := pass
    state := .sending }

/-- The frame just built could not be sent: back to the start of its
block. -/
def rollbackBlock (o : Outgoing) : Outgoing :=
  let block := (o.nextOffset - 1) / blockBytes
  { o with
    hashes := o.hashes.take block
    hasher := none
    nextOffset := block * blockBytes }

/-- Goes back to `blocks`, if the receiver's `prefix` matches ours; else to
the start under `passBad`. -/
def restartFrom (o : Outgoing) (blocks : Nat) (expect : Hash) (passOk passBad : UInt8) :
    Except Ending Outgoing :=
  if o.blocksTotal < blocks then
    .error (.internal "The other device asked for a block that is not there")
  else if blocks = 0 then
    .ok (o.beginAt 0 (if expect = hashOfHashes sha [] then passOk else passBad))
  else if blocks ≤ o.hashes.length then
    let right := decide (hashOfHashes sha (o.hashes.take blocks) = expect)
    .ok (o.beginAt (if right then blocks else 0) (if right then passOk else passBad))
  -- No hashes for those blocks in memory: they are read again.
  else
    .ok { o with
      state := .verifying
      verify := some { upto := blocks, expect, passOk, passBad } }

/-! ### Frames -/

/-- The header of the next frame. -/
def nextHeader (o : Outgoing) : Wire.FrameHeader :=
  let block := o.nextOffset / blockBytes
  let blockStop := min ((block + 1) * blockBytes) o.total
  let length := min (Wire.payloadCapacity o.frameMax) (blockStop - o.nextOffset)
  { lastOfBlock := o.nextOffset + length == blockStop
    pass := o.pass
    transfer := idBytes o.id
    blockIndex := UInt32.ofNat block
    offset := UInt64.ofNat o.nextOffset
    length := UInt32.ofNat length }

/-- Reads and frames the next piece of the current block. -/
def nextFrame (o : Outgoing) (source : Source) : Except Trouble Bytes × Outgoing :=
  -- Before each block: the source must still be the offered file.
  let fresh := o.nextOffset % blockBytes = 0
  match if fresh then source.stat else .ok () with
  | .error trouble => (.error trouble, o)
  | .ok () =>
    let o := if fresh then { o with hasher := some [] } else o
    let block := o.nextOffset / blockBytes
    let blockStop := min ((block + 1) * blockBytes) o.total
    let length := min (Wire.payloadCapacity o.frameMax) (blockStop - o.nextOffset)
    let last := o.nextOffset + length == blockStop
    match source.read o.nextOffset length with
    | .error trouble => (.error trouble, o)
    | .ok payload =>
      let frame := (o.nextHeader idBytes).write ++ payload
      let hasher := o.hasher.map (· ++ payload)
      if last then
        let hash := (hasher.map sha).getD (Vector.replicate 32 0)
        (.ok (frame ++ hash.toList),
          { o with
            hasher := none
            hashes := o.hashes ++ [hash]
            nextOffset := o.nextOffset + length })
      else
        (.ok frame, { o with hasher := hasher, nextOffset := o.nextOffset + length })

/-- One block of a prefix check: the next of `verify.upto`. -/
def verifyStep (o : Outgoing) (source : Source) : Except Trouble Outgoing :=
  match o.verify with
  | none => .ok o
  | some v =>
    let index := v.hashes.length
    match if index = 0 then source.stat else .ok () with
    | .error trouble => .error trouble
    | .ok () =>
      let start := index * blockBytes
      match source.read start (min blockBytes (o.total - start)) with
      | .error trouble => .error trouble
      | .ok block =>
        let hashes := v.hashes ++ [sha block]
        if hashes.length = v.upto then
          if hashOfHashes sha hashes = v.expect then
            .ok ({ o with hashes := hashes }.beginAt hashes.length v.passOk)
          else .ok (o.beginAt 0 v.passBad)
        else .ok { o with verify := some { v with hashes := hashes } }

/-! ### Lanes -/

/-- `tell_lane`: from where the frames come over which lane. -/
def tellLane (o : Outgoing) (tcp : Bool) : Told := .lane tcp (o.nextOffset / blockBytes) o.pass

/-- Back to the data channel, under the next pass. Without the receiver's
own count (`verified`) it is asked where it is. -/
def fallBack (o : Outgoing) (verified : Option Nat) : Outgoing × List Told :=
  if o.state ≠ .sending ∧ o.state ≠ .awaitComplete then (o, [])
  else
    let pass := nextPass o.pass
    let o := o.beginAt (verified.getD o.acked) pass
    (if verified.isNone then { o with laneAwait := some pass } else o, [o.tellLane false])

def leaveLane (o : Outgoing) (verified : Option Nat) : Outgoing × List Told :=
  { o with lane := .off }.fallBack verified

/-- The receiver holds the transfer still for a long while: its lane is let
go. -/
def releaseLane (o : Outgoing) : Outgoing × List Told :=
  if o.lane = .off then (o, [])
  else
    let released := { o with lane := .off }
    if o.onLane && o.state != .awaitComplete then released.fallBack none else (released, [])

/-- The receiver's word on where it is after a failover we started. -/
def onPosition (o : Outgoing) (block : Nat) (pass : UInt8) : Outgoing :=
  match o.laneAwait with
  | none => o
  | some awaited =>
    if awaited ≠ pass ∨ block < o.acked ∨ o.hashes.length < block then o
    else { o with laneAwait := none }.beginAt block pass

/-! ### Messages -/

/-- What an offer leaves behind. A big file asks for a lane, when `way` says that nothing else is
in the way of one. -/
def offerMessage (o : Outgoing) (way : Bool) : Outgoing :=
  { o with state := .offered, laneOffered := way && decide (laneMinFileBytes ≤ o.total) }

/-- What an `accept` says. -/
structure Accept where
  maxFrameBytes : Option Nat
  resumeBlock : Option Nat
  prefixHash : Option Hash
  /-- It brings a lane: a port and a token that can be dialled. -/
  lane : Bool := false

/-- `validate` on the frame size. -/
def Accept.admitted (m : Accept) : Bool :=
  m.maxFrameBytes.all (fun size =>
    decide (Wire.frameHeaderBytes + Wire.blockTrailerBytes + 1 ≤ size) && decide (size ≤ 262144))

/-- Both sides' frame sizes fit. -/
def sized (o : Outgoing) (m : Accept) : Outgoing :=
  { o with frameMax := min Wire.frameBytesProven (m.maxFrameBytes.getD Wire.frameBytesProven) }

/-- The lane of before is gone; the accept may bring another. -/
def takeLane (o : Outgoing) (m : Accept) : Outgoing :=
  let o := if o.lane = .up then { o with lane := .off } else o
  if m.lane && o.laneOffered then { o with lane := .pending } else o

/-- The receiver accepted: sending starts where it already has the file. -/
def onAccept (o : Outgoing) (m : Accept) : Except Ending Outgoing :=
  if o.state ≠ .offered then .ok o
  else
    match m.resumeBlock, m.prefixHash with
    | some blocks, some expect =>
      ((o.sized m).restartFrom sha blocks expect o.pass (nextPass o.pass)).map (·.takeLane m)
    | _, _ => .ok (o.sized m)

def damaged : Ending :=
  ⟨.hashMismatch, "The file got damaged on the way and could not be fixed. Send it again.", true⟩

/-- A block the receiver verified. -/
def onBlockAck (o : Outgoing) (block : Nat) (theirs : Hash) : Except Ending Outgoing :=
  match o.hashes[block]? with
  -- An acknowledgement of a block not sent (yet).
  | none => .ok o
  | some ours =>
    if ours ≠ theirs then
      let o := { o with rewinds := o.rewinds + 1 }
      if maxRewinds < o.rewinds then .error damaged
      else .ok (o.rewindTo block (nextPass o.pass))
    else .ok { o with acked := max o.acked (block + 1), laneNacks := 0 }

/-- The receiver refused a block, or says where it is (`lane`). -/
def onBlockNack (o : Outgoing) (block : Nat) (pass : UInt8) (reason : NackReason) :
    Except Ending (Outgoing × List Told) :=
  if reason = .lane then
    if o.hashes.length < block then .ok (o, [])
    else if o.onLane then .ok (o.leaveLane (some block))
    else .ok (o.onPosition block pass, [])
  else if o.onLane ∧ block ≤ o.hashes.length then
    -- Sent once more on the lane; failing again, the data channel takes over.
    let o := { o with laneNacks := o.laneNacks + 1 }
    if 2 ≤ o.laneNacks then .ok ({ o with laneNacks := 0 }.leaveLane none)
    else .ok (o.rewindTo block pass, [])
  else
    let o := { o with rewinds := o.rewinds + 1 }
    if maxRewinds < o.rewinds ∨ o.hashes.length < block then .error damaged
    else .ok (o.rewindTo block pass, [])

/-- The receiver told us to hold still, or that it waits. -/
def onPeerPause (o : Outgoing) (why : String) : Outgoing × List Told :=
  let o := if why ≠ reasonNoProgress then { o with peerPause := some why } else o
  if why ≠ reasonBacklog ∧ why ≠ reasonNoProgress then o.releaseLane else (o, [])

/-- A `resume`: with a restart point we go back to it. -/
def onPeerResume (o : Outgoing) (point : Option (Nat × Hash × UInt8)) : Except Ending Outgoing :=
  let o := { o with peerPause := none }
  match point with
  | none => .ok o
  | some (blocks, expect, pass) => o.restartFrom sha blocks expect pass (nextPass pass)

/-- Every block acknowledged: say so, once the source is checked one last
time. -/
def finishAcknowledged (o : Outgoing) (source : Source) : Except Trouble (Outgoing × List Told) :=
  if o.state ≠ .sending ∨ o.acked < o.blocksTotal ∨ o.hashes.length ≠ o.blocksTotal then .ok (o, [])
  else
    match source.stat with
    | .error trouble => .error trouble
    | .ok () =>
      .ok ({ o with state := .awaitComplete },
        [.done (hashOfHashes sha o.hashes) o.blocksTotal o.total])

/-- It waits in the queue again, until `retryAt`. -/
def requeue (o : Outgoing) (retryAt : Nat) : Outgoing :=
  { o with lane := .off, state := .queued, offered := false, retryAt := some retryAt }

/-- The frames that go out while nothing else happens, and the send after
them. A frame is not empty, so that `fuel` past what is left of the file is
never used. -/
def sendFrames (source : Source) : Nat → Outgoing → List Bytes × Outgoing
  | 0, o => ([], o)
  | fuel + 1, o =>
    if o.nextOffset < o.total then
      match o.nextFrame sha idBytes source with
      | (.error _, o) => ([], o)
      | (.ok frame, o) =>
        let (frames, o) := sendFrames source fuel o
        (frame :: frames, o)
    else ([], o)

end Outgoing

/-! ### Runs -/

/-- What happens to a send while its source is there. -/
inductive SendOp where
  /-- Its turn has come, or it asks for a lane again. `way`: its lanes have not failed too
  often, it is no clipboard, and the peer is on this network. -/
  | offer (way : Bool)
  | accept (m : Outgoing.Accept)
  | pause (why : String)
  | resume (point : Option (Nat × Hash × UInt8))
  | ack (block : Nat) (hash : Hash)
  | nack (block : Nat) (pass : UInt8) (reason : NackReason)
  /-- A frame is built and goes out. -/
  | frame
  /-- A frame is built, and could not be sent. -/
  | unsent
  | verify
  | finish
  | requeue (retryAt : Nat)
  /-- The dial of a lane begins, and succeeds. -/
  | dial
  | laneUp
  /-- A lane did not come up. -/
  | laneOff
  /-- The lane failed, or was not acknowledged. -/
  | laneLost
  /-- The receiver did not say where it is. -/
  | awaitOver

namespace Outgoing

variable (sha : Bytes → Hash) (idBytes : String → Vector UInt8 16)

/-- The send after `op`: `none` when it ended, or the step is not one of a
send in this state. -/
def step (source : Source) (o : Outgoing) : SendOp → Option Outgoing
  | .offer way =>
    if o.state = .queued ∨ o.state = .sending then some (o.offerMessage way) else none
  | .accept m => if m.admitted then (o.onAccept sha m).toOption else none
  | .pause why => some (o.onPeerPause why).1
  | .resume point => (o.onPeerResume sha point).toOption
  | .ack block hash => (o.onBlockAck block hash).toOption
  | .nack block pass reason => (o.onBlockNack block pass reason).toOption.map (·.1)
  | .frame =>
    if o.canSend then
      match o.nextFrame sha idBytes source with
      | (.error _, _) => none
      | (.ok _, o) => some o
    else none
  | .unsent =>
    if o.canSend then
      match o.nextFrame sha idBytes source with
      | (.error _, _) => none
      | (.ok _, o) => some o.rollbackBlock
    else none
  | .verify => if o.state = .verifying then (o.verifyStep sha source).toOption else none
  | .finish => (o.finishAcknowledged sha source).toOption.map (·.1)
  | .requeue retryAt => some (o.requeue retryAt)
  | .dial => if o.lane = .pending then some { o with lane := .dialing } else none
  | .laneUp => if o.lane = .dialing then some { o with lane := .up } else none
  | .laneOff => if o.lane ≠ .up then some { o with lane := .off } else none
  | .laneLost => if o.lane = .up then some (o.leaveLane none).1 else none
  | .awaitOver => some { o with laneAwait := none }

end Outgoing

end DeskLink.Transfer
