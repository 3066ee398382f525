import DeskLink.Transfer.Disk

/-!
# `DeskLink.Transfer.Incoming`: one incoming file

`Incoming` of `transfer_manager/recv.rs` and its methods. A method that
touches the partial file says what it did to it (`FileOp`), in order. `Io`
is how the system answered: a `set_len` may fail, a write may fail, for
lack of space or otherwise, with part of the payload on the disk, and so
may the saving of the record.

The hasher of a block in progress is the bytes it has been fed. The text
of an ending is without the system's own words after it.

Left out are the fields that only the Transfers page, the clocks and the
placing of a finished file read.
-/

set_option autoImplicit false

namespace DeskLink.Transfer

/-- Why a receiver holds a transfer still, on its own account. -/
inductive Pause where
  | storage
  | backlog
deriving DecidableEq, Repr

structure Incoming where
  id : String
  token : String
  deviceId : String
  filename : String
  total : Nat
  mtime : Int
  folder : Option FolderRef
  contentSha256 : Option String
  /-- The sender offered a lane and this side can take one. -/
  laneWanted : Bool := false
  /-- A lane connection delivers this transfer's frames now. -/
  onLane : Bool := false
  /-- Which lane connection that is (0: none). -/
  laneSerial : Nat := 0
  /-- The open partial file. -/
  file : Nat
  /-- The pass frames must carry. -/
  pass : UInt8 := 0
  /-- After an `accept`: the first frame, whatever its pass, sets it. -/
  adoptAny : Bool := true
  /-- The transfer was offered again while a stream may be in flight. -/
  oldStreamPossible : Bool := false
  /-- Where the next frame must start. -/
  nextOffset : Nat
  /-- Hashes of the verified blocks. -/
  hashes : List Hash
  /-- The block being received. -/
  hasher : Option Bytes := none
  rewinds : Nat := 0
  wholeResends : Nat := 0
  paused : Option Pause := none
  checkpointedBlocks : Nat
deriving DecidableEq, Repr

/-- How a write ended, and how many bytes of a failed one landed. -/
inductive Written where
  | whole
  | full (landed : Nat)
  | failed (landed : Nat)
deriving DecidableEq, Repr

/-- How the system answers while one message is handled. -/
structure Io where
  /-- The `set_len` of `restart_at` goes through. -/
  setLen : Bool := true
  write : Written := .whole
  /-- The `set_len` of `pause_for_storage` goes through. -/
  pauseSetLen : Bool := true
  /-- The `set_len` of a refused block goes through. -/
  nackSetLen : Bool := true
  /-- How `checkpoint_now` ends. -/
  record : Saved := .whole
deriving DecidableEq, Repr

/-- What is done to the partial file. -/
inductive FileOp where
  | setLen (n : Nat)
  | writeAt (offset : Nat) (bytes : Bytes)
deriving DecidableEq, Repr

namespace Incoming

variable (sha : Bytes → Hash)

def blocksTotal (x : Incoming) : Nat := blocksFor x.total

def verified (x : Incoming) : Nat := x.hashes.length

def prefixHash (x : Incoming) (blocks : Nat) : Hash := hashOfHashes sha (x.hashes.take blocks)

def record (x : Incoming) : ReceiveCheckpoint where
  transferId := x.id
  deviceId := x.deviceId
  token := x.token
  filename := x.filename
  totalSize := x.total
  mtime := x.mtime
  blocksDone := x.verified
  folder := x.folder
  contentSha256 := x.contentSha256

/-- `checkpoint_now`, which records the verified blocks. A failure is
logged, and the transfer goes on. -/
def checkpointed (x : Incoming) (saved : Saved) : Incoming :=
  { x with
    checkpointedBlocks := match saved with
      | .whole => x.verified
      | .failed .. => x.checkpointedBlocks }

/-- The writes of `checkpoint_now`, after the sync of the partial file. -/
def checkpointWrites (x : Incoming) (saved : Saved) : List DiskOp :=
  saved.made (saveReceive x.record x.hashes)

/-- The bytes `restart_at` keeps. -/
def keepAt (x : Incoming) (blocks : Nat) : Nat := blockStart x.total (min blocks x.verified)

/-- `restart_at` when its `set_len` goes through: back to the end of block
`blocks`, and `pass` is expected from now on. -/
def restartAt (x : Incoming) (blocks : Nat) (pass : UInt8) : Incoming :=
  let blocks := min blocks x.verified
  { x with
    hashes := x.hashes.take blocks
    hasher := none
    nextOffset := blockStart x.total blocks
    pass := pass
    adoptAny := false
    oldStreamPossible := false
    checkpointedBlocks := min x.checkpointedBlocks blocks }

/-- Whether a frame of another pass starts a new one: from a block boundary
at or before the verified end, either right after an `accept` (any pass)
or with the pass after ours (a sender's own rewind). -/
def adopts (x : Incoming) (h : FrameHeader) : Option Nat :=
  if h.offset % blockBytes ≠ 0 ∨ x.verified < h.offset / blockBytes then none
  else if x.adoptAny || h.pass == nextPass x.pass then some (h.offset / blockBytes)
  else none

/-- What `on_frame` makes of a frame before it looks at its offset. -/
inductive Start where
  | dropped
  /-- The sender's new start: `restart_at` this block first. -/
  | restart (block : Nat)
  /-- A frame of the stream we follow, or the first after an `accept`. -/
  | follow (x : Incoming)

def startOf (x : Incoming) (h : FrameHeader) : Start :=
  if x.adoptAny then
    match x.adopts h with
    | some block => .restart block
    | none =>
      if h.pass ≠ x.pass then .dropped
      -- Still the old stream, ahead of where we now are.
      else if x.oldStreamPossible && decide (h.offset > x.nextOffset) then .dropped
      else .follow { x with adoptAny := false, oldStreamPossible := false }
  else if h.pass ≠ x.pass then
    match x.adopts h with
    | some block => .restart block
    | none => .dropped
  else .follow x

/-- What handling a message came to. -/
structure Result where
  incoming : Incoming
  /-- What was done to the partial file, each with the hashes held then. -/
  ops : List (FileOp × List Hash) := []
  replies : List Reply := []
  /-- `checkpoint_now` ran, and how it ended. -/
  checkpoint : Option Saved := none
  ending : Option Ending := none

/-- The disk is full: what is verified stays, the block in progress goes,
and the sender is asked to wait. -/
def pauseForStorage (x : Incoming) (io : Io) : Result where
  incoming :=
    ({ x with
      hasher := none
      nextOffset := blockStart x.total x.verified
      paused := some .storage }).checkpointed io.record
  ops := if io.pauseSetLen then [(.setLen (blockStart x.total x.verified), x.hashes)] else []
  replies := [.pause .storageFull]
  checkpoint := some io.record

/-- The last frame of a block landed: compare, acknowledge or refuse. -/
def finishBlock (x : Incoming) (io : Io) (frame : Frame) : Result :=
  match x.hasher with
  | none => { incoming := x, ending := some (.internal "A file block had no hash") }
  | some fed =>
    if frame.trailer = some (sha fed) then
      { incoming := { x with hasher := none, hashes := x.hashes ++ [sha fed] }
        replies := [.blockAck frame.header.blockIndex (sha fed)] }
    else
      let x := { x with hasher := none, rewinds := x.rewinds + 1 }
      if maxRewinds < x.rewinds then
        { incoming := x
          ending := some ⟨.hashMismatch,
            "The file got damaged on the way and could not be fixed. Send it again.", true⟩ }
      else if !io.nackSetLen then
        { incoming := x, ending := some (.internal "Could not repair DeskLink partial file") }
      else
        { incoming := x.restartAt x.verified (nextPass x.pass)
          ops := [(.setLen (x.keepAt x.verified), x.hashes)]
          replies := [.blockNack frame.header.blockIndex (nextPass x.pass) .hashMismatch] }

/-- The bytes of a failed write that landed: never all of them. -/
def landedBytes (payload : Bytes) (landed : Nat) : Bytes :=
  payload.take (min landed (payload.length - 1))

/-- The rest of `on_frame`: the frame against where the next one starts. -/
def takeFrame (x : Incoming) (io : Io) (frame : Frame) : Result :=
  let h := frame.header
  if h.offset < x.nextOffset then { incoming := x }
  else if h.offset > x.nextOffset then
    { incoming := x
      ending := some ⟨.badFrame, "The transfer went out of order and was stopped.", true⟩ }
  else
    match io.write with
    | .full landed =>
      let r := x.pauseForStorage io
      { r with ops := (.writeAt h.offset (landedBytes frame.payload landed), x.hashes) :: r.ops }
    | .failed landed =>
      { incoming := x
        ops := [(.writeAt h.offset (landedBytes frame.payload landed), x.hashes)]
        ending := some (.internal "Could not save the file") }
    | .whole =>
      let wrote : FileOp × List Hash := (.writeAt h.offset frame.payload, x.hashes)
      if x.hasher.isNone && h.offset % blockBytes ≠ 0 then
        { incoming := x
          ops := [wrote]
          ending := some (.internal "A file block began in the middle") }
      else
        let x := { x with
          hasher := some (x.hasher.getD [] ++ frame.payload)
          nextOffset := x.nextOffset + h.length }
        if h.lastOfBlock then
          let r := x.finishBlock sha io frame
          { r with ops := wrote :: r.ops }
        else { incoming := x, ops := [wrote] }

/-- One frame of this transfer. -/
def onFrame (x : Incoming) (io : Io) (frame : Frame) : Result :=
  if !frame.header.check x.total then { incoming := x }
  else if x.paused = some .storage then { incoming := x }
  else
    match x.startOf frame.header with
    | .dropped => { incoming := x }
    | .follow x => x.takeFrame sha io frame
    | .restart block =>
      if !io.setLen then
        { incoming := x, ending := some (.internal "Could not repair DeskLink partial file") }
      else
        let r := (x.restartAt block frame.header.pass).takeFrame sha io frame
        { r with ops := (.setLen (x.keepAt block), x.hashes.take (min block x.verified)) :: r.ops }

/-- `restart_and_resume`: the sender is told to begin again at the last
verified block with a new pass. -/
def restartAndResume (x : Incoming) (io : Io) : Result :=
  if !io.setLen then
    { incoming := x, ending := some (.internal "Could not repair DeskLink partial file") }
  else
    let pass := nextPass x.pass
    { incoming := { x.restartAt x.verified pass with paused := none }
      ops := [(.setLen (x.keepAt x.verified), x.hashes)]
      replies := [.resume x.verified (x.prefixHash sha x.verified) pass] }

/-- `accept_message`: where we are. A new accept is a new start, so a lane
that was up is not any more. -/
def accepting (x : Incoming) : Incoming := { x with onLane := false, laneSerial := 0 }

def acceptMessage (x : Incoming) : Reply := .accept x.verified (x.prefixHash sha x.verified)

end Incoming

end DeskLink.Transfer
