import DeskLink.Transfer.Incoming

/-!
# `DeskLink.Transfer.Receive`: the receiving engine

The receiving half of `Engine` (`transfer_manager.rs` and
`transfer_manager/recv.rs`): the open transfers over the store. Each
`Event` is a message or one part of a tick; `Engine.handle` gives the open
transfers after it, the writes it made, what it sent, and the transfer it
handed to `finish_incoming`, if any.

A tick goes over the open transfers one by one, so its parts are events of
one transfer each, and the clocks and queue lengths that decide when a
part runs are free. What lies outside the engine is in `OfferEnv` and
`Placed`: whether folder sync and the gallery settings allow the offer,
the room on the Transfers page, the order of a directory listing, and what
came of placing the finished file.

Where the source saves a record, the event says how that ends (`Saved`).
The removal of a transfer's files does not fail here.
-/

set_option autoImplicit false

namespace DeskLink.Transfer

structure Offer where
  id : String
  token : String
  filename : Option String
  total : Option Nat
  mtime : Option Int
  folder : Option FolderRef
  contentSha256 : Option String
  lane : Bool

structure OfferEnv where
  /-- Folder sync asked for this file. -/
  folderAccepts : Bool := true
  /-- Why the gallery settings refuse it, if they do. -/
  galleryRefuses : Option String := none
  /-- The Transfers page can list it, or need not. -/
  listed : Bool := true
  /-- This side sees the peer on its own network. -/
  laneTarget : Bool := false
  /-- The directory, as the system lists it. -/
  entries : List String := []
  /-- The partial file can be opened, cut or created. -/
  files : Bool := true
  /-- The `set_len` for a transfer offered again goes through. -/
  setLen : Bool := true
  /-- How the record of the new transfer is saved. -/
  record : Saved := .whole
  /-- How `adopt_bucket_partial` saves one. -/
  adopts : Saved := .whole
  /-- How those of the transfers it replaces are saved. -/
  stale : String → Saved := fun _ => .whole

/-- What came of `place`. -/
inductive Placed where
  | placed
  /-- Not placed; the partial file stays, or was removed. -/
  | failed (words : String) (partGone : Bool)

structure Done where
  id : String
  token : String
  blocks : Option Nat
  totalSize : Option Nat
  fileHash : Option Hash

inductive Event where
  | offer (o : Offer) (env : OfferEnv)
  | frame (frame : Frame) (io : Io)
  | done (m : Done) (io : Io) (place : Placed)
  | laneOpened (id : String) (startBlock : Nat) (pass : UInt8) (serial : Nat) (io : Io)
  | laneLost (id : String) (serial : Nat)
  /-- A `lane` message; `tcp` says which way. -/
  | laneSwitch (id token : String) (tcp : Bool) (startBlock : Nat) (pass : UInt8) (io : Io)
  /-- The peer's `cancel` or `error`. -/
  | dropped (id token : String)
  | cancelled (id : String)
  /-- `restart_after_overflow`. -/
  | overflowed (id : String) (io : Io)
  /-- `apply_backlog`, the queue long. -/
  | backlogged (id : String)
  /-- `apply_backlog`, the queue drained. -/
  | drained (id : String) (io : Io)
  /-- `retry_after_storage_full`, with room again. -/
  | storageFreed (id : String) (io : Io)
  /-- `checkpoint_due`, and the checkpoint of a session that ends. -/
  | checkpointDue (id : String) (saved : Saved)
  /-- The engine ends: a last checkpoint, and the transfer is not open. -/
  | shutDown (id : String) (saved : Saved)

structure Engine where
  peer : String
  incoming : KeyMap Incoming := ∅
  disk : Disk := {}

/-- What handling an event came to. -/
structure Handled where
  incoming : KeyMap Incoming
  journal : Journal
  replies : List (String × Reply) := []
  /-- The transfer that reached `finish_incoming`. -/
  finished : Option Incoming := none

namespace Engine

variable (sha : Bytes → Hash)

def unchanged (e : Engine) : Handled := ⟨e.incoming, ⟨e.disk, []⟩, [], none⟩

/-- What is done to the partial file, on the disk. -/
def fileWrites (file : Nat) (ops : List (FileOp × List Hash)) : List DiskOp :=
  ops.map (fun op =>
    match op.1 with
    | .setLen n => .setLen file n
    | .writeAt offset bytes => .writeAt file offset bytes)

/-- `end_incoming`: the sender is told, and the files go. -/
def endIncoming (e : Engine) (x : Incoming) (before : List DiskOp) (ending : Ending) : Handled where
  incoming := e.incoming.erase x.id
  journal := Journal.write ⟨e.disk, []⟩ (before ++ removeReceive x.id)
  replies := if ending.tellPeer then [(x.id, .error ending.code (some ending.words))] else []

/-- A method of the open transfer `x` came to `r`. -/
def settle (e : Engine) (x : Incoming) (r : Incoming.Result) : Handled :=
  let writes := fileWrites x.file r.ops
  match r.ending with
  | some ending => e.endIncoming x writes ending
  | none =>
    { incoming := e.incoming.insert x.id r.incoming
      journal := Journal.write ⟨e.disk, []⟩
        (writes ++ (r.checkpoint.map r.incoming.checkpointWrites).getD [])
      replies := r.replies.map (fun reply => (x.id, reply)) }

/-! ### Offers -/

/-- The open transfer `x` is of the folder file the offer asks for. -/
def sameOpenFile (peer : String) (reference : FolderRef) (contentSha : String) (total : Nat)
    (x : Incoming) : Bool :=
  x.deviceId == peer
    && x.folder.any (fun known => known.folder == reference.folder
      && known.relpath == reference.relpath)
    && x.contentSha256.any (eqIgnoreAsciiCase · contentSha)
    && x.total == total

/-- The other open transfers of the file the offer asks for. -/
def staleFor (e : Engine) (o : Offer) (total : Nat) : List Incoming :=
  match o.folder, o.contentSha256 with
  | some reference, some contentSha =>
    (e.incoming.toList.map (·.2)).filter (fun x =>
      x.id != o.id && sameOpenFile e.peer reference contentSha total x)
  | _, _ => []

/-- The stale ones are checkpointed and not open any more. -/
def closeStale (e : Engine) (saved : String → Saved) (stale : List Incoming) :
    KeyMap Incoming × List DiskOp :=
  (stale.foldl (fun m x => m.erase x.id) e.incoming,
    stale.flatMap (fun x => x.checkpointWrites (saved x.id)))

/-- Folder files open at another path. -/
def bucketActive (incoming : KeyMap Incoming) (folder : Option FolderRef) : Nat :=
  ((incoming.toList.map (·.2)).filter (fun x =>
    x.folder.any (fun known => folder.all (fun reference => known.relpath != reference.relpath)))).length

/-- What is held is of the transfer the offer names: for a folder file its
content at its path, else the same token and time. -/
def resumes (peer : String) (o : Offer) (filename : String) (total : Nat)
    (held : ReceiveCheckpoint) : Bool :=
  let sameFile := held.deviceId == peer && held.filename == filename && held.totalSize == total
  match o.folder, held.folder with
  | some new, some old =>
    sameFile && new.folder == old.folder && new.relpath == old.relpath
      && held.contentSha256.any (fun known => o.contentSha256.any (eqIgnoreAsciiCase known ·))
  | none, none =>
    sameFile && held.token == o.token && held.mtime == o.mtime.getD 0
  | _, _ => false

/-- A folder file is carried on under this request. -/
def carriedOn (o : Offer) (held : ReceiveCheckpoint) : ReceiveCheckpoint :=
  if o.folder.isSome then
    { held with token := o.token, mtime := o.mtime.getD 0, folder := o.folder }
  else held

/-- What the store holds for the offer. A folder file asked for under a
new id carries on from what is held of the same content. -/
def heldFor (peer : String) (o : Offer) (total : Nat) (env : OfferEnv) (j : Journal) :
    Journal × Except String (Option Held) :=
  match loadReceive j o.id, o.folder, o.contentSha256 with
  | (j, none), some folder, some contentSha =>
    let request : BucketRequest :=
      ⟨o.id, o.token, peer, folder, contentSha, total, o.mtime.getD 0⟩
    match adoptBucketPartial request env.adopts j false env.entries with
    | (j, .error words) => (j, .error words)
    | (j, .ok false) => (j, .ok none)
    | (j, .ok true) =>
      let (j, held) := loadReceive j o.id
      (j, .ok held)
  | (j, held), _, _ => (j, .ok held)

/-- A transfer as `begin_incoming` opens it. -/
def opened (total : Nat) (checkpoint : ReceiveCheckpoint) (hashes : List Hash) (mtime : Int)
    (file : Nat) : Incoming where
  id := checkpoint.transferId
  token := checkpoint.token
  deviceId := checkpoint.deviceId
  filename := checkpoint.filename
  total := total
  mtime := mtime
  folder := checkpoint.folder
  contentSha256 := checkpoint.contentSha256
  file := file
  nextOffset := blockStart total checkpoint.blocksDone
  hashes := hashes
  checkpointedBlocks := checkpoint.blocksDone

/-- The checkpoint of a transfer that holds nothing yet. -/
def freshCheckpoint (peer : String) (o : Offer) (filename : String) (total : Nat) :
    ReceiveCheckpoint where
  transferId := o.id
  deviceId := peer
  token := o.token
  filename := filename
  totalSize := total
  mtime := o.mtime.getD 0
  blocksDone := 0
  folder := o.folder
  contentSha256 := o.contentSha256

/-- `begin_incoming`: opens the files of a new incoming transfer, resuming
a checkpoint of the same transfer if there is one. -/
def beginIncoming (peer : String) (o : Offer) (filename : String) (total : Nat) (env : OfferEnv)
    (j : Journal) : Journal × Except String Incoming :=
  match heldFor peer o total env j with
  | (j, .error words) => (j, .error words)
  | (j, .ok held) =>
    match held.filter (fun h => resumes peer o filename total h.1) with
    | some (checkpoint, hashes) =>
      match j.disk.part o.id with
      | none => (j, .error "Could not open DeskLink partial file")
      | some file =>
        if !env.files then (j, .error "Could not repair DeskLink partial file")
        else
          let x := opened total (carriedOn o checkpoint) hashes (o.mtime.getD 0) file
          (j.write (.setLen file x.nextOffset :: x.checkpointWrites env.record),
            .ok (x.checkpointed env.record))
    | none =>
      let j := j.write (removeReceive o.id)
      if !env.files then (j, .error "Could not persist DeskLink partial file")
      else
        let x := opened total (freshCheckpoint peer o filename total) [] (o.mtime.getD 0)
          j.disk.nextFile
        (j.write (.createPart o.id :: x.checkpointWrites env.record),
          .ok (x.checkpointed env.record))

/-- An offer is answered with a no. -/
def refuse (incoming : KeyMap Incoming) (j : Journal) (id : String) (code : Code)
    (message : Option String) : Handled :=
  ⟨incoming, j, [(id, .error code message)], none⟩

/-- A lane is taken for a big file when the sender offered one and this
side sees the network path too. -/
def takesLane (o : Offer) (total : Nat) (env : OfferEnv) : Bool :=
  o.lane && decide (laneMinFileBytes ≤ total) && env.laneTarget

/-- The same transfer offered again: answered from where we are. -/
def offeredAgain (e : Engine) (o : Offer) (filename : String) (total : Nat) (env : OfferEnv)
    (x : Incoming) : Handled :=
  if x.token ≠ o.token ∨ x.total ≠ total ∨ x.filename ≠ filename then
    refuse e.incoming ⟨e.disk, []⟩ o.id .refused (some "That transfer does not match")
  else
    let restarted := if env.setLen then x.restartAt x.verified x.pass else x
    let x' := { restarted with
      adoptAny := true
      oldStreamPossible := true
      paused := none
      laneWanted := takesLane o total env }
    { incoming := e.incoming.insert o.id x'.accepting
      journal := Journal.write ⟨e.disk, []⟩
        (if env.setLen then [.setLen x.file (x.keepAt x.verified)] else [])
      replies := [(o.id, x'.acceptMessage sha)] }

/-- `on_offer`: a new file to receive, a transfer we hold again, or a no. -/
def onOffer (e : Engine) (o : Offer) (env : OfferEnv) : Handled :=
  match o.filename, o.total with
  | some filename, some total =>
    if maxTransferBytes < total then
      refuse e.incoming ⟨e.disk, []⟩ o.id .tooLarge none
    else if o.folder.isSome && !env.folderAccepts then
      refuse e.incoming ⟨e.disk, []⟩ o.id .refused (some "folder-refused")
    else if env.galleryRefuses.isSome then
      refuse e.incoming ⟨e.disk, []⟩ o.id .refused env.galleryRefuses
    else
      match e.incoming[o.id]? with
      | some x => e.offeredAgain sha o filename total env x
      | none =>
        let (incoming, stale) := e.closeStale env.stale (e.staleFor o total)
        let j := Journal.write ⟨e.disk, []⟩ stale
        if activePerDirection ≤ incoming.size
            ∨ (o.folder.isSome ∧ bucketSlotsPerDirection ≤ bucketActive incoming o.folder)
            ∨ !env.listed then
          refuse incoming j o.id .busy none
        else
          match beginIncoming e.peer o filename total env j with
          | (j, .error words) => refuse incoming j o.id .internal (some words)
          | (j, .ok x) =>
            let x := { x with laneWanted := takesLane o total env }
            { incoming := incoming.insert o.id x.accepting
              journal := j
              replies := [(o.id, x.acceptMessage sha)] }
  | _, _ => refuse e.incoming ⟨e.disk, []⟩ o.id .internal (some "The offer is incomplete")

/-! ### The end of a transfer -/

/-- `finish_incoming`: places a fully verified file and tells the sender.
A file that could not be placed keeps its record. -/
def finishIncoming (e : Engine) (x : Incoming) (io : Io) (place : Placed) : Handled :=
  match place with
  | .placed =>
    { incoming := e.incoming.erase x.id
      journal := Journal.write ⟨e.disk, []⟩ (removeReceive x.id)
      replies := [(x.id, .complete (hashOfHashes sha x.hashes))]
      finished := some x }
  | .failed words partGone =>
    { incoming := e.incoming.erase x.id
      journal := Journal.write ⟨e.disk, []⟩
        ((if partGone then [.removePart x.id] else []) ++ x.checkpointWrites io.record)
      replies := [(x.id, .error .internal (some words))]
      finished := some x }

/-- `on_done`: the sender says every block was acknowledged. -/
def onDone (e : Engine) (m : Done) (io : Io) (place : Placed) : Handled :=
  match e.incoming[m.id]? with
  | none => e.unchanged
  | some x =>
    if x.token ≠ m.token then e.unchanged
    else if ¬(m.blocks = some x.blocksTotal ∧ m.totalSize = some x.total
        ∧ x.verified = x.blocksTotal) then
      e.endIncoming x []
        ⟨.badFrame, "The transfer ended before all of the file arrived.", true⟩
    else if m.fileHash = some (hashOfHashes sha x.hashes) then e.finishIncoming sha x io place
    -- Every block matched and the lists disagree: sent once more, then no more.
    else if 1 ≤ x.wholeResends then
      e.endIncoming x [] ⟨.hashMismatch,
        "The file got damaged on the way and could not be fixed. Send it again.", true⟩
    else if !io.setLen then
      e.endIncoming x [] (.internal "Could not repair DeskLink partial file")
    else
      let x' := ({ x with wholeResends := x.wholeResends + 1 }).restartAt 0 (nextPass x.pass)
      { incoming := e.incoming.insert x.id x'
        journal := Journal.write ⟨e.disk, []⟩ [.setLen x.file (x.keepAt 0)]
        replies := [(x.id, .resume 0 (hashOfHashes sha []) x'.pass)] }

/-- The transfer goes, with its files. -/
def discard (e : Engine) (x : Incoming) (replies : List (String × Reply)) : Handled :=
  ⟨e.incoming.erase x.id, Journal.write ⟨e.disk, []⟩ (removeReceive x.id), replies, none⟩

/-! ### Lanes -/

/-- `lane_opened`: the lane connection `serial` is open and its frames
follow, from where the sender says. -/
def laneOpened (e : Engine) (x : Incoming) (startBlock : Nat) (pass : UInt8) (serial : Nat)
    (io : Io) : Handled :=
  if !io.setLen then e.unchanged
  else
    { incoming := e.incoming.insert x.id
        { x.restartAt startBlock pass with onLane := true, laneSerial := serial }
      journal := Journal.write ⟨e.disk, []⟩ [.setLen x.file (x.keepAt startBlock)] }

/-- `lane_lost`: only the lane that is up now can end it. -/
def laneLost (e : Engine) (x : Incoming) (serial : Nat) : Handled :=
  if x.onLane && x.laneSerial == serial then
    { incoming := e.incoming.insert x.id { x with onLane := false, laneSerial := 0 }
      journal := ⟨e.disk, []⟩
      replies := [(x.id, .blockNack x.verified x.pass .lane)] }
  else e.unchanged

/-- `on_lane_switch`: the sender left the lane and sends from `startBlock`
over the data channel. What was verified stays verified, and the sender is
told when it starts earlier. -/
def onLaneSwitch (e : Engine) (x : Incoming) (token : String) (tcp : Bool) (startBlock : Nat)
    (pass : UInt8) (io : Io) : Handled :=
  if x.token ≠ token ∨ x.verified < startBlock then e.unchanged
  -- The lane's own connection puts the transfer on it when it opens.
  else if tcp then e.unchanged
  else if !io.setLen then e.unchanged
  else
    { incoming := e.incoming.insert x.id
        { x.restartAt x.verified pass with onLane := false, laneSerial := 0 }
      journal := Journal.write ⟨e.disk, []⟩ [.setLen x.file (x.keepAt x.verified)]
      replies := if startBlock < x.verified then
          [(x.id, .blockNack x.verified pass .lane)]
        else [] }

/-! ### Events -/

/-- The transfer `id`, when it is open; nothing happens when it is not. -/
def withOpen (e : Engine) (id : String) (f : Incoming → Handled) : Handled :=
  match e.incoming[id]? with
  | none => e.unchanged
  | some x => f x

/-- The record of `x` is saved. -/
def checkpoint (e : Engine) (x : Incoming) (saved : Saved) (stays : Bool) : Handled where
  incoming :=
    if stays then e.incoming.insert x.id (x.checkpointed saved) else e.incoming.erase x.id
  journal := Journal.write ⟨e.disk, []⟩ (x.checkpointWrites saved)

def handle (e : Engine) : Event → Handled
  | .offer o env => e.onOffer sha o env
  | .frame frame io =>
    e.withOpen frame.header.transfer (fun x => e.settle x (x.onFrame sha io frame))
  | .done m io place => e.onDone sha m io place
  | .laneOpened id startBlock pass serial io =>
    e.withOpen id (fun x => e.laneOpened x startBlock pass serial io)
  | .laneLost id serial => e.withOpen id (fun x => e.laneLost x serial)
  | .laneSwitch id token tcp startBlock pass io =>
    e.withOpen id (fun x => e.onLaneSwitch x token tcp startBlock pass io)
  | .dropped id token =>
    e.withOpen id (fun x => if x.token = token then e.discard x [] else e.unchanged)
  | .cancelled id => e.withOpen id (fun x => e.discard x [(id, .cancel)])
  | .overflowed id io =>
    e.withOpen id (fun x =>
      if x.paused = some .storage then e.unchanged else e.settle x (x.restartAndResume sha io))
  | .backlogged id =>
    e.withOpen id (fun x =>
      if x.paused = none then
        { incoming := e.incoming.insert x.id { x with paused := some .backlog }
          journal := ⟨e.disk, []⟩
          replies := [(x.id, .pause .backlog)] }
      else e.unchanged)
  | .drained id io =>
    e.withOpen id (fun x =>
      if x.paused = some .backlog then e.settle x (x.restartAndResume sha io) else e.unchanged)
  | .storageFreed id io =>
    e.withOpen id (fun x =>
      if x.paused = some .storage then e.settle x (x.restartAndResume sha io) else e.unchanged)
  | .checkpointDue id saved => e.withOpen id (fun x => e.checkpoint x saved true)
  | .shutDown id saved => e.withOpen id (fun x => e.checkpoint x saved false)

/-- The engine after an event. -/
def next (e : Engine) (event : Event) : Engine :=
  { e with incoming := (e.handle sha event).incoming, disk := (e.handle sha event).journal.disk }

end Engine

end DeskLink.Transfer
