import DeskLink.Transfer.Board

/-!
# `DeskLink.Transfer.Progress`: when a sync with a phone has ended

The part of `src/bucket_progress.rs` that says so: `Tracker::sample`, and the three steps of
`tick`. It reads the Bucket files that move, then takes the ids that failed, each under the
board's lock, and then samples both. The transfer manager calls the board in between.

`World` carries what a reader outside would know: whose each id is (`owner`), whether a
transfer of a phone went wrong since the last report about it (`bad`), and the reports.
-/

set_option autoImplicit false

namespace DeskLink.Board

/-- Files a batch remembers. -/
def maxBatchFiles : Nat := 4096

structure Part where
  done : Nat
  total : Nat
  incoming : Bool
  ended : Bool
deriving DecidableEq, Repr

structure Batch where
  parts : KeyMap Part := ∅
  failed : Bool := false

/-- A sync that ended: what to say about it. -/
structure Ended where
  device : String
  files : Nat
  incoming : Nat
  bytes : Nat
  /-- A file ended without arriving. -/
  failed : Bool
deriving DecidableEq, Repr

/-- Every phone's Bucket transfers, as last sampled. -/
structure Tracker where
  rows : List TransferRow := []
  batches : KeyMap Batch := ∅

/-- A row is taken into the batch, where there is room. -/
def Batch.take (batch : Batch) (row : TransferRow) : Batch :=
  if batch.parts.size < maxBatchFiles || batch.parts.contains row.id then
    { batch with
      parts := batch.parts.insert row.id
        { done := row.done, total := row.total, incoming := row.incoming, ended := false } }
  else batch

def takeRow (batches : KeyMap Batch) (row : TransferRow) : KeyMap Batch :=
  batches.insert row.deviceId ((batches[row.deviceId]?.getD {}).take row)

/-- A part that is no longer listed ends. One that failed does not count as synced. -/
def Part.close (rows : List TransferRow) (failed : List String) (id : String) (part : Part) :
    Part :=
  if part.ended || rows.any (·.id = id) then part
  else if failed.contains id then { part with ended := true, total := part.done }
  else { part with ended := true, done := part.total }

/-- The part ends now, and failed. -/
def Part.fails (rows : List TransferRow) (failed : List String) (id : String) (part : Part) :
    Bool :=
  !part.ended && !rows.any (·.id = id) && failed.contains id

def Batch.close (rows : List TransferRow) (failed : List String) (batch : Batch) : Batch :=
  { parts := batch.parts.map (Part.close rows failed)
    failed := batch.failed ||
      batch.parts.toList.any (fun entry => entry.2.fails rows failed entry.1) }

def Batch.allEnded (batch : Batch) : Bool := batch.parts.toList.all (fun entry => entry.2.ended)

def Batch.report (device : String) (batch : Batch) : Ended :=
  { device
    files := batch.parts.size
    incoming := (batch.parts.toList.filter (fun entry => entry.2.incoming)).length
    bytes := (batch.parts.toList.map (fun entry => entry.2.total)).sum
    failed := batch.failed }

namespace Tracker

/-- The batches, with the rows taken in and what is no longer listed ended. -/
def closed (tracker : Tracker) (rows : List TransferRow) (failed : List String) : KeyMap Batch :=
  (rows.foldl takeRow tracker.batches).map (fun _ batch => batch.close rows failed)

/-- The batches that are over. -/
def endedBatches (tracker : Tracker) (rows : List TransferRow) (failed : List String) :
    List (String × Batch) :=
  (tracker.closed rows failed).toList.filter (fun entry => entry.2.allEnded)

/-- Takes in the board's rows and the ids that failed, and gives the syncs that just ended. -/
def sample (tracker : Tracker) (rows : List TransferRow) (failed : List String) :
    Tracker × List Ended :=
  ({ rows, batches := (tracker.closed rows failed).filter (fun _ batch => !batch.allEnded) },
    (tracker.endedBatches rows failed).map (fun entry => entry.2.report entry.1))

end Tracker

/-! ### Ticks among calls -/

/-- What is called about Bucket transfers. -/
inductive BucketCall where
  | beginSynced (row : TransferRow)
  | progress (id : String) (done : Nat)
  | finish (id : String) (outcome : Outcome)
  | finishDevice (deviceId reason : String)
  | discard (id : String)
deriving DecidableEq, Repr

def BucketCall.call : BucketCall → BoardCall
  | .beginSynced row => .beginSynced row
  | .progress id done => .progress id done
  | .finish id outcome => .finish id outcome
  | .finishDevice deviceId reason => .finishDevice deviceId reason
  | .discard id => .discard id

/-- The Bucket transfers that a call ends without their file, in their order. -/
def TransferBoard.failing (board : TransferBoard) : BucketCall → List String
  | .beginSynced row =>
    let kept := board.synced.filter (fun known => !row.supersedes known)
    if kept.any (·.id = row.id) || kept.length < maxRows then []
    else (kept.take 1).map (·.id)
  | .finish id outcome =>
    if board.synced.any (·.id = id) && !outcome.isDelivered then [id] else []
  | .finishDevice deviceId _ => (board.synced.filter (·.deviceId = deviceId)).map (·.id)
  | .progress .. | .discard _ => []

/-- Where a tick is. -/
inductive Tick where
  | between
  /-- The rows are read. -/
  | read (rows : List TransferRow)
  /-- The failed ids are taken. -/
  | taken (rows : List TransferRow) (failed : List String)

/-- A report that was given. -/
structure Given where
  ended : Ended
  /-- The transfers it counts. -/
  ids : List String
  /-- The rows of its sample. -/
  rows : List TransferRow
  /-- A transfer of the phone went wrong since the report before. -/
  bad : Bool

structure World where
  board : TransferBoard := {}
  tracker : Tracker := {}
  tick : Tick := .between
  /-- The phone of each id that was begun. -/
  owner : KeyMap String := ∅
  bad : String → Bool := fun _ => false
  /-- The transfers that a sample saw. -/
  seen : List String := []
  given : List Given := []

inductive TickStep where
  | call (call : BucketCall)
  | read
  | take
  | sample

namespace World

/-- An id is begun once; the row of a listed one may be replaced. -/
def mayBegin (w : World) (row : TransferRow) : Bool :=
  match w.owner[row.id]? with
  | none => true
  | some device => device = row.deviceId && w.board.synced.any (·.id = row.id)

def called (w : World) (call : BucketCall) : World :=
  { w with
    board := w.board.step call.call
    owner := match call with
      | .beginSynced row => w.owner.insert row.id row.deviceId
      | .progress .. | .finish .. | .finishDevice .. | .discard _ => w.owner
    bad := fun device =>
      w.bad device || (w.board.failing call).any (fun id => w.owner[id]? = some device) }

def sampled (w : World) (rows : List TransferRow) (failed : List String) : World :=
  { w with
    tracker := (w.tracker.sample rows failed).1
    tick := .between
    bad := fun device =>
      !(w.tracker.endedBatches rows failed).any (fun entry => entry.1 = device) && w.bad device
    seen := w.seen ++ rows.map (·.id)
    given := w.given ++ (w.tracker.endedBatches rows failed).map (fun entry =>
      { ended := entry.2.report entry.1, ids := entry.2.parts.keys, rows,
        bad := w.bad entry.1 }) }

def step (w : World) : TickStep → Option World
  | .call (.beginSynced row) =>
    if w.mayBegin row then some (w.called (.beginSynced row)) else none
  | .call call => some (w.called call)
  | .read =>
    match w.tick with
    | .between => some { w with tick := .read w.board.synced }
    | .read _ | .taken .. => none
  | .take =>
    match w.tick with
    | .read rows =>
      some { w with
        board := { w.board with syncedFailed := [] }
        tick := .taken rows w.board.syncedFailed }
    | .between | .taken .. => none
  | .sample =>
    match w.tick with
    | .taken rows failed => some (w.sampled rows failed)
    | .between | .read _ => none

end World

end DeskLink.Board
