import DeskLink.Lib.KeyMap

/-!
# `DeskLink.Transfer.Board`: what the user sees of file transfers

The table of `src/device_links/webrtc/transfer_board.rs`: the rows of the
Transfers page, the Bucket files that are moving, and what ended. Why a transfer
waits, which lane it is on and which file a send is of are kept beside the rows,
by transfer id.

`BoardCall` lists what the transfer manager calls, and `TransferBoard.step` is
one call, made with the board's lock held.
-/

set_option autoImplicit false

namespace DeskLink.Board

def maxRows : Nat := 64

def maxFinished : Nat := 64

structure TransferRow where
  id : String
  deviceId : String
  name : String
  incoming : Bool
  done : Nat
  total : Nat
  /-- A file being copied and hashed before its offer can be made. -/
  preparing : Bool
  paused : Bool
deriving DecidableEq, Repr

inductive Outcome where
  /-- An incoming file now at this path. -/
  | received (path : String)
  | sent
  | failed (reason : String)
  | cancelled
deriving DecidableEq, Repr

namespace Outcome

def isFailed : Outcome → Bool
  | .failed _ => true
  | _ => false

/-- It arrived, or was delivered. -/
def isDelivered : Outcome → Bool
  | .sent | .received _ => true
  | .failed _ | .cancelled => false

end Outcome

structure Finished where
  id : String
  deviceId : String
  name : String
  incoming : Bool
  outcome : Outcome
  /-- For a send that failed: the file, so the person can try again. -/
  retry : Option String
deriving DecidableEq, Repr

/-- A Bucket transfer that ended. -/
structure SyncedEnd where
  device : String
  name : String
  incoming : Bool
  ok : Bool
deriving DecidableEq, Repr

namespace TransferRow

/-- The outcome of a listed transfer. -/
def ended (row : TransferRow) (outcome : Outcome) (retry : Option String) : Finished :=
  { id := row.id, deviceId := row.deviceId, name := row.name, incoming := row.incoming,
    outcome, retry }

/-- The end of a Bucket transfer. -/
def syncedEnd (row : TransferRow) (ok : Bool) : SyncedEnd :=
  { device := row.deviceId, name := row.name, incoming := row.incoming, ok }

/-- `row` is the same Bucket file as `known`, begun again under a new id. -/
def supersedes (row known : TransferRow) : Bool :=
  known.id ≠ row.id && (known.deviceId = row.deviceId && known.name = row.name
    && known.incoming = row.incoming)

def progressed (row : TransferRow) (done : Nat) : TransferRow :=
  { row with
    preparing := false
    paused := false
    done := if 0 < row.total then min done row.total else done }

end TransferRow

/-- The first row of an id is changed. -/
def updateFirst (id : String) (f : TransferRow → TransferRow) : List TransferRow → List TransferRow
  | [] => []
  | row :: rows => if row.id = id then f row :: rows else row :: updateFirst id f rows

/-- A queue that drops its oldest item when it is full. -/
def pushCapped {α : Type} (limit : Nat) (queue : List α) (item : α) : List α :=
  (if limit ≤ queue.length then queue.drop 1 else queue) ++ [item]

structure TransferBoard where
  /-- In the order they were begun. -/
  rows : List TransferRow := []
  finished : List Finished := []
  /-- The file of a send, by transfer id. -/
  retrySources : KeyMap String := ∅
  /-- Bucket files moving. -/
  synced : List TransferRow := []
  /-- Bucket transfers that ended without their file. -/
  syncedFailed : List String := []
  /-- Every Bucket transfer that ended. -/
  syncedEnded : List SyncedEnd := []
  /-- Why a listed transfer is not moving, by transfer id. -/
  notes : KeyMap String := ∅
  /-- The last outcomes, numbered from 1. -/
  ended : List (Nat × Finished) := []
  endedSeq : Nat := 0
  /-- Which lane a listed transfer is on, by transfer id. -/
  lanes : KeyMap String := ∅

namespace TransferBoard

/-- The ids of both lists. -/
def listed (board : TransferBoard) : List String := (board.rows ++ board.synced).map (·.id)

/-- The row is added, or replaces the row of its id. A full board gives up its
first placeholder for a real transfer, and refuses otherwise. -/
def begin (board : TransferBoard) (row : TransferRow) : TransferBoard × Bool :=
  if board.rows.any (·.id = row.id) then
    ({ board with rows := updateFirst row.id (fun _ => row) board.rows }, true)
  else if maxRows ≤ board.rows.length then
    if board.rows.any (·.preparing) && !row.preparing then
      -- What was said of the placeholder stays behind.
      ({ board with rows := board.rows.eraseP (·.preparing) ++ [row] }, true)
    else (board, false)
  else ({ board with rows := board.rows ++ [row] }, true)

def setLane (board : TransferBoard) (id : String) (lane : Option String) : TransferBoard :=
  match lane with
  | some lane =>
    if id ∈ board.listed then { board with lanes := board.lanes.insert id lane }
    else { board with lanes := board.lanes.erase id }
  | none => { board with lanes := board.lanes.erase id }

/-- The lane of every transfer that is no longer listed is dropped. -/
def pruneLanes (board : TransferBoard) : TransferBoard :=
  { board with lanes := board.lanes.filter (fun id _ => id ∈ board.listed) }

/-- The end of a Bucket transfer, for the folder worker's slots. -/
def pushSyncedEnded (board : TransferBoard) (ended : SyncedEnd) : TransferBoard :=
  { board with syncedEnded := pushCapped maxFinished board.syncedEnded ended }

def pushSyncedFailed (board : TransferBoard) (id : String) : TransferBoard :=
  { board with syncedFailed := pushCapped maxFinished board.syncedFailed id }

/-- The oldest Bucket transfer is pushed off a full list: its slot is freed, and
the file counts as not synced. -/
def evictSynced (board : TransferBoard) : TransferBoard :=
  match board.synced with
  | [] => board
  | evicted :: synced =>
    if maxRows ≤ board.synced.length then
      ({ board with synced, notes := board.notes.erase evicted.id }.pushSyncedEnded
        (evicted.syncedEnd false)).pushSyncedFailed evicted.id
    else board

/-- A Bucket transfer is added, or replaces the row of its id. The row of the
same file under another id goes. -/
def beginSynced (board : TransferBoard) (row : TransferRow) : TransferBoard :=
  let board := { board with synced := board.synced.filter (fun known => !row.supersedes known) }
  if board.synced.any (·.id = row.id) then
    { board with synced := updateFirst row.id (fun _ => row) board.synced }.pruneLanes
  else
    let board := board.evictSynced
    { board with synced := board.synced ++ [row] }.pruneLanes

def pushFinished (board : TransferBoard) (finished : Finished) : TransferBoard :=
  { board with
    endedSeq := board.endedSeq + 1
    ended := pushCapped 64 board.ended (board.endedSeq + 1, finished)
    finished := pushCapped maxFinished board.finished finished }

/-- How far a listed transfer has got; the Transfers list is looked at first. -/
def progress (board : TransferBoard) (id : String) (done : Nat) : TransferBoard :=
  if board.rows.any (·.id = id) then
    { board with rows := updateFirst id (·.progressed done) board.rows }
  else { board with synced := updateFirst id (·.progressed done) board.synced }

/-- A listed transfer ends; one that is not listed is ignored. The Bucket's list
is looked at first. -/
def finish (board : TransferBoard) (id : String) (outcome : Outcome) : TransferBoard :=
  let board := { board with notes := board.notes.erase id, lanes := board.lanes.erase id }
  match board.synced.find? (·.id = id) with
  | some row =>
    let board := { board with synced := board.synced.eraseP (·.id = id) }
    let board := board.pushSyncedEnded (row.syncedEnd outcome.isDelivered)
    if outcome.isDelivered then board else board.pushSyncedFailed id
  | none =>
    match board.rows.find? (·.id = id) with
    | none => board
    | some row =>
      { board with
        rows := board.rows.eraseP (·.id = id)
        retrySources := board.retrySources.erase row.id }.pushFinished
          (row.ended outcome (board.retrySources[row.id]?.filter (fun _ => outcome.isFailed)))

/-- The device's connection dropped: its rows stay, on no lane. -/
def pauseDevice (board : TransferBoard) (deviceId : String) : TransferBoard :=
  let pause (row : TransferRow) : TransferRow :=
    if row.deviceId = deviceId then { row with paused := true } else row
  let paused := (board.rows ++ board.synced).filter (·.deviceId = deviceId)
  { board with
    rows := board.rows.map pause
    synced := board.synced.map pause
    lanes := paused.foldl (fun lanes row => lanes.erase row.id) board.lanes }

/-- One transfer of a device that is gone: it offers no second try. -/
def finishGone (reason : String) (board : TransferBoard) (id : String) : TransferBoard :=
  { board with retrySources := board.retrySources.erase id }.finish id (.failed reason)

/-- Everything a device had running, in both lists. -/
def idsOf (board : TransferBoard) (deviceId : String) : List String :=
  ((board.rows ++ board.synced).filter (·.deviceId = deviceId)).map (·.id)

/-- Everything a device had running ends. -/
def finishDevice (board : TransferBoard) (deviceId reason : String) :
    TransferBoard × List String :=
  ((board.idsOf deviceId).foldl (finishGone reason) board, board.idsOf deviceId)

/-- A listed transfer goes without an outcome. -/
def discard (board : TransferBoard) (id : String) : TransferBoard :=
  { board with
    notes := board.notes.erase id
    lanes := board.lanes.erase id
    retrySources := board.retrySources.erase id
    rows := board.rows.filter (·.id ≠ id)
    synced := board.synced.filter (·.id ≠ id) }

def setNote (board : TransferBoard) (id : String) (note : Option String) : TransferBoard :=
  match note with
  | some note =>
    if id ∈ board.listed then { board with notes := board.notes.insert id note }
    else { board with notes := board.notes.erase id }
  | none => { board with notes := board.notes.erase id }

/-- The file of a send is remembered. A full map forgets `first`, the key that
it gives first. -/
def setRetrySource (board : TransferBoard) (id path first : String) : TransferBoard :=
  let sources := if maxFinished ≤ board.retrySources.size then board.retrySources.erase first
    else board.retrySources
  { board with retrySources := sources.insert id path }

/-- The outcomes recorded after number `seen`. -/
def endedSince (board : TransferBoard) (seen : Nat) : List Finished :=
  (board.ended.filter (fun item => seen < item.1)).map (·.2)

end TransferBoard

/-- A call of the transfer manager. -/
inductive BoardCall where
  | begin (row : TransferRow)
  | beginSynced (row : TransferRow)
  | progress (id : String) (done : Nat)
  | setNote (id : String) (note : Option String)
  | setLane (id : String) (lane : Option String)
  | setRetrySource (id path first : String)
  | finish (id : String) (outcome : Outcome)
  | pauseDevice (deviceId : String)
  | finishDevice (deviceId reason : String)
  | discard (id : String)
deriving DecidableEq, Repr

/-- The board after a call. -/
def TransferBoard.step (board : TransferBoard) : BoardCall → TransferBoard
  | .begin row => (board.begin row).1
  | .beginSynced row => board.beginSynced row
  | .progress id done => board.progress id done
  | .setNote id note => board.setNote id note
  | .setLane id lane => board.setLane id lane
  | .setRetrySource id path first => board.setRetrySource id path first
  | .finish id outcome => board.finish id outcome
  | .pauseDevice deviceId => board.pauseDevice deviceId
  | .finishDevice deviceId reason => (board.finishDevice deviceId reason).1
  | .discard id => board.discard id

/-- The board after calls, from an empty one. -/
def TransferBoard.run (calls : List BoardCall) : TransferBoard := calls.foldl TransferBoard.step {}

end DeskLink.Board
