import DeskLink.Lib.Unwind

/-!
# `DeskLink.Sending.Waiting`: files waiting for a phone

The queue of `src/device_links/daemon/file_transfer.rs`. A file chosen for a phone
that is away waits in `WAITING`, and the queue is saved after every change. The
thread that reconciles connections flushes it: it takes the files of the phones
that are ready off the queue, offers each to `queue_send`, and puts those that
were refused back in front.

One step of the model is one section with the queue's lock held, and offering a
file is one more. Files do not change on disk, so `disk` is what every reading of
a path gives. Saving succeeds. The rows of the transfers page are left out.
-/

set_option autoImplicit false

namespace DeskLink.Sending

def maxWaitingFiles : Nat := 200

/-- A day, in seconds. -/
def maxWaitingAge : Nat := 24 * 3600

/-- What a path holds. -/
inductive OnDisk where
  | missing
  | folder
  | file (size mtimeNs : Nat)
deriving DecidableEq, Repr

/-- What is kept of a waiting file: where it is and how it was when it was
chosen. -/
structure Waiting where
  deviceId : String
  phone : String
  path : String
  size : Nat
  mtimeNs : Nat
  /-- When it was chosen, in seconds. -/
  queuedAt : Nat
  /-- Which phone it was chosen for: a hash of its pairing certificate. -/
  identity : String
deriving DecidableEq, Repr

namespace Waiting

/-- One file, for one phone. -/
def key (file : Waiting) : String × String × Nat × Nat :=
  (file.deviceId, file.path, file.size, file.mtimeNs)

/-- It has not waited a day. -/
def isFresh (now : Nat) (file : Waiting) : Bool := now - file.queuedAt < maxWaitingAge

def isFor (deviceId : String) (file : Waiting) : Bool := file.deviceId = deviceId

/-- It still is the file that was chosen. -/
def isSame (disk : String → OnDisk) (file : Waiting) : Bool :=
  disk file.path = .file file.size file.mtimeNs

/-- The very phone it was chosen for is still paired. -/
def isPaired (identity : String → Option String) (file : Waiting) : Bool :=
  identity file.deviceId = some file.identity

def moved (oldId newId : String) (file : Waiting) : Waiting :=
  if file.deviceId = oldId then { file with deviceId := newId } else file

end Waiting

/-- A flush on its way: the files still to be offered, and those refused. -/
structure Flush where
  go : List Waiting
  refused : List Waiting
deriving DecidableEq, Repr

structure Desk where
  waiting : List Waiting := []
  /-- The queue file; an empty queue is no file. -/
  saved : List Waiting := []
  flush : Option Flush := none
deriving DecidableEq, Repr

namespace Desk

variable (desk : Desk)

/-- The queue is changed, and saved. -/
def refreshLocked (waiting : List Waiting) : Desk := { desk with waiting, saved := waiting }

/-- Keeps `path` for `deviceId` until it connects. -/
def waitForPhone (disk : String → OnDisk) (deviceId phone identity path : String) (now : Nat) :
    Desk × Except String Unit :=
  match disk path with
  | .missing => (desk, .error "That file can't be read")
  | .folder => (desk, .error "Only files can be sent")
  | .file size mtimeNs =>
    let file : Waiting := { deviceId, phone, path, size, mtimeNs, queuedAt := now, identity }
    -- The same file chosen again while the phone is away is the same request.
    if desk.waiting.any (fun other => other.key = file.key) then (desk, .ok ())
    else if maxWaitingFiles ≤ desk.waiting.length then
      (desk, .error s!"{maxWaitingFiles} files are already waiting for a phone to connect")
    else (desk.refreshLocked (desk.waiting ++ [file]), .ok ())

/-- An unpaired phone's waiting files are forgotten with it. -/
def forgetWaiting (deviceId : String) : Desk :=
  desk.refreshLocked (desk.waiting.filter (fun file => !file.isFor deviceId))

/-- Takes one waiting file off the queue. Whether it was there. -/
def removeWaitingFile (deviceId path : String) : Desk × Bool :=
  let kept := desk.waiting.filter (fun file => !(file.isFor deviceId && file.path = path))
  if kept.length ≠ desk.waiting.length then (desk.refreshLocked kept, true) else (desk, false)

/-- "Cancel": every file waiting for `deviceId` is dropped. -/
def clearWaiting (deviceId : String) : Desk := desk.forgetWaiting deviceId

/-- A phone paired again under a new id replaces the old record. Each file
keeps the identity it was chosen for, and one that a flush holds stays as it
is. -/
def moveWaiting (oldId newId : String) : Desk :=
  desk.refreshLocked (desk.waiting.map (Waiting.moved oldId newId))

/-- Drops what waited a day. -/
def expireWaiting (now : Nat) : Desk :=
  let kept := desk.waiting.filter (Waiting.isFresh now)
  if kept.length ≠ desk.waiting.length then desk.refreshLocked kept else desk

/-- Takes the files of the phones that are ready off the queue. -/
def takeWaiting (ready : List String) : Desk × List Waiting :=
  let go := desk.waiting.filter (fun file => ready.contains file.deviceId)
  let stay := desk.waiting.filter (fun file => !ready.contains file.deviceId)
  if go.isEmpty then (desk, []) else (desk.refreshLocked stay, go)

/-- Puts files back in front of the queue. -/
def putBack (files : List Waiting) : Desk :=
  if files.isEmpty then desk else desk.refreshLocked (files ++ desk.waiting)

/-- A new process restores what waited, for phones that are still paired. -/
def restoreFrom (now : Nat) (identity : String → Option String) : Desk :=
  let loaded := (desk.saved.filter (Waiting.isFresh now)).take maxWaitingFiles
  let restored := loaded.filter (Waiting.isPaired identity)
  { ({} : Desk) with saved := desk.saved }.refreshLocked (restored.take maxWaitingFiles)

end Desk

/-- One step. -/
inductive QueueOp where
  | waitForPhone (deviceId phone identity path : String) (now : Nat)
  | removeWaitingFile (deviceId path : String)
  /-- The person cancels the phone's files. -/
  | clearWaiting (deviceId : String)
  /-- The phone is unpaired, or another certificate is stored for its id. -/
  | forgetWaiting (deviceId : String)
  | moveWaiting (oldId newId : String)
  | expireWaiting (now : Nat)
  | take (ready : List String)
  | offer (accepted : Bool)
  | putBack
  | restart (now : Nat) (identity : String → Option String)

namespace Desk

variable (disk : String → OnDisk) (desk : Desk)

/-- A flush takes the files of the phones that are ready, and leaves out those
that changed. It is the work of one thread, so the next one starts when the last
one has put its files back. -/
def startFlush (ready : List String) : Desk :=
  match desk.flush with
  | some _ => desk
  | none =>
    let taken := desk.takeWaiting ready
    { taken.1 with flush := some ⟨taken.2.filter (Waiting.isSame disk), []⟩ }

/-- The next file of the flush is offered to `queue_send`. -/
def offerNext (accepted : Bool) : Desk :=
  match desk.flush with
  | some ⟨file :: go, refused⟩ =>
    { desk with flush := some ⟨go, if accepted then refused else refused ++ [file]⟩ }
  | _ => desk

/-- The flush has offered all, and puts back what was refused. -/
def endFlush : Desk :=
  match desk.flush with
  | some ⟨[], refused⟩ => { desk.putBack refused with flush := none }
  | _ => desk

/-- What a step does. -/
def after : QueueOp → Desk
  | .waitForPhone deviceId phone identity path now =>
    (desk.waitForPhone disk deviceId phone identity path now).1
  | .removeWaitingFile deviceId path => (desk.removeWaitingFile deviceId path).1
  | .clearWaiting deviceId => desk.clearWaiting deviceId
  | .forgetWaiting deviceId => desk.forgetWaiting deviceId
  | .moveWaiting oldId newId => desk.moveWaiting oldId newId
  | .expireWaiting now => desk.expireWaiting now
  | .take ready => desk.startFlush disk ready
  | .offer accepted => desk.offerNext accepted
  | .putBack => desk.endFlush
  | .restart now identity => desk.restoreFrom now identity

/-- The file a step hands to a sender. -/
def hands : QueueOp → Option Waiting
  | .offer true => desk.flush.bind (fun flush => flush.go.head?)
  | _ => none

/-- The steps `ops`, from a queue that was never used. -/
def run (ops : List QueueOp) : Desk := Lib.applyAll (Desk.after disk) {} ops

end Desk

end DeskLink.Sending
