import DeskLink.Lib.KeyMap
import DeskLink.Lib.Run

/-!
# `DeskLink.Vault.Pending`: files saved by the writer thread

`vault.rs`, the part that saves sealed files later: `seal_later` queues the
latest contents of a file, the writer thread takes the whole queue and writes
it file by file, and `flush` does the same on its own thread. `PENDING` guards
the queue and `WRITING` is held by whoever writes a batch.

A section that holds `PENDING` is one step. `WRITING` is held over many steps,
so calls of other threads come in between the writes of a batch. A batch is a
hash map, so its files are written in any order. `seal` replaces the file as a
whole, and does not fail here.

A deletion is `cancel_pending` and then the removal of the file. The calls for
one path are ordered: nothing is sealed for a path that is being deleted.
-/

set_option autoImplicit false

namespace DeskLink.Vault

/-- Writes that may wait for the writer thread. -/
def maxPendingWrites : Nat := 64

/-- What a file is sealed from. -/
structure Write where
  dir : String
  aad : List UInt8
  plain : List UInt8
deriving DecidableEq, Repr

/-- The files waiting, each with only its latest contents. -/
abbrev Pending := KeyMap Write

/-- Who holds `WRITING`. -/
inductive Holder where
  | writer
  | flush (call : Nat)
deriving DecidableEq, Repr

structure VaultState where
  /-- `PENDING`. -/
  pending : Option Pending := none
  /-- `WRITING`, with what is left of the batch once it is taken. -/
  writing : Option (Holder × Option Pending) := none
  /-- What each file was last sealed from. -/
  files : KeyMap Write := {}
  /-- Calls of `seal_later` that have yet to wake the writer thread. -/
  waking : Nat := 0
  /-- The wake-up that waits in the channel. -/
  woken : Bool := false
  /-- The writer thread was woken and waits for `WRITING`. -/
  ready : Bool := false
  /-- Calls of `flush` that wait for `WRITING`. -/
  flushes : List Nat := []
  /-- Paths whose write was cancelled and whose file is to be removed. -/
  deleting : List String := []

/-- One step of some thread. -/
inductive VaultOp where
  /-- `seal_later`, up to where it lets go of `PENDING`. -/
  | sealLater (path : String) (write : Write)
  /-- The end of `seal_later`. -/
  | wake
  /-- The writer thread is woken. -/
  | receive
  | lockWriter
  | flushCalled (call : Nat)
  | lockFlush (call : Nat)
  /-- Whoever holds `WRITING` takes the queue. -/
  | take
  /-- It writes one file of its batch. -/
  | write (path : String)
  /-- The writer thread has written its batch. -/
  | unlock
  /-- `flush` has written its batch. -/
  | flushReturns (call : Nat)
  | cancelPending (path : String)
  /-- The file is removed. -/
  | remove (path : String)
deriving DecidableEq, Repr

namespace VaultState

variable (vault : VaultState)

/-- What is left of the batch that is being written. -/
def batch : Pending := (vault.writing.bind Prod.snd).getD {}

/-- `seal_later` with `PENDING` held. A file that finds the queue full is
written here instead. -/
def sealLater (path : String) (write : Write) : VaultState :=
  let pending := vault.pending.getD {}
  if maxPendingWrites ≤ pending.size ∧ ¬ pending.contains path then
    { vault with pending := some pending, files := vault.files.insert path write }
  else { vault with pending := some (pending.insert path write), waking := vault.waking + 1 }

/-- Drops a queued write: the file is being deleted. -/
def cancelPending (path : String) : VaultState :=
  { vault with
    pending := vault.pending.map (fun pending => pending.erase path)
    deleting := path :: vault.deleting }

/-- `PENDING` is taken as it is, and is left empty. -/
def take (holder : Holder) : VaultState :=
  { vault with pending := none, writing := some (holder, some (vault.pending.getD {})) }

/-- The state after a step, if the step can be made. -/
def step : VaultOp → Option VaultState
  | .sealLater path write =>
    if path ∈ vault.deleting then none else some (vault.sealLater path write)
  | .wake =>
    if vault.waking = 0 then none
    else some { vault with waking := vault.waking - 1, woken := true }
  | .receive =>
    if vault.woken ∧ ¬ vault.ready ∧ vault.writing.map Prod.fst ≠ some .writer then
      some { vault with woken := false, ready := true }
    else none
  | .lockWriter =>
    if vault.ready ∧ vault.writing = none then
      some { vault with ready := false, writing := some (.writer, none) }
    else none
  | .flushCalled call =>
    if call ∈ vault.flushes ∨ vault.writing.map Prod.fst = some (.flush call) then none
    else some { vault with flushes := call :: vault.flushes }
  | .lockFlush call =>
    if call ∈ vault.flushes ∧ vault.writing = none then
      some { vault with
        flushes := vault.flushes.erase call, writing := some (.flush call, none) }
    else none
  | .take => match vault.writing with
    | some (holder, none) => some (vault.take holder)
    | _ => none
  | .write path => match vault.writing with
    | some (holder, some batch) => match batch[path]? with
      | some write =>
        some { vault with
          files := vault.files.insert path write, writing := some (holder, some (batch.erase path)) }
      | none => none
    | _ => none
  | .unlock => match vault.writing with
    | some (.writer, some batch) => if batch.isEmpty then some { vault with writing := none } else none
    | _ => none
  | .flushReturns call => match vault.writing with
    | some (.flush holder, some batch) =>
      if holder = call ∧ batch.isEmpty then some { vault with writing := none } else none
    | _ => none
  | .cancelPending path =>
    if path ∈ vault.deleting then none else some (vault.cancelPending path)
  | .remove path =>
    if path ∈ vault.deleting then
      some { vault with files := vault.files.erase path, deleting := vault.deleting.erase path }
    else none

end VaultState

end DeskLink.Vault
