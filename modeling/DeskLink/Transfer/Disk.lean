import DeskLink.Lib.Trace
import DeskLink.Lib.KeyMap
import DeskLink.Transfer.Protocol

/-!
# `DeskLink.Transfer.Disk`: the store of partial files

The receiving half of `Store` (`transfer_manager/store.rs`). Three names
belong to a transfer id: the partial file, the sidecar with the hashes of
its verified blocks, and the checkpoint. A name leads to a file (a
number), and an open file stays what it is when its name goes or moves.

A function of the store returns a `Journal`: the writes it made, in
order, and the disk after them. A crash leaves the disk after some of the
writes. The sidecar and the checkpoint are each replaced in one rename,
so each is one write; the sidecar is written first.

The checkpoint has the fields the engine reads back. Its file names are
those of the offer, which were validated when it came.
-/

set_option autoImplicit false

namespace DeskLink.Transfer

structure ReceiveCheckpoint where
  transferId : String
  deviceId : String
  token : String
  filename : String
  totalSize : Nat
  mtime : Int
  blocksDone : Nat
  folder : Option FolderRef
  contentSha256 : Option String
deriving DecidableEq, Repr

/-- A checkpoint read back must still make sense for `id`. -/
def ReceiveCheckpoint.isConsistent (c : ReceiveCheckpoint) (id : String) : Bool :=
  c.transferId == id && decide (c.totalSize ≤ maxTransferBytes)
    && decide (c.blocksDone ≤ blocksFor c.totalSize)

structure Disk where
  /-- What is in each file. -/
  content : Nat → Bytes := fun _ => []
  /-- No file has had this number or a later one. -/
  nextFile : Nat := 0
  part : String → Option Nat := fun _ => none
  blocks : String → Option (List Hash) := fun _ => none
  checkpoint : String → Option ReceiveCheckpoint := fun _ => none

/-- `File::set_len`. -/
def setLength (bytes : Bytes) (n : Nat) : Bytes :=
  bytes.take n ++ List.replicate (n - bytes.length) 0

/-- `write_all_at`. -/
def overwrite (bytes : Bytes) (offset : Nat) (new : Bytes) : Bytes :=
  setLength bytes offset ++ new ++ bytes.drop (offset + new.length)

inductive DiskOp where
  | setLen (file n : Nat)
  | writeAt (file offset : Nat) (bytes : Bytes)
  /-- A new, empty file under the partial file's name. -/
  | createPart (id : String)
  | removePart (id : String)
  | renamePart (old id : String)
  | putBlocks (id : String) (hashes : List Hash)
  | removeBlocks (id : String)
  | putCheckpoint (id : String) (checkpoint : ReceiveCheckpoint)
  | removeCheckpoint (id : String)

def Disk.after (d : Disk) : DiskOp → Disk
  | .setLen file n =>
    { d with content := Function.update d.content file (setLength (d.content file) n) }
  | .writeAt file offset bytes =>
    { d with content := Function.update d.content file (overwrite (d.content file) offset bytes) }
  | .createPart id =>
    { d with
      content := Function.update d.content d.nextFile []
      nextFile := d.nextFile + 1
      part := Function.update d.part id (some d.nextFile) }
  | .removePart id => { d with part := Function.update d.part id none }
  | .renamePart old id =>
    { d with part := Function.update (Function.update d.part id (d.part old)) old none }
  | .putBlocks id hashes => { d with blocks := Function.update d.blocks id (some hashes) }
  | .removeBlocks id => { d with blocks := Function.update d.blocks id none }
  | .putCheckpoint id checkpoint =>
    { d with checkpoint := Function.update d.checkpoint id (some checkpoint) }
  | .removeCheckpoint id => { d with checkpoint := Function.update d.checkpoint id none }

/-- The disk, and the writes that made it. -/
structure Journal where
  disk : Disk
  ops : List DiskOp := []

def Journal.write (j : Journal) (ops : List DiskOp) : Journal :=
  ⟨Lib.applyAll Disk.after j.disk ops, j.ops ++ ops⟩

/-! ### The store -/

/-- The writes of `save_receive`: the sidecar first, then the checkpoint,
so the checkpoint never claims more than the sidecar proves. -/
def saveReceive (checkpoint : ReceiveCheckpoint) (hashes : List Hash) : List DiskOp :=
  [.putBlocks checkpoint.transferId hashes, .putCheckpoint checkpoint.transferId checkpoint]

/-- How a record is saved: the sync of the partial file before it, each
rename and the sync of the directory after them may fail. -/
inductive Saved where
  | whole
  /-- It fails after `renames` of the two renames. -/
  | failed (renames : Nat) (words : String)
deriving DecidableEq, Repr

/-- The writes that are made. -/
def Saved.made (saved : Saved) (writes : List DiskOp) : List DiskOp :=
  match saved with
  | .whole => writes
  | .failed renames _ => writes.take renames

/-- The writes of `remove_receive`. -/
def removeReceive (id : String) : List DiskOp :=
  [.removePart id, .removeBlocks id, .removeCheckpoint id]

/-- The bytes of the partial file of `id`; none when it has none. -/
def Disk.partLength (d : Disk) (id : String) : Nat :=
  ((d.part id).map (fun file => (d.content file).length)).getD 0

/-- The most blocks, at most `blocks`, that a partial file of `length`
bytes holds. -/
def heldBlocks (total length : Nat) : Nat → Nat
  | 0 => 0
  | blocks + 1 =>
    if blockStart total (blocks + 1) ≤ length then blocks + 1 else heldBlocks total length blocks

/-- A checkpoint and the hashes of the blocks it vouches for. -/
abbrev Held := ReceiveCheckpoint × List Hash

/-- `load_receive`: the checkpoint of `id`, lowered to what the sidecar
and the partial file support. One that makes no sense is removed. -/
def loadReceive (j : Journal) (id : String) : Journal × Option Held :=
  match j.disk.checkpoint id with
  | none => (j, none)
  | some checkpoint =>
    if checkpoint.isConsistent id then
      let hashes := (j.disk.blocks id).getD []
      let held := heldBlocks checkpoint.totalSize (j.disk.partLength id)
        (min checkpoint.blocksDone hashes.length)
      (j, some ({ checkpoint with blocksDone := held }, hashes.take held))
    else (j.write (removeReceive id), none)

/-- What a folder-sync offer asks to carry on. -/
structure BucketRequest where
  id : String
  token : String
  deviceId : String
  folder : FolderRef
  contentSha256 : String
  total : Nat
  mtime : Int

/-- What is held is of the same peer, folder and path. -/
def BucketRequest.samePlace (r : BucketRequest) (held : ReceiveCheckpoint) : Bool :=
  held.deviceId == r.deviceId
    && held.folder.any (fun known => known.folder == r.folder.folder
      && known.relpath == r.folder.relpath)

/-- What is held has the content asked for. -/
def BucketRequest.sameFile (r : BucketRequest) (held : ReceiveCheckpoint) : Bool :=
  held.contentSha256.any (eqIgnoreAsciiCase · r.contentSha256) && held.totalSize == r.total

/-- `held` under the request's id. -/
def BucketRequest.moved (r : BucketRequest) (held : ReceiveCheckpoint) : ReceiveCheckpoint :=
  { held with transferId := r.id, token := r.token, mtime := r.mtime, folder := some r.folder }

/-- The writes that carry `held` on under the request's id. The old names
go only when the record is saved. -/
def adoptWrites (r : BucketRequest) (saved : Saved) (old : String) (held : ReceiveCheckpoint)
    (hashes : List Hash) : List DiskOp :=
  .renamePart old r.id :: (saved.made (saveReceive (r.moved held) hashes) ++
    if saved = .whole then [.removeBlocks old, .removeCheckpoint old] else [])

/-- One directory entry of `adopt_bucket_partial`: whether something is
adopted by now. The rename fails when there is no partial file of `old`. -/
def adoptEntry (r : BucketRequest) (saved : Saved) (j : Journal) (adopted : Bool)
    (old : String) : Journal × Except String Bool :=
  if old = r.id then (j, .ok adopted)
  else
    match loadReceive j old with
    | (j, none) => (j, .ok adopted)
    | (j, some (held, hashes)) =>
      if !r.samePlace held then (j, .ok adopted)
      else if !r.sameFile held || adopted then (j.write (removeReceive old), .ok adopted)
      else if (j.disk.part old).isNone then (j, .error "Could not carry on a partial download")
      else
        (j.write (adoptWrites r saved old held hashes),
          match saved with
          | .whole => .ok true
          | .failed _ words => .error words)

/-- `adopt_bucket_partial` over the directory entries, in the order the
system lists them: whether something was adopted. -/
def adoptBucketPartial (r : BucketRequest) (saved : Saved) (j : Journal) (adopted : Bool) :
    List String → Journal × Except String Bool
  | [] => (j, .ok adopted)
  | old :: rest =>
    match adoptEntry r saved j adopted old with
    | (j, .error words) => (j, .error words)
    | (j, .ok adopted) => adoptBucketPartial r saved j adopted rest

end DeskLink.Transfer
