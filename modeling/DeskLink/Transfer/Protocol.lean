import Mathlib.Tactic

/-!
# `DeskLink.Transfer.Protocol`: blocks, frames and messages

The part of `src/device_links/webrtc/file_protocol.rs` both engines use. A
file is cut into blocks of `blockBytes`; a block crosses as frames, the
last of which carries the SHA-256 of the block.

A `Frame` is what `parse_frame` returns: its payload is as long as its
header says, and it has a trailer exactly when it ends its block. Hashes
cross the control channel as hex text; here they are the values, and a
text `unhex32` refuses is `none`. A transfer id is the text of a UUID,
and a frame names its transfer by that id.

SHA-256 is the parameter `sha`. Nothing is assumed of it.
-/

set_option autoImplicit false

namespace DeskLink.Transfer

abbrev Bytes := List UInt8

/-- A SHA-256 value. -/
abbrev Hash := Vector UInt8 32

@[irreducible] def blockBytes : Nat := 1048576
def maxTransferBytes : Nat := 4 * 1024 * 1024 * 1024
/-- Files in flight at once, each way. -/
def activePerDirection : Nat := 2
/-- How many of those folder sync may hold. -/
def bucketSlotsPerDirection : Nat := activePerDirection - 1
def maxRewinds : Nat := 3
/-- A file that gets a fast lane is at least this big. -/
def laneMinFileBytes : Nat := 8 * 1024 * 1024

theorem blockBytes_pos : 0 < blockBytes := by
  unfold blockBytes
  decide

/-- Blocks in a file of `total` bytes. -/
def blocksFor (total : Nat) : Nat := (total + blockBytes - 1) / blockBytes

/-- Where block `i` ends, in a file of `total` bytes. It is also where a
file holding the first `i` blocks ends, as `blockStart`. -/
def blockEnd (total i : Nat) : Nat := min (blockBytes * (i + 1)) total

/-- The bytes of the first `i` blocks. -/
def blockStart (total i : Nat) : Nat := min (blockBytes * i) total

/-- `pass` after a rewind or a restart: it wraps. -/
def nextPass (pass : UInt8) : UInt8 := pass + 1

/-- Block `i` of the file `bytes`. -/
def blockOf (bytes : Bytes) (total i : Nat) : Bytes :=
  (bytes.take (blockEnd total i)).drop (blockBytes * i)

/-- The hash of a file from its block hashes, and the `prefixSha256` of
its first blocks. -/
def hashOfHashes (sha : Bytes → Hash) (hashes : List Hash) : Hash :=
  sha (hashes.map (·.toList)).flatten

structure FrameHeader where
  lastOfBlock : Bool
  pass : UInt8
  transfer : String
  blockIndex : Nat
  offset : Nat
  length : Nat
deriving DecidableEq, Repr

/-- `FrameHeader::check`: the frame stays inside its block and the file,
and ends its block exactly when it says so. -/
def FrameHeader.check (h : FrameHeader) (total : Nat) : Bool :=
  decide (h.offset + h.length < 2 ^ 64) && h.length ≠ 0 && decide (h.offset < total)
    && h.blockIndex == h.offset / blockBytes
    && decide (h.offset + h.length ≤ blockEnd total h.blockIndex)
    && h.lastOfBlock == decide (h.offset + h.length = blockEnd total h.blockIndex)

structure Frame where
  header : FrameHeader
  payload : Bytes
  trailer : Option Hash
  length_eq : payload.length = header.length
  trailer_eq : trailer.isSome = header.lastOfBlock

/-- Why a transfer ended, for the peer and for the person. -/
inductive Code where
  | refused
  | busy
  | tooLarge
  | badFrame
  | hashMismatch
  | internal
deriving DecidableEq, Repr

structure Ending where
  code : Code
  words : String
  tellPeer : Bool
deriving DecidableEq, Repr

def Ending.internal (words : String) : Ending := ⟨.internal, words, true⟩

inductive PauseReason where
  | storageFull
  | backlog
deriving DecidableEq, Repr

inductive NackReason where
  | hashMismatch
  | lane
deriving DecidableEq, Repr

/-- What a receiver sends to the sender of a transfer. -/
inductive Reply where
  | accept (resumeBlock : Nat) (prefixHash : Hash)
  | blockAck (block : Nat) (hash : Hash)
  | blockNack (block : Nat) (pass : UInt8) (reason : NackReason)
  | pause (reason : PauseReason)
  | resume (resumeBlock : Nat) (prefixHash : Hash) (pass : UInt8)
  | complete (fileHash : Hash)
  | error (code : Code) (message : Option String)
  | cancel
deriving DecidableEq, Repr

/-- A file of a synced folder. -/
structure FolderRef where
  folder : String
  relpath : String
  mtime : Option Int
deriving DecidableEq, Repr

/-- `str::eq_ignore_ascii_case`. -/
def eqIgnoreAsciiCase (a b : String) : Bool := a.toLower == b.toLower

end DeskLink.Transfer
