import Mathlib.Tactic

/-!
# `DeskLink.Terminal.Ring`: the bounded output ring

`pty/ring.rs`: the output of a terminal session, addressed by byte offset.
Offsets are absolute and never wrap. The bytes still kept are those from
`tail` to `head`, in chunks.
-/

set_option autoImplicit false

namespace DeskLink.Terminal

/-- Small pushes are merged into the newest chunk up to this size. -/
def chunkTarget : Nat := 4 * 1024

/-- Retained output per session. -/
def ringBytes : Nat := 256 * 1024

structure OutputRing where
  chunks : List (List UInt8) := []
  buffered : Nat := 0
  capacity : Nat := ringBytes
  /-- Absolute offset of the first byte still retained. -/
  tail : Nat := 0
  /-- Absolute offset one past the last byte produced. -/
  head : Nat := 0
deriving DecidableEq, Repr

/-- A ring that keeps up to `capacity` bytes. -/
def OutputRing.new (capacity : Nat) : OutputRing := { capacity := capacity }

/-- The new bytes go into the newest chunk while that stays small, else
into one of their own. -/
def appendChunk : List (List UInt8) → List UInt8 → List (List UInt8)
  | [], bytes => [bytes]
  | [last], bytes =>
    if last.length + bytes.length ≤ chunkTarget then [last ++ bytes] else [last, bytes]
  | first :: second :: rest, bytes => first :: appendChunk (second :: rest) bytes

/-- Drops `excess` bytes at the front: whole chunks while they fit, then a
part of the next. Returns what was dropped too. -/
def dropFront : List (List UInt8) → Nat → List (List UInt8) × Nat
  | [], _ => ([], 0)
  | front :: rest, excess =>
    if excess = 0 then (front :: rest, 0)
    else if front.length ≤ excess then
      let dropped := dropFront rest (excess - front.length)
      (dropped.1, front.length + dropped.2)
    else (front.drop excess :: rest, excess)

/-- Appends freshly read bytes and prunes from the front to stay within the
capacity. -/
def OutputRing.push (ring : OutputRing) (bytes : List UInt8) : OutputRing :=
  if bytes = [] then ring
  else
    let buffered := ring.buffered + bytes.length
    let pruned := dropFront (appendChunk ring.chunks bytes) (buffered - ring.capacity)
    { ring with
      chunks := pruned.1
      head := ring.head + bytes.length
      buffered := buffered - pruned.2
      tail := ring.tail + pruned.2 }

/-- Up to `wanted` bytes after the first `skip`. -/
def takeFrom : List (List UInt8) → Nat → Nat → List UInt8
  | [], _, _ => []
  | chunk :: rest, skip, wanted =>
    if chunk.length ≤ skip then takeFrom rest (skip - chunk.length) wanted
    else
      let taken := (chunk.drop skip).take wanted
      if taken.length = wanted then taken
      else taken ++ takeFrom rest 0 (wanted - taken.length)

/-- Up to `limit` bytes from `offset`, or `none` when `offset` has aged out
or is in the future. -/
def OutputRing.since (ring : OutputRing) (offset limit : Nat) : Option (List UInt8) :=
  if ring.head < offset ∨ offset < ring.tail then none
  else
    let wanted := min (ring.head - offset) limit
    if wanted = 0 then some []
    else some (takeFrom ring.chunks (offset - ring.tail) wanted)

end DeskLink.Terminal
