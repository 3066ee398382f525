import DeskLink.Lib.Unwind

/-!
# `DeskLink.Clipboard.Share`: sharing the clipboard with a phone

`src/device_links/daemon/clipboard.rs`. `Memory` is what the desk remembers: the
text a phone placed last, the text the poll examined last, the text last sent to
the phone, and when a phone's copy came and this computer's clipboard changed.
`clipboardFromPhoneAt` takes a phone's packet, and `poll` is one turn of the poll
loop.

Sharing is on, one phone is paired and ready, every text fits on the wire and is
no password, and the clipboard never holds an image. The history and the log are
left out. Times are in milliseconds.
-/

set_option autoImplicit false

namespace DeskLink.Clipboard

def clockSkewMs : Nat := 10000

def duplicateWithinMs : Nat := 2000

/-- How long a phone's copy may take to land on this clipboard. -/
def settleMs : Nat := 1500

/-- Text first seen at `seenMs` was replaced by a phone's copy received at
`remoteMs`. -/
def superseded (seenMs remoteMs : Nat) : Bool := remoteMs ≠ 0 && seenMs < remoteMs + settleMs

def connectIsNewer (timestamp : Option Nat) (localChangedMs : Nat) : Bool :=
  timestamp.any (fun at' => 0 < at' && localChangedMs < at')

structure Memory where
  /-- The text a phone placed last. -/
  last : String := ""
  /-- The text the poll examined, and when it was first seen. -/
  examined : Option (String × Nat) := none
  /-- The text last sent to the phone. -/
  sent : Option String := none
  remoteAt : Nat := 0
  localChangedAt : Nat := 0
  localCopyAt : Nat := 0
  /-- The text last placed from a phone, and when. -/
  placed : String × Nat := ("", 0)
  /-- What the clipboard held when it was last looked at or set. -/
  current : Option String := none
deriving DecidableEq, Repr

/-- A phone's packet. -/
structure Packet where
  content : String
  /-- `clipboard.connect`, with its time. -/
  connect : Option (Option Nat)
  copiedAt : Option Nat
deriving DecidableEq, Repr

/-- What a packet did. -/
inductive Outcome where
  | justPlaced | olderThanCopy | unchanged | olderThanClipboard | placed
deriving DecidableEq, Repr

def Outcome.text : Outcome → String
  | .justPlaced => "unchanged: just placed"
  | .olderThanCopy => "ignored: older than a copy made at this computer"
  | .unchanged => "unchanged"
  | .olderThanClipboard => "ignored: older than this computer's clipboard"
  | .placed => "placed on the clipboard"

namespace Memory

variable (memory : Memory)

/-- Whether `content` is what was placed from a phone moments ago. -/
def justPlaced (content : String) (now : Nat) : Bool :=
  memory.placed.1 = content && now - memory.placed.2 < duplicateWithinMs

/-- What is remembered of a phone's copy that is placed. -/
def setClipboardTextFromRemote (content : String) (now : Nat) : Memory :=
  { memory with
    remoteAt := now
    localChangedAt := now
    placed := (content, now)
    current := some content
    -- What this desk sent before is no longer what the phone holds.
    sent := none
    last := content }

/-- What a phone's packet does. -/
def clipboardFromPhoneAt (packet : Packet) (now : Nat) : Memory × Outcome :=
  let place := (memory.setClipboardTextFromRemote packet.content now, Outcome.placed)
  match packet.connect with
  | none =>
    if memory.justPlaced packet.content now then (memory, .justPlaced)
    else if packet.copiedAt.any (fun at' => 0 < at' && at' + clockSkewMs < memory.localCopyAt) then
      (memory, .olderThanCopy)
    else place
  | some timestamp =>
    if memory.current = some packet.content then (memory, .unchanged)
    else if !connectIsNewer timestamp memory.localChangedAt then (memory, .olderThanClipboard)
    else place

/-- What was examined is stale when the clipboard holds something else. -/
def forgetExamined (current : String) : Memory :=
  { memory with examined := memory.examined.filter (fun examined => examined.1 = current) }

/-- The poll looks at a text it has not examined yet. -/
def examine (text : String) (now : Nat) : Memory :=
  if memory.examined.isSome then memory
  else
    let changed := if superseded now memory.remoteAt then memory
      else { memory with localChangedAt := now, localCopyAt := now }
    { changed with examined := some (text, now) }

/-- One turn of the poll loop, which finds `text` on the clipboard; and the text
it sends. -/
def poll (text : String) (now : Nat) : Memory × Option String :=
  let looked := { memory with current := some text }.forgetExamined text
  if text = "" then (looked, none)
  -- The clipboard holds what a phone put there.
  else if looked.last = text then ({ looked with examined := none }, none)
  else
    let examined := looked.examine text now
    if examined.examined.any (fun seen => superseded seen.2 examined.remoteAt) then (examined, none)
    else if examined.sent = some text then (examined, none)
    else ({ examined with sent := some text }, some text)

end Memory

/-- The desk, its clipboard, and what passed between it and the phone. -/
structure World where
  memory : Memory := {}
  clipboard : String := ""
  /-- A phone's copy on its way to the clipboard. -/
  landing : Option String := none
  /-- A phone's packet put the text there, and no copy made here since. -/
  byPhone : Bool := false
  /-- The clipboard changed since the last poll. -/
  unseen : Bool := false
  /-- The text last accepted from the phone or sent to it. -/
  exchanged : Option String := none
  /-- When the latest packet came. -/
  packetAt : Nat := 0
  clock : Nat := 0
deriving DecidableEq, Repr

/-- What happens, and when. -/
inductive Event where
  /-- The person copies a text at this computer. -/
  | copy (text : String)
  | packet (packet : Packet)
  /-- A phone's copy lands on the clipboard. -/
  | land
  | poll
deriving DecidableEq, Repr

namespace World

variable (world : World)

def setClipboard (text : String) (byPhone : Bool) : World :=
  { world with
    clipboard := text, byPhone, unseen := world.unseen || decide (text ≠ world.clipboard) }

/-- The packet is accepted: its text is on its way to the clipboard. Only the
latest one lands. -/
def accept (memory : Memory) (content : String) : World :=
  { world with memory, landing := some content, exchanged := some content }

def receive (packet : Packet) (now : Nat) : World :=
  let taken := world.memory.clipboardFromPhoneAt packet now
  let arrived := { world with packetAt := now }
  if taken.2 = .placed then arrived.accept taken.1 packet.content else arrived

/-- The text the poll sends. -/
def sends (now : Nat) : Option String := (world.memory.poll world.clipboard now).2

def look (now : Nat) : World :=
  { world with
    memory := (world.memory.poll world.clipboard now).1
    unseen := false
    exchanged := (world.sends now).or world.exchanged }

def after (event : Event × Nat) : World :=
  let world := { world with clock := event.2 }
  match event.1 with
  | .copy text => world.setClipboard text false
  | .packet packet => world.receive packet event.2
  | .land =>
    match world.landing with
    | some content => { world.setClipboard content true with landing := none }
    | none => world
  | .poll => world.look event.2

def run (events : List (Event × Nat)) : World := Lib.applyAll after {} events

end World

end DeskLink.Clipboard
