import DeskLink.Terminal.Registry

/-!
# `DeskLink.Terminal.Bridge`: one phone's terminal requests

`webrtc/terminal_bridge.rs`, the part that is one device's state machine.
Every message for the phone goes into one ordered outbox, which the pump
drains. Live output is read from the sessions only while the outbox is
empty.

The operations run with the bridges' and the registry's lock held, so they
work on one `Held` state. Of what they read of a session meanwhile, the
session's own locks are taken one at a time: for the pump, which reads the
output piece by piece, `Script` says what happens to the sessions between
two reads. The other operations read the output of a session once.

`audit` lines, the titles and folders of the session list, and waking the
pumps are left out.
-/

set_option autoImplicit false

namespace DeskLink.Terminal

def maxTerminalChunkBytes : Nat := 16 * 1024

/-- What a control message is charged against the pump budget. -/
def controlCost : Nat := 512

/-- Queued-but-unsent bytes one peer may hold. -/
def maxOutboxBytes : Nat := 8 * 1024 * 1024

def terminalNotAllowed : String := "terminal-not-allowed"
def terminalEnded : String := "terminal-ended"
def badCwd : String := "bad-cwd"

inductive TerminalAction where
  | list | sessions | create | created | finished | attach | attached
  | detach | close | closed | resize | error
deriving DecidableEq, Repr

structure TerminalSessionInfo where
  info : SessionInfo
  /-- Attached by a phone other than the one asking. -/
  attached : Bool
deriving DecidableEq, Repr

structure TerminalControl where
  action : TerminalAction
  terminalId : Option Nat := none
  rows : Option Nat := none
  cols : Option Nat := none
  claimSize : Option Bool := none
  /-- Where the client's byte stream resumes, or where the host says it
  does. -/
  offset : Option Nat := none
  sessions : Option (List TerminalSessionInfo) := none
  password : Option String := none
  exitStatus : Option Nat := none
  error : Option String := none
deriving DecidableEq, Repr

inductive ChunkKind where
  | output | input | snapshot
deriving DecidableEq, Repr

structure TerminalChunk where
  kind : ChunkKind
  terminalId : Nat
  offset : Nat
  data : List UInt8
deriving DecidableEq, Repr

inductive TerminalEvent where
  | sendControl (control : TerminalControl)
  | sendChunk (chunk : TerminalChunk)
deriving DecidableEq, Repr

def TerminalEvent.cost : TerminalEvent → Nat
  | .sendControl _ => controlCost
  | .sendChunk chunk => max chunk.data.length 1

/-- The connection a bridge serves. -/
structure WireBinding where
  peerDeviceId : String
  sessionId : Nat
  generation : Nat
deriving DecidableEq, Repr

/-- A client's view of one session. The session itself is the one of the
name it is kept under. -/
structure Attachment where
  /-- Next output offset this peer has yet to receive. -/
  next : Nat
  /-- The size this peer was last told. -/
  toldSize : Nat × Nat
  toldDeskWindow : Bool × Bool
  /-- The size this peer's screen wants. -/
  viewport : Option (Nat × Nat) := none
deriving DecidableEq, Repr

structure TerminalBridge where
  wire : WireBinding
  token : Nat
  attached : IdMap Attachment := {}
  outbox : List TerminalEvent := []
  outboxBytes : Nat := 0
  inputRefusalReported : Bool := false
  /-- Terminals another phone is attached to. -/
  elsewhere : List Nat := []

def errorEvent (terminalId : Option Nat) (error : String) : TerminalEvent :=
  .sendControl { action := .error, terminalId, error := some error }

/-- Wire-legal frames of `data`, the first at `offset`. -/
def splitPieces (kind : ChunkKind) (id : Nat) : Nat → Nat → List UInt8 → List TerminalEvent
  | 0, _, _ => []
  | fuel + 1, offset, data =>
    if data = [] then []
    else
      let piece := data.take maxTerminalChunkBytes
      .sendChunk { kind, terminalId := id, offset, data := piece }
        :: splitPieces kind id fuel (offset + piece.length) (data.drop maxTerminalChunkBytes)

/-- Splits an oversized payload into wire-legal frames. -/
def splitChunkEvents (chunk : TerminalChunk) : List TerminalEvent :=
  if chunk.data.length ≤ maxTerminalChunkBytes then [.sendChunk chunk]
  else splitPieces chunk.kind chunk.terminalId chunk.data.length chunk.offset chunk.data

namespace TerminalBridge

variable (bridge : TerminalBridge)

def device : String := bridge.wire.peerDeviceId

/-- Queues `events` if they fit, all or none. -/
@[irreducible] def queue (events : List TerminalEvent) : TerminalBridge × Except String Unit :=
  let cost := (events.map TerminalEvent.cost).sum
  if maxOutboxBytes < bridge.outboxBytes + cost then
    (bridge, .error "DeskLink terminal output is backed up; try again shortly")
  else
    ({ bridge with outbox := bridge.outbox ++ events, outboxBytes := bridge.outboxBytes + cost },
      .ok ())

/-- Queues something that must not be lost to the size cap. -/
def queueAlways (event : TerminalEvent) : TerminalBridge :=
  { bridge with
    outbox := bridge.outbox ++ [event], outboxBytes := bridge.outboxBytes + event.cost }

def refuse (terminalId : Option Nat) (message : String) : TerminalBridge :=
  (bridge.queue [errorEvent terminalId message]).1

/-- Answers a request from a phone that has not been allowed a terminal. -/
def deny (terminalId : Option Nat) : TerminalBridge :=
  bridge.refuse terminalId terminalNotAllowed

end TerminalBridge

/-- Where a `create` starts. -/
inductive Start where
  /-- No folder asked for, or one that can be read. -/
  | usable
  /-- Asked for a folder that is not an existing readable directory. -/
  | bad
deriving DecidableEq, Repr

/-- What an operation works on with the two locks held. -/
structure Held (P : Type) where
  bridge : TerminalBridge
  registry : TerminalRegistry
  all : Sessions P

variable {P : Type} (vt : Vt100 P)

namespace Held

variable (held : Held P)

def device : String := held.bridge.device

/-- The session list. Lists first and reaps after. -/
def sessionsEvent : Held P × TerminalEvent :=
  ({ held with registry := held.registry.reap held.all },
    .sendControl
      { action := .sessions
        sessions := some ((held.registry.list held.all).map
          (fun info => { info, attached := info.id ∈ held.bridge.elsewhere })) })

def queue (events : List TerminalEvent) : Held P × Except String Unit :=
  let queued := held.bridge.queue events
  ({ held with bridge := queued.1 }, queued.2)

def refuse (terminalId : Option Nat) (message : String) : Held P :=
  { held with bridge := held.bridge.refuse terminalId message }

/-- One session is changed. -/
def modify (id : Nat) (change : PtySession P → PtySession P) : Held P :=
  { held with all := held.all.modify id change }

def handleList : Held P × Except String Unit :=
  let listed := held.sessionsEvent
  listed.1.queue [listed.2]

def handleCreate (control : TerminalControl) (start : Start) (spawned : Except String Unit) :
    Held P × Except String Unit :=
  match start with
  | .bad => (held.refuse none badCwd, .ok ())
  | .usable =>
    let rows := control.rows.getD 24
    let cols := control.cols.getD 80
    let made := held.registry.createIn vt held.all held.device rows cols spawned
    let held := { held with registry := made.1, all := made.2.1 }
    match made.2.2 with
    | .error message => (held.refuse none message, .ok ())
    | .ok info =>
      -- The phone that made it sets its size.
      let claimed := held.modify info.id (fun s => (s.claimForPhone vt held.device rows cols).1)
      let listed := claimed.sessionsEvent
      listed.1.queue
        [.sendControl { action := .created, terminalId := some info.id
                        rows := some info.rows, cols := some info.cols },
          listed.2]

/-- The chunk an attaching client is sent, and where its stream goes on. -/
def opening (id : Nat) : Resync → Nat × TerminalChunk
  | .bytes start data =>
    (start + data.length, { kind := .output, terminalId := id, offset := start, data })
  | .snapshot at_ data => (at_, { kind := .snapshot, terminalId := id, offset := at_, data })

/-- What an attaching client is sent: the list, then the screen, then the
reply that says where the live stream resumes. -/
def openingEvents (list : TerminalEvent) (id : Nat) (s : PtySession P) (chunk : TerminalChunk) :
    List TerminalEvent :=
  list :: (splitChunkEvents chunk ++
    [.sendControl
      { action := .attached, terminalId := some id, offset := some chunk.offset
        rows := some s.size.1, cols := some s.size.2 }])

def handleAttach (control : TerminalControl) : Held P × Except String Unit :=
  match control.terminalId with
  | none => (held, .error "DeskLink terminal request needs a terminal id")
  | some id => match held.registry.get held.all id with
    | none => (held.refuse (some id) "No such DeskLink terminal", .ok ())
    | some s =>
      let opened := opening id (s.resync vt control.offset usizeMax)
      let listed := held.sessionsEvent
      let queued := listed.1.queue (openingEvents listed.2 id s opened.2)
      match queued.2 with
      | .error message => (queued.1.refuse (some id) message, .ok ())
      | .ok () =>
        let attachment : Attachment :=
          { next := opened.1, toldSize := s.size
            toldDeskWindow := (s.hasDeskWindow, s.phoneSetsSize) }
        ({ queued.1 with
            registry := (queued.1.registry.claimWriter id held.device).1
            bridge :=
              { queued.1.bridge with
                attached := queued.1.bridge.attached.insert id attachment } },
          .ok ())

def handleDetach (control : TerminalControl) : Held P × Except String Unit :=
  match control.terminalId with
  | none => (held, .error "DeskLink terminal request needs a terminal id")
  | some id =>
    let released := match held.bridge.attached[id]? with
      | some _ => held.modify id (fun s => s.releasePhoneClaim vt held.device)
      | none => held
    -- Leaving hands the keyboard back.
    ({ released with
        registry := released.registry.releaseTerminalWriter id held.device
        bridge :=
          { released.bridge with attached := released.bridge.attached.erase id } }, .ok ())

def handleClose (control : TerminalControl) : Held P × Except String Unit :=
  match control.terminalId with
  | none => (held, .error "DeskLink terminal request needs a terminal id")
  | some id =>
    let closing := held.registry.close held.all id
    let closed : Held P :=
      { registry := closing.1, all := closing.2
        bridge := { held.bridge with attached := held.bridge.attached.erase id } }
    let listed := closed.sessionsEvent
    listed.1.queue [.sendControl { action := .closed, terminalId := some id }, listed.2]

/-- The attachment is told the real size again. -/
def tellAgain (id : Nat) : Held P :=
  { held with
    bridge :=
      { held.bridge with
        attached := held.bridge.attached.modify id (fun a => { a with toldSize := (0, 0) }) } }

/-- A resize of an attached terminal. -/
def resizeAttached (id : Nat) (s : PtySession P) (rows cols : Nat) (claimSize : Option Bool) :
    Held P × Except String Unit :=
  let writer := held.registry.isWriter id held.device
  match claimSize, writer with
  | some true, true =>
    let claimed := s.claimForPhone vt held.device rows cols
    (held.modify id (fun _ => claimed.1), claimed.2)
  | some false, true =>
    ((held.modify id (fun _ => s.releasePhoneClaim vt held.device)).tellAgain id, .ok ())
  | _, true =>
    -- Never over a desk window that owns the size, nor another phone's claim.
    let resized := s.resizeUnlessHeld vt held.device rows cols false
    let held := held.modify id (fun _ => resized.1)
    match resized.2 with
    | .error message => (held, .error message)
    | .ok true => (held, .ok ())
    | .ok false => (held.tellAgain id, .ok ())
  -- Only the writer resizes.
  | _, false => (held.tellAgain id, .ok ())

def handleResize (control : TerminalControl) : Held P × Except String Unit :=
  match control.terminalId with
  | none => (held, .error "DeskLink terminal request needs a terminal id")
  | some id => match control.rows, control.cols with
    | some rows, some cols => match held.bridge.attached[id]?, held.all[id]? with
      | some _, some s =>
        let viewed : Held P :=
          { held with
            bridge :=
              { held.bridge with
                attached := held.bridge.attached.modify id
                  (fun a => { a with viewport := some (rows, cols) }) } }
        viewed.resizeAttached vt id s rows cols control.claimSize
      | _, _ => (held, .ok ())
    | _, _ => (held, .error "DeskLink terminal resize needs both dimensions")

/-- Handles one control message. -/
def handleControlIn (control : TerminalControl) (start : Start) (spawned : Except String Unit) :
    Held P × Except String Unit :=
  match control.action with
  | .list => held.handleList
  | .create => held.handleCreate vt control start spawned
  | .attach => held.handleAttach vt control
  | .detach => held.handleDetach vt control
  | .close => held.handleClose control
  | .resize => held.handleResize vt control
  -- Host-authored actions: a peer sending one is not making a request.
  | .sessions | .created | .finished | .attached | .closed | .error =>
    (held, .error "DeskLink terminal action is host-authored")

/-- The phone's own size again, if nobody else holds the size. -/
def sizedFor (attachment : Attachment) (s : PtySession P) : PtySession P :=
  match attachment.viewport with
  | some viewport => (s.resizeUnlessHeld vt held.device viewport.1 viewport.2 true).1
  | none => s

/-- Types into an attached session, once the keyboard is claimed. -/
def typeInto (id : Nat) (attachment : Attachment) (s : PtySession P) (data : List UInt8) : Held P :=
  let written := (held.sizedFor vt attachment s).writeInput data
  let held := held.modify id (fun _ => written.1)
  match written.2 with
  | .ok () => { held with bridge := { held.bridge with inputRefusalReported := false } }
  | .error message =>
    -- Said once per burst.
    if held.bridge.inputRefusalReported then held
    else
      { held with bridge := { held.bridge with inputRefusalReported := true } }.refuse
        (some id) message

/-- Handles an inbound input chunk. -/
def handleChunk (chunk : TerminalChunk) : Held P × Except String Unit :=
  if chunk.kind ≠ .input then (held, .error "DeskLink terminal host accepts only input chunks")
  else match held.bridge.attached[chunk.terminalId]?, held.all[chunk.terminalId]? with
    | some attachment, some s =>
      let claimed := held.registry.claimWriter chunk.terminalId held.device
      if claimed.2 then
        ({ held with registry := claimed.1 }.typeInto vt chunk.terminalId attachment s chunk.data,
          .ok ())
      else (held, .ok ())
    | _, _ => (held, .ok ())

/-- The claims of this device on the sessions it is attached to end. -/
def releaseClaims : Sessions P :=
  held.bridge.attached.keys.foldl
    (fun all id => all.modify id (fun s => s.releasePhoneClaim vt held.device)) held.all

/-- Detaches every session, drops the write leases and forgets what is
queued, then tells the phone why. -/
def finishWith (reason : String) : Held P where
  bridge :=
    let notices := held.bridge.attached.keys.map (fun id =>
      TerminalEvent.sendControl
        { action := .closed, terminalId := some id, error := some reason })
    (notices ++ [errorEvent none reason]).foldl TerminalBridge.queueAlways
      { held.bridge with attached := {}, outbox := [], outboxBytes := 0 }
  registry := held.registry.releaseWriter held.device
  all := held.releaseClaims vt

/-- Takes this device's terminal access away. -/
def revoke : Held P := held.finishWith vt terminalNotAllowed

/-- Forgets every attachment and lease. -/
def detachAll : Held P where
  bridge := { held.bridge with attached := {}, outbox := [], outboxBytes := 0 }
  registry := held.registry.releaseWriter held.device
  all := held.releaseClaims vt

end Held

/-! ### The pump -/

/-- What happens to the sessions between two reads of a pump. -/
abbrev Moment := List (Nat × SessionEvent)

/-- What happens before each read of a pump, in turn. -/
abbrev Script := List Moment

def happen (all : Sessions P) (moment : Moment) : Sessions P :=
  moment.foldl (fun all event => all.modify event.1 (fun s => s.after vt event.2)) all

/-- A pump under way. -/
structure Pumping (P : Type) where
  held : Held P
  script : Script
  remaining : Nat
  events : List TerminalEvent := []

namespace Pumping

variable (p : Pumping P)

/-- Other threads run until the next read. -/
def look : Pumping P :=
  { p with held := { p.held with all := happen vt p.held.all (p.script.headD []) }
           script := p.script.tail }

def session (id : Nat) : Option (PtySession P) := p.held.all[id]?

def setAttachment (id : Nat) (change : Attachment → Attachment) : Pumping P :=
  { p with
    held :=
      { p.held with
        bridge :=
          { p.held.bridge with attached := p.held.bridge.attached.modify id change } } }

/-- Queued messages go first and in order, as far as the budget goes. -/
def drain : List TerminalEvent → Pumping P → Pumping P
  | [], p => p
  | event :: rest, p =>
    if p.remaining = 0 then p
    else
      drain rest
        { p with
          held :=
            { p.held with
              bridge :=
                { p.held.bridge with
                  outbox := rest, outboxBytes := p.held.bridge.outboxBytes - event.cost } }
          remaining := p.remaining - event.cost
          events := p.events ++ [event] }

/-- A changed size, or a desk window that came or went: the list carries
it. The size, the windows and the claim are three reads. -/
def tellSize (id : Nat) (attachment : Attachment) : Pumping P :=
  let sized := p.look vt
  let size := (sized.session id).map PtySession.size
  let windowed := sized.look vt
  let hasWindow := (windowed.session id).map PtySession.hasDeskWindow
  let claimed := windowed.look vt
  let phoneSets := (claimed.session id).map PtySession.phoneSetsSize
  match size, hasWindow, phoneSets with
  | some size, some hasWindow, some phoneSets =>
    if size = attachment.toldSize ∧ (hasWindow, phoneSets) = attachment.toldDeskWindow then claimed
    else
      let told := (claimed.setAttachment id (fun a =>
        { a with toldSize := size, toldDeskWindow := (hasWindow, phoneSets) })).look vt
      let listed := told.held.sessionsEvent
      { told with
        held := listed.1
        remaining := told.remaining - listed.2.cost
        events := told.events ++ [listed.2] }
  | _, _, _ => claimed

/-- Live output is sent while there is budget and output up to `head`.
`next` is what the client has yet to receive. -/
def stream (id head : Nat) : Nat → Nat → Pumping P → Pumping P × Nat
  | 0, next, p => (p, next)
  | fuel + 1, next, p =>
    if p.remaining = 0 ∨ head ≤ next then (p, next)
    else
      let p := p.look vt
      let read : Option Resync := (p.session id).map (fun s =>
        s.resync vt (some next) (min p.remaining maxTerminalChunkBytes))
      match read with
      | some (.bytes start data) =>
        if data = [] then (p, next)
        else
          stream id head fuel (start + data.length)
            { p with
              remaining := p.remaining - data.length
              events := p.events ++
                [.sendChunk { kind := .output, terminalId := id, offset := start, data }] }
      | some (.snapshot at_ data) =>
        -- The offset aged out. The snapshot is queued, and the offset only
        -- moves if it was accepted.
        let queued := p.held.queue
          (splitChunkEvents { kind := .snapshot, terminalId := id, offset := at_, data })
        match queued.2 with
        | .ok () => ({ p with held := queued.1 }, at_)
        | .error _ => (p, next)
      | none => (p, next)

/-- The program is gone: say so, with how it ended. -/
def conclude (id : Nat) (finished : Option Nat) (closed : Bool) : Pumping P :=
  let event : TerminalEvent := .sendControl
    { action := .closed, terminalId := some id
      exitStatus := finished.filter (fun _ => !closed) }
  let bridge := p.held.bridge.queueAlways event
  { p with
    held :=
      { p.held with
        bridge := { bridge with attached := bridge.attached.erase id }
        registry := p.held.registry.releaseTerminalWriter id p.held.device } }

/-- Streams new output for one attached terminal. -/
def pumpTerminal (id : Nat) : Pumping P :=
  match p.held.bridge.attached[id]? with
  | none => p
  | some attachment =>
    let told := p.tellSize vt id attachment
    -- The exit is read before the head.
    let exitRead := told.look vt
    let finished := (exitRead.session id).bind PtySession.finished
    let headRead := exitRead.look vt
    let head := ((headRead.session id).map PtySession.head).getD 0
    let streamed := headRead.stream vt id head headRead.remaining attachment.next
    let closed := (streamed.1.session id).any PtySession.closed
    if head ≤ streamed.2 ∧ (finished.isSome ∨ closed) then
      streamed.1.conclude id finished closed
    else streamed.1.setAttachment id (fun a => { a with next := streamed.2 })

/-- The attached terminals, one after the other while there is budget. -/
def pumpAll : List Nat → Pumping P → Pumping P
  | [], p => p
  | id :: rest, p => if p.remaining = 0 then p else pumpAll rest (p.pumpTerminal vt id)

end Pumping

/-- The attached terminals in the order a hash map gives them: those of
`order` first. -/
def keysIn (attached : IdMap Attachment) (order : List Nat) : List Nat :=
  (order.filter (fun id => attached.contains id)).dedup
    ++ attached.keys.filter (fun id => id ∉ order)

/-- Everything that should go to the peer now, within `budget` bytes. -/
def Held.pump (held : Held P) (budget : Nat) (order : List Nat) (script : Script) :
    Held P × List TerminalEvent :=
  let drained := Pumping.drain held.bridge.outbox { held, script, remaining := budget }
  if drained.remaining = 0 then (drained.held, drained.events)
  else
    let pumped := Pumping.pumpAll vt (keysIn drained.held.bridge.attached order) drained
    (pumped.held, pumped.events)

end DeskLink.Terminal
