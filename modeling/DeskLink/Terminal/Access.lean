import DeskLink.Access.SessionLock
import DeskLink.Terminal.Desk

/-!
# `DeskLink.Terminal.Access`: who may use a terminal

`process_envelope` of `webrtc/terminal_bridge.rs`, the access setting of
`config.rs` and `set_terminal_access` of `daemon/commands.rs`. A terminal
message passes several checks, each under a lock of its own, before it
reaches the bridge: the access setting, the session password, and then the
operation. Between two of them anything else may happen, so a message on its
way is a `Message` with the `Stage` it has reached, and each section is one
`AccessMove`.

A message that the channel, the handover, the envelope's binding or the
replay cache refuses does not arrive. Where a `create` starts and how
starting its program goes come with the request.
-/

set_option autoImplicit false

namespace DeskLink.Terminal

inductive Request where
  | control (control : TerminalControl) (start : Start) (spawned : Except String Unit)
  | chunk (chunk : TerminalChunk)

/-- How far a message has come. -/
inductive Stage where
  | arrived
  /-- Access is not allowed: the phone is to be told. -/
  | denied
  /-- Access was allowed. -/
  | passed
  /-- The session password was read. -/
  | asking (stored : Option Access.PasswordHash)
  /-- The offered password is being hashed. -/
  | hashing (correct : Bool) (epoch : Nat)
  /-- The password was refused: the phone is to be told. -/
  | refused (reason : String)
  /-- Every check is passed: the bridge is next. -/
  | checked
  | done
deriving DecidableEq, Repr

/-- One call of `process_envelope`. -/
structure Message where
  wire : WireBinding
  request : Request
  stage : Stage := .arrived

namespace Message

variable (message : Message)

def device : String := message.wire.peerDeviceId

/-- The terminal a control message names. -/
def terminalId : Option Nat :=
  match message.request with
  | .control control _ _ => control.terminalId
  | .chunk chunk => some chunk.terminalId

/-- The access check is behind it, and its operation before it. -/
def past : Bool :=
  match message.stage with
  | .passed | .asking _ | .hashing .. | .checked => true
  | .arrived | .denied | .refused _ | .done => false

/-- Leaving needs no password. -/
def needsPassword : Bool :=
  match message.request with
  | .control control _ _ => control.action ≠ .detach
  | .chunk _ => true

def offered : Option String :=
  match message.request with
  | .control control _ _ => control.password
  | .chunk _ => none

/-- The stage after the access check. -/
def afterAccess (allowed : Bool) : Stage :=
  if allowed then if message.needsPassword then .passed else .checked
  else match message.request with
    | .control .. => .denied
    -- Dropped without a reply.
    | .chunk _ => .done

/-- The step at the desk that a checked message is. -/
def operation : DeskOp :=
  match message.request with
  | .control control start spawned => .control message.wire control start spawned
  | .chunk chunk => .chunk message.wire chunk

end Message

structure AccessWorld (P : Type) where
  desk : Desk P := {}
  /-- The phones with "Allow terminal access". -/
  access : List String := []
  /-- The session password that is set. -/
  password : Option Access.PasswordHash := none
  lock : Access.SessionLock := {}
  now : Nat := 0
  messages : List Message := []

inductive AccessMove where
  | arrive (wire : WireBinding) (request : Request)
  /-- The next section of a message. -/
  | step (i : Nat)
  /-- `Config::set_terminal_access`; turning on needs the setting saved. -/
  | setAccess (device : String) (allowed saved : Bool)
  /-- Another step at the desk. -/
  | desk (op : DeskOp)
  /-- A job of the terminal finished; `wanting` are the phones with that
  alert. -/
  | announce (id : Nat) (wanting : List String)
  | setPassword (password : Option Access.PasswordHash)
  | relockAll
  | forgetUnlock (device : String)
  | wait (elapsed : Nat)

/-- Steps at the desk that a message takes, and announcements, have a move of
their own. -/
def DeskOp.ofMessage : DeskOp → Bool
  | .control .. | .chunk .. | .refuse .. | .announceFinished .. => true
  | _ => false

variable {P : Type} (vt : Vt100 P) (hashing : Access.Hashing)

namespace AccessWorld

variable (w : AccessWorld P)

def terminalAccessAllowed (device : String) : Bool := device ∈ w.access

def isUnlocked (password : Option Access.PasswordHash) (wire : WireBinding) : Bool :=
  w.lock.isUnlocked password wire.peerDeviceId wire.sessionId

/-- The message has come to another stage. -/
def advance (i : Nat) (stage : Stage) : AccessWorld P :=
  { w with messages := w.messages.modify i (fun message => { message with stage }) }

/-- The first section of the password check, or the one of a chunk. -/
def ask (i : Nat) (message : Message) (stored : Option Access.PasswordHash) : AccessWorld P :=
  match message.request with
  | .chunk _ => w.advance i (if w.isUnlocked stored message.wire then .checked else .done)
  | .control .. =>
    let begun := w.lock.begin hashing stored message.device message.wire.sessionId message.offered
      w.now
    let asked : AccessWorld P := { w with lock := begun.1 }
    match begun.2 with
    | .allowed => asked.advance i .checked
    | .denied reason => asked.advance i (.refused reason)
    | .verify epoch =>
      asked.advance i
        (.hashing (Access.isCorrect hashing stored (message.offered.getD "")) epoch)

/-- The second section of the password check. -/
def answer (i : Nat) (message : Message) (correct : Bool) (epoch : Nat) : AccessWorld P :=
  let finished := w.lock.finish hashing message.device message.wire.sessionId
    (message.offered.getD "") correct epoch w.now
  let answered : AccessWorld P := { w with lock := finished.1 }
  match finished.2 with
  | .ok () => answered.advance i .checked
  | .error reason => answered.advance i (.refused reason)

/-- The next section of a message. -/
def step (i : Nat) (message : Message) : AccessWorld P :=
  match message.stage with
  | .arrived => w.advance i (message.afterAccess (w.terminalAccessAllowed message.device))
  | .denied =>
    { w with
      desk := w.desk.after vt (.refuse message.wire message.terminalId terminalNotAllowed) }.advance
        i .done
  | .passed => w.advance i (.asking w.password)
  | .asking stored => w.ask hashing i message stored
  | .hashing correct epoch => w.answer hashing i message correct epoch
  | .refused reason =>
    { w with desk := w.desk.after vt (.refuse message.wire message.terminalId reason) }.advance i
      .done
  | .checked => { w with desk := w.desk.after vt message.operation }.advance i .done
  | .done => w

/-- The phones that are told of a finished job: those that could open the
terminal now. -/
def told (wanting : List String) : List String :=
  wanting.filter (fun device =>
    w.terminalAccessAllowed device ∧
      (w.desk.bridges[device]?).any (fun bridge => w.isUnlocked w.password bridge.wire))

def after : AccessMove → AccessWorld P
  | .arrive wire request => { w with messages := w.messages ++ [{ wire, request }] }
  | .step i => match w.messages[i]? with
    | some message => w.step vt hashing i message
    | none => w
  | .setAccess device allowed saved =>
    if allowed && saved then { w with access := device :: w.access }
    else { w with access := w.access.filter (fun other => other ≠ device) }
  | .desk op => if op.ofMessage then w else { w with desk := w.desk.after vt op }
  | .announce id wanting =>
    { w with desk := w.desk.after vt (.announceFinished id (w.told wanting)) }
  | .setPassword password => { w with password }
  | .relockAll => { w with lock := w.lock.relockAll }
  | .forgetUnlock device => { w with lock := w.lock.forgetUnlock device }
  | .wait elapsed => { w with now := w.now + elapsed }

/-- The request of the phone that the move carries out on its bridge. -/
def operates (device : String) : AccessMove → Option Request
  | .step i => match w.messages[i]? with
    | some message =>
      if message.stage = .checked ∧ message.device = device then some message.request else none
    | none => none
  | _ => none

/-- The event that the move sends to the phone. -/
def sends (device : String) : AccessMove → Option TerminalEvent
  | .desk (.send token) => match w.desk.pumps[token]? with
    | some thread => if thread.device = device then thread.sending.head? else none
    | none => none
  | _ => none

end AccessWorld

end DeskLink.Terminal
