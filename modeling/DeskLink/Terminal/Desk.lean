import DeskLink.Lib.KeyMap
import DeskLink.Lib.Trace
import DeskLink.Terminal.Bridge

/-!
# `DeskLink.Terminal.Desk`: all the bridges and the registry

`webrtc/terminal_bridge.rs`, the part that keys the bridges by device:
`begin`, `end`, `pump_once`, `with_bridge`, `revoke_device` and the rest.
Each takes the locks it needs once, so each is one step, a `DeskOp`. The
pump thread of a connection (`run_terminal_pump`) takes events with
`pump_once` and sends them one by one after the locks are free.
-/

set_option autoImplicit false

namespace DeskLink.Terminal

/-- The pump thread of one connection. -/
structure PumpThread where
  device : String
  /-- Taken with `pump_once`, not sent yet. -/
  sending : List TerminalEvent := []
  sent : List TerminalEvent := []
deriving DecidableEq, Repr

structure Desk (P : Type) where
  bridges : KeyMap TerminalBridge := {}
  registry : TerminalRegistry := {}
  all : Sessions P := []
  nextToken : Nat := 1
  /-- The pump threads, by the token of their connection. -/
  pumps : IdMap PumpThread := {}

/-- The registry owner of sessions started at this computer. -/
def deskOwner : String := "desk"

variable {P : Type} (vt : Vt100 P)

namespace Desk

variable (desk : Desk P)

/-- Terminals some phone other than `device` is attached to. -/
def attachedElsewhere (device : String) : List Nat :=
  (desk.bridges.toList.filter (fun entry => entry.1 ≠ device)).flatMap
    (fun entry => entry.2.attached.keys)

/-- The locks held, for the bridge of a device. -/
def hold (bridge : TerminalBridge) : Held P :=
  { bridge, registry := desk.registry, all := desk.all }

/-- What an operation left behind, for the bridge of `device`. -/
def put (device : String) (held : Held P) : Desk P :=
  { desk with
    bridges := desk.bridges.insert device held.bridge
    registry := held.registry, all := held.all }

/-- Runs `operation` on the bridge serving exactly `wire`. -/
def withBridge (wire : WireBinding) (operation : Held P → Held P × Except String Unit) :
    Desk P × Except String Unit :=
  match desk.bridges[wire.peerDeviceId]? with
  | some bridge =>
    if bridge.wire = wire then
      let held := desk.hold
        { bridge with elsewhere := desk.attachedElsewhere wire.peerDeviceId }
      (desk.put wire.peerDeviceId (operation held).1, (operation held).2)
    else (desk, .error "DeskLink terminal connection was replaced")
  | none => (desk, .error "DeskLink terminal connection was replaced")

/-- Like `withBridge`, for operations that need no registry. -/
def withOpenBridge (wire : WireBinding) (operation : TerminalBridge → TerminalBridge) : Desk P :=
  match desk.bridges[wire.peerDeviceId]? with
  | some bridge =>
    if bridge.wire = wire then
      { desk with bridges := desk.bridges.insert wire.peerDeviceId (operation bridge) }
    else desk
  | none => desk

/-- Claims the bridge for a connection whose terminal channel just opened.
What an earlier connection of the device left is released first. -/
def begin (wire : WireBinding) : Desk P :=
  let token := desk.nextToken
  let released := match desk.bridges[wire.peerDeviceId]? with
    | some previous => desk.put wire.peerDeviceId ((desk.hold previous).detachAll vt)
    | none => desk
  { released with
    bridges := released.bridges.insert wire.peerDeviceId { wire, token }
    nextToken := token + 1
    pumps := released.pumps.insert token { device := wire.peerDeviceId } }

/-- Releases a connection's attachments and leases when its pump ends. -/
def finish (device : String) (token : Nat) : Desk P :=
  match desk.bridges[device]? with
  | some bridge =>
    if bridge.token = token then
      let left := (desk.hold bridge).detachAll vt
      { desk with
        bridges := desk.bridges.erase device, registry := left.registry, all := left.all }
    else desk
  | none => desk

/-- One pump for the connection that holds `token`. -/
def pumpOnce (device : String) (token budget : Nat) (order : List Nat) (script : Script) :
    Desk P × Option (List TerminalEvent) :=
  match desk.bridges[device]? with
  | some bridge =>
    if bridge.token = token then
      let held := desk.hold { bridge with elsewhere := desk.attachedElsewhere device }
      let pumped := held.pump vt budget order script
      (desk.put device pumped.1, some pumped.2)
    else (desk, none)
  | none => (desk, none)

/-- The pump thread of `token`: it takes events when it has sent all that it
took before. -/
def pumpThread (token budget : Nat) (order : List Nat) (script : Script) : Desk P :=
  match desk.pumps[token]? with
  | some thread =>
    if thread.sending = [] then
      let pumped := desk.pumpOnce vt thread.device token budget order script
      { pumped.1 with
        pumps := pumped.1.pumps.insert token { thread with sending := pumped.2.getD [] } }
    else desk
  | none => desk

/-- The pump thread of `token` sends one event. -/
def send (token : Nat) : Desk P :=
  match desk.pumps[token]? with
  | some thread => match thread.sending with
    | event :: rest =>
      { desk with
        pumps := desk.pumps.insert token
          { thread with sending := rest, sent := thread.sent ++ [event] } }
    | [] => desk
  | none => desk

/-- `revoke_device` and `end_device_sessions`: the device is detached from
every terminal. -/
def cutOff (device reason : String) : Desk P :=
  match desk.bridges[device]? with
  | some bridge => desk.put device ((desk.hold bridge).finishWith vt reason)
  | none => { desk with registry := desk.registry.releaseWriter device }

def revokeDevice (device : String) : Desk P := desk.cutOff vt device terminalNotAllowed

def endDeviceSessions (device : String) : Desk P := desk.cutOff vt device terminalEnded

/-- One pass of the idle reaper. `idle` are the sessions that have been
quiet for long. -/
def sweep (idle : List Nat) : Desk P :=
  let attached := desk.bridges.toList.flatMap (fun entry => entry.2.attached.keys)
  let reaped := (desk.registry.reap desk.all).reapIdle desk.all attached idle
  { desk with registry := reaped.1, all := reaped.2 }

/-- A long job finished: the phones of `told` are told. -/
def announceFinished (id : Nat) (told : List String) : Desk P :=
  { desk with
    bridges := desk.bridges.map (fun device bridge =>
      if device ∈ told then
        bridge.queueAlways (.sendControl { action := .finished, terminalId := some id })
      else bridge) }

/-- A session started at the desk. -/
def deskCreate (rows cols : Nat) (spawned : Except String Unit) : Desk P :=
  let made := desk.registry.createIn vt desk.all deskOwner rows cols spawned
  { desk with registry := made.1, all := made.2.1 }

/-- A session closed at the desk. -/
def deskClose (id : Nat) : Desk P :=
  let closing := desk.registry.close desk.all id
  { desk with registry := closing.1, all := closing.2 }

end Desk

/-- One step at the desk, each with the locks it holds. -/
inductive DeskOp where
  | begin (wire : WireBinding)
  | finish (device : String) (token : Nat)
  /-- A control message that passed its checks. -/
  | control (wire : WireBinding) (control : TerminalControl) (start : Start)
      (spawned : Except String Unit)
  /-- An input chunk that passed its checks. -/
  | chunk (wire : WireBinding) (chunk : TerminalChunk)
  /-- A control message that did not: the phone is told why. -/
  | refuse (wire : WireBinding) (terminalId : Option Nat) (reason : String)
  | pump (token budget : Nat) (order : List Nat) (script : Script)
  | send (token : Nat)
  | revokeDevice (device : String)
  | endDeviceSessions (device : String)
  | sweep (idle : List Nat)
  | announceFinished (id : Nat) (told : List String)
  | deskCreate (rows cols : Nat) (spawned : Except String Unit)
  | deskClose (id : Nat)
  /-- Something happens to the sessions. -/
  | happens (moment : Moment)

/-- The desk after a step. -/
def Desk.after (desk : Desk P) : DeskOp → Desk P
  | .begin wire => desk.begin vt wire
  | .finish device token => desk.finish vt device token
  | .control wire control start spawned =>
    (desk.withBridge wire (fun held => held.handleControlIn vt control start spawned)).1
  | .chunk wire chunk => (desk.withBridge wire (fun held => held.handleChunk vt chunk)).1
  | .refuse wire terminalId reason =>
    desk.withOpenBridge wire (fun bridge => bridge.refuse terminalId reason)
  | .pump token budget order script => desk.pumpThread vt token budget order script
  | .send token => desk.send token
  | .revokeDevice device => desk.revokeDevice vt device
  | .endDeviceSessions device => desk.endDeviceSessions vt device
  | .sweep idle => desk.sweep idle
  | .announceFinished id told => desk.announceFinished id told
  | .deskCreate rows cols spawned => desk.deskCreate vt rows cols spawned
  | .deskClose id => desk.deskClose id
  | .happens moment => { desk with all := happen vt desk.all moment }

end DeskLink.Terminal
