import DeskLink.Lib.IdMap
import DeskLink.Terminal.Session

/-!
# `DeskLink.Terminal.Registry`: the live terminal sessions

`pty/registry.rs`. A session is named by the server; here the `n`-th one
that was started is named `n`, and `Sessions` keeps them all: an attachment
holds its session also after the registry has forgotten it. The registry is
the names it still lists, who created each, and who may type into each.
-/

set_option autoImplicit false

namespace DeskLink.Terminal

/-- Every session that was ever started, under its name. -/
abbrev Sessions (P : Type) := List (PtySession P)

/-- Concurrent sessions per machine. -/
def maxSessions : Nat := 32

/-- Sessions one phone may have created and still open. -/
def maxSessionsPerDevice : Nat := 8

/-- What a client needs to render a session list. -/
structure SessionInfo where
  id : Nat
  rows : Nat
  cols : Nat
  exitStatus : Option Nat
  deskWindow : Bool
  phoneSize : Bool
deriving DecidableEq, Repr

structure TerminalRegistry where
  sessions : IdSet := {}
  /-- Which device created each session. -/
  owners : IdMap String := {}
  /-- Which device may type into each session. -/
  writers : IdMap String := {}

variable {P : Type} (vt : Vt100 P)

def describe (id : Nat) (s : PtySession P) : SessionInfo where
  id
  rows := s.size.1
  cols := s.size.2
  exitStatus := s.exited
  deskWindow := s.hasDeskWindow
  phoneSize := s.phoneSetsSize

namespace TerminalRegistry

variable (registry : TerminalRegistry) (all : Sessions P)

def get (id : Nat) : Option (PtySession P) :=
  if id ∈ registry.sessions then all[id]? else none

/-- Every live session, in the order of the names. -/
def list : List SessionInfo :=
  registry.sessions.toList.filterMap (fun id => all[id]?.map (describe id))

def forget (id : Nat) : TerminalRegistry where
  sessions := registry.sessions.erase id
  writers := registry.writers.erase id
  owners := registry.owners.erase id

/-- The listed sessions whose program has exited. -/
def dead : List Nat :=
  registry.sessions.toList.filter (fun id => all[id]?.any (fun s => s.exited.isSome))

/-- Drops sessions whose program has exited. -/
def reap : TerminalRegistry := (registry.dead all).foldl forget registry

/-- Ends a session deliberately. -/
def close (id : Nat) : TerminalRegistry × Sessions P :=
  (registry.forget id,
    if id ∈ registry.sessions then all.modify id PtySession.close else all)

/-- Closes the sessions that nobody is attached to and that have been quiet
for long. -/
def reapIdle (attached idle : List Nat) : TerminalRegistry × Sessions P :=
  let closing := registry.sessions.toList.filter (fun id => id ∉ attached ∧ id ∈ idle)
  closing.foldl (fun state id => state.1.close state.2 id) (registry, all)

/-- Starts a session for `owner`. `spawned` is how starting the program
goes. -/
def createIn (owner : String) (rows cols : Nat) (spawned : Except String Unit) :
    TerminalRegistry × Sessions P × Except String SessionInfo :=
  let reaped := registry.reap all
  if maxSessions ≤ reaped.sessions.size then
    (reaped, all, .error "DeskLink already has 32 terminal sessions open")
  else if maxSessionsPerDevice ≤ countValues reaped.owners owner then
    (reaped, all, .error "This device already has 8 terminal sessions open")
  else match spawned with
    | .error message => (reaped, all, .error message)
    | .ok () =>
      let s := PtySession.spawn vt rows cols
      ({ reaped with
          sessions := reaped.sessions.insert all.length
          owners := reaped.owners.insert all.length owner },
        all ++ [s], .ok (describe all.length s))

/-- Grants `device` the write lease, if it is free or already theirs.
Returns whether they may type. -/
def claimWriter (id : Nat) (device : String) : TerminalRegistry × Bool :=
  if id ∉ registry.sessions then (registry, false)
  else if registry.writers[id]?.any (fun current => current ≠ device) then (registry, false)
  else ({ registry with writers := registry.writers.insert id device }, true)

def isWriter (id : Nat) (device : String) : Bool := registry.writers[id]? = some device

/-- Gives up `device`'s lease on one session, if it holds it. -/
def releaseTerminalWriter (id : Nat) (device : String) : TerminalRegistry :=
  if registry.isWriter id device then { registry with writers := registry.writers.erase id }
  else registry

/-- Drops every write lease held by a device that has gone away. -/
def releaseWriter (device : String) : TerminalRegistry :=
  { registry with writers := registry.writers.filter (fun _ holder => holder ≠ device) }

end TerminalRegistry

end DeskLink.Terminal
