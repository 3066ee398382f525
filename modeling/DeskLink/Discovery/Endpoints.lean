import DeskLink.Discovery.AddressBook
import DeskLink.Lib.Counted

/-!
# `DeskLink.Discovery.Endpoints`: where each paired phone was last reached

`endpoints.json` of `src/device_links/daemon/discovery.rs` and its cache. A link that
authenticates, and a pairing that ends, each spawn a writer. The writer of a link has the
phones that were paired at that moment.

Each step of `Endpoints.step` is one section of the code that holds a lock. A writer that
was spawned runs at any later time.
-/

set_option autoImplicit false

namespace DeskLink.Discovery

open Relay (IpAddr)

def minTcpPort : Nat := 1716
def maxTcpPort : Nat := 1764

/-- Most phones `endpoints.json` remembers. -/
def maxPersistedEndpoints : Nat := 32

structure SocketAddr where
  ip : IpAddr
  port : Nat
deriving DecidableEq, Repr

/-- An order in which a `HashMap` lists its keys. -/
structure KeyWalk where
  order : List String → List String
  perm : ∀ keys, (order keys).Perm keys

/-- Makes room among the phones other than `deviceId`, in so many rounds. -/
def pruned (walk : KeyWalk) (deviceId : String) : Nat → KeyMap SocketAddr → KeyMap SocketAddr
  | 0, all => all
  | rounds + 1, all =>
    if maxPersistedEndpoints < all.size then
      match (walk.order all.keys).find? (fun id => id ≠ deviceId) with
      | none => all
      | some extra => pruned walk deviceId rounds (all.erase extra)
    else all

/-- `all` with `deviceId` at `address`, pruned to paired phones and capped. -/
def updatedEndpoints (walk : KeyWalk) (all : KeyMap SocketAddr) (deviceId : String)
    (address : SocketAddr) (trusted : KeySet) : KeyMap SocketAddr :=
  let all := all.filter (fun id _ => trusted.contains id)
  let all := if trusted.contains deviceId then all.insert deviceId address else all
  pruned walk deviceId all.size all

/-- A writer that was spawned. -/
inductive Writer where
  /-- `persist_endpoint`, with the phones paired when the link authenticated. -/
  | persist (deviceId : String) (address : SocketAddr) (trusted : KeySet)
  /-- `unpersist_endpoint`. -/
  | unpersist (deviceId : String)

structure Endpoints where
  trusted : KeySet := ∅
  /-- The port each phone said it listens on. -/
  known : KeyMap Nat := ∅
  file : KeyMap SocketAddr := ∅
  cache : Option (KeyMap SocketAddr) := none
  /-- Unpaired, and `forget_addresses` has not removed the port yet. -/
  unpaired : List String := []
  /-- The port is gone, and the cache still to be cleared. -/
  portless : List String := []
  pending : List Writer := []
  /-- The address of each paired phone's latest authenticated link since it was paired. -/
  latest : String → Option SocketAddr := fun _ => none

inductive EndpointStep where
  | pair (deviceId : String)
  /-- The phone leaves the trusted ones, and `forget_addresses` begins. -/
  | unpair (deviceId : String)
  | forgetKnown (deviceId : String)
  /-- The cache is cleared of the phone, and the writer spawned. -/
  | forgetCached (deviceId : String)
  | remember (deviceId : String) (port : Option Nat) (trusted : Bool)
  /-- `persist_paired_endpoint`, under the lock of the configuration. -/
  | link (deviceId : String) (ip : IpAddr)
  /-- `persisted_snapshot`. -/
  | look
  /-- The writer at that place runs. -/
  | write (index : Nat) (walk : KeyWalk)

namespace Endpoints

def rememberEndpoint (m : Endpoints) (deviceId : String) (port : Option Nat) (trusted : Bool) :
    Endpoints :=
  match port.filter (fun port => minTcpPort ≤ port && port ≤ maxTcpPort) with
  | none => m
  | some port => if !trusted then m else { m with known := m.known.insert deviceId port }

def persistPairedEndpoint (m : Endpoints) (deviceId : String) (ip : IpAddr) : Endpoints :=
  if isLoopback ip || isUnspecified ip then m
  else
    match m.known[deviceId]? with
    | none => m
    | some port =>
      { m with
        pending := m.pending ++ [.persist deviceId ⟨ip, port⟩ m.trusted]
        latest :=
          if deviceId ∈ m.trusted then Function.update m.latest deviceId (some ⟨ip, port⟩)
          else m.latest }

/-- One writer. The file is left alone where nothing changed. -/
def run (m : Endpoints) (walk : KeyWalk) : Writer → Endpoints
  | .persist deviceId address trusted =>
    let all := updatedEndpoints walk m.file deviceId address trusted
    { m with cache := some all, file := all }
  | .unpersist deviceId =>
    if m.file.contains deviceId then
      let all := m.file.erase deviceId
      { m with cache := some all, file := all }
    else m

def step (m : Endpoints) : EndpointStep → Option Endpoints
  | .pair deviceId => some { m with trusted := m.trusted.insert deviceId }
  | .unpair deviceId =>
    some { m with
      trusted := m.trusted.erase deviceId
      unpaired := m.unpaired ++ [deviceId]
      latest := Function.update m.latest deviceId none }
  | .forgetKnown deviceId =>
    if deviceId ∈ m.unpaired then
      some { m with
        known := m.known.erase deviceId
        unpaired := m.unpaired.erase deviceId
        portless := m.portless ++ [deviceId] }
    else none
  | .forgetCached deviceId =>
    if deviceId ∈ m.portless then
      some { m with
        cache := m.cache.map (fun cached => cached.erase deviceId)
        portless := m.portless.erase deviceId
        pending := m.pending ++ [.unpersist deviceId] }
    else none
  | .remember deviceId port trusted => some (m.rememberEndpoint deviceId port trusted)
  | .link deviceId ip => some (m.persistPairedEndpoint deviceId ip)
  | .look => some { m with cache := some (m.cache.getD m.file) }
  | .write index walk =>
    match m.pending[index]? with
    | none => none
    | some writer => some { m.run walk writer with pending := m.pending.eraseIdx index }

/-- The desk starts with what an earlier run left. -/
def start (trusted : KeySet) (file : KeyMap SocketAddr) : Endpoints :=
  { trusted, file, latest := fun id => file[id]? }

end Endpoints

end DeskLink.Discovery
