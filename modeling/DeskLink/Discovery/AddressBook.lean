import DeskLink.Lib.KeyMap
import DeskLink.Relay.Limits

/-!
# `DeskLink.Discovery.AddressBook`: where each phone was seen

`AddressBook` of `src/device_links/daemon/discovery.rs`: the addresses to dial a phone
at, newest first. A verified address was seen through an authenticated handshake, and
an unverified one is only claimed by a packet.

Times are nanoseconds. A `u32` counter is a `Nat` that stops at its maximum.
-/

set_option autoImplicit false

namespace DeskLink.Discovery

open Relay (IpAddr)

def second : Nat := 1000000000

/-- Verified IPv4s kept per phone (one IPv6 on top). -/
def maxAddresses : Nat := 3
/-- Unverified addresses kept per phone. -/
def maxCandidates : Nat := 2
def firstAddressBackoff : Nat := 3 * second
def maxAddressBackoff : Nat := 300 * second
def firstBeaconGap : Nat := 15 * second
def maxBeaconGap : Nat := 300 * second

/-- `saturating_add(1)` of a `u32`. -/
def saturatingSucc (count : Nat) : Nat := min (count + 1) 0xffffffff

structure Address where
  ip : IpAddr
  failures : Nat
  retryAt : Option Nat
  /-- Seen through a pinned, authenticated handshake. -/
  verified : Bool
  /-- Unicast beacons sent here since the last sign of the phone. -/
  beacons : Nat
  beaconAt : Option Nat
deriving DecidableEq, Repr

def Address.new (ip : IpAddr) (verified : Bool) : Address :=
  { ip, failures := 0, retryAt := none, verified, beacons := 0, beaconAt := none }

def isIpv4 : IpAddr → Bool
  | .v4 _ => true
  | .v6 _ => false

def isLoopback : IpAddr → Bool
  | .v4 octets => octets.get 0 == 127
  | .v6 bits => bits == 1#128

def isUnspecified : IpAddr → Bool
  | .v4 octets => octets == #v[0, 0, 0, 0]
  | .v6 bits => bits == 0#128

def isMulticast : IpAddr → Bool
  | .v4 octets => (224 : UInt8) ≤ octets.get 0 && octets.get 0 ≤ (239 : UInt8)
  | .v6 bits => bits.extractLsb' 120 8 == 0xff#8

def unusable (ip : IpAddr) : Bool := isLoopback ip || isUnspecified ip || isMulticast ip

/-- How long a dead address waits after its `failures`-th failure. -/
def addressBackoff (failures : Nat) : Nat :=
  min (firstAddressBackoff * 2 ^ min (failures - 1) 10) maxAddressBackoff

/-! ### The addresses of one phone -/

/-- `trim_verified`, with `v4` and `v6` verified addresses kept so far. -/
def trimFrom (v4 v6 : Nat) : List Address → List Address
  | [] => []
  | known :: list =>
    if !known.verified then known :: trimFrom v4 v6 list
    else if isIpv4 known.ip then
      if v4 + 1 ≤ maxAddresses then known :: trimFrom (v4 + 1) v6 list
      else trimFrom (v4 + 1) v6 list
    else if v6 + 1 ≤ 1 then known :: trimFrom v4 (v6 + 1) list
    else trimFrom v4 (v6 + 1) list

/-- Keeps the newest verified IPv4s and one IPv6. -/
def trimVerified (list : List Address) : List Address := trimFrom 0 0 list

/-- The oldest unverified addresses go while there are too many. -/
def trimCandidates : Nat → List Address → List Address
  | 0, list => list
  | fuel + 1, list =>
    if maxCandidates < list.countP (fun known => !known.verified) then
      trimCandidates fuel (list.eraseP (fun known => !known.verified))
    else list

/-- `f` of the first address that is `ip`. -/
def updateIp (ip : IpAddr) (f : Address → Address) : List Address → List Address
  | [] => []
  | known :: list => if known.ip = ip then f known :: list else known :: updateIp ip f list

def seenAt (ip : IpAddr) (list : List Address) : List Address :=
  trimVerified (.new ip true :: list.filter (fun known => known.ip ≠ ip))

def candidateAt (ip : IpAddr) (list : List Address) : List Address :=
  if list.any (fun known => known.ip = ip) then list
  else trimCandidates (list.length + 1) (list ++ [.new ip false])

def rememberedAt (ip : IpAddr) (list : List Address) : List Address :=
  trimVerified (if list.any (fun known => known.ip = ip) then
    updateIp ip (fun known => { known with verified := true }) list
  else list ++ [.new ip true])

def Address.fail (known : Address) (now : Nat) : Address :=
  let failures := saturatingSucc known.failures
  { known with failures, retryAt := some (now + addressBackoff failures) }

def Address.wake (known : Address) : Address :=
  { known with failures := 0, retryAt := none, beacons := 0, beaconAt := none }

def Address.beaconDue (known : Address) (now : Nat) : Bool := known.beaconAt.all (· ≤ now)

/-- A unicast beacon is sent to the address, if one is due. -/
def Address.beacon (known : Address) (now : Nat) : Address :=
  if known.beaconDue now then
    { known with
      beacons := saturatingSucc known.beacons
      beaconAt := some (now + min (firstBeaconGap * 2 ^ min known.beacons 10) maxBeaconGap) }
  else known

/-! ### The book -/

abbrev AddressBook := KeyMap (List Address)

namespace AddressBook

/-- The addresses of a phone. -/
def list (book : AddressBook) (deviceId : String) : List Address := (book[deviceId]?).getD []

/-- A phone's list, made if there is none, is changed. An unusable address changes
nothing. -/
def enter (book : AddressBook) (deviceId : String) (ip : IpAddr)
    (f : List Address → List Address) : AddressBook :=
  if unusable ip then book else book.insert deviceId (f (book.list deviceId))

/-- `ip` is where the phone was just seen. -/
def seen (book : AddressBook) (deviceId : String) (ip : IpAddr) : AddressBook :=
  book.enter deviceId ip (seenAt ip)

/-- An address only an unauthenticated packet vouches for. -/
def candidate (book : AddressBook) (deviceId : String) (ip : IpAddr) : AddressBook :=
  book.enter deviceId ip (candidateAt ip)

/-- An address remembered from an earlier run's authenticated link. -/
def remembered (book : AddressBook) (deviceId : String) (ip : IpAddr) : AddressBook :=
  book.enter deviceId ip (rememberedAt ip)

/-- The addresses to send a unicast beacon to now. -/
def beaconTargets (book : AddressBook) (deviceId : String) (now : Nat) :
    AddressBook × List IpAddr :=
  match book[deviceId]? with
  | none => (book, [])
  | some list =>
    (book.insert deviceId (list.map (fun known => known.beacon now)),
      (list.filter (fun known => known.beaconDue now)).map (·.ip))

/-- The addresses to dial now: those whose backoff is over, newest first. -/
def due (book : AddressBook) (deviceId : String) (now : Nat) : List IpAddr :=
  ((book.list deviceId).filter (fun known => known.retryAt.all (· ≤ now))).map (·.ip)

/-- A dial to `ip` failed. -/
def failed (book : AddressBook) (deviceId : String) (ip : IpAddr) (now : Nat) : AddressBook :=
  match book[deviceId]? with
  | none => book
  | some list => book.insert deviceId (updateIp ip (fun known => known.fail now) list)

/-- A dial to `ip` worked. -/
def worked (book : AddressBook) (deviceId : String) (ip : IpAddr) : AddressBook :=
  book.seen deviceId ip

/-- Any sign of the phone, or of every phone. -/
def wake (book : AddressBook) (deviceId : Option String) : AddressBook :=
  book.map (fun id list => if deviceId.all (· = id) then list.map Address.wake else list)

def forget (book : AddressBook) (deviceId : String) : AddressBook := book.erase deviceId

end AddressBook

/-! ### Runs -/

inductive BookCall where
  | seen (deviceId : String) (ip : IpAddr)
  | candidate (deviceId : String) (ip : IpAddr)
  | remembered (deviceId : String) (ip : IpAddr)
  | failed (deviceId : String) (ip : IpAddr) (now : Nat)
  | worked (deviceId : String) (ip : IpAddr)
  | wake (deviceId : Option String)
  | forget (deviceId : String)
  | beaconTargets (deviceId : String) (now : Nat)

namespace BookCall

def isCandidate : BookCall → Bool
  | .candidate _ _ => true
  | _ => false

/-- The call says that the address is the phone's, on an authenticated link's word. -/
def verifies (call : BookCall) (deviceId : String) (ip : IpAddr) : Prop :=
  call = .seen deviceId ip ∨ call = .worked deviceId ip ∨ call = .remembered deviceId ip

/-- The time of a failure of this address. -/
def failureOf (deviceId : String) (ip : IpAddr) : BookCall → Option Nat
  | .failed other otherIp now => if other = deviceId ∧ otherIp = ip then some now else none
  | _ => none

/-- A wake of the phone, or an authenticated sighting at the address. -/
def refreshes (deviceId : String) (ip : IpAddr) : BookCall → Bool
  | .seen other otherIp | .worked other otherIp => other = deviceId && otherIp = ip
  | .wake only => only.all (· = deviceId)
  | _ => false

end BookCall

def AddressBook.after (book : AddressBook) : BookCall → AddressBook
  | .seen deviceId ip => book.seen deviceId ip
  | .candidate deviceId ip => book.candidate deviceId ip
  | .remembered deviceId ip => book.remembered deviceId ip
  | .failed deviceId ip now => book.failed deviceId ip now
  | .worked deviceId ip => book.worked deviceId ip
  | .wake deviceId => book.wake deviceId
  | .forget deviceId => book.forget deviceId
  | .beaconTargets deviceId now => (book.beaconTargets deviceId now).1

/-- The book after these calls. -/
def bookAfter (calls : List BookCall) : AddressBook := calls.foldl AddressBook.after ∅

end DeskLink.Discovery
