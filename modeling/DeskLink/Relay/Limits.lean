import DeskLink.Lib.Base64
import DeskLink.Lib.Tally

/-!
# `DeskLink.Relay.Limits`: connection caps, attempt buckets and the TURN quota

`relay/src/limits.rs`. An `Instant` is a number of seconds, and the numbers
of tokens are exact: both are rationals. What `unauthenticated_share` comes to is a
number of sockets. A `HashMap` is a partial function.

The SHA-256 of `hashed` is the parameter `digest`, which may fail as
OpenSSL's may; the random bytes of a salt are an argument of what draws them.
-/

set_option autoImplicit false

namespace DeskLink.Relay

open Lib

/-- What `Limits` of the configuration says about networks and quotas. -/
structure Limits where
  connectionsPerIpv4 : Nat
  connectionsPerIpv6Prefix : Nat
  authsPerMinIpv4 : Rat
  authsPerMinIpv6Prefix : Rat
  connectionsPerIpv6Wide : Nat
  authsPerMinIpv6Wide : Rat
  globalConnections : Nat
  /-- How many of them may be sockets that have not yet authenticated:
  `(cap as f64 * unauthenticated_share) as usize`. -/
  unauthenticatedCap : Nat
  turnPerPairPerDay : Nat
  turnPerNetworkPerDay : Nat
  turnPerIpv6WidePerDay : Nat

/-- `Limits::default()`. -/
def Limits.standard : Limits where
  connectionsPerIpv4 := 64
  connectionsPerIpv6Prefix := 8
  authsPerMinIpv4 := 300
  authsPerMinIpv6Prefix := 30
  connectionsPerIpv6Wide := 32
  authsPerMinIpv6Wide := 120
  globalConnections := 10000
  unauthenticatedCap := 5000
  turnPerPairPerDay := 20
  turnPerNetworkPerDay := 48
  turnPerIpv6WidePerDay := 192

/-! ### Networks -/

abbrev Ipv4Addr := Vector UInt8 4

inductive IpAddr where
  | v4 (octets : Ipv4Addr)
  | v6 (bits : BitVec 128)
deriving DecidableEq, Repr

/-- `::ffff:a.b.c.d` is an IPv4 client. -/
def IpAddr.toCanonical : IpAddr → IpAddr
  | .v4 octets => .v4 octets
  | .v6 bits =>
    if bits >>> 32 = 0xffff#128 then
      .v4 #v[UInt8.ofBitVec (bits.extractLsb' 24 8), UInt8.ofBitVec (bits.extractLsb' 16 8),
        UInt8.ofBitVec (bits.extractLsb' 8 8), UInt8.ofBitVec (bits.extractLsb' 0 8)]
    else .v6 bits

/-- The unit a client is limited by; an IPv6 client is also counted under
its /48. -/
inductive NetKey where
  | v4 (octets : Ipv4Addr)
  | v6Prefix (net : BitVec 64)
  | v6Wide (net : BitVec 64)
deriving DecidableEq, Repr

namespace NetKey

/-- `NetKey::of`. -/
def ofIp (ip : IpAddr) : NetKey :=
  match ip.toCanonical with
  | .v4 octets => .v4 octets
  | .v6 bits => .v6Prefix ((bits >>> 64).setWidth 64)

/-- Every key a client is counted under. -/
def tiers : NetKey → List NetKey
  | .v6Prefix net => [.v6Prefix net, .v6Wide (net >>> 16)]
  | key => [key]

/-- `{:0width$x}`. -/
def paddedHex (width n : Nat) : List Char :=
  List.replicate (width - (Nat.toDigits 16 n).length) '0' ++ Nat.toDigits 16 n

/-- `Display`. -/
def display : NetKey → List Char
  | .v4 octets =>
    Nat.toDigits 10 octets[0].toNat ++ '.' :: (Nat.toDigits 10 octets[1].toNat
      ++ '.' :: (Nat.toDigits 10 octets[2].toNat ++ '.' :: Nat.toDigits 10 octets[3].toNat))
  | .v6Prefix net => paddedHex 16 net.toNat ++ "::/64".toList
  | .v6Wide net => paddedHex 12 net.toNat ++ "::/48".toList

end NetKey

/-! ### Token buckets -/

structure TokenBucket where
  rate : Rat
  capacity : Rat
  tokens : Rat
  last : Rat
deriving DecidableEq

namespace TokenBucket

/-- Starts full. -/
def new (ratePerSec capacity now : Rat) : TokenBucket := ⟨ratePerSec, capacity, capacity, now⟩

def refill (b : TokenBucket) (now : Rat) : TokenBucket :=
  { b with
    tokens := min (b.tokens + max 0 (now - b.last) * b.rate) b.capacity
    last := max b.last now }

def take (b : TokenBucket) (cost now : Rat) : Bool × TokenBucket :=
  let b := b.refill now
  if b.tokens < cost then (false, b) else (true, { b with tokens := b.tokens - cost })

def isFull (b : TokenBucket) (now : Rat) : Bool × TokenBucket :=
  let b := b.refill now
  (decide (b.capacity ≤ b.tokens), b)

end TokenBucket

/-! ### Connections and attempts -/

structure NetLimits where
  limits : Limits
  total : Nat := 0
  unauthenticated : Nat := 0
  connections : Tally NetKey := fun _ => none
  auths : NetKey → Option TokenBucket := fun _ => none

namespace NetLimits

/-- Taken before a connection's thread is spawned. -/
def openGlobal (n : NetLimits) : Bool × NetLimits :=
  if n.limits.globalConnections ≤ n.total ∨ n.limits.unauthenticatedCap ≤ n.unauthenticated then
    (false, n)
  else (true, { n with total := n.total + 1, unauthenticated := n.unauthenticated + 1 })

/-- The socket proved its identity. -/
def authenticated (n : NetLimits) : NetLimits :=
  { n with unauthenticated := n.unauthenticated - 1 }

def closeGlobal (n : NetLimits) (authenticated : Bool) : NetLimits :=
  { n with
    total := n.total - 1
    unauthenticated := if authenticated then n.unauthenticated else n.unauthenticated - 1 }

def connectionCap (limits : Limits) : NetKey → Nat
  | .v4 _ => limits.connectionsPerIpv4
  | .v6Prefix _ => limits.connectionsPerIpv6Prefix
  | .v6Wide _ => limits.connectionsPerIpv6Wide

def openNetwork (n : NetLimits) (key : NetKey) : Bool × NetLimits :=
  if key.tiers.any (fun tier =>
      decide (connectionCap n.limits tier ≤ n.connections.count tier)) then
    (false, n)
  else (true, { n with connections := key.tiers.foldl Tally.add n.connections })

def closeNetwork (n : NetLimits) (key : NetKey) : NetLimits :=
  { n with connections := key.tiers.foldl Tally.drop n.connections }

def authsPerMin (limits : Limits) : NetKey → Rat
  | .v4 _ => limits.authsPerMinIpv4
  | .v6Prefix _ => limits.authsPerMinIpv6Prefix
  | .v6Wide _ => limits.authsPerMinIpv6Wide

/-- The bucket of a tier, made full when there is none. -/
def bucket (n : NetLimits) (tier : NetKey) (now : Rat) : TokenBucket :=
  (n.auths tier).getD (.new (authsPerMin n.limits tier / 60) (authsPerMin n.limits tier) now)

/-- One tier is charged. -/
def charge (n : NetLimits) (now : Rat) (tier : NetKey) : Bool × NetLimits :=
  let (took, bucket) := (n.bucket tier now).take 1 now
  (took, { n with auths := Function.update n.auths tier (some bucket) })

/-- Every tier is charged even when one refuses. -/
def allowAuth (n : NetLimits) (key : NetKey) (now : Rat) : Bool × NetLimits :=
  key.tiers.foldl (fun (allowed, n) tier =>
    let (took, n) := n.charge now tier
    (allowed && took, n)) (true, n)

/-- Forgets networks whose bucket has refilled. -/
def prune (n : NetLimits) (now : Rat) : NetLimits :=
  { n with auths := fun key =>
      match n.auths key with
      | none => none
      | some bucket =>
        let (full, bucket) := bucket.isFull now
        if full then none else some bucket }

end NetLimits

/-! ### The TURN quota -/

def secondsPerDay : Nat := 86400

inductive QuotaRefusal where
  | pair
  | network
deriving DecidableEq, Repr

/-- A charged grant. -/
structure Grant where
  day : Nat
  pair : String
  networks : List String
deriving DecidableEq, Repr

/-- TURN grants per UTC day. -/
structure TurnQuota where
  day : Nat := 0
  salt : String := ""
  pairs : Tally String := fun _ => none
  networks : Tally String := fun _ => none

namespace TurnQuota

variable (digest : String → Option (List UInt8))

/-- A new day begins with no counters and another salt. -/
def roll (q : TurnQuota) (random : Vector UInt8 16) (unixSecs : Nat) : TurnQuota :=
  if unixSecs / secondsPerDay = q.day ∧ q.salt ≠ "" then q
  else { day := unixSecs / secondsPerDay, salt := Base64.encodeUrl random.toList }

def hashed (salt label : String) : String :=
  let input := salt ++ "\n" ++ label
  match digest input with
  | some hash => Base64.encodeUrl (hash.take 16)
  | none => input

/-- The label of an unordered pair. -/
def pairLabel (a b : String) : String :=
  let (low, high) := if (compare a b).isLE then (a, b) else (b, a)
  "pair\n" ++ low ++ "\n" ++ high

def netLabel (tier : NetKey) : String := "net\n" ++ String.ofList tier.display

def netCap (limits : Limits) : NetKey → Nat
  | .v6Wide _ => limits.turnPerIpv6WidePerDay
  | _ => limits.turnPerNetworkPerDay

def tryGrant (q : TurnQuota) (random : Vector UInt8 16) (a b : String) (network : NetKey)
    (unixSecs : Nat) (limits : Limits) : Except QuotaRefusal Grant × TurnQuota :=
  let q := q.roll random unixSecs
  let pair := hashed digest q.salt (pairLabel a b)
  if limits.turnPerPairPerDay ≤ q.pairs.count pair then (.error .pair, q)
  else if network.tiers.any (fun tier =>
      decide (netCap limits tier ≤ q.networks.count (hashed digest q.salt (netLabel tier)))) then
    (.error .network, q)
  else
    let networks := network.tiers.map (fun tier => hashed digest q.salt (netLabel tier))
    (.ok ⟨q.day, pair, networks⟩,
      { q with pairs := q.pairs.add pair, networks := networks.foldl Tally.add q.networks })

def refund (q : TurnQuota) (grant : Grant) : TurnQuota :=
  if grant.day ≠ q.day then q
  else
    { q with
      pairs := q.pairs.sub grant.pair
      networks := grant.networks.foldl Tally.sub q.networks }

end TurnQuota

end DeskLink.Relay
