import DeskLink.Lib.Counted

/-!
# `DeskLink.Lane.Grants`: the tokens of the file lanes

The first half of `webrtc/file_lane.rs`: the tokens that a receiver hands
out with an accept. An `Instant` is its nanoseconds.

The table of grants is a `HashMap`, and which of several tokens that expire
together goes is the map's own choice: `Walk` is an order in which the map
may list its entries. The 16 bytes of a token come from OpenSSL, and are an
argument of `issue`.
-/

set_option autoImplicit false

namespace DeskLink.Lane

/-- A token is good this long from the accept. -/
def tokenTtl : Nat := 60 * 1000000000
/-- More than this for one device at once is a bug or an attack. -/
def maxGrantsPerDevice : Nat := 16
/-- And the table as a whole. -/
def maxGrants : Nat := 256

/-- 32 lowercase hex characters. -/
def tokenIsWellFormed (token : String) : Bool :=
  token.utf8ByteSize == 32
    && token.toList.all (fun c => c.isDigit || (decide ('a' ≤ c) && decide (c ≤ 'f')))

/-- `{byte:02x}`. -/
def hexByte (byte : UInt8) : List Char :=
  [Nat.digitChar (byte.toNat / 16), Nat.digitChar (byte.toNat % 16)]

/-- The token of 16 random bytes. -/
def newToken (bytes : Vector UInt8 16) : String := String.ofList (bytes.toList.flatMap hexByte)

/-- Why a lane is refused. -/
inductive Refusal where
  /-- Unknown, expired, used, malformed or another transfer's or device's. -/
  | token
  | transfer
  | range
  | busy
  | path
deriving DecidableEq, Repr

structure Grant where
  transferId : String
  diallerId : String
  expires : Nat
deriving DecidableEq, Repr

/-- An order in which a `HashMap` lists its entries. -/
structure Walk where
  order : List (String × Grant) → List (String × Grant)
  perm : ∀ entries, (order entries).Perm entries

/-- The order of the tokens. -/
def Walk.byToken : Walk := ⟨id, fun _ => List.Perm.refl _⟩

/-- The tokens handed out and not yet used. -/
structure Grants where
  byToken : KeyMap Grant := {}

namespace Grants

/-- What an accept at `now` keeps: a transfer has one live token. -/
def kept (g : Grants) (transferId : String) (now : Nat) : KeyMap Grant :=
  g.byToken.filter (fun _ grant => decide (now < grant.expires) && grant.transferId != transferId)

/-- How many tokens `diallerId` has. -/
def held (table : KeyMap Grant) (diallerId : String) : Nat :=
  countWhere table (fun grant => grant.diallerId == diallerId)

/-- The token to give up for another of `diallerId`: of its own when it has
its limit, of them all otherwise. -/
def oldest (walk : Walk) (table : KeyMap Grant) (diallerId : String) :
    Option (String × Grant) :=
  ((walk.order table.toList).filter (fun e =>
    decide (held table diallerId < maxGrantsPerDevice) || e.2.diallerId == diallerId)).argmin
      (fun e => e.2.expires)

/-- The table with room for one more token of `diallerId`. -/
def makeRoom (walk : Walk) (table : KeyMap Grant) (diallerId : String) : KeyMap Grant :=
  if maxGrantsPerDevice ≤ held table diallerId ∨ maxGrants ≤ table.size then
    match oldest walk table diallerId with
    | some (token, _) => table.erase token
    | none => table
  else table

/-- A token for `diallerId` to send `transferId` over a lane. -/
def issue (g : Grants) (walk : Walk) (random : Vector UInt8 16) (transferId diallerId : String)
    (now : Nat) : String × Grants :=
  (newToken random,
    ⟨(makeRoom walk (g.kept transferId now) diallerId).insert (newToken random)
      ⟨transferId, diallerId, now + tokenTtl⟩⟩)

/-- Uses `token`. A known token is spent by any attempt, right or wrong. -/
def redeem (g : Grants) (token transferId diallerId : String) (now : Nat) :
    Except Refusal Unit × Grants :=
  if tokenIsWellFormed token then
    match g.byToken[token]? with
    | none => (.error .token, g)
    | some grant =>
      (if grant.expires ≤ now ∨ grant.transferId ≠ transferId ∨ grant.diallerId ≠ diallerId then
        .error .token
      else
        .ok (), ⟨g.byToken.erase token⟩)
  else (.error .token, g)

/-- Tokens handed out for `diallerId` are void. -/
def voidDialler (g : Grants) (diallerId : String) : Grants :=
  ⟨g.byToken.filter (fun _ grant => grant.diallerId != diallerId)⟩

/-- Tokens for `transferId` are void. -/
def void (g : Grants) (transferId : String) : Grants :=
  ⟨g.byToken.filter (fun _ grant => grant.transferId != transferId)⟩

end Grants

/-- A call on the table, with the clock it reads. -/
inductive GrantOp where
  | issue (walk : Walk) (random : Vector UInt8 16) (transferId diallerId : String) (now : Nat)
  | redeem (token transferId diallerId : String) (now : Nat)
  | void (transferId : String)
  | voidDialler (diallerId : String)

def GrantOp.run (g : Grants) : GrantOp → Grants
  | .issue walk random transferId diallerId now =>
    (g.issue walk random transferId diallerId now).2
  | .redeem token transferId diallerId now => (g.redeem token transferId diallerId now).2
  | .void transferId => g.void transferId
  | .voidDialler diallerId => g.voidDialler diallerId

/-- The random bytes that a call drew. -/
def GrantOp.drawn : GrantOp → Option (Vector UInt8 16)
  | .issue _ random _ _ _ => some random
  | _ => none

/-- The table after the calls, from when the program started. -/
def grantsAfter (ops : List GrantOp) : Grants := ops.foldl GrantOp.run {}

end DeskLink.Lane
