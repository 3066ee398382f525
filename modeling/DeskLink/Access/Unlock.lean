import Mathlib.Tactic

/-!
# `DeskLink.Access.Unlock`: unlock with the phone

`unlock.rs`. The desk hands out a nonce, and unlocks only when the phone it
was issued to answers with it and every check passes. The table is the list
`issued`, oldest first. A nonce is an argument of `issue`, an instant a
number of nanoseconds, and no lock is poisoned.
-/

set_option autoImplicit false

namespace DeskLink.Access.Unlock

/-- How long a nonce stays usable. -/
def nonceLifetime : Nat := 60 * 10 ^ 9

/-- Why an unlock was refused. -/
inductive Refusal where
  | prefOff
  | noNonce
  | expired
  | wrongDevice
  | replayed
  | notLocked
  | notLan
  | notReady
  /-- Every check passed but the session would not unlock. -/
  | failed
deriving DecidableEq, Repr

/-- The exact codes the phone receives. -/
def Refusal.code : Refusal → String
  | .prefOff => "pref-off"
  | .noNonce => "no-nonce"
  | .expired => "expired"
  | .wrongDevice => "wrong-device"
  | .replayed => "replayed"
  | .notLocked => "not-locked"
  | .notLan => "not-lan"
  | .notReady => "not-ready"
  | .failed => "failed"

/-- The state the desk is in when an approval arrives. -/
structure Conditions where
  allowed : Bool
  locked : Bool
  /-- The phone's pair is a local one. -/
  isLocal : Bool
  ready : Bool
deriving DecidableEq, Repr

structure Issued where
  nonce : String
  deviceId : String
  issuedAt : Nat
  used : Bool
deriving DecidableEq, Repr

/-- Whether the desk may offer an unlock now; the refusal if not. -/
def mayOffer (conditions : Conditions) : Except Refusal Unit :=
  if !conditions.allowed then .error .prefOff
  else if !conditions.ready then .error .notReady
  else if !conditions.isLocal then .error .notLan
  else if !conditions.locked then .error .notLocked
  else .ok ()

def maxNoncesPerDevice : Nat := 4

/-- Whether an entry is the device's. -/
def Issued.isOf (deviceId : String) (entry : Issued) : Bool := entry.deviceId == deviceId

/-- The loop of `issue`: the device's oldest entry goes while it has too
many. Each round takes one entry, so the length of the table is fuel enough. -/
def makeRoom (deviceId : String) : Nat → List Issued → List Issued
  | 0, issued => issued
  | fuel + 1, issued =>
    if maxNoncesPerDevice ≤ issued.countP (Issued.isOf deviceId) then
      makeRoom deviceId fuel (issued.eraseP (Issued.isOf deviceId))
    else issued

/-- A fresh `nonce` for the device: a newer offer replaces one that is not
spent, and only the newest few spent ones stay. -/
def issue (issued : List Issued) (deviceId nonce : String) (now : Nat) : List Issued :=
  let kept := issued.filter (fun old =>
    decide (now - old.issuedAt < nonceLifetime * 2) && (old.used || !old.isOf deviceId))
  makeRoom deviceId kept.length kept ++ [⟨nonce, deviceId, now, false⟩]

/-- Drops every nonce issued to the device. -/
def forget (issued : List Issued) (deviceId : String) : List Issued :=
  issued.filter (fun entry => !entry.isOf deviceId)

/-- The first entry with the nonce is spent. -/
def spend (nonce : String) : List Issued → List Issued
  | [] => []
  | entry :: rest =>
    if entry.nonce = nonce then { entry with used := true } :: rest else entry :: spend nonce rest

/-- The whole gate, in order. A nonce that matched is spent, whatever the
outcome. -/
def check (issued : List Issued) (deviceId : String) (nonce : Option String) (now : Nat)
    (conditions : Conditions) : List Issued × Except Refusal Unit :=
  if !conditions.allowed then (issued, .error .prefOff)
  else
    match nonce.filter (fun nonce => nonce != "") with
    | none => (issued, .error .noNonce)
    | some nonce =>
      match issued.find? (fun entry => entry.nonce == nonce) with
      | none => (issued, .error .noNonce)
      | some entry =>
        if entry.used then (issued, .error .replayed)
        else
          (spend nonce issued,
            if entry.deviceId ≠ deviceId then .error .wrongDevice
            else if nonceLifetime ≤ now - entry.issuedAt then .error .expired
            else mayOffer conditions)

/-- A call that takes the lock of the table. -/
inductive UnlockCall where
  | issue (deviceId nonce : String) (now : Nat)
  | approve (deviceId : String) (nonce : Option String) (now : Nat) (conditions : Conditions)
  | forget (deviceId : String)
deriving DecidableEq, Repr

/-- The table after a call. -/
def afterUnlockCall (issued : List Issued) : UnlockCall → List Issued
  | .issue deviceId nonce now => issue issued deviceId nonce now
  | .approve deviceId nonce now conditions => (check issued deviceId nonce now conditions).1
  | .forget deviceId => forget issued deviceId

/-- The table after `calls`, from the empty one. -/
def issuedAfter (calls : List UnlockCall) : List Issued := calls.foldl afterUnlockCall []

/-- The nonce of a call. -/
def UnlockCall.nonce? : UnlockCall → Option String
  | .issue _ nonce _ => some nonce
  | .approve _ nonce _ _ => nonce
  | .forget _ => none

/-- Every nonce issued is one that no earlier call had. -/
def FreshNonces (calls : List UnlockCall) : Prop :=
  ∀ (before rest : List UnlockCall) (deviceId nonce : String) (now : Nat),
    calls = before ++ .issue deviceId nonce now :: rest →
      ∀ call ∈ before, call.nonce? ≠ some nonce

end DeskLink.Access.Unlock
