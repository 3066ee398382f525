import DeskLink.Lib.Base64
import DeskLink.Lib.KeyMap

/-!
# `DeskLink.Access.SessionLock`: the optional session password

`session_lock.rs`: a second factor for screen and terminal access. A phone
proves the password once per connection. `check` is three parts. `begin`
decides what needs no hashing, the password is hashed outside the lock, and
`finish` records the outcome.

Time is in nanoseconds. PBKDF2 and SHA-256 are the fields of `Hashing`.
-/

set_option autoImplicit false

namespace DeskLink.Access

/-- One second. -/
def second : Nat := 1000000000

def freeAttempts : Nat := 5
def firstLockout : Nat := 60 * second
def maxLockout : Nat := 60 * 60 * second
/-- Passwords longer than this are refused before hashing. -/
def maxPasswordBytes : Nat := 256

def passwordRequired : String := "password-required"
def passwordWrong : String := "password-wrong"
/-- Followed by `:<seconds>` until the lockout ends. -/
def passwordLocked : String := "password-locked"

structure PasswordHash where
  salt : String
  hash : String
  iterations : Nat
deriving DecidableEq, Repr

/-- The hash functions of OpenSSL. -/
structure Hashing where
  /-- PBKDF2 with HMAC-SHA-256: password, salt, iterations. -/
  derive : String → List UInt8 → Nat → Option (List UInt8)
  /-- SHA-256. -/
  digest : String → List UInt8

variable (hashing : Hashing)

/-- `matches`: the password is the stored one. -/
def passwordMatches (password : String) (stored : PasswordHash) : Bool :=
  match Lib.Base64.decode stored.salt, Lib.Base64.decode stored.hash with
  | some salt, some expected =>
    (hashing.derive password salt stored.iterations).any (fun actual => actual = expected)
  | _, _ => false

structure DeviceState where
  /-- The connection this device proved the password on. -/
  unlockedSession : Option Nat := none
  failures : Nat := 0
  lockedUntil : Option Nat := none
  /-- SHA-256 of the last wrong password counted. -/
  lastWrong : Option (List UInt8) := none
  /-- Guesses being hashed right now. -/
  inFlight : Nat := 0
deriving DecidableEq, Repr

/-- What `begin` decided without hashing. -/
inductive Precheck where
  | allowed
  | denied (reason : String)
  /-- Carries the lock's epoch. -/
  | verify (epoch : Nat)
deriving DecidableEq, Repr

structure SessionLock where
  devices : KeyMap DeviceState := {}
  /-- Bumped by every unlock-forgetting event. -/
  epoch : Nat := 0

/-- A lockout runs. -/
def DeviceState.lockedOut (state : DeviceState) (now : Nat) : Bool :=
  state.lockedUntil.any (fun ends => now < ends)

/-- How long the lockout is that comes with this many failures. -/
def lockoutOf (failures : Nat) : Nat :=
  min (firstLockout * 2 ^ min (failures - freeAttempts) 6) maxLockout

/-- The state after an answer that was wrong. -/
def DeviceState.fail (state : DeviceState) (wrong : List UInt8) (now : Nat) :
    DeviceState × Except String Unit :=
  if state.lastWrong = some wrong then (state, .error passwordWrong)
  else
    let counted := { state with lastWrong := some wrong, failures := state.failures + 1 }
    if freeAttempts ≤ counted.failures then
      let lockout := lockoutOf counted.failures
      ({ counted with lockedUntil := some (now + lockout) },
        .error (passwordLocked ++ ":" ++ toString (lockout / second)))
    else (counted, .error passwordWrong)

namespace SessionLock

variable (lock : SessionLock)

/-- The entry of a device, or the default one. -/
def state (deviceId : String) : DeviceState := lock.devices[deviceId]?.getD {}

def setState (deviceId : String) (state : DeviceState) : SessionLock :=
  { lock with devices := lock.devices.insert deviceId state }

/-- Everything that needs no hashing: already unlocked, locked out, nothing
offered, or the same wrong password again. -/
def begin (stored : Option PasswordHash) (deviceId : String) (session : Nat)
    (offered : Option String) (now : Nat) : SessionLock × Precheck :=
  if stored = none then (lock, .allowed)
  else
    let state := lock.state deviceId
    -- The entry is made whatever the answer is.
    let entered := lock.setState deviceId state
    if state.unlockedSession = some session then (entered, .allowed)
    else match state.lockedUntil.filter (fun ends => now < ends) with
      | some ends =>
        (entered, .denied (passwordLocked ++ ":" ++ toString (max ((ends - now) / second) 1)))
      | none => match offered with
        | none => (entered, .denied passwordRequired)
        | some offered =>
          if maxPasswordBytes < offered.utf8ByteSize then (entered, .denied passwordWrong)
          else if state.lastWrong = some (hashing.digest offered) then
            (entered, .denied passwordWrong)
          -- A guess in flight counts as spent.
          else if max (freeAttempts - state.failures) 1 ≤ state.inFlight then
            (entered, .denied passwordWrong)
          else
            (lock.setState deviceId { state with inFlight := state.inFlight + 1 },
              .verify lock.epoch)

/-- Records the outcome of hashing `offered`. -/
def finish (deviceId : String) (session : Nat) (offered : String) (correct : Bool) (epoch : Nat)
    (now : Nat) : SessionLock × Except String Unit :=
  let changed : Bool := epoch ≠ lock.epoch
  let state : DeviceState :=
    { lock.state deviceId with inFlight := (lock.state deviceId).inFlight - 1 }
  if correct then
    -- Nor does an answer unlock anything while a lockout runs.
    if changed ∨ state.lockedOut now then
      (lock.setState deviceId state, .error passwordRequired)
    else (lock.setState deviceId { unlockedSession := some session }, .ok ())
  else
    let failed := state.fail (hashing.digest offered) now
    (lock.setState deviceId failed.1, failed.2)

/-- Forgets `deviceId`'s unlock. Its failures and lockout stay. -/
def forgetUnlock (deviceId : String) : SessionLock where
  epoch := lock.epoch + 1
  devices := lock.devices.modify deviceId
    (fun state => { state with unlockedSession := none, lastWrong := none })

/-- Forgets every unlock, e.g. when the password changes. -/
def relockAll : SessionLock where
  epoch := lock.epoch + 1
  devices := lock.devices.map
    (fun _ state => { state with unlockedSession := none, lastWrong := none })

/-- Whether the device may act on the connection without offering
anything. -/
def isUnlocked (stored : Option PasswordHash) (deviceId : String) (session : Nat) : Bool :=
  stored = none ∨ (lock.state deviceId).unlockedSession = some session

end SessionLock

/-! ### Handlers that ask at once -/

/-- A password that is being hashed. -/
structure Guess where
  deviceId : String
  session : Nat
  offered : String
  correct : Bool
  epoch : Nat
deriving DecidableEq, Repr

/-- The lock, what is being hashed, and the time. -/
structure Guessing where
  lock : SessionLock := {}
  asked : List Guess := []
  now : Nat := 0

inductive Act where
  /-- The first section of a `check`. -/
  | begin (stored : Option PasswordHash) (deviceId : String) (session : Nat)
      (offered : Option String)
  /-- The second section of a `check` whose password was hashed: the one at
  the place `i` of those being hashed. -/
  | finish (i : Nat)
  | forgetUnlock (deviceId : String)
  | relockAll
  | wait (elapsed : Nat)
deriving DecidableEq, Repr

/-- What hashing will say of the password that is offered. -/
def isCorrect (stored : Option PasswordHash) (offered : String) : Bool :=
  stored.any (passwordMatches hashing offered)

/-- The guess that is hashed after a `begin`, if it is to be. -/
def guessOf (stored : Option PasswordHash) (deviceId : String) (session : Nat)
    (offered : Option String) : Precheck → Option Guess
  | .verify epoch =>
    some { deviceId, session, offered := offered.getD "", epoch
           correct := isCorrect hashing stored (offered.getD "") }
  | .allowed | .denied _ => none

namespace Guessing

variable (w : Guessing)

def begin (stored : Option PasswordHash) (deviceId : String) (session : Nat)
    (offered : Option String) : Guessing × Precheck :=
  let begun := w.lock.begin hashing stored deviceId session offered w.now
  ({ w with
      lock := begun.1
      asked := w.asked ++ (guessOf hashing stored deviceId session offered begun.2).toList },
    begun.2)

/-- The guess is answered. -/
def answer (i : Nat) (guess : Guess) : Guessing × Except String Unit :=
  let finished := w.lock.finish hashing guess.deviceId guess.session guess.offered guess.correct
    guess.epoch w.now
  ({ w with lock := finished.1, asked := w.asked.eraseIdx i }, finished.2)

def after : Act → Guessing
  | .begin stored deviceId session offered => (w.begin hashing stored deviceId session offered).1
  | .finish i => match w.asked[i]? with
    | some guess => (w.answer hashing i guess).1
    | none => w
  | .forgetUnlock deviceId => { w with lock := w.lock.forgetUnlock deviceId }
  | .relockAll => { w with lock := w.lock.relockAll }
  | .wait elapsed => { w with now := w.now + elapsed }

end Guessing

end DeskLink.Access
