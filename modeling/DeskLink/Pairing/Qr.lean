import Mathlib.Data.List.DropRight
import DeskLink.Lib.Base64Url
import DeskLink.RelayLink.Crypto

/-!
# `DeskLink.Pairing.Qr`: QR-code pairing

`src/device_links/pairing_qr.rs`, and `check_qr_proof` of
`daemon/packet_handler.rs`. A phone that scanned the code on the desk's screen
proves it with a MAC under the code's secret, over both ids and both certificate
fingerprints.

`Qr` is what the module keeps between calls, and `Qr.step` one call, made with the
lock held. The hash and the MAC are parameters, as are the random bytes of a secret
and the instant of a call, in nanoseconds. A text and its UTF-8 bytes are not told
apart.
-/

set_option autoImplicit false

namespace DeskLink.Pairing

open Lib (Base64.encodeUrl Base64.decodeUrlChars)
open RelayLink (Bytes hex)

/-- Five minutes. -/
def lifetime : Nat := 300 * 10 ^ 9

/-- Wrong proofs that one device may offer for one code. -/
def maxFailures : Nat := 3

/-- Wrong proofs from all devices together that burn the code. -/
def maxTotalFailures : Nat := 30

def macLabel : String := "desklink-qr-v1"

/-- 32 bytes: a secret, or the SHA-256 of a certificate. -/
abbrev Bytes32 := Vector UInt8 32

/-- What is called in OpenSSL. -/
structure QrPrimitives where
  sha256 : Bytes → Except String Bytes32
  /-- HMAC-SHA256 of key and message. -/
  hmac : Bytes32 → String → Except String Bytes
  /-- The DER form of a certificate in PEM form. -/
  toDer : String → Except String Bytes

/-- An IPv4 address. -/
structure Ipv4 where
  a : UInt8
  b : UInt8
  c : UInt8
  d : UInt8
deriving DecidableEq, Repr

def Ipv4.text (ip : Ipv4) : String :=
  toString ip.a.toNat ++ "." ++ toString ip.b.toNat ++ "." ++ toString ip.c.toNat ++ "."
    ++ toString ip.d.toNat

/-- A code. -/
structure Pending where
  secret : Bytes32
  expiresAt : Nat
  /-- Wrong proofs so far, by the presenting device's fingerprint. -/
  failures : Bytes32 → Nat
  totalFailures : Nat
  uri : String
  desktopId : String
  fp : Bytes32
  generation : Nat

structure Qr where
  pending : Option Pending := none
  /-- Counts the calls of `start` and of `cancel`. -/
  generation : Nat := 0
  /-- The secret of the code that was last replaced, withdrawn or let expire. -/
  retired : Option Bytes32 := none
  /-- How many times a retired code was scanned and refused. -/
  expiredScans : Nat := 0

def buildUri (desktopId : String) (fp secret : Bytes32) (host : Option String)
    (addresses : List Ipv4) (port : Nat) : String :=
  let uri := "desklink://pair?v=1&id=" ++ desktopId ++ "&fp=" ++ Base64.encodeUrl fp.toList
    ++ "&s=" ++ Base64.encodeUrl secret.toList
  let uri := match host with
    | some host => uri ++ "&h=" ++ host
    | none => uri
  if addresses.isEmpty then uri
  else uri ++ "&a=" ++ String.intercalate "," (addresses.map Ipv4.text) ++ "&p=" ++ toString port

/-- What a proof is computed over. -/
def proofMessage (desktopId phoneId : String) (desktopFp phoneFp : Bytes32) : String :=
  macLabel ++ "\n" ++ desktopId ++ "\n" ++ phoneId ++ "\n" ++ hex desktopFp.toList
    ++ "\n" ++ hex phoneFp.toList

/-- The proof that both apps compute. -/
def proof (P : QrPrimitives) (secret : Bytes32) (desktopId phoneId : String)
    (desktopFp phoneFp : Bytes32) : Except String Bytes :=
  P.hmac secret (proofMessage desktopId phoneId desktopFp phoneFp)

/-- The bytes of a proof as it is sent: padding is not looked at. -/
def decodeMac (mac : String) : Option Bytes :=
  Base64.decodeUrlChars (mac.toList.rdropWhile (· = '='))

def malformed : String := "Malformed QR pairing proof"
def notActive : String := "No QR pairing code is active"
def expiredCode : String := "The QR pairing code expired"
def tooMany : String := "Too many wrong QR pairing proofs from this device"
def invalidProof : String := "Invalid QR pairing proof"

namespace Pending

/-- A wrong proof counts, for its device and for all. -/
def count (live : Pending) (phoneFp : Bytes32) : Pending :=
  { live with
    failures := Function.update live.failures phoneFp (min (live.failures phoneFp + 1) 255)
    totalFailures := live.totalFailures + 1 }

end Pending

namespace Qr

def retire (qr : Qr) (secret : Bytes32) : Qr := { qr with retired := some secret }

/-- The live code, if there is one, is retired. -/
def retireLive (qr : Qr) : Qr :=
  match qr.pending with
  | some old => qr.retire old.secret
  | none => qr

def nextGeneration (qr : Qr) : Qr := { qr with generation := qr.generation + 1 }

/-- Whether `received` is the proof of the retired code. -/
def matchesRetired (P : QrPrimitives) (qr : Qr) (received : Bytes) (desktopId phoneId : String)
    (desktopFp phoneFp : Bytes32) : Bool :=
  match qr.retired with
  | none => false
  | some secret =>
    match proof P secret desktopId phoneId desktopFp phoneFp with
    | .ok expected => received = expected
    | .error _ => false

/-- A new code, with a fresh secret, replaces any other. -/
def start (P : QrPrimitives) (qr : Qr) (now : Nat) (secret : Bytes32) (desktopId : String)
    (desktopCertificateDer : Bytes) (host : Option String) (addresses : List Ipv4) (port : Nat) :
    Qr × Except String String :=
  match P.sha256 desktopCertificateDer with
  | .error e => (qr, .error e)
  | .ok fp =>
    let uri := buildUri desktopId fp secret host addresses port
    let qr := qr.retireLive.nextGeneration
    let code : Pending :=
      { secret
        expiresAt := now + lifetime
        failures := fun _ => 0
        totalFailures := 0
        uri, desktopId, fp
        generation := qr.generation }
    ({ qr with pending := some code }, .ok uri)

/-- The live code with the computer's new addresses; whether it was changed. -/
def refreshAddresses (qr : Qr) (now : Nat) (host : Option String) (addresses : List Ipv4)
    (port : Nat) : Qr × Bool :=
  match qr.pending with
  | none => (qr, false)
  | some live =>
    if now < live.expiresAt then
      let uri := buildUri live.desktopId live.fp live.secret host addresses port
      if uri = live.uri then (qr, false)
      else ({ qr with pending := some { live with uri } }, true)
    else (qr, false)

/-- The live code is withdrawn. -/
def cancel (qr : Qr) : Qr := { qr.retireLive with pending := none }.nextGeneration

/-- The generation of the live, unexpired code. -/
def liveGeneration (qr : Qr) (now : Nat) : Option Nat :=
  (qr.pending.filter (fun live => now < live.expiresAt)).map (·.generation)

/-- A retired code was scanned. -/
def scanExpired (qr : Qr) : Qr × Except String Unit :=
  ({ qr with expiredScans := qr.expiredScans + 1 }, .error expiredCode)

/-- Checks a phone's proof. Success consumes the code; a wrong proof counts, and
the code is burned when too many have. -/
def verify (P : QrPrimitives) (qr : Qr) (now : Nat) (desktopId phoneId : String)
    (desktopFp phoneFp : Bytes32) (mac : String) : Qr × Except String Unit :=
  match decodeMac mac with
  | none => (qr, .error malformed)
  | some received =>
    match qr.pending with
    | none =>
      if qr.matchesRetired P received desktopId phoneId desktopFp phoneFp then qr.scanExpired
      else (qr, .error notActive)
    | some live =>
      if live.expiresAt ≤ now then { qr.retire live.secret with pending := none }.scanExpired
      else if maxFailures ≤ live.failures phoneFp then (qr, .error tooMany)
      else
        match proof P live.secret desktopId phoneId desktopFp phoneFp with
        | .error e => (qr, .error e)
        | .ok expected =>
          if received = expected then ({ qr with pending := none }, .ok ())
          -- Not the live code: perhaps the one that was replaced a moment ago.
          else if qr.matchesRetired P received desktopId phoneId desktopFp phoneFp then
            qr.scanExpired
          else
            let live := live.count phoneFp
            ({ qr with pending := if maxTotalFailures ≤ live.totalFailures then none else some live },
              .error invalidProof)

/-- The proof of a `desklink.pair.qr` packet. The phone's fingerprint is that of the
certificate its link presented. -/
def checkQrProof (P : QrPrimitives) (qr : Qr) (now : Nat) (desktopId : String)
    (desktopDer : Bytes) (phoneId phonePem : String) (mac : Option String) :
    Qr × Except String Unit :=
  match P.toDer phonePem with
  | .error e => (qr, .error e)
  | .ok phoneDer =>
    match P.sha256 desktopDer with
    | .error e => (qr, .error e)
    | .ok desktopFp =>
      match P.sha256 phoneDer with
      | .error e => (qr, .error e)
      | .ok phoneFp => qr.verify P now desktopId phoneId desktopFp phoneFp (mac.getD "")

/-- Whether a retired code was scanned since the last call. -/
def takeExpiredNotice (qr : Qr) : Qr × Bool := ({ qr with expiredScans := 0 }, 0 < qr.expiredScans)

end Qr

/-- A call of the module. -/
inductive QrCall where
  | start (secret : Bytes32) (desktopId : String) (desktopCertificateDer : Bytes)
      (host : Option String) (addresses : List Ipv4) (port : Nat)
  | refreshAddresses (host : Option String) (addresses : List Ipv4) (port : Nat)
  | cancel
  | verify (desktopId phoneId : String) (desktopFp phoneFp : Bytes32) (mac : String)
  | takeExpiredNotice
  | liveGeneration
deriving DecidableEq

namespace Qr

/-- What is kept after a call made at `now`. -/
def step (P : QrPrimitives) (qr : Qr) (now : Nat) : QrCall → Qr
  | .start secret desktopId der host addresses port =>
    (qr.start P now secret desktopId der host addresses port).1
  | .refreshAddresses host addresses port => (qr.refreshAddresses now host addresses port).1
  | .cancel => qr.cancel
  | .verify desktopId phoneId desktopFp phoneFp mac =>
    (qr.verify P now desktopId phoneId desktopFp phoneFp mac).1
  | .takeExpiredNotice => qr.takeExpiredNotice.1
  | .liveGeneration => qr

/-- What is kept after calls, each made at its instant. -/
def after (P : QrPrimitives) (qr : Qr) (calls : List (Nat × QrCall)) : Qr :=
  calls.foldl (fun qr call => qr.step P call.1 call.2) qr

end Qr

end DeskLink.Pairing
