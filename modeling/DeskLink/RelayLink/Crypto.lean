import DeskLink.Lib.Base64

/-!
# `DeskLink.RelayLink.Crypto`: the channel two paired devices run through the relay

`src/device_links/relay_link/crypto.rs`. What the code takes from OpenSSL
is a parameter, `Primitives`: key agreement, key derivation, signatures,
the hash and the cipher. A text and its UTF-8 bytes are not told apart.

`Ideal` says what is asked of them: the two ends agree on a secret, no two
derived keys are equal unless they were derived from the same, and
encryption does not fail.
-/

set_option autoImplicit false

namespace DeskLink.RelayLink

open Lib (Base64.encode Base64.decode)

abbrev Bytes := List UInt8

/-- What is called in OpenSSL, and the reader of identity packets. -/
structure Primitives where
  /-- The private half of an ephemeral key. -/
  Scalar : Type
  /-- The outcome of a key agreement. -/
  Secret : Type
  /-- A key of 32 bytes. -/
  Key : Type
  SigningKey : Type
  VerifyKey : Type
  decKey : DecidableEq Key
  publicOf : Scalar → Bytes
  /-- `EcPoint::from_bytes` and `Deriver::derive_to_vec`. -/
  agree : Scalar → Bytes → Except String Secret
  /-- `hkdf_sha256` of salt, input and info: 64 bytes, in two halves. -/
  hkdf : Bytes → Secret → String → Except String (Key × Key)
  sha256 : String → Bytes
  signText : SigningKey → String → Except String Bytes
  verifyText : VerifyKey → String → Bytes → Bool
  /-- `encrypt_aead` of key, iv, aad and plaintext: ciphertext and tag. -/
  encrypt : Key → Bytes → String → Bytes → Except String (Bytes × Bytes)
  /-- `decrypt_aead` of key, iv, aad, ciphertext and tag. -/
  decrypt : Key → Bytes → String → Bytes → Bytes → Option Bytes
  /-- The device id that an identity packet names. -/
  deviceId : String → Except String String

instance (P : Primitives) : DecidableEq P.Key := P.decKey

def linkVersion : Nat := 1
def context : String := "desklink-relay-link-v1"
def dataAad : String := "desklink-relay-link-v1 data"
def tagBytes : Nat := 16

/-- Whether the device with `localFp` opens the handshake with `remoteFp`. -/
def isInitiator (localFp remoteFp : String) : Bool := decide (localFp < remoteFp)

/-- One side's ephemeral contribution. -/
structure Ephemeral (P : Primitives) where
  key : P.Scalar
  nonce : Bytes
  nonce_length : nonce.length = 32

def Ephemeral.public {P : Primitives} (e : Ephemeral P) : Bytes := P.publicOf e.key

/-- Everything both signatures cover. -/
structure Transcript where
  fpInitiator : String
  fpResponder : String
  ephInitiator : Bytes
  ephResponder : Bytes
  nonceInitiator : Bytes
  nonceResponder : Bytes
  identityInitiator : String
  identityResponder : String

def hexDigit (n : Nat) : Char := (("0123456789abcdef".toList)[n]?).getD '0'

def hex (bytes : Bytes) : String :=
  String.ofList (bytes.flatMap (fun byte => [hexDigit (byte.toNat / 16), hexDigit (byte.toNat % 16)]))

def transcript (P : Primitives) (t : Transcript) : String :=
  context ++ "\n" ++ t.fpInitiator ++ "\n" ++ t.fpResponder
    ++ "\n" ++ Base64.encode t.ephInitiator ++ "\n" ++ Base64.encode t.ephResponder
    ++ "\n" ++ Base64.encode t.nonceInitiator ++ "\n" ++ Base64.encode t.nonceResponder
    ++ "\n" ++ hex (P.sha256 t.identityInitiator) ++ "\n" ++ hex (P.sha256 t.identityResponder)

/-- Which side a signature speaks for. -/
inductive Role where
  | initiator
  | responder
deriving DecidableEq, Repr

def Role.label : Role → String
  | .initiator => "initiator\n"
  | .responder => "responder\n"

def Role.other : Role → Role
  | .initiator => .responder
  | .responder => .initiator

def sign (P : Primitives) (key : P.SigningKey) (role : Role) (transcript : String) :
    Except String String :=
  (P.signText key (role.label ++ transcript)).map Base64.encode

def verify (P : Primitives) (key : P.VerifyKey) (role : Role) (transcript signature : String) : Bool :=
  match Base64.decode signature with
  | none => false
  | some signature => P.verifyText key (role.label ++ transcript) signature

/-- The two directional keys. -/
structure LinkKeys (P : Primitives) where
  send : P.Key
  receive : P.Key

def LinkKeys.swap {P : Primitives} (k : LinkKeys P) : LinkKeys P := ⟨k.receive, k.send⟩

def deriveKeys (P : Primitives) (mine : Ephemeral P) (peerPublic : Bytes) (role : Role)
    (fpInitiator fpResponder : String) (nonceInitiator nonceResponder : Bytes) :
    Except String (LinkKeys P) := do
  let secret ← P.agree mine.key peerPublic
  let salt := nonceInitiator ++ nonceResponder
  let info := context ++ " keys\n" ++ fpInitiator ++ "\n" ++ fpResponder
  let okm ← P.hkdf salt secret info
  return match role with
    | .initiator => ⟨okm.1, okm.2⟩
    | .responder => ⟨okm.2, okm.1⟩

/-- Four zero bytes and the number, the high byte first. -/
def iv (seq : UInt64) : Bytes :=
  [0, 0, 0, 0] ++ [56, 48, 40, 32, 24, 16, 8, 0].map (fun s => UInt8.ofNat (seq.toNat / 2 ^ s))

def cryptoSeal (P : Primitives) (key : P.Key) (seq : UInt64) (plaintext : Bytes) : Except String String := do
  let (sealed, tag) ← P.encrypt key (iv seq) dataAad plaintext
  return Base64.encode (sealed ++ tag)

def cryptoOpen (P : Primitives) (key : P.Key) (seq : UInt64) (sealed : String) : Except String Bytes :=
  match Base64.decode sealed with
  | none => .error "Malformed relay frame"
  | some sealed =>
    if sealed.length < tagBytes then .error "Malformed relay frame"
    else
      match P.decrypt key (iv seq) dataAad (sealed.take (sealed.length - tagBytes))
          (sealed.drop (sealed.length - tagBytes)) with
      | none => .error "Relay frame failed authentication"
      | some plaintext => .ok plaintext

/-! ### What is asked of the primitives -/

/-- Keys are derived and frames sealed as by ideal primitives. -/
structure Ideal (P : Primitives) : Prop where
  /-- Key agreement: both ends come to the same secret. -/
  agree_comm : ∀ a b, P.agree a (P.publicOf b) = P.agree b (P.publicOf a)
  /-- The first halves of two derivations are equal only if they had the
  same inputs. -/
  first_inj : ∀ {salt salt' : Bytes} {secret secret' : P.Secret} {info info' : String}
    {okm okm' : P.Key × P.Key}, P.hkdf salt secret info = .ok okm →
    P.hkdf salt' secret' info' = .ok okm' → okm.1 = okm'.1 →
    salt = salt' ∧ secret = secret' ∧ info = info'
  /-- So are the second halves. -/
  second_inj : ∀ {salt salt' : Bytes} {secret secret' : P.Secret} {info info' : String}
    {okm okm' : P.Key × P.Key}, P.hkdf salt secret info = .ok okm →
    P.hkdf salt' secret' info' = .ok okm' → okm.2 = okm'.2 →
    salt = salt' ∧ secret = secret' ∧ info = info'
  /-- A first half is no second half. -/
  halves_ne : ∀ {salt salt' : Bytes} {secret secret' : P.Secret} {info info' : String}
    {okm okm' : P.Key × P.Key}, P.hkdf salt secret info = .ok okm →
    P.hkdf salt' secret' info' = .ok okm' → okm.1 ≠ okm'.2
  /-- Encryption does not fail. -/
  encrypt_ok : ∀ key iv aad plaintext, ∃ sealed, P.encrypt key iv aad plaintext = .ok sealed

end DeskLink.RelayLink
