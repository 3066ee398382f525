import Mathlib.Tactic

/-!
# `DeskLink.Config.Identity`: this computer's id, key and certificate at a start

`load_from_dir`, `save` and `certificate_matches_key` of `config.rs`, as far as they go
about `config.json`, `privateKey.pem` and `certificate.pem`. What comes of OpenSSL and of
the JSON of the settings is a parameter, `Libraries`. A `Start` is what a call of
`load_from_dir` draws at random, and which of its renames and writes fail.

A file that is renamed is `aside`: it is there under another name.
-/

set_option autoImplicit false

namespace DeskLink.Identity

abbrev Bytes := List UInt8

def configVersion : Nat := 1

/-- `StoredConfig`, its other fields being `rest`. -/
structure Stored (Rest : Type) where
  version : Nat
  deviceId : String
  rest : Rest

/-- What a file of settings says that does not read as `StoredConfig`, if it is JSON. -/
structure Raw where
  version : Option Nat
  deviceId : Option String
deriving DecidableEq, Repr

structure Libraries where
  Key : Type
  Certificate : Type
  Rest : Type
  /-- `PKey::private_key_from_pem`, and back. -/
  readKey : Bytes → Except String Key
  keyPem : Key → Except String Bytes
  /-- `X509::from_pem`, and back. -/
  readCertificate : Bytes → Option Certificate
  certificatePem : Certificate → Except String Bytes
  /-- The public half of a key, and the one that a certificate is about. -/
  publicOf : Key → Option Bytes
  certified : Certificate → Option Bytes
  commonName : Certificate → Option String
  /-- `serde_json::from_slice`, and back. -/
  readStored : Bytes → Option (Stored Rest)
  readRaw : Bytes → Option Raw
  writeStored : Stored Rest → Except String Bytes
  /-- The settings of a fresh start, and those without what removed features left. -/
  freshRest : Rest
  withoutRemoved : Rest → Rest

/-- The configuration directory, and what is kept in it under other names. -/
structure Disk where
  config : Option Bytes := none
  key : Option Bytes := none
  certificate : Option Bytes := none
  aside : List Bytes := []
deriving DecidableEq, Repr

/-- What is drawn in a call of `load_from_dir`, and what comes of its renames and writes. -/
structure Start (L : Libraries) where
  newId : String
  newKey : Except String L.Key
  newCertificate : L.Key → String → Except String L.Certificate
  makeDir : Except String Unit
  moveConfig : Bool
  moveKey : Bool
  moveCertificate : Bool
  makeDirToSave : Except String Unit
  writeConfig : Except String Unit
  writeKey : Except String Unit
  writeCertificate : Except String Unit

structure Config (L : Libraries) where
  stored : Stored L.Rest
  key : L.Key
  certificate : L.Certificate
  readOnly : Bool

section
variable {L : Libraries}

/-- `certificate_matches_key`. -/
def certificateMatchesKey (certificate : L.Certificate) (key : L.Key) : Bool :=
  match L.certified certificate, L.publicOf key with
  | some certificatePublic, some keyPublic => certificatePublic == keyPublic
  | _, _ => false

/-! ### The settings file -/

/-- What `config.json` is. -/
inductive Found (L : Libraries) where
  | stored (stored : Stored L.Rest)
  /-- Of a newer build, which this one cannot read. -/
  | newer (deviceId : Option String)
  | damaged
  | missing

def found (L : Libraries) (config : Option Bytes) : Found L :=
  match config with
  | none => .missing
  | some bytes =>
    match L.readStored bytes with
    | some stored => .stored stored
    | none =>
      if configVersion < ((L.readRaw bytes).bind Raw.version).getD 0 then
        .newer ((L.readRaw bytes).bind Raw.deviceId)
      else .damaged

def Found.fresh : Found L → Bool
  | .damaged | .missing => true
  | .stored _ | .newer _ => false

def Found.readOnly : Found L → Bool
  | .newer _ => true
  | .stored _ | .damaged | .missing => false

/-- The settings of the run. -/
def Found.settings (newId : String) : Found L → Stored L.Rest
  | .stored kept =>
    if configVersion < kept.version then kept
    else { kept with rest := L.withoutRemoved kept.rest }
  | .newer deviceId =>
    { version := configVersion
      deviceId := (deviceId.filter (fun id => id ≠ "")).getD newId
      rest := L.freshRest }
  | .damaged | .missing =>
    { version := configVersion, deviceId := newId, rest := L.withoutRemoved L.freshRest }

/-- A file that is moved is left under another name, unless that fails. -/
def moved (file : Option Bytes) (move : Bool) (aside : List Bytes) : Option Bytes × List Bytes :=
  match file with
  | some bytes => if move then (none, bytes :: aside) else (file, aside)
  | none => (none, aside)

/-- A damaged settings file is set aside. -/
def setAside (start : Start L) (disk : Disk) : Disk :=
  match found L disk.config with
  | .damaged =>
    let (config, aside) := moved disk.config start.moveConfig disk.aside
    { disk with config, aside }
  | .stored _ | .newer _ | .missing => disk

/-- For a fresh identity, the old key and certificate are. -/
def setPairAside (start : Start L) (disk : Disk) : Disk :=
  let (key, aside) := moved disk.key start.moveKey disk.aside
  let (certificate, aside) := moved disk.certificate start.moveCertificate aside
  { disk with key, certificate, aside }

/-- The directory when the key is read. -/
def prepared (start : Start L) (disk : Disk) : Disk :=
  if (found L disk.config).fresh then setPairAside start (setAside start disk)
  else setAside start disk

/-! ### The key and the certificate -/

def pickKey (start : Start L) (disk : Disk) : Except String L.Key :=
  match disk.key with
  | some bytes => L.readKey bytes
  | none => start.newKey

/-- The stored certificate, if it is one and of this key. -/
def storedCertificate (key : L.Key) (disk : Disk) : Option L.Certificate :=
  (disk.certificate.bind L.readCertificate).filter
    (fun certificate => certificateMatchesKey certificate key)

def pickCertificate (start : Start L) (disk : Disk) (key : L.Key) (deviceId : String) :
    Except String L.Certificate :=
  match storedCertificate key disk with
  | some certificate => .ok certificate
  | none => start.newCertificate key deviceId

/-! ### Saving -/

/-- `write_atomic_if_changed` -/
def writeIfChanged (file : Option Bytes) (bytes : Bytes) (write : Except String Unit) :
    Except String Bytes :=
  if file = some bytes then .ok bytes else write.map (fun _ => bytes)

/-- Writes the three files. What fails leaves those behind it as they are. -/
def writeFiles (start : Start L) (disk : Disk) (config : Config L) : Disk × Except String Unit :=
  match start.makeDirToSave with
  | .error error => (disk, .error error)
  | .ok () =>
    match (L.writeStored config.stored).bind
        (fun bytes => writeIfChanged disk.config bytes start.writeConfig) with
    | .error error => (disk, .error error)
    | .ok bytes =>
      let disk := { disk with config := some bytes }
      match (L.keyPem config.key).bind
          (fun bytes => writeIfChanged disk.key bytes start.writeKey) with
      | .error error => (disk, .error error)
      | .ok bytes =>
        let disk := { disk with key := some bytes }
        match (L.certificatePem config.certificate).bind
            (fun bytes => writeIfChanged disk.certificate bytes start.writeCertificate) with
        | .error error => (disk, .error error)
        | .ok bytes => ({ disk with certificate := some bytes }, .ok ())

/-- `load_from_dir`: the directory behind it, and the configuration. -/
def loadFromDir (start : Start L) (disk : Disk) : Disk × Except String (Config L) :=
  match start.makeDir with
  | .error error => (disk, .error error)
  | .ok () =>
    let file := found L disk.config
    let stored := file.settings start.newId
    let disk := prepared start disk
    match pickKey start disk with
    | .error error => (disk, .error error)
    | .ok key =>
      match pickCertificate start disk key stored.deviceId with
      | .error error => (disk, .error error)
      | .ok certificate =>
        let config : Config L := { stored, key, certificate, readOnly := file.readOnly }
        -- A failure to write is no reason not to run.
        if config.readOnly then (disk, .ok config) else ((writeFiles start disk config).1, .ok config)

end

end DeskLink.Identity
