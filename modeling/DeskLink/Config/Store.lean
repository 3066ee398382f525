import DeskLink.Lib.KeyMap
import DeskLink.Lib.Trace

/-!
# `DeskLink.Config.Store`: the trust store, the settings and their mirrors

`config.rs`. `Config` holds what `config.json` stores: the paired phones and the
settings. Three things beside it are read without it: the mirror of the
settings, the mirror of terminal access, and the remembered desktop grants, which
are in memory only.

A save makes the folder and writes three files, each as a whole or not at all. A
`Failure` says which of these failed, and with what words. The key and the
certificate do not change, and a file that reads as it should is not written.

Of `AppSettings` the fields that name a phone are modelled, and the others are
one field of any type `R`. What `trust_device` and `untrust_device` make other
modules forget is left out, and so are the fields of `config.json` that no call
here changes. Only these calls write `config.json`, so it is never damaged.
-/

set_option autoImplicit false

namespace DeskLink.Config

/-- The words for a settings file that a newer DeskLink wrote. -/
def newerUnreadable : String :=
  "This settings file is from a newer DeskLink; changes will not be saved. Update DeskLink, or move the file aside to start fresh."

/-- Starts the error of a settings save that failed on the disk. -/
def saveFailed : String := "Could not save the settings: "

def notPaired : String := "That device is not paired"

structure DeviceInfo where
  id : String
  name : String
  deviceType : String
  protocolVersion : Int
deriving DecidableEq, Repr

structure TrustedDevice where
  id : String
  name : String
  deviceType : String
  protocolVersion : Int
  certificatePem : String
  /-- Whether this phone may open terminals on this computer. -/
  terminalAccess : Bool
  /-- Fields a newer build wrote for this phone, each with its JSON. -/
  extra : List (String × String)
deriving DecidableEq, Repr

/-- Where the phone sits, beside this screen. -/
inductive Edge where
  | left | right | top | bottom
deriving DecidableEq, Repr

structure GlideSetting where
  device : String
  edge : Edge
deriving DecidableEq, Repr

/-- App-wide preferences. The sets are of phones. -/
structure AppSettings (R : Type) where
  hiddenNotifications : KeySet := {}
  mutedCommandAlerts : KeySet := {}
  keepAwakePhones : KeySet := {}
  unlockDevices : KeySet := {}
  walkAwayDevices : KeySet := {}
  galleryDevices : KeySet := {}
  dndDevices : KeySet := {}
  contactCallerNames : KeySet := {}
  glide : Option GlideSetting := none
  /-- The settings that are not of one phone. -/
  other : R
deriving DecidableEq

structure StoredConfig (R : Type) where
  trustedDevices : KeyMap TrustedDevice := {}
  settings : AppSettings R
deriving DecidableEq

/-- `config.json`. -/
inductive ConfigJson (R : Type) where
  | missing
  | stored (config : StoredConfig R)
  /-- Written by a newer build, and not to be read by this one. -/
  | newer
deriving DecidableEq

/-- What a save does, one after the other. -/
inductive SaveStep where
  | folder | configJson | privateKey | certificate
deriving DecidableEq, Repr

/-- A step of a save that fails, and the error it gives. -/
structure Failure where
  step : SaveStep
  error : String
deriving DecidableEq, Repr

variable {R : Type}

/-- The configuration, what mirrors it, and the disk. -/
structure World (R : Type) where
  stored : StoredConfig R
  readOnly : Bool
  settingsMirror : AppSettings R
  terminalMirror : KeySet
  /-- The remembered desktop grants. -/
  tokens : KeyMap String
  disk : ConfigJson R

namespace AppSettings

variable (settings : AppSettings R) (id : String)

/-- What a new identity behind an id does not inherit. -/
def withoutIdentity : AppSettings R :=
  { settings with
    unlockDevices := settings.unlockDevices.erase id
    walkAwayDevices := settings.walkAwayDevices.erase id
    galleryDevices := settings.galleryDevices.erase id
    dndDevices := settings.dndDevices.erase id }

/-- One of those was on. -/
def namesIdentity : Bool :=
  id ∈ settings.unlockDevices ∨ id ∈ settings.walkAwayDevices ∨ id ∈ settings.galleryDevices ∨
    id ∈ settings.dndDevices

/-- What was chosen for a phone and goes with its pairing, Glide apart. -/
def withoutPairing : AppSettings R :=
  { settings.withoutIdentity id with
    hiddenNotifications := settings.hiddenNotifications.erase id
    mutedCommandAlerts := settings.mutedCommandAlerts.erase id
    keepAwakePhones := settings.keepAwakePhones.erase id
    contactCallerNames := settings.contactCallerNames.erase id }

/-- One of those was chosen. -/
def namesPairing : Bool :=
  settings.namesIdentity id ∨ id ∈ settings.hiddenNotifications ∨
    id ∈ settings.mutedCommandAlerts ∨ id ∈ settings.keepAwakePhones ∨
    id ∈ settings.contactCallerNames

/-- Glide goes onto this phone. -/
def glidesOnto : Bool := settings.glide.any (fun glide => glide.device = id)

end AppSettings

/-- The grant for an extended display has a key of its own. -/
def extendKey (id : String) : String := id ++ ":extend"

namespace World

variable (world : World R)

def mirrorTerminalAccess (id : String) (allowed : Bool) : World R :=
  { world with
    terminalMirror :=
      if allowed then world.terminalMirror.insert id else world.terminalMirror.erase id }

def mirrorSettings : World R := { world with settingsMirror := world.stored.settings }

def setSettings (settings : AppSettings R) : World R :=
  { world with stored := { world.stored with settings } }

def setRecord (id : String) (record : TrustedDevice) : World R :=
  { world with
    stored :=
      { world.stored with trustedDevices := world.stored.trustedDevices.insert id record } }

def removeRecord (id : String) : World R :=
  { world with
    stored := { world.stored with trustedDevices := world.stored.trustedDevices.erase id } }

def setRemoteDesktopToken (key : String) (token : Option String) : World R :=
  { world with
    tokens := match token with
      | some token => world.tokens.insert key token
      | none => world.tokens.erase key }

/-- Writes the files. What failed leaves those before it written. -/
def save (failure : Option Failure) : World R × Except String Unit :=
  if world.readOnly then (world, .error newerUnreadable)
  else match failure with
    | none => ({ world with disk := .stored world.stored }, .ok ())
    | some failure => match failure.step with
      | .folder | .configJson => (world, .error (saveFailed ++ failure.error))
      | .privateKey | .certificate =>
        ({ world with disk := .stored world.stored }, .error (saveFailed ++ failure.error))

/-- Applies `change` to the settings and persists them. -/
def updateSettings (change : AppSettings R → AppSettings R) (failure : Option Failure) :
    World R × Except String Unit :=
  let saved := (world.setSettings (change world.stored.settings)).save failure
  match saved.2 with
  | .error error => (saved.1.setSettings world.stored.settings, .error error)
  | .ok () => (saved.1.mirrorSettings, .ok ())

/-- Lets a phone open terminals on this computer, or stops it. A grant that
cannot be saved is not applied, and a revocation still is. -/
def setTerminalAccess (id : String) (allowed : Bool) (failure : Option Failure) :
    World R × Except String Unit :=
  match world.stored.trustedDevices[id]? with
  | none => (world, .error notPaired)
  | some record =>
    let saved := (world.setRecord id { record with terminalAccess := allowed }).save failure
    let effective := allowed && saved.2.isOk
    ((saved.1.setRecord id { record with terminalAccess := effective }).mirrorTerminalAccess id
      effective, saved.2)

/-- Saves, or puts the device's previous record back if the save fails. -/
def saveOrRestore (id : String) (previous : Option TrustedDevice) (failure : Option Failure) :
    World R × Except String Unit :=
  let saved := world.save failure
  match saved.2 with
  | .ok () => (saved.1, .ok ())
  | .error error => match previous with
    | some record =>
      ((saved.1.mirrorTerminalAccess id record.terminalAccess).setRecord id record, .error error)
    | none => ((saved.1.mirrorTerminalAccess id false).removeRecord id, .error error)

/-- What a new identity behind the id does not inherit. -/
def forgetIdentity (id : String) : World R :=
  let forgotten := world.setRemoteDesktopToken id none
  let cleared := forgotten.setSettings (world.stored.settings.withoutIdentity id)
  if world.stored.settings.namesIdentity id then cleared.mirrorSettings else cleared

def trustDevice (info : DeviceInfo) (certificatePem : String) (failure : Option Failure) :
    World R × Except String Unit :=
  let previous := world.stored.trustedDevices[info.id]?
  -- The same certificate is the same trust, so the choice carries over.
  let terminalAccess := previous.any (fun existing =>
    existing.certificatePem = certificatePem && existing.terminalAccess)
  let sameIdentity := previous.any (fun existing => existing.certificatePem = certificatePem)
  let known := if sameIdentity then world else world.forgetIdentity info.id
  let record : TrustedDevice :=
    { id := info.id, name := info.name, deviceType := info.deviceType
      protocolVersion := info.protocolVersion, certificatePem, terminalAccess
      extra := (previous.map TrustedDevice.extra).getD [] }
  ((known.mirrorTerminalAccess info.id terminalAccess).setRecord info.id record).saveOrRestore
    info.id previous failure

def untrustDevice (id : String) (failure : Option Failure) : World R × Except String Unit :=
  let previous := world.stored.trustedDevices[id]?
  let removed := ((world.removeRecord id).mirrorTerminalAccess id false).setRemoteDesktopToken id none
  let cleared := removed.setSettings (world.stored.settings.withoutPairing id)
  let cleared := if world.stored.settings.namesPairing id then cleared.mirrorSettings else cleared
  let unglided := if cleared.stored.settings.glidesOnto id then
      (cleared.setSettings { cleared.stored.settings with glide := none }).mirrorSettings
    else cleared
  unglided.saveOrRestore id previous failure

/-- The mirror of terminal access after each phone of a loaded file. -/
def loadTerminalAccess (devices : List TrustedDevice) (world : World R) : World R :=
  devices.foldl (fun world device => world.mirrorTerminalAccess device.id device.terminalAccess)
    world

end World

variable [Inhabited R]

instance : Inhabited (StoredConfig R) := ⟨{ settings := { other := default } }⟩

/-- What is read of `config.json`, and whether it is kept as it is. -/
def ConfigJson.read : ConfigJson R → StoredConfig R × Bool
  | .missing => (default, false)
  | .stored config => (config, false)
  | .newer => (default, true)

/-- `load_from_dir` in a new process. -/
def loadFromDir (disk : ConfigJson R) (failure : Option Failure) : World R :=
  let loaded : World R :=
    { stored := disk.read.1, readOnly := disk.read.2, settingsMirror := { other := default }
      terminalMirror := {}, tokens := {}, disk }
  let devices := disk.read.1.trustedDevices.toList.map Prod.snd
  let mirrored := (loaded.loadTerminalAccess devices).mirrorSettings
  -- A failure to write is no reason not to run.
  if mirrored.readOnly then mirrored else (mirrored.save failure).1

/-- A call, with what its save does. -/
inductive ConfigOp (R : Type) where
  | trustDevice (info : DeviceInfo) (certificatePem : String) (failure : Option Failure)
  | untrustDevice (id : String) (failure : Option Failure)
  | setTerminalAccess (id : String) (allowed : Bool) (failure : Option Failure)
  | updateSettings (change : AppSettings R → AppSettings R) (failure : Option Failure)
  /-- A share that started remembers its grant, or forgets one that failed. -/
  | setRemoteDesktopToken (key : String) (token : Option String)
  | restart (failure : Option Failure)

namespace World

variable (world : World R)

/-- What a call does, and returns. -/
def call : ConfigOp R → World R × Except String Unit
  | .trustDevice info certificatePem failure => world.trustDevice info certificatePem failure
  | .untrustDevice id failure => world.untrustDevice id failure
  | .setTerminalAccess id allowed failure => world.setTerminalAccess id allowed failure
  | .updateSettings change failure => world.updateSettings change failure
  | .setRemoteDesktopToken key token => (world.setRemoteDesktopToken key token, .ok ())
  | .restart failure => (loadFromDir world.disk failure, .ok ())

def after (op : ConfigOp R) : World R := (world.call op).1

end World

end DeskLink.Config
