import DeskLink.Proofs.Config.Mirrors

/-!
# `DeskLink.Proofs.Config.Failures`: calls that fail

A call that returns an error puts the record of the phone back, and
`update_settings` puts the settings back. `trust_device` with another certificate
and `untrust_device` have then cleared settings and a grant, which stay cleared;
and a save that fails after `config.json` was written leaves the change on disk.

`failed_call_iff`: after a failed call everything is as before, in memory and on
disk, exactly when there was nothing to clear and `config.json` was not written,
or was written as it was (`World.Harmless`).
-/

set_option autoImplicit false

namespace DeskLink.Config

variable {R V : Type} {world : World R} {id error : String} {failure : Option Failure}
variable {previous : Option TrustedDevice} {settings : AppSettings R}

/-- The certificate that is stored for a phone. -/
def StoredConfig.certificate (stored : StoredConfig R) (id : String) : Option String :=
  stored.trustedDevices[id]?.map TrustedDevice.certificatePem

/-! ### Putting a record back -/

/-- The records with the one of a phone put back. -/
def restored (devices : KeyMap TrustedDevice) (id : String) :
    Option TrustedDevice → KeyMap TrustedDevice
  | some record => devices.insert id record
  | none => devices.erase id

/-- What a failed save of a trust change leaves. -/
theorem saveOrRestore_error (h : (world.saveOrRestore id previous failure).2 = .error error) :
    (world.saveOrRestore id previous failure).1 =
      { world with
        stored :=
          { world.stored with
            trustedDevices := restored world.stored.trustedDevices id previous }
        terminalMirror := (world.mirrorTerminalAccess id
          (previous.any TrustedDevice.terminalAccess)).terminalMirror
        disk := if world.writes failure then .stored world.stored else world.disk } := by
  unfold World.saveOrRestore at h ⊢
  dsimp only at h ⊢
  cases hsaved : (world.save failure).2 with
  | ok _ =>
    rw [hsaved] at h
    cases h
  | error _ =>
    rw [save_fst]
    cases previous <;> rfl

/-- The record that was there is put back, whatever was stored for the phone
meanwhile. -/
theorem trustedDevices_restored {devices : KeyMap TrustedDevice}
    (hother : ∀ id', id ≠ id' → devices[id']? = world.stored.trustedDevices[id']?) :
    restored devices id world.stored.trustedDevices[id]? = world.stored.trustedDevices := by
  refine Std.ExtTreeMap.ext_getElem? (fun id' => ?_)
  by_cases heq : id = id'
  · subst heq
    cases world.stored.trustedDevices[id]? with
    | none => simp [restored]
    | some record => simp [restored]
  · rw [← hother id' heq]
    cases world.stored.trustedDevices[id]? with
    | none =>
      show (devices.erase id)[id']? = _
      rw [getElem?_keyErase, if_neg heq]
    | some record =>
      show (devices.insert id record)[id']? = _
      rw [getElem?_keyInsert, if_neg heq]

/-- So is its choice on terminals. -/
theorem terminalMirror_restored (hsound : world.Sound) {world' : World R}
    (hother : ∀ id', id ≠ id' → (id' ∈ world'.terminalMirror ↔ id' ∈ world.terminalMirror)) :
    (world'.mirrorTerminalAccess id
      (world.stored.trustedDevices[id]?.any TrustedDevice.terminalAccess)).terminalMirror
      = world.terminalMirror := by
  refine Std.ExtTreeSet.ext_mem (fun id' => ?_)
  rw [mem_mirrorTerminalAccess]
  by_cases heq : id = id'
  · subst heq
    rw [if_pos rfl, hsound.terminal]
    rfl
  · rw [if_neg heq]
    exact hother id' heq

/-! ### Clearing what is not there -/

/-- What is erased without a trace was not there. -/
theorem not_mem_of_erase_eq {s : KeySet} (h : s.erase id = s) : id ∉ s := by
  intro hid
  rw [← h, mem_keyErase] at hid
  exact hid.1 rfl

theorem withoutIdentity_eq_iff :
    settings.withoutIdentity id = settings ↔ settings.namesIdentity id = false := by
  refine ⟨fun h => ?_, withoutIdentity_eq⟩
  have hunlock := not_mem_of_erase_eq (congrArg AppSettings.unlockDevices h)
  have hwalk := not_mem_of_erase_eq (congrArg AppSettings.walkAwayDevices h)
  have hgallery := not_mem_of_erase_eq (congrArg AppSettings.galleryDevices h)
  have hdnd := not_mem_of_erase_eq (congrArg AppSettings.dndDevices h)
  simp [AppSettings.namesIdentity, hunlock, hwalk, hgallery, hdnd]

theorem withoutPairing_eq_iff :
    settings.withoutPairing id = settings ↔ settings.namesPairing id = false := by
  refine ⟨fun h => ?_, withoutPairing_eq⟩
  have hunlock := not_mem_of_erase_eq (congrArg AppSettings.unlockDevices h)
  have hwalk := not_mem_of_erase_eq (congrArg AppSettings.walkAwayDevices h)
  have hgallery := not_mem_of_erase_eq (congrArg AppSettings.galleryDevices h)
  have hdnd := not_mem_of_erase_eq (congrArg AppSettings.dndDevices h)
  have hhidden := not_mem_of_erase_eq (congrArg AppSettings.hiddenNotifications h)
  have hmuted := not_mem_of_erase_eq (congrArg AppSettings.mutedCommandAlerts h)
  have hawake := not_mem_of_erase_eq (congrArg AppSettings.keepAwakePhones h)
  have hcallers := not_mem_of_erase_eq (congrArg AppSettings.contactCallerNames h)
  simp [AppSettings.namesPairing, AppSettings.namesIdentity, hunlock, hwalk, hgallery, hdnd,
    hhidden, hmuted, hawake, hcallers]

theorem erase_eq_iff {m : KeyMap V} : m.erase id = m ↔ m[id]? = none := by
  refine ⟨fun h => ?_, erase_of_getElem? m⟩
  rw [← h, getElem?_keyErase, if_pos rfl]

theorem insert_eq_iff {m : KeyMap V} {v : V} : m.insert id v = m ↔ m[id]? = some v := by
  refine ⟨fun h => ?_, insert_of_getElem? m⟩
  rw [← h, getElem?_keyInsert, if_pos rfl]

/-- The record that a call stores is the one that is there. -/
theorem record_eq_iff (hsound : world.Sound) {info : DeviceInfo} {certificatePem : String}
    {record : TrustedDevice} (hrecord : world.stored.trustedDevices[info.id]? = some record) :
    record = { id := info.id, name := info.name, deviceType := info.deviceType
               protocolVersion := info.protocolVersion, certificatePem
               terminalAccess :=
                 decide (record.certificatePem = certificatePem) && record.terminalAccess
               extra := record.extra } ↔
      record.name = info.name ∧ record.deviceType = info.deviceType ∧
        record.protocolVersion = info.protocolVersion ∧ record.certificatePem = certificatePem := by
  have hid := hsound.keyed _ _ hrecord
  obtain ⟨id, name, deviceType, protocolVersion, pem, terminalAccess, extra⟩ := record
  simp only [TrustedDevice.mk.injEq] at hid ⊢
  constructor
  · rintro ⟨-, hname, htype, hversion, hpem, -, -⟩
    exact ⟨hname, htype, hversion, hpem⟩
  · rintro ⟨hname, htype, hversion, hpem⟩
    simp [hid, hname, htype, hversion, hpem]

theorem forgetIdentity_eq (id : String) :
    world.forgetIdentity id =
      { world with
        stored := { world.stored with settings := world.stored.settings.withoutIdentity id }
        settingsMirror := if world.stored.settings.namesIdentity id
          then world.stored.settings.withoutIdentity id else world.settingsMirror
        tokens := world.tokens.erase id } := by
  unfold World.forgetIdentity
  dsimp only
  split <;> rfl

/-- A new identity clears nothing when there is nothing of the old one. -/
theorem forgetIdentity_kept_iff {P : Prop} :
    ((world.forgetIdentity id).stored.settings = world.stored.settings ∧
      (world.forgetIdentity id).settingsMirror = world.settingsMirror ∧
      (world.forgetIdentity id).tokens = world.tokens ∧ P) ↔
      (world.stored.settings.namesIdentity id = false ∧ world.tokens[id]? = none) ∧ P := by
  rw [forgetIdentity_eq]
  dsimp only
  rw [withoutIdentity_eq_iff, erase_eq_iff]
  constructor
  · rintro ⟨hnone, -, htoken, hP⟩
    exact ⟨⟨hnone, htoken⟩, hP⟩
  · rintro ⟨⟨hnone, htoken⟩, hP⟩
    exact ⟨hnone, by simp [hnone], htoken, hP⟩

/-- The world as an unpairing leaves it before it saves. -/
def World.unpaired (world : World R) (id : String) : World R :=
  let settings := world.stored.settings
  { world with
    stored :=
      { trustedDevices := world.stored.trustedDevices.erase id
        settings := if settings.glidesOnto id then { settings.withoutPairing id with glide := none }
          else settings.withoutPairing id }
    settingsMirror := if settings.glidesOnto id then { settings.withoutPairing id with glide := none }
      else if settings.namesPairing id then settings.withoutPairing id else world.settingsMirror
    terminalMirror := world.terminalMirror.erase id
    tokens := world.tokens.erase id }

theorem untrustDevice_eq :
    world.untrustDevice id failure
      = (world.unpaired id).saveOrRestore id world.stored.trustedDevices[id]? failure := by
  have hglide : (world.stored.settings.withoutPairing id).glidesOnto id
      = world.stored.settings.glidesOnto id := rfl
  unfold World.untrustDevice World.unpaired
  dsimp only
  cases hglides : world.stored.settings.glidesOnto id <;>
    cases hnames : world.stored.settings.namesPairing id <;>
    simp [hglides, hglide, World.setSettings, World.mirrorSettings, World.removeRecord,
      World.mirrorTerminalAccess, World.setRemoteDesktopToken]

theorem unpaired_settings_iff :
    (world.unpaired id).stored.settings = world.stored.settings ↔
      world.stored.settings.namesPairing id = false ∧
        world.stored.settings.glidesOnto id = false := by
  unfold World.unpaired
  dsimp only
  cases hglides : world.stored.settings.glidesOnto id with
  | false => simpa using withoutPairing_eq_iff
  | true =>
    -- Glide is on, and goes off.
    simp only [if_true, Bool.true_eq_false, and_false, iff_false]
    intro heq
    have hglide := congrArg AppSettings.glide heq
    unfold AppSettings.glidesOnto at hglides
    rw [← hglide] at hglides
    simp at hglides

/-! ### When a failed call changes nothing -/

/-- The phone is recorded as it would be by this call. -/
def World.Recorded (world : World R) (info : DeviceInfo) (certificatePem : String) : Prop :=
  ∃ record, world.stored.trustedDevices[info.id]? = some record ∧ record.name = info.name ∧
    record.deviceType = info.deviceType ∧ record.protocolVersion = info.protocolVersion ∧
    record.certificatePem = certificatePem

/-- There is nothing for the call to clear, and if its save gets as far as
`config.json` it has nothing to change there. -/
def World.Harmless (world : World R) : ConfigOp R → Prop
  | .trustDevice info certificatePem failure =>
    (world.stored.certificate info.id = some certificatePem ∨
      (world.stored.settings.namesIdentity info.id = false ∧ world.tokens[info.id]? = none)) ∧
    (world.writes failure = true → world.Recorded info certificatePem)
  | .untrustDevice id failure =>
    world.stored.settings.namesPairing id = false ∧
      world.stored.settings.glidesOnto id = false ∧ world.tokens[id]? = none ∧
      (world.writes failure = true → world.stored.trustedDevices[id]? = none)
  | .updateSettings change failure =>
    world.writes failure = true → change world.stored.settings = world.stored.settings
  | _ => True

/-- The calls that change the trust store or the settings. -/
def ConfigOp.changesStore : ConfigOp R → Bool
  | .trustDevice .. | .untrustDevice .. | .updateSettings .. => true
  | _ => false

variable [Inhabited R]

/-- What a start would read from disk is what is in memory. -/
def World.Agrees (world : World R) : Prop := world.disk.read.1 = world.stored

/-- Nothing changed, and the disk agrees. -/
structure World.Kept (world world' : World R) : Prop where
  stored : world'.stored = world.stored
  settingsMirror : world'.settingsMirror = world.settingsMirror
  terminalMirror : world'.terminalMirror = world.terminalMirror
  tokens : world'.tokens = world.tokens
  agrees : world'.Agrees

theorem updateSettings_kept_iff (hagrees : world.Agrees) {change : AppSettings R → AppSettings R}
    (herror : (world.updateSettings change failure).2 = .error error) :
    world.Kept (world.updateSettings change failure).1 ↔
      world.Harmless (.updateSettings change failure) := by
  have hafter : (world.updateSettings change failure).1 =
      { world with
        disk := if world.writes failure
          then .stored { world.stored with settings := change world.stored.settings }
          else world.disk } := by
    unfold World.updateSettings at herror ⊢
    dsimp only at herror ⊢
    cases hsaved : ((world.setSettings (change world.stored.settings)).save failure).2 with
    | ok _ =>
      rw [hsaved] at herror
      cases herror
    | error _ =>
      rw [save_fst]
      rfl
  rw [hafter]
  constructor
  · intro hkept hwrites
    have hagree := hkept.agrees
    unfold World.Agrees at hagree
    dsimp only at hagree
    rw [if_pos hwrites] at hagree
    exact congrArg StoredConfig.settings hagree
  · intro hharmless
    refine ⟨rfl, rfl, rfl, rfl, ?_⟩
    unfold World.Agrees
    dsimp only
    split
    · rename_i hwrites
      rw [hharmless hwrites]
      rfl
    · exact hagrees

/-- A trust change whose save failed: everything is as before if the rest of what
it did was nothing, and `config.json` was written as it was or not at all. -/
theorem restore_kept_iff (hsound : world.Sound) (hagrees : world.Agrees) {change : World R}
    (hdevices : ∀ id', id ≠ id' →
      change.stored.trustedDevices[id']? = world.stored.trustedDevices[id']?)
    (hmirror : ∀ id', id ≠ id' → (id' ∈ change.terminalMirror ↔ id' ∈ world.terminalMirror))
    (hreadOnly : change.readOnly = world.readOnly) (hdisk : change.disk = world.disk)
    {error : String}
    (herror : (change.saveOrRestore id world.stored.trustedDevices[id]? failure).2
      = .error error) :
    world.Kept (change.saveOrRestore id world.stored.trustedDevices[id]? failure).1 ↔
      change.stored.settings = world.stored.settings ∧
        change.settingsMirror = world.settingsMirror ∧ change.tokens = world.tokens ∧
        (world.writes failure = true →
          change.stored.trustedDevices = world.stored.trustedDevices) := by
  have hwrites : change.writes failure = world.writes failure := by
    unfold World.writes
    rw [hreadOnly]
  rw [saveOrRestore_error herror, trustedDevices_restored hdevices,
    terminalMirror_restored hsound hmirror, hwrites, hdisk]
  constructor
  · intro hkept
    have hsettings := congrArg StoredConfig.settings hkept.stored
    refine ⟨hsettings, hkept.settingsMirror, hkept.tokens, fun hwrote => ?_⟩
    have hagree := hkept.agrees
    unfold World.Agrees at hagree
    dsimp only at hagree
    rw [if_pos hwrote] at hagree
    have hdevices := congrArg StoredConfig.trustedDevices hagree
    exact hdevices
  · rintro ⟨hsettings, hsettingsMirror, htokens, hwrote⟩
    refine ⟨?_, hsettingsMirror, rfl, htokens, ?_⟩
    · show ({ trustedDevices := _, settings := change.stored.settings } : StoredConfig R) = _
      rw [hsettings]
    · unfold World.Agrees
      dsimp only
      rw [hsettings]
      split
      · rename_i hwrites
        show change.stored = world.stored
        rw [show change.stored = ⟨change.stored.trustedDevices, change.stored.settings⟩ from rfl,
          hwrote hwrites, hsettings]
      · exact hagrees

/-- The same for a record that is set, after `known` was made of the world. -/
theorem setRecord_kept_iff (hsound : world.Sound) (hagrees : world.Agrees) {known : World R}
    {record : TrustedDevice} {terminalAccess : Bool}
    (hprevious : world.stored.trustedDevices[id]? = previous)
    (hdevices : known.stored.trustedDevices = world.stored.trustedDevices)
    (hterminal : known.terminalMirror = world.terminalMirror)
    (hreadOnly : known.readOnly = world.readOnly) (hdisk : known.disk = world.disk)
    (herror : (((known.mirrorTerminalAccess id terminalAccess).setRecord id record).saveOrRestore
      id previous failure).2 = .error error) :
    world.Kept (((known.mirrorTerminalAccess id terminalAccess).setRecord id record).saveOrRestore
        id previous failure).1 ↔
      known.stored.settings = world.stored.settings ∧
        known.settingsMirror = world.settingsMirror ∧ known.tokens = world.tokens ∧
        (world.writes failure = true → previous = some record) := by
  subst hprevious
  have hset : ((known.mirrorTerminalAccess id terminalAccess).setRecord id
      record).stored.trustedDevices = world.stored.trustedDevices.insert id record := by
    rw [← hdevices]
    rfl
  rw [← insert_eq_iff, ← hset]
  refine restore_kept_iff hsound hagrees (fun id' hne => ?_) (fun id' hne => ?_) hreadOnly hdisk
    herror
  · rw [hset, getElem?_keyInsert, if_neg hne]
  · show id' ∈ (known.mirrorTerminalAccess id terminalAccess).terminalMirror ↔ _
    rw [mem_mirrorTerminalAccess, if_neg hne, hterminal]

theorem trustDevice_kept_iff (hsound : world.Sound) (hagrees : world.Agrees) {info : DeviceInfo}
    {certificatePem : String}
    (herror : (world.trustDevice info certificatePem failure).2 = .error error) :
    world.Kept (world.trustDevice info certificatePem failure).1 ↔
      world.Harmless (.trustDevice info certificatePem failure) := by
  unfold World.Harmless World.Recorded StoredConfig.certificate
  unfold World.trustDevice at herror ⊢
  dsimp only at herror ⊢
  have hforgotten := @forgetIdentity_eq R world info.id
  cases hrecord : world.stored.trustedDevices[info.id]? with
  | none =>
    -- A phone without a record is a new identity.
    simp only [hrecord, Option.any_none, Bool.false_eq_true, if_false] at herror ⊢
    rw [setRecord_kept_iff hsound hagrees hrecord (by rw [hforgotten]) (by rw [hforgotten])
      (by rw [hforgotten]) (by rw [hforgotten]) herror, forgetIdentity_kept_iff]
    simp
  | some record =>
    have heq := @record_eq_iff R world hsound info certificatePem record hrecord
    simp only [hrecord, Option.any_some, Option.map_some, Option.getD_some] at herror ⊢
    by_cases hsame : record.certificatePem = certificatePem
    · simp only [hsame, decide_true, if_true, Bool.true_and] at herror heq ⊢
      rw [setRecord_kept_iff hsound hagrees hrecord rfl rfl rfl rfl herror, Option.some.injEq,
        heq]
      simp [hsame]
    · simp only [hsame, decide_false, Bool.false_eq_true, if_false, Bool.false_and] at herror heq ⊢
      rw [setRecord_kept_iff hsound hagrees hrecord (by rw [hforgotten]) (by rw [hforgotten])
        (by rw [hforgotten]) (by rw [hforgotten]) herror, forgetIdentity_kept_iff,
        Option.some.injEq, heq]
      simp [hsame]

theorem untrustDevice_kept_iff (hsound : world.Sound) (hagrees : world.Agrees)
    (herror : (world.untrustDevice id failure).2 = .error error) :
    world.Kept (world.untrustDevice id failure).1 ↔
      world.Harmless (.untrustDevice id failure) := by
  rw [untrustDevice_eq] at herror ⊢
  have hdevices : (world.unpaired id).stored.trustedDevices
      = world.stored.trustedDevices.erase id := rfl
  have hkept := @restore_kept_iff R world id failure _ hsound hagrees (world.unpaired id)
    (by
      intro id' hne
      rw [hdevices, getElem?_keyErase, if_neg hne])
    (by
      intro id' hne
      show id' ∈ world.terminalMirror.erase id ↔ _
      rw [mem_keyErase]
      exact ⟨And.right, fun hid => ⟨hne, hid⟩⟩)
    rfl rfl error herror
  have htokens : (world.unpaired id).tokens = world.tokens.erase id := rfl
  rw [hkept, unpaired_settings_iff, hdevices, htokens, erase_eq_iff, erase_eq_iff]
  constructor
  · rintro ⟨⟨hnames, hglides⟩, -, htokens, hwrote⟩
    exact ⟨hnames, hglides, htokens, hwrote⟩
  · rintro ⟨hnames, hglides, htokens, hwrote⟩
    refine ⟨⟨hnames, hglides⟩, ?_, htokens, hwrote⟩
    unfold World.unpaired
    simp [hnames, hglides]

/-! ### Every reachable configuration -/

/-- In every state that calls and restarts lead to, with memory and disk in
agreement, and for every trust or settings change that returns an error: all is
as before, in memory and on disk, exactly when the call was harmless. -/
theorem failed_call_iff (newer : Bool) (failure : Option Failure) (ops : List (ConfigOp R))
    (hagrees : (World.run newer failure ops).Agrees) (op : ConfigOp R)
    (hop : op.changesStore = true) (error : String)
    (herror : ((World.run newer failure ops).call op).2 = .error error) :
    (World.run newer failure ops).Kept ((World.run newer failure ops).after op) ↔
      (World.run newer failure ops).Harmless op := by
  have hsound := run_sound newer failure ops
  cases op with
  | trustDevice info certificatePem failure => exact trustDevice_kept_iff hsound hagrees herror
  | untrustDevice id failure => exact untrustDevice_kept_iff hsound hagrees herror
  | updateSettings change failure => exact updateSettings_kept_iff hagrees herror
  | _ => cases hop

/-- A phone is paired and may unlock this computer. -/
def pairedOps : List (ConfigOp Unit) :=
  [.trustDevice { id := "p", name := "Phone", deviceType := "phone", protocolVersion := 7 } "A" none,
    .updateSettings (fun settings =>
      { settings with unlockDevices := settings.unlockDevices.insert "p" }) none]

def diskFull (step : SaveStep) : Failure := { step, error := "No space left on device" }

/-- A change of the settings that the disk has no room for. -/
theorem failed_call_iff_pairedOps :
    (World.run false none pairedOps).Agrees ∧
      ((World.run false none pairedOps).Kept ((World.run false none pairedOps).after
          (.updateSettings (fun settings => { settings with glide := none })
            (some (diskFull .configJson)))) ↔
        (World.run false none pairedOps).Harmless
          (.updateSettings (fun settings => { settings with glide := none })
            (some (diskFull .configJson)))) := by
  have hagrees : (World.run false none pairedOps).Agrees := by
    unfold World.Agrees
    decide +kernel
  exact ⟨hagrees, failed_call_iff false none pairedOps hagrees _ rfl
    (saveFailed ++ "No space left on device") (by decide +kernel)⟩

/-- An unpairing that cannot be saved puts the phone back, and takes unlocking
from it; and a setting whose save fails at the private key is on disk and not in
memory. -/
theorem failed_unpairing_clears :
    ((World.run false none pairedOps).call
        (.untrustDevice "p" (some (diskFull .configJson)))).2 =
      .error (saveFailed ++ "No space left on device") ∧
    (World.run false none pairedOps).Agrees ∧
    ((World.run false none pairedOps).after
      (.untrustDevice "p" (some (diskFull .configJson)))).stored.settings ≠
        (World.run false none pairedOps).stored.settings ∧
    ((World.run false none pairedOps).call
        (.updateSettings (fun settings => { settings with unlockDevices := {} })
          (some (diskFull .privateKey)))).2 =
      .error (saveFailed ++ "No space left on device") ∧
    ¬ ((World.run false none pairedOps).after
        (.updateSettings (fun settings => { settings with unlockDevices := {} })
          (some (diskFull .privateKey)))).Agrees := by
  unfold World.Agrees
  refine ⟨?_, ?_, ?_, ?_, ?_⟩ <;> decide +kernel

end DeskLink.Config
