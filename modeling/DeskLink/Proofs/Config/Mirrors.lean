import DeskLink.Config.Store

/-!
# `DeskLink.Proofs.Config.Mirrors`: the mirrors are what is stored

`World.Sound`: the mirror of the settings and the mirror of terminal access agree
with the configuration in memory, and every record is kept under its own id, in
memory and on disk. Each call keeps it, whatever its save does (`after_sound`),
and so it holds in every state of every run (`run_sound`).
-/

set_option autoImplicit false

namespace DeskLink.Config

variable {R : Type} {world world' : World R} {id : String} {stored : StoredConfig R}
variable {record : TrustedDevice} {settings : AppSettings R}

/-! ### Saving -/

/-- The save gets as far as `config.json`. -/
def World.writes (world : World R) (failure : Option Failure) : Bool :=
  !world.readOnly && failure.all (fun failure =>
    failure.step = .privateKey ∨ failure.step = .certificate)

theorem save_fst (failure : Option Failure) :
    (world.save failure).1 =
      { world with disk := if world.writes failure then .stored world.stored else world.disk } := by
  obtain ⟨stored, readOnly, settingsMirror, terminalMirror, tokens, disk⟩ := world
  unfold World.save World.writes
  cases readOnly with
  | true => rfl
  | false =>
    cases failure with
    | none => rfl
    | some failure =>
      obtain ⟨step, error⟩ := failure
      cases step <;> rfl

theorem save_ok_iff (failure : Option Failure) :
    (world.save failure).2 = .ok () ↔ world.readOnly = false ∧ failure = none := by
  unfold World.save
  cases world.readOnly with
  | true => simp
  | false =>
    cases failure with
    | none => simp
    | some failure =>
      obtain ⟨step, error⟩ := failure
      cases step <;> simp

/-! ### Records and mirrors -/

/-- Every record is kept under its own id. -/
def StoredConfig.Keyed (stored : StoredConfig R) : Prop :=
  ∀ (id : String) (record : TrustedDevice),
    stored.trustedDevices[id]? = some record → record.id = id

/-- The stored choice on terminals. -/
def StoredConfig.opensTerminals (stored : StoredConfig R) (id : String) : Bool :=
  stored.trustedDevices[id]?.any TrustedDevice.terminalAccess

structure World.Sound (world : World R) : Prop where
  settings : world.settingsMirror = world.stored.settings
  terminal : ∀ id, id ∈ world.terminalMirror ↔ world.stored.opensTerminals id = true
  keyed : world.stored.Keyed
  diskKeyed : ∀ config, world.disk = .stored config → config.Keyed

theorem keyed_new (settings : AppSettings R) : StoredConfig.Keyed { settings } := by
  intro id record h
  simp at h

theorem StoredConfig.Keyed.insert (h : stored.Keyed) (hid : record.id = id)
    (settings : AppSettings R) :
    StoredConfig.Keyed { trustedDevices := stored.trustedDevices.insert id record, settings } := by
  intro id' record' h'
  have h' : (stored.trustedDevices.insert id record)[id']? = some record' := h'
  rw [getElem?_keyInsert] at h'
  split at h'
  · rename_i heq
    rw [Option.some.injEq] at h'
    rw [← h', hid, heq]
  · exact h id' record' h'

theorem StoredConfig.Keyed.erase (h : stored.Keyed) (id : String) (settings : AppSettings R) :
    StoredConfig.Keyed { trustedDevices := stored.trustedDevices.erase id, settings } := by
  intro id' record' h'
  have h' : (stored.trustedDevices.erase id)[id']? = some record' := h'
  rw [getElem?_keyErase] at h'
  split at h'
  · cases h'
  · exact h id' record' h'

theorem mem_mirrorTerminalAccess {id' : String} {allowed : Bool} :
    id' ∈ (world.mirrorTerminalAccess id allowed).terminalMirror ↔
      if id = id' then allowed = true else id' ∈ world.terminalMirror := by
  unfold World.mirrorTerminalAccess
  cases allowed with
  | true =>
    show id' ∈ world.terminalMirror.insert id ↔ _
    rw [mem_keyInsert]
    by_cases heq : id = id' <;> simp [heq]
  | false =>
    show id' ∈ world.terminalMirror.erase id ↔ _
    rw [mem_keyErase]
    by_cases heq : id = id' <;> simp [heq]

/-- A record is stored, and its choice mirrored. -/
theorem World.Sound.setRecord (h : world.Sound) (hid : record.id = id) :
    ((world.mirrorTerminalAccess id record.terminalAccess).setRecord id record).Sound where
  settings := h.settings
  terminal id' := by
    show id' ∈ (world.mirrorTerminalAccess id record.terminalAccess).terminalMirror ↔
      (world.stored.trustedDevices.insert id record)[id']?.any _ = true
    rw [mem_mirrorTerminalAccess, getElem?_keyInsert]
    split
    · rfl
    · exact h.terminal id'
  keyed := h.keyed.insert hid _
  diskKeyed := h.diskKeyed

/-- A record is removed. -/
theorem World.Sound.removeRecord (h : world.Sound) (id : String) :
    ((world.mirrorTerminalAccess id false).removeRecord id).Sound where
  settings := h.settings
  terminal id' := by
    show id' ∈ (world.mirrorTerminalAccess id false).terminalMirror ↔
      (world.stored.trustedDevices.erase id)[id']?.any _ = true
    rw [mem_mirrorTerminalAccess, getElem?_keyErase]
    split
    · simp
    · exact h.terminal id'
  keyed := h.keyed.erase id _
  diskKeyed := h.diskKeyed

/-- Settings are changed, and mirrored. -/
theorem World.Sound.setSettings (h : world.Sound) (settings : AppSettings R) :
    (world.setSettings settings).mirrorSettings.Sound := ⟨rfl, h.terminal, h.keyed, h.diskKeyed⟩

/-- What is saved is keyed as it is in memory. -/
theorem save_diskKeyed (hkeyed : world.stored.Keyed)
    (hdisk : ∀ config, world.disk = .stored config → config.Keyed) (failure : Option Failure)
    (config : StoredConfig R) (hsaved : (world.save failure).1.disk = .stored config) :
    config.Keyed := by
  rw [save_fst] at hsaved
  have hsaved : (if world.writes failure then .stored world.stored else world.disk)
      = ConfigJson.stored config := hsaved
  split at hsaved
  · cases hsaved
    exact hkeyed
  · exact hdisk config hsaved

theorem World.Sound.save (h : world.Sound) (failure : Option Failure) :
    (world.save failure).1.Sound := by
  have hdisk := save_diskKeyed h.keyed h.diskKeyed failure
  rw [save_fst] at hdisk ⊢
  exact ⟨h.settings, h.terminal, h.keyed, hdisk⟩

theorem World.Sound.saveOrRestore (h : world.Sound) {previous : Option TrustedDevice}
    (hprevious : ∀ record ∈ previous, record.id = id) (failure : Option Failure) :
    (world.saveOrRestore id previous failure).1.Sound := by
  unfold World.saveOrRestore
  have hsaved := h.save failure
  dsimp only
  split
  · exact hsaved
  · cases previous with
    | none => exact hsaved.removeRecord id
    | some record => exact hsaved.setRecord (hprevious record rfl)

/-! ### The calls -/

/-- Clearing settings that were not there changes nothing. -/
theorem withoutIdentity_eq (h : settings.namesIdentity id = false) :
    settings.withoutIdentity id = settings := by
  simp only [AppSettings.namesIdentity, decide_eq_false_iff_not, not_or] at h
  obtain ⟨hunlock, hwalk, hgallery, hdnd⟩ := h
  unfold AppSettings.withoutIdentity
  rw [erase_of_not_mem _ hunlock, erase_of_not_mem _ hwalk, erase_of_not_mem _ hgallery,
    erase_of_not_mem _ hdnd]

theorem withoutPairing_eq (h : settings.namesPairing id = false) :
    settings.withoutPairing id = settings := by
  simp only [AppSettings.namesPairing, decide_eq_false_iff_not, not_or] at h
  obtain ⟨hidentity, hhidden, hmuted, hawake, hcallers⟩ := h
  unfold AppSettings.withoutPairing
  rw [withoutIdentity_eq (by simpa using hidentity), erase_of_not_mem _ hhidden,
    erase_of_not_mem _ hmuted, erase_of_not_mem _ hawake, erase_of_not_mem _ hcallers]

theorem forgetIdentity_sound (h : world.Sound) (id : String) : (world.forgetIdentity id).Sound := by
  unfold World.forgetIdentity
  dsimp only
  split
  · exact ⟨rfl, h.terminal, h.keyed, h.diskKeyed⟩
  · rename_i hnone
    rw [withoutIdentity_eq (by simpa using hnone)]
    exact ⟨h.settings, h.terminal, h.keyed, h.diskKeyed⟩

theorem trustDevice_sound (h : world.Sound) (info : DeviceInfo) (certificatePem : String)
    (failure : Option Failure) : (world.trustDevice info certificatePem failure).1.Sound := by
  unfold World.trustDevice
  dsimp only
  refine World.Sound.saveOrRestore ?_ (fun record hrecord => h.keyed _ _ hrecord) failure
  refine World.Sound.setRecord ?_ rfl
  split
  · exact h
  · exact forgetIdentity_sound h info.id

/-- What an unpairing clears beside the record: the settings, and their mirror
with them. -/
theorem World.Sound.clear (h : world.Sound) (id : String) :
    (if world.stored.settings.namesPairing id then
        (world.setSettings (world.stored.settings.withoutPairing id)).mirrorSettings
      else world.setSettings (world.stored.settings.withoutPairing id)).Sound := by
  split
  · exact h.setSettings _
  · rename_i hnone
    rw [withoutPairing_eq (by simpa using hnone)]
    exact h

theorem World.Sound.unglide (h : world.Sound) (id : String) :
    (if world.stored.settings.glidesOnto id then
        (world.setSettings { world.stored.settings with glide := none }).mirrorSettings
      else world).Sound := by
  split
  · exact h.setSettings _
  · exact h

theorem untrustDevice_sound (h : world.Sound) (id : String) (failure : Option Failure) :
    (world.untrustDevice id failure).1.Sound := by
  have hremoved : (((world.removeRecord id).mirrorTerminalAccess id false).setRemoteDesktopToken id
      none).Sound := by
    have hsound := h.removeRecord id
    exact ⟨hsound.settings, hsound.terminal, hsound.keyed, hsound.diskKeyed⟩
  unfold World.untrustDevice
  exact World.Sound.saveOrRestore ((hremoved.clear id).unglide id)
    (fun record hrecord => h.keyed _ _ hrecord) failure

theorem setTerminalAccess_sound (h : world.Sound) (id : String) (allowed : Bool)
    (failure : Option Failure) : (world.setTerminalAccess id allowed failure).1.Sound := by
  unfold World.setTerminalAccess
  cases hrecord : world.stored.trustedDevices[id]? with
  | none => exact h
  | some record =>
    dsimp only
    -- The record is set twice, so only the second one counts in memory.
    have hid (terminalAccess : Bool) : ({ record with terminalAccess } : TrustedDevice).id = id :=
      h.keyed id record hrecord
    have hset := h.keyed.insert (hid allowed) world.stored.settings
    have hdisk := @save_diskKeyed R (world.setRecord id { record with terminalAccess := allowed })
      hset h.diskKeyed failure
    generalize (allowed && _) = effective
    rw [save_fst] at hdisk ⊢
    refine ⟨h.settings, fun id' => ?_, hset.insert (hid effective) _, hdisk⟩
    show id' ∈ (world.mirrorTerminalAccess id effective).terminalMirror ↔
      ((world.stored.trustedDevices.insert id _).insert id _)[id']?.any _ = true
    rw [mem_mirrorTerminalAccess, getElem?_keyInsert, getElem?_keyInsert]
    split
    · rfl
    · exact h.terminal id'

theorem updateSettings_sound (h : world.Sound) (change : AppSettings R → AppSettings R)
    (failure : Option Failure) : (world.updateSettings change failure).1.Sound := by
  have hdisk := @save_diskKeyed R (world.setSettings (change world.stored.settings))
    h.keyed h.diskKeyed failure
  unfold World.updateSettings
  dsimp only
  rw [save_fst] at hdisk
  split
  · rw [save_fst]
    exact ⟨h.settings, h.terminal, h.keyed, hdisk⟩
  · rw [save_fst]
    exact ⟨rfl, h.terminal, h.keyed, hdisk⟩

/-! ### Loading -/

/-- The mirror after the phones of a file, whose ids differ. -/
theorem mem_loadTerminalAccess (devices : List TrustedDevice)
    (hids : (devices.map TrustedDevice.id).Nodup) (id : String) :
    id ∈ (world.loadTerminalAccess devices).terminalMirror ↔
      (∃ device ∈ devices, device.id = id ∧ device.terminalAccess = true) ∨
        (id ∉ devices.map TrustedDevice.id ∧ id ∈ world.terminalMirror) := by
  induction devices generalizing world with
  | nil => simp [World.loadTerminalAccess]
  | cons device rest ih =>
    rw [List.map_cons, List.nodup_cons] at hids
    have hrest := @ih (world.mirrorTerminalAccess device.id device.terminalAccess) hids.2
    show id ∈ (World.loadTerminalAccess rest _).terminalMirror ↔ _
    rw [hrest, mem_mirrorTerminalAccess]
    by_cases heq : device.id = id
    · -- No other phone of the file has this id.
      subst heq
      have hnone : ¬ ∃ other ∈ rest, other.id = device.id ∧ other.terminalAccess = true := by
        rintro ⟨other, hother, hid, -⟩
        exact hids.1 (hid ▸ List.mem_map_of_mem hother)
      simp [hnone, hids.1]
    · have heq' : id ≠ device.id := fun h => heq h.symm
      simp [heq, heq']

theorem nodup_ids (h : stored.Keyed) :
    ((stored.trustedDevices.toList.map Prod.snd).map TrustedDevice.id).Nodup := by
  have hkeys : (stored.trustedDevices.toList.map Prod.snd).map TrustedDevice.id
      = stored.trustedDevices.keys := by
    rw [← Std.ExtTreeMap.map_fst_toList_eq_keys, List.map_map]
    refine List.map_congr_left (fun entry hentry => ?_)
    exact h entry.1 entry.2 (Std.ExtTreeMap.mem_toList_iff_getElem?_eq_some.mp hentry)
  rw [hkeys]
  exact Std.ExtTreeMap.nodup_keys

/-- What loading the terminal choices leaves alone. -/
theorem loadTerminalAccess_eq (devices : List TrustedDevice) :
    ∃ terminalMirror, world.loadTerminalAccess devices = { world with terminalMirror } := by
  induction devices generalizing world with
  | nil => exact ⟨_, rfl⟩
  | cons device rest ih =>
    obtain ⟨terminalMirror, heq⟩ :=
      @ih (world.mirrorTerminalAccess device.id device.terminalAccess)
    exact ⟨terminalMirror, heq⟩

/-- A process that has just read its file mirrors it. -/
theorem load_sound (hempty : world.terminalMirror = {}) (hkeyed : world.stored.Keyed)
    (hdisk : ∀ config, world.disk = .stored config → config.Keyed) :
    (world.loadTerminalAccess
      (world.stored.trustedDevices.toList.map Prod.snd)).mirrorSettings.Sound := by
  have hmem := fun id => @mem_loadTerminalAccess R world _ (nodup_ids hkeyed) id
  obtain ⟨terminalMirror, heq⟩ := @loadTerminalAccess_eq R world
    (world.stored.trustedDevices.toList.map Prod.snd)
  rw [heq] at hmem ⊢
  refine ⟨rfl, fun id => (hmem id).trans ?_, hkeyed, hdisk⟩
  rw [hempty]
  show _ ↔ world.stored.opensTerminals id = true
  unfold StoredConfig.opensTerminals
  constructor
  · rintro (⟨device, hdevice, rfl, haccess⟩ | ⟨-, hnone⟩)
    · obtain ⟨entry, hentry, rfl⟩ := List.mem_map.mp hdevice
      have hthere := Std.ExtTreeMap.mem_toList_iff_getElem?_eq_some.mp hentry
      rw [hkeyed _ _ hthere, hthere]
      exact haccess
    · simp at hnone
  · intro hopens
    cases hrecord : world.stored.trustedDevices[id]? with
    | none => simp [hrecord] at hopens
    | some record =>
      rw [hrecord] at hopens
      refine .inl ⟨record, List.mem_map.mpr ⟨(id, record), ?_, rfl⟩, hkeyed id record hrecord, hopens⟩
      exact Std.ExtTreeMap.mem_toList_iff_getElem?_eq_some.mpr hrecord

variable [Inhabited R] {disk : ConfigJson R}

theorem read_keyed (hdisk : ∀ config, disk = .stored config → config.Keyed) :
    disk.read.1.Keyed := by
  cases disk with
  | missing => exact keyed_new _
  | stored config => exact hdisk config rfl
  | newer => exact keyed_new _

theorem loadFromDir_sound (hdisk : ∀ config, disk = .stored config → config.Keyed)
    (failure : Option Failure) : (loadFromDir disk failure).Sound := by
  have hmirrored := @load_sound R
    { stored := disk.read.1, readOnly := disk.read.2, settingsMirror := { other := default }
      terminalMirror := {}, tokens := {}, disk } rfl (read_keyed hdisk) hdisk
  unfold loadFromDir
  dsimp only
  split
  · exact hmirrored
  · exact hmirrored.save failure

theorem after_sound (h : world.Sound) (op : ConfigOp R) : (world.after op).Sound := by
  cases op with
  | trustDevice info certificatePem failure => exact trustDevice_sound h info certificatePem failure
  | untrustDevice id failure => exact untrustDevice_sound h id failure
  | setTerminalAccess id allowed failure => exact setTerminalAccess_sound h id allowed failure
  | updateSettings change failure => exact updateSettings_sound h change failure
  | setRemoteDesktopToken key token => exact ⟨h.settings, h.terminal, h.keyed, h.diskKeyed⟩
  | restart failure => exact loadFromDir_sound h.diskKeyed failure

/-- A first start, with no settings file or with one of a newer DeskLink. -/
def World.start (newer : Bool) (failure : Option Failure) : World R :=
  loadFromDir (if newer then .newer else .missing) failure

def World.run (newer : Bool) (failure : Option Failure) (ops : List (ConfigOp R)) : World R :=
  Lib.applyAll World.after (World.start newer failure) ops

theorem run_sound (newer : Bool) (failure : Option Failure) (ops : List (ConfigOp R)) :
    (World.run newer failure ops).Sound := by
  have hstart : (World.start newer failure : World R).Sound := by
    refine loadFromDir_sound (fun config hdisk => ?_) failure
    cases newer <;> cases hdisk
  exact (Lib.allAlong_of_forall hstart (fun op _ _ h => after_sound h op)).last

end DeskLink.Config
