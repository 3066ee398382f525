import DeskLink.Lib.Unwind
import DeskLink.Proofs.Config.Failures

/-!
# `DeskLink.Proofs.Config.Consents`: consents belong to an identity

A permission that is on, in memory or on disk, was turned on by the person while
the certificate that is stored with it was the stored one, and the phone has not
been unpaired since: `Consented`. What one call does to that is `after_explained`:
a permission that is on afterwards was turned on by the call, or was on before
under the same certificate.

`trust_device` clears four permissions of a new identity, and neither it nor
`untrust_device` clears the grant for an extended display. `World.Careful` is
that the call finds the others off, and no such grant. `consents_kept` is what
every run of such calls keeps.
-/

set_option autoImplicit false

namespace DeskLink.Config

variable {R : Type} {world : World R} {stored stored' : StoredConfig R} {id id' : String}

/-- What the person allows one phone. -/
inductive Permission where
  | terminal | unlock | walkAway | gallery | dnd | keepAwake | callerNames | glide
deriving DecidableEq, Repr

def AppSettings.allows (settings : AppSettings R) (id : String) : Permission → Bool
  | .terminal => false
  | .unlock => id ∈ settings.unlockDevices
  | .walkAway => id ∈ settings.walkAwayDevices
  | .gallery => id ∈ settings.galleryDevices
  | .dnd => id ∈ settings.dndDevices
  | .keepAwake => id ∈ settings.keepAwakePhones
  | .callerNames => id ∈ settings.contactCallerNames
  | .glide => settings.glidesOnto id

def StoredConfig.allows (stored : StoredConfig R) (id : String) (permission : Permission) : Bool :=
  (permission = .terminal && stored.opensTerminals id) || stored.settings.allows id permission

/-- What memory or the disk holds. -/
def World.Holds (world : World R) (stored : StoredConfig R) : Prop :=
  stored = world.stored ∨ world.disk = .stored stored

/-- The permission was on before, under the certificate that is now stored. -/
def OnBefore (stored stored' : StoredConfig R) (id : String) (permission : Permission) : Prop :=
  stored.allows id permission = true ∧
    ∀ pem, stored'.certificate id = some pem → stored.certificate id = some pem

/-! ### What clearing leaves -/

variable {permission : Permission}

theorem allows_withoutIdentity {settings : AppSettings R}
    (h : (settings.withoutIdentity id').allows id permission = true) :
    settings.allows id permission = true ∧
      (id' = id → permission = .keepAwake ∨ permission = .callerNames ∨ permission = .glide) := by
  cases permission with
  | terminal => cases h
  | unlock | walkAway | gallery | dnd =>
    simp only [AppSettings.allows, AppSettings.withoutIdentity, mem_keyErase, decide_eq_true_eq] at h ⊢
    exact ⟨h.2, fun heq => absurd heq h.1⟩
  | keepAwake => exact ⟨h, fun _ => .inl rfl⟩
  | callerNames => exact ⟨h, fun _ => .inr (.inl rfl)⟩
  | glide => exact ⟨h, fun _ => .inr (.inr rfl)⟩

/-- An unpairing leaves nothing on for the phone. -/
theorem allows_unpaired (h : (world.unpaired id').stored.settings.allows id permission = true) :
    world.stored.settings.allows id permission = true ∧ id' ≠ id := by
  unfold World.unpaired at h
  dsimp only at h
  cases hglides : world.stored.settings.glidesOnto id' with
  | true =>
    rw [hglides, if_pos rfl] at h
    cases permission with
    | terminal => cases h
    | glide => simp [AppSettings.allows, AppSettings.glidesOnto] at h
    | unlock | walkAway | gallery | dnd | keepAwake | callerNames =>
      simp only [AppSettings.allows, AppSettings.withoutPairing, AppSettings.withoutIdentity,
        mem_keyErase, decide_eq_true_eq] at h ⊢
      exact ⟨h.2, h.1⟩
  | false =>
    rw [hglides, if_neg (by simp)] at h
    cases permission with
    | terminal => cases h
    | glide =>
      refine ⟨h, fun heq => ?_⟩
      rw [heq] at hglides
      have h : world.stored.settings.glidesOnto id = true := h
      rw [hglides] at h
      cases h
    | unlock | walkAway | gallery | dnd | keepAwake | callerNames =>
      simp only [AppSettings.allows, AppSettings.withoutPairing, AppSettings.withoutIdentity,
        mem_keyErase, decide_eq_true_eq] at h ⊢
      exact ⟨h.2, h.1⟩

/-! ### One call -/

/-- The person turns a permission on with this call. -/
def World.TurnsOn (world : World R) (id : String) (permission : Permission) : ConfigOp R → Prop
  | .setTerminalAccess id' allowed _ => permission = .terminal ∧ id' = id ∧ allowed = true
  | .updateSettings change _ =>
    world.stored.settings.allows id permission = false ∧
      (change world.stored.settings).allows id permission = true
  | _ => False

variable {failure : Option Failure} {permission : Permission}
variable {previous : Option TrustedDevice} {op : ConfigOp R}

/-- The save goes through. -/
def World.saves (world : World R) (failure : Option Failure) : Bool :=
  !world.readOnly && failure.isNone

theorem writes_of_saves (h : world.saves failure = true) : world.writes failure = true := by
  unfold World.saves at h
  unfold World.writes
  cases failure with
  | none => simpa using h
  | some failure => simp at h

theorem saveOrRestore_ok_iff :
    (world.saveOrRestore id previous failure).2 = .ok () ↔ world.saves failure = true := by
  have hsaves : (world.save failure).2 = .ok () ↔ world.saves failure = true := by
    rw [save_ok_iff]
    simp [World.saves]
  rw [← hsaves]
  unfold World.saveOrRestore
  dsimp only
  cases (world.save failure).2 with
  | ok _ => rfl
  | error error => cases previous <;> simp

/-- A trust change that is saved is in memory and on disk. -/
theorem saveOrRestore_ok (h : (world.saveOrRestore id previous failure).2 = .ok ()) :
    world.writes failure = true ∧
      (world.saveOrRestore id previous failure).1
        = { world with disk := .stored world.stored } := by
  have hwrites := writes_of_saves (saveOrRestore_ok_iff.mp h)
  refine ⟨hwrites, ?_⟩
  unfold World.saveOrRestore at h ⊢
  dsimp only at h ⊢
  cases hsaved : (world.save failure).2 with
  | ok _ =>
    show (world.save failure).1 = _
    rw [save_fst, hwrites, if_pos rfl]
  | error error =>
    rw [hsaved] at h
    cases previous <;> cases h

/-- What memory and disk hold after a save that may put a record back. -/
theorem saveOrRestore_holds (h : (world.saveOrRestore id previous failure).1.Holds stored) :
    (stored = world.stored ∧ world.writes failure = true) ∨
      ((∃ error, (world.saveOrRestore id previous failure).2 = .error error) ∧
        (stored = { world.stored with
            trustedDevices := restored world.stored.trustedDevices id previous } ∨
          world.disk = .stored stored)) := by
  cases hresult : (world.saveOrRestore id previous failure).2 with
  | error error =>
    rw [saveOrRestore_error hresult] at h
    obtain hmemory | hdisk := h
    · exact .inr ⟨⟨error, rfl⟩, .inl hmemory⟩
    · have hdisk : (if world.writes failure then .stored world.stored else world.disk)
          = ConfigJson.stored stored := hdisk
      split at hdisk
      · rename_i hwrites
        cases hdisk
        exact .inl ⟨rfl, hwrites⟩
      · exact .inr ⟨⟨error, rfl⟩, .inr hdisk⟩
  | ok _ =>
    rw [(saveOrRestore_ok hresult).2] at h
    obtain hmemory | hdisk := h
    · exact .inl ⟨hmemory, (saveOrRestore_ok hresult).1⟩
    · cases hdisk
      exact .inl ⟨rfl, (saveOrRestore_ok hresult).1⟩

/-- A permission that is on with the same record was on before, if it was on
among the settings. -/
theorem onBefore_of_record
    (hdevice : stored'.trustedDevices[id]? = stored.trustedDevices[id]?)
    (hsettings : stored'.settings.allows id permission = true →
      stored.settings.allows id permission = true)
    (h : stored'.allows id permission = true) : OnBefore stored stored' id permission := by
  unfold StoredConfig.allows StoredConfig.opensTerminals at h
  refine ⟨?_, fun pem hpem => ?_⟩
  · unfold StoredConfig.allows StoredConfig.opensTerminals
    rw [Bool.or_eq_true] at h ⊢
    rw [hdevice] at h
    exact h.imp (fun h => h) hsettings
  · unfold StoredConfig.certificate at hpem ⊢
    rw [← hdevice]
    exact hpem

/-- The call unpairs the phone, and says so. -/
def World.Unpairs (world : World R) (id : String) : ConfigOp R → Prop
  | .untrustDevice id' failure => id' = id ∧ (world.untrustDevice id' failure).2 = .ok ()
  | _ => False

/-- The call finds nothing of an old identity that it would leave behind. -/
def World.Careful (world : World R) : ConfigOp R → Prop
  | .trustDevice info certificatePem failure =>
    world.stored.certificate info.id ≠ some certificatePem →
      (world.writes failure = true →
        world.stored.settings.allows info.id .keepAwake = false ∧
        world.stored.settings.allows info.id .callerNames = false ∧
        world.stored.settings.allows info.id .glide = false) ∧
      (world.saves failure = true → world.stored.certificate info.id ≠ none →
        world.tokens[extendKey info.id]? = none)
  | .untrustDevice id failure =>
    world.saves failure = true → world.tokens[extendKey id]? = none
  | _ => True

/-- What a permission that is on after a call comes from. -/
def World.Explained (world : World R) (op : ConfigOp R) (stored' : StoredConfig R) (id : String)
    (permission : Permission) : Prop :=
  (world.TurnsOn id permission op ∧
      ∀ pem, stored'.certificate id = some pem → world.stored.certificate id = some pem) ∨
    ¬ world.Unpairs id op ∧ ∃ stored, world.Holds stored ∧ OnBefore stored stored' id permission

/-- What is on disk before and after. -/
theorem explained_of_disk (hunpairs : ¬ world.Unpairs id op) (hdisk : world.disk = .stored stored')
    (h : stored'.allows id permission = true) : world.Explained op stored' id permission :=
  .inr ⟨hunpairs, stored', .inr hdisk, h, fun _ hpem => hpem⟩

theorem allows_cases (h : stored.allows id permission = true) :
    (permission = .terminal ∧ stored.opensTerminals id = true) ∨
      stored.settings.allows id permission = true := by
  unfold StoredConfig.allows at h
  rw [Bool.or_eq_true, Bool.and_eq_true, decide_eq_true_eq] at h
  exact h

theorem untrustDevice_explained (h : (world.untrustDevice id' failure).1.Holds stored')
    (hon : stored'.allows id permission = true) :
    world.Explained (.untrustDevice id' failure) stored' id permission := by
  have hunpairs (error : String) (herror : ((world.unpaired id').saveOrRestore id'
      world.stored.trustedDevices[id']? failure).2 = .error error) :
      ¬ world.Unpairs id (.untrustDevice id' failure) := by
    rintro ⟨-, hok⟩
    rw [untrustDevice_eq, herror] at hok
    cases hok
  have hdevices (other : String) (hne : id' ≠ other) :
      (world.unpaired id').stored.trustedDevices[other]? = world.stored.trustedDevices[other]? := by
    show (world.stored.trustedDevices.erase id')[other]? = _
    rw [getElem?_keyErase, if_neg hne]
  rw [untrustDevice_eq] at h
  obtain ⟨rfl, -⟩ | ⟨⟨error, herror⟩, rfl | hdisk⟩ := saveOrRestore_holds h
  · -- Nothing is left on for the phone itself, so this is another one.
    have hne : id' ≠ id := by
      rintro rfl
      obtain ⟨-, hterminal⟩ | hsettings := allows_cases hon
      · unfold StoredConfig.opensTerminals at hterminal
        have hgone : (world.unpaired id').stored.trustedDevices[id']? = none := by
          show (world.stored.trustedDevices.erase id')[id']? = none
          rw [getElem?_keyErase, if_pos rfl]
        rw [hgone] at hterminal
        cases hterminal
      · exact (allows_unpaired hsettings).2 rfl
    refine .inr ⟨fun hunpaired => hne hunpaired.1, world.stored, .inl rfl, ?_⟩
    exact onBefore_of_record (hdevices id hne) (fun hsettings => (allows_unpaired hsettings).1) hon
  · -- The record was put back.
    refine .inr ⟨hunpairs error herror, world.stored, .inl rfl, onBefore_of_record ?_ ?_ hon⟩
    · show (restored _ id' _)[id]? = _
      rw [trustedDevices_restored hdevices]
    · exact fun hsettings => (allows_unpaired hsettings).1
  · exact explained_of_disk (hunpairs error herror) hdisk hon

/-- The world as `trust_device` leaves it before it saves. -/
def World.trusted (world : World R) (info : DeviceInfo) (certificatePem : String) : World R :=
  let previous := world.stored.trustedDevices[info.id]?
  let known := if world.stored.certificate info.id = some certificatePem then world
    else world.forgetIdentity info.id
  let terminalAccess := previous.any (fun existing =>
    existing.certificatePem = certificatePem && existing.terminalAccess)
  (known.mirrorTerminalAccess info.id terminalAccess).setRecord info.id
    { id := info.id, name := info.name, deviceType := info.deviceType
      protocolVersion := info.protocolVersion, certificatePem, terminalAccess
      extra := (previous.map TrustedDevice.extra).getD [] }

section Trusting

variable {info : DeviceInfo} {certificatePem : String}

theorem trustDevice_eq :
    world.trustDevice info certificatePem failure
      = (world.trusted info certificatePem).saveOrRestore info.id
          world.stored.trustedDevices[info.id]? failure := by
  unfold World.trustDevice World.trusted StoredConfig.certificate
  cases world.stored.trustedDevices[info.id]? with
  | none => simp
  | some record => simp

theorem trusted_same (h : world.stored.certificate info.id = some certificatePem) :
    (world.trusted info certificatePem).stored.settings = world.stored.settings ∧
      (world.trusted info certificatePem).disk = world.disk := by
  unfold World.trusted
  rw [if_pos h]
  exact ⟨rfl, rfl⟩

theorem trusted_new (h : world.stored.certificate info.id ≠ some certificatePem) :
    (world.trusted info certificatePem).stored.settings
        = world.stored.settings.withoutIdentity info.id ∧
      (world.trusted info certificatePem).disk = world.disk := by
  unfold World.trusted
  rw [if_neg h, forgetIdentity_eq]
  exact ⟨rfl, rfl⟩

theorem trusted_disk : (world.trusted info certificatePem).disk = world.disk := by
  by_cases hsame : world.stored.certificate info.id = some certificatePem
  · exact (trusted_same hsame).2
  · exact (trusted_new hsame).2

theorem trusted_writes :
    (world.trusted info certificatePem).writes failure = world.writes failure := by
  unfold World.trusted
  split
  · rfl
  · rw [forgetIdentity_eq]
    rfl

theorem trusted_saves :
    (world.trusted info certificatePem).saves failure = world.saves failure := by
  unfold World.trusted
  split
  · rfl
  · rw [forgetIdentity_eq]
    rfl

theorem trusted_new_tokens (h : world.stored.certificate info.id ≠ some certificatePem) :
    (world.trusted info certificatePem).tokens = world.tokens.erase info.id := by
  unfold World.trusted
  rw [if_neg h, forgetIdentity_eq]
  rfl

/-- The record that is stored. The choice on terminals carries over with the
certificate. -/
theorem trusted_record :
    ∃ record : TrustedDevice,
      (world.trusted info certificatePem).stored.trustedDevices
          = world.stored.trustedDevices.insert info.id record ∧
        record.certificatePem = certificatePem ∧
        record.terminalAccess = world.stored.trustedDevices[info.id]?.any (fun existing =>
          existing.certificatePem = certificatePem && existing.terminalAccess) := by
  unfold World.trusted
  split
  · exact ⟨_, rfl, rfl, rfl⟩
  · rw [forgetIdentity_eq]
    exact ⟨_, rfl, rfl, rfl⟩

theorem trusted_other {id : String} (hne : info.id ≠ id) :
    (world.trusted info certificatePem).stored.trustedDevices[id]?
      = world.stored.trustedDevices[id]? := by
  obtain ⟨record, heq, -⟩ := @trusted_record R world info certificatePem
  rw [heq, getElem?_keyInsert, if_neg hne]

/-- What is on among the settings was on. -/
theorem trusted_settings
    (h : (world.trusted info certificatePem).stored.settings.allows id permission = true) :
    world.stored.settings.allows id permission = true := by
  by_cases hsame : world.stored.certificate info.id = some certificatePem
  · rw [(trusted_same hsame).1] at h
    exact h
  · rw [(trusted_new hsame).1] at h
    exact (allows_withoutIdentity h).1

/-- The same certificate is the same trust: nothing changes. -/
theorem trusted_allows (h : world.stored.certificate info.id = some certificatePem) :
    (world.trusted info certificatePem).stored.allows id permission
      = world.stored.allows id permission := by
  have hterminal : (world.trusted info certificatePem).stored.opensTerminals id
      = world.stored.opensTerminals id := by
    unfold StoredConfig.opensTerminals
    by_cases heq : info.id = id
    · subst heq
      obtain ⟨record, hdevices, -, haccess⟩ := @trusted_record R world info certificatePem
      rw [hdevices, getElem?_keyInsert, if_pos rfl, Option.any_some, haccess]
      unfold StoredConfig.certificate at h
      cases hrecord : world.stored.trustedDevices[info.id]? with
      | none => simp [hrecord] at h
      | some existing =>
        rw [hrecord, Option.map_some, Option.some.injEq] at h
        simp [h]
    · rw [trusted_other heq]
  unfold StoredConfig.allows
  rw [hterminal, (trusted_same h).1]

/-- A new identity is allowed nothing but what the clearing leaves. -/
theorem trusted_new_allows (h : world.stored.certificate info.id ≠ some certificatePem)
    (hon : (world.trusted info certificatePem).stored.allows info.id permission = true) :
    world.stored.settings.allows info.id permission = true ∧
      (permission = .keepAwake ∨ permission = .callerNames ∨ permission = .glide) := by
  obtain ⟨-, hterminal⟩ | hsettings := allows_cases hon
  · -- The record was another identity's, or there was none.
    obtain ⟨record, hdevices, -, haccess⟩ := @trusted_record R world info certificatePem
    unfold StoredConfig.opensTerminals at hterminal
    rw [hdevices, getElem?_keyInsert, if_pos rfl, Option.any_some, haccess, Option.any_eq_true]
      at hterminal
    obtain ⟨existing, hrecord, hexisting⟩ := hterminal
    rw [Bool.and_eq_true, decide_eq_true_eq] at hexisting
    unfold StoredConfig.certificate at h
    rw [hrecord, Option.map_some, hexisting.1] at h
    exact absurd rfl h
  · rw [(trusted_new h).1] at hsettings
    obtain ⟨hbefore, hcleared⟩ := allows_withoutIdentity hsettings
    exact ⟨hbefore, hcleared rfl⟩

theorem trustDevice_explained
    (hcareful : world.Careful (.trustDevice info certificatePem failure))
    (h : (world.trustDevice info certificatePem failure).1.Holds stored')
    (hon : stored'.allows id permission = true) :
    world.Explained (.trustDevice info certificatePem failure) stored' id permission := by
  have hunpairs : ¬ world.Unpairs id (.trustDevice info certificatePem failure) := fun h => h
  rw [trustDevice_eq] at h
  obtain ⟨rfl, hwrites⟩ | ⟨-, rfl | hdisk⟩ := saveOrRestore_holds h
  · refine .inr ⟨hunpairs, world.stored, .inl rfl, ?_⟩
    by_cases heq : info.id = id
    · subst heq
      by_cases hsame : world.stored.certificate info.id = some certificatePem
      · rw [trusted_allows hsame] at hon
        refine ⟨hon, fun pem hpem => ?_⟩
        obtain ⟨record, hdevices, hcertificate, -⟩ := @trusted_record R world info certificatePem
        unfold StoredConfig.certificate at hpem
        rw [hdevices, getElem?_keyInsert, if_pos rfl, Option.map_some, hcertificate] at hpem
        rw [hsame, hpem]
      · -- A new identity, and the call finds off what it does not clear.
        rw [trusted_writes] at hwrites
        obtain ⟨hawake, hcallers, hglide⟩ := (hcareful hsame).1 hwrites
        obtain ⟨hbefore, rfl | rfl | rfl⟩ := trusted_new_allows hsame hon
        · rw [hawake] at hbefore
          cases hbefore
        · rw [hcallers] at hbefore
          cases hbefore
        · rw [hglide] at hbefore
          cases hbefore
    · exact onBefore_of_record (trusted_other heq) trusted_settings hon
  · -- The record was put back.
    refine .inr ⟨hunpairs, world.stored, .inl rfl, onBefore_of_record ?_ trusted_settings hon⟩
    show (restored _ info.id _)[id]? = _
    rw [trustedDevices_restored (fun other hne => trusted_other hne)]
  · rw [trusted_disk] at hdisk
    exact explained_of_disk hunpairs hdisk hon

end Trusting

variable {allowed : Bool}

/-! ### The other calls -/

theorem save_holds (h : (world.save failure).1.Holds stored') :
    stored' = world.stored ∨ world.disk = .stored stored' := by
  rw [save_fst] at h
  obtain hmemory | hdisk := h
  · exact .inl hmemory
  · have hdisk : (if world.writes failure then .stored world.stored else world.disk)
        = ConfigJson.stored stored' := hdisk
    split at hdisk
    · cases hdisk
      exact .inl rfl
    · exact .inr hdisk

/-- A record whose choice on terminals is set, and nothing else. -/
theorem setTerminalAccess_cases (h : (world.setTerminalAccess id' allowed failure).1.Holds stored')
    : stored' = world.stored ∨ world.disk = .stored stored' ∨
      ∃ (record : TrustedDevice) (terminalAccess : Bool),
        world.stored.trustedDevices[id']? = some record ∧
        (terminalAccess = true → allowed = true) ∧
        stored'.settings = world.stored.settings ∧
        ∀ other, stored'.trustedDevices[other]? =
          if id' = other then some { record with terminalAccess }
          else world.stored.trustedDevices[other]? := by
  unfold World.setTerminalAccess at h
  cases hrecord : world.stored.trustedDevices[id']? with
  | none =>
    rw [hrecord] at h
    exact h.imp id .inl
  | some record =>
    rw [hrecord] at h
    dsimp only at h
    generalize heffective : (allowed && _) = effective at h
    rw [save_fst] at h
    obtain rfl | hdisk := h
    · have hallowed : effective = true → allowed = true := by
        rintro rfl
        rw [Bool.and_eq_true] at heffective
        exact heffective.1
      refine .inr (.inr ⟨record, effective, rfl, hallowed, rfl, fun other => ?_⟩)
      show ((world.stored.trustedDevices.insert id' _).insert id' _)[other]? = _
      rw [getElem?_keyInsert, getElem?_keyInsert]
      split <;> rfl
    · have hdisk : (if World.writes _ failure then .stored (World.setRecord world id' _).stored
          else world.disk) = ConfigJson.stored stored' := hdisk
      split at hdisk
      · cases hdisk
        refine .inr (.inr ⟨record, allowed, rfl, fun h => h, rfl, fun other => ?_⟩)
        show (world.stored.trustedDevices.insert id' _)[other]? = _
        rw [getElem?_keyInsert]
      · exact .inr (.inl hdisk)

theorem setTerminalAccess_explained
    (h : (world.setTerminalAccess id' allowed failure).1.Holds stored')
    (hon : stored'.allows id permission = true) :
    world.Explained (.setTerminalAccess id' allowed failure) stored' id permission := by
  have hunpairs : ¬ world.Unpairs id (.setTerminalAccess id' allowed failure) := fun h => h
  obtain rfl | hdisk | ⟨record, terminalAccess, hrecord, hallowed, hsettings, hdevices⟩ :=
    setTerminalAccess_cases h
  · exact .inr ⟨hunpairs, world.stored, .inl rfl, hon, fun _ hpem => hpem⟩
  · exact explained_of_disk hunpairs hdisk hon
  · have hcertificate : stored'.certificate id = world.stored.certificate id := by
      unfold StoredConfig.certificate
      rw [hdevices]
      split
      · rename_i heq
        rw [← heq, hrecord]
        rfl
      · rfl
    obtain ⟨rfl, hterminal⟩ | hon' := allows_cases hon
    · by_cases heq : id' = id
      · -- Its own choice is on, so the call turned it on.
        refine .inl ⟨⟨rfl, heq, hallowed ?_⟩, fun pem hpem => hcertificate ▸ hpem⟩
        unfold StoredConfig.opensTerminals at hterminal
        rw [hdevices, if_pos heq] at hterminal
        exact hterminal
      · refine .inr ⟨hunpairs, world.stored, .inl rfl, onBefore_of_record ?_ ?_ hon⟩
        · rw [hdevices, if_neg heq]
        · rw [hsettings]
          exact fun h => h
    · rw [hsettings] at hon'
      refine .inr ⟨hunpairs, world.stored, .inl rfl, ?_, fun pem hpem => hcertificate ▸ hpem⟩
      unfold StoredConfig.allows
      rw [hon', Bool.or_true]

/-- A permission that is on was on, or is turned on by this call. -/
theorem updateSettings_explained {change : AppSettings R → AppSettings R}
    (h : (world.updateSettings change failure).1.Holds stored')
    (hon : stored'.allows id permission = true) :
    world.Explained (.updateSettings change failure) stored' id permission := by
  have hunpairs : ¬ world.Unpairs id (.updateSettings change failure) := fun h => h
  -- Changed settings: what is on was on, or the change turned it on.
  have hchanged (hon : (world.setSettings (change world.stored.settings)).stored.allows id
      permission = true) : world.Explained (.updateSettings change failure)
        (world.setSettings (change world.stored.settings)).stored id permission := by
    cases hbefore : world.stored.allows id permission with
    | true => exact .inr ⟨hunpairs, world.stored, .inl rfl, hbefore, fun _ hpem => hpem⟩
    | false =>
      have hoff : world.stored.settings.allows id permission = false := by
        unfold StoredConfig.allows at hbefore
        exact (Bool.or_eq_false_iff.mp hbefore).2
      obtain ⟨hpermission, hterminal⟩ | hsettings := allows_cases hon
      · have hterminal : world.stored.opensTerminals id = true := hterminal
        unfold StoredConfig.allows at hbefore
        simp [hpermission, hterminal] at hbefore
      · exact .inl ⟨⟨hoff, hsettings⟩, fun _ hpem => hpem⟩
  have hdisk (hdisk : (if (world.setSettings (change world.stored.settings)).writes failure
      then .stored (world.setSettings (change world.stored.settings)).stored else world.disk)
        = ConfigJson.stored stored') :
      world.Explained (.updateSettings change failure) stored' id permission := by
    split at hdisk
    · cases hdisk
      exact hchanged hon
    · exact explained_of_disk hunpairs hdisk hon
  unfold World.updateSettings at h
  dsimp only at h
  split at h
  · rw [save_fst] at h
    obtain rfl | h := h
    · exact .inr ⟨hunpairs, world.stored, .inl rfl, hon, fun _ hpem => hpem⟩
    · exact hdisk h
  · rw [save_fst] at h
    obtain rfl | h := h
    · exact hchanged hon
    · exact hdisk h

variable [Inhabited R]

/-- Nothing is on in a configuration that was never changed. -/
theorem default_allows : (default : StoredConfig R).allows id permission = false := by
  have hdevices : (default : StoredConfig R).trustedDevices[id]? = none := by
    show (∅ : KeyMap TrustedDevice)[id]? = none
    simp
  have hempty : id ∉ (∅ : KeySet) := by simp
  unfold StoredConfig.allows StoredConfig.opensTerminals
  rw [hdevices]
  cases permission with
  | terminal | glide => rfl
  | unlock | walkAway | gallery | dnd | keepAwake | callerNames =>
    show (_ && _ || decide (id ∈ (∅ : KeySet))) = false
    simp [hempty]

theorem loadFromDir_holds {disk : ConfigJson R} (h : (loadFromDir disk failure).Holds stored')
    (hon : stored'.allows id permission = true) : disk = .stored stored' := by
  have hread (heq : stored' = disk.read.1) : disk = .stored stored' := by
    cases disk with
    | stored config => rw [heq]; rfl
    | missing | newer =>
      have heq : stored' = default := heq
      rw [heq, default_allows] at hon
      cases hon
  obtain ⟨terminalMirror, hload⟩ := @loadTerminalAccess_eq R
    { stored := disk.read.1, readOnly := disk.read.2, settingsMirror := { other := default }
      terminalMirror := {}, tokens := {}, disk } (disk.read.1.trustedDevices.toList.map Prod.snd)
  unfold loadFromDir at h
  dsimp only at h
  rw [hload] at h
  split at h
  · obtain hmemory | hdisk := h
    · exact hread hmemory
    · exact hdisk
  · obtain hmemory | hdisk := save_holds h
    · exact hread hmemory
    · exact hdisk

/-- What is on after a call was turned on by it, or was on before under the same
certificate; and an unpairing leaves nothing on. -/
theorem after_explained (hcareful : world.Careful op) (h : (world.after op).Holds stored')
    (hon : stored'.allows id permission = true) :
    world.Explained op stored' id permission := by
  cases op with
  | trustDevice info certificatePem failure => exact trustDevice_explained hcareful h hon
  | untrustDevice id' failure => exact untrustDevice_explained h hon
  | setTerminalAccess id' allowed failure => exact setTerminalAccess_explained h hon
  | updateSettings change failure => exact updateSettings_explained h hon
  | setRemoteDesktopToken key token =>
    exact .inr ⟨fun h => h, stored', h, hon, fun _ hpem => hpem⟩
  | restart failure => exact explained_of_disk (fun h => h) (loadFromDir_holds h hon) hon

/-! ### Whole runs -/

/-- In the run, the person turned the permission on while the certificate that is
stored now was the stored one, and no call since has unpaired the phone. -/
def Consented (newer : Bool) (failure : Option Failure) (ops : List (ConfigOp R))
    (stored : StoredConfig R) (id : String) (permission : Permission) : Prop :=
  ∃ before op since, ops = before ++ op :: since ∧
    (World.run newer failure before).TurnsOn id permission op ∧
    (∀ pem, stored.certificate id = some pem →
      (World.run newer failure before).stored.certificate id = some pem) ∧
    ∀ middle op' rest, since = middle ++ op' :: rest →
      ¬ (World.run newer failure (before ++ op :: middle)).Unpairs id op'

theorem run_snoc (newer : Bool) (failure : Option Failure) (ops : List (ConfigOp R))
    (op : ConfigOp R) :
    World.run newer failure (ops ++ [op]) = (World.run newer failure ops).after op := by
  unfold World.run
  rw [Lib.applyAll_append]
  rfl

/-- A consent is kept by a call that leaves the permission on. -/
theorem Consented.snoc {newer : Bool} {ops : List (ConfigOp R)}
    (hbefore : ∀ stored, (World.run newer failure ops).Holds stored →
      stored.allows id permission = true → Consented newer failure ops stored id permission)
    (h : (World.run newer failure ops).Explained op stored' id permission) :
    Consented newer failure (ops ++ [op]) stored' id permission := by
  obtain ⟨hturns, hcertificate⟩ | ⟨hunpairs, stored, hholds, hon, hcertificate⟩ := h
  · refine ⟨ops, op, [], rfl, hturns, hcertificate, fun middle op' rest hsplit => ?_⟩
    simp at hsplit
  · obtain ⟨before, turn, since, rfl, hturns, hsame, hkept⟩ := hbefore stored hholds hon
    refine ⟨before, turn, since ++ [op], by simp, hturns,
      fun pem hpem => hsame pem (hcertificate pem hpem), fun middle op' rest hsplit => ?_⟩
    -- The call that is looked at is the last one, or one of those before.
    rcases List.eq_nil_or_concat rest with rfl | ⟨rest, last, rfl⟩
    · obtain ⟨rfl, heq⟩ := List.append_inj' hsplit rfl
      cases heq
      exact hunpairs
    · rw [List.concat_eq_append, ← List.cons_append, ← List.append_assoc] at hsplit
      exact hkept middle op' rest (List.append_inj' hsplit rfl).1

/-- What is on, in memory or on disk, was consented to. -/
theorem consented_run (newer : Bool) (ops : List (ConfigOp R))
    (hmeets : Lib.Alongside World.after World.Careful (World.start newer failure) ops)
    (hholds : (World.run newer failure ops).Holds stored)
    (hon : stored.allows id permission = true) :
    Consented newer failure ops stored id permission := by
  induction ops using List.reverseRecOn generalizing stored with
  | nil =>
    have hdisk := loadFromDir_holds hholds hon
    cases newer <;> cases hdisk
  | append_singleton ops op ih =>
    rw [Lib.alongside_append] at hmeets
    rw [run_snoc] at hholds
    exact Consented.snoc (fun stored hholds hon => ih hmeets.1 hholds hon)
      (after_explained hmeets.2.1 hholds hon)

/-- The call trusts a phone with the certificate that is stored for it. -/
def World.Reconfirms (world : World R) : ConfigOp R → Prop
  | .trustDevice info certificatePem _ => world.stored.certificate info.id = some certificatePem
  | _ => False

/-- The call takes the identity of a phone away, and says so. -/
def World.PartsWith (world : World R) (id : String) : ConfigOp R → Prop
  | .trustDevice info certificatePem failure =>
    info.id = id ∧ (∃ pem, world.stored.certificate id = some pem ∧ pem ≠ certificatePem) ∧
      (world.trustDevice info certificatePem failure).2 = .ok ()
  | .untrustDevice id' failure => id' = id ∧ (world.untrustDevice id' failure).2 = .ok ()
  | _ => False

theorem reconfirms_allows (h : world.Reconfirms op) :
    (world.after op).stored.allows id permission = world.stored.allows id permission := by
  cases op with
  | trustDevice info certificatePem failure =>
    have hsame : world.stored.certificate info.id = some certificatePem := h
    show (world.trustDevice info certificatePem failure).1.stored.allows id permission = _
    rw [trustDevice_eq]
    cases hresult : ((world.trusted info certificatePem).saveOrRestore info.id
        world.stored.trustedDevices[info.id]? failure).2 with
    | ok _ =>
      rw [(saveOrRestore_ok hresult).2]
      exact trusted_allows hsame
    | error error =>
      rw [saveOrRestore_error hresult]
      show ({ trustedDevices := restored _ info.id _
              settings := (world.trusted info certificatePem).stored.settings } :
        StoredConfig R).allows id permission = _
      rw [(trusted_same hsame).1, trustedDevices_restored (fun other hne => trusted_other hne)]
  | _ => exact h.elim

theorem partsWith_tokens (hcareful : world.Careful op) (h : world.PartsWith id op) :
    (world.after op).tokens[id]? = none ∧ (world.after op).tokens[extendKey id]? = none := by
  have herased (hextend : world.tokens[extendKey id]? = none) :
      (world.tokens.erase id)[id]? = none ∧ (world.tokens.erase id)[extendKey id]? = none := by
    rw [getElem?_keyErase, getElem?_keyErase, if_pos rfl, hextend, ite_self]
    exact ⟨rfl, rfl⟩
  cases op with
  | trustDevice info certificatePem failure =>
    obtain ⟨rfl, ⟨pem, hpem, hother⟩, hok⟩ := h
    have hnew : world.stored.certificate info.id ≠ some certificatePem := by
      rw [hpem]
      exact fun heq => hother (Option.some.inj heq)
    rw [trustDevice_eq] at hok
    have hsaves : world.saves failure = true := by
      have hsaves := saveOrRestore_ok_iff.mp hok
      rw [trusted_saves] at hsaves
      exact hsaves
    have hextend := (hcareful hnew).2 hsaves (by rw [hpem]; simp)
    show (world.trustDevice info certificatePem failure).1.tokens[info.id]? = none ∧
      (world.trustDevice info certificatePem failure).1.tokens[extendKey info.id]? = none
    rw [trustDevice_eq, (saveOrRestore_ok hok).2]
    show (world.trusted info certificatePem).tokens[info.id]? = none ∧
      (world.trusted info certificatePem).tokens[extendKey info.id]? = none
    rw [trusted_new_tokens hnew]
    exact herased hextend
  | untrustDevice id' failure =>
    obtain ⟨rfl, hok⟩ := h
    rw [untrustDevice_eq] at hok
    have hsaves := saveOrRestore_ok_iff.mp hok
    have hextend := hcareful hsaves
    show (world.untrustDevice id' failure).1.tokens[id']? = none ∧
      (world.untrustDevice id' failure).1.tokens[extendKey id']? = none
    rw [untrustDevice_eq, (saveOrRestore_ok hok).2]
    exact herased hextend
  | _ => exact h.elim

/-- In every run in which no call leaves anything of an old identity behind: what
is on was turned on for the identity that is stored, and the phone was not
unpaired since; a certificate that is stored already changes nothing; the grants
of a phone go with its identity; and the mirrors are what is stored. -/
theorem consents_kept (newer : Bool) (failure : Option Failure) (ops : List (ConfigOp R))
    (hmeets : Lib.Alongside World.after World.Careful (World.start newer failure) ops) :
    (∀ id permission, (World.run newer failure ops).stored.allows id permission = true →
      Consented newer failure ops (World.run newer failure ops).stored id permission) ∧
    (∀ before op rest, ops = before ++ op :: rest →
      (World.run newer failure before).Reconfirms op → ∀ id permission,
        (World.run newer failure (before ++ [op])).stored.allows id permission
          = (World.run newer failure before).stored.allows id permission) ∧
    (∀ before op rest, ops = before ++ op :: rest → ∀ id,
      (World.run newer failure before).PartsWith id op →
        (World.run newer failure (before ++ [op])).tokens[id]? = none ∧
          (World.run newer failure (before ++ [op])).tokens[extendKey id]? = none) ∧
    (World.run newer failure ops).settingsMirror
      = (World.run newer failure ops).stored.settings ∧
    ∀ id, id ∈ (World.run newer failure ops).terminalMirror ↔
      (World.run newer failure ops).stored.opensTerminals id = true := by
  refine ⟨fun id permission hon => consented_run newer ops hmeets (.inl rfl) hon, ?_, ?_,
    (run_sound newer failure ops).settings, (run_sound newer failure ops).terminal⟩
  · intro before op rest _ hreconfirms id permission
    rw [run_snoc]
    exact reconfirms_allows hreconfirms
  · intro before op rest hsplit id hparts
    rw [hsplit, Lib.alongside_append] at hmeets
    rw [run_snoc]
    exact partsWith_tokens hmeets.2.1 hparts

def phone : DeviceInfo :=
  { id := "p", name := "Phone", deviceType := "phone", protocolVersion := 7 }

def keepAwake (settings : AppSettings Unit) : AppSettings Unit :=
  { settings with keepAwakePhones := settings.keepAwakePhones.insert "p" }

/-- A phone is paired, keeps this computer awake and has a grant for an extended
display. -/
def consentedOps : List (ConfigOp Unit) :=
  [.trustDevice phone "A" none, .updateSettings keepAwake none,
    .setRemoteDesktopToken (extendKey "p") (some "token")]

/-- The phone is paired again with its certificate, and the grant is used up
before it is unpaired. -/
def carefulOps : List (ConfigOp Unit) :=
  consentedOps ++ [ConfigOp.trustDevice phone "A" none, .setRemoteDesktopToken (extendKey "p") none,
    .untrustDevice "p" none]

theorem carefulOps_meet :
    Lib.Alongside World.after World.Careful (World.start false none) carefulOps := by
  refine ⟨?_, trivial, trivial, ?_, trivial, ?_, trivial⟩
  · intro _
    refine ⟨fun _ => ?_, fun _ hsome => absurd ?_ hsome⟩ <;> decide +kernel
  · intro hnew
    exact absurd (by decide +kernel) hnew
  · intro _
    decide +kernel

/-- Unpairing leaves no consent and no grant. -/
theorem consents_kept_carefulOps :
    (World.run false none carefulOps).stored.allows "p" .keepAwake = false ∧
      (World.run false none carefulOps).tokens["p"]? = none ∧
      (World.run false none carefulOps).tokens[extendKey "p"]? = none := by
  have hkept := consents_kept false none carefulOps carefulOps_meet
  have hgone := hkept.2.2.1 (carefulOps.take 5) (.untrustDevice "p" none) [] rfl "p"
    ⟨rfl, by decide +kernel⟩
  exact ⟨by decide +kernel, hgone⟩

/-- Another phone under the same id keeps this computer awake as the first one
did, and unpairing it leaves the first one's grant for an extended display. -/
theorem consents_inherited :
    (World.run false none (consentedOps ++ [ConfigOp.trustDevice phone "B" none])).stored.certificate "p"
        = some "B" ∧
      (World.run false none (consentedOps ++ [ConfigOp.trustDevice phone "B" none])).stored.allows "p"
        .keepAwake = true ∧
      (∀ before op since, consentedOps ++ [ConfigOp.trustDevice phone "B" none] = before ++ op :: since →
        (World.run false none before).TurnsOn "p" .keepAwake op →
          (World.run false none before).stored.certificate "p" ≠ some "B") ∧
      ((World.run false none consentedOps).call (.untrustDevice "p" none)).2 = .ok () ∧
      (World.run false none (consentedOps ++ [ConfigOp.untrustDevice "p" none])).tokens[extendKey "p"]?
        = some "token" := by
  refine ⟨by decide +kernel, by decide +kernel, ?_, by decide +kernel, by decide +kernel⟩
  intro before op since hsplit _
  -- Before each call the stored certificate is none, or the first.
  have hbefore : before = consentedOps.take before.length := by
    have hlength : before.length ≤ consentedOps.length := by
      have hlengths := congrArg List.length hsplit
      simp at hlengths
      omega
    have htake := congrArg (List.take before.length) hsplit
    rw [List.take_append_of_le_length hlength, List.take_left] at htake
    exact htake.symm
  have hall : ∀ n < 4, (World.run false none (consentedOps.take n)).stored.certificate "p"
      ≠ some "B" := by
    decide +kernel
  rw [hbefore]
  have hlengths := congrArg List.length hsplit
  simp [consentedOps] at hlengths
  exact hall before.length (by omega)

end DeskLink.Config
