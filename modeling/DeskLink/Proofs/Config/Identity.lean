import DeskLink.Config.Identity
import DeskLink.Lib.Utf8

/-!
# `DeskLink.Proofs.Config.Identity`: when the identity is coherent

A certificate is kept or made for the key, so it always belongs to it (`pick_matches`). One
that is made names the id, and one that is kept need not. `Sane` says when it does, and when
a damaged settings file is not written over. `start_coherent` says that a start meets what
is asked of it just then.
-/

set_option autoImplicit false

namespace DeskLink.Identity

open Lib (utf8Bytes utf8Text)

variable {L : Libraries} {start : Start L} {disk disk' : Disk} {config : Config L} {bytes b : Bytes}
variable {file : Option Bytes} {certificate : L.Certificate} {key : L.Key} {stored : Stored L.Rest}
variable {write : Except String Unit} {deviceId : String}

/-- What is written reads back. -/
structure Libraries.Lawful (L : Libraries) : Prop where
  key_back : ∀ key bytes, L.keyPem key = .ok bytes → L.readKey bytes = .ok key
  certificate_back : ∀ certificate bytes, L.certificatePem certificate = .ok bytes →
    L.readCertificate bytes = some certificate
  stored_back : ∀ stored bytes, L.writeStored stored = .ok bytes →
    ∃ again, L.readStored bytes = some again ∧ again.deviceId = stored.deviceId

/-- A certificate that is made is of the key, and names the id. -/
def Start.Lawful (start : Start L) : Prop :=
  ∀ key deviceId certificate, start.newCertificate key deviceId = .ok certificate →
    certificateMatchesKey certificate key = true ∧ L.commonName certificate = some deviceId

/-! ### What a start is asked for -/

/-- The certificate certifies the key and names the id. -/
def Config.Coherent (config : Config L) : Prop :=
  certificateMatchesKey config.certificate config.key = true ∧
    L.commonName config.certificate = some config.stored.deviceId

/-- After a save that went through, the next start has the same id, key and certificate. -/
def SameAgain (start : Start L) (disk : Disk) : Prop :=
  ∀ config, (loadFromDir start disk).2 = .ok config → config.readOnly = false →
    (writeFiles start (prepared start disk) config).2 = .ok () →
    ∀ again : Start L, again.makeDir = .ok () →
      ∃ config', (loadFromDir again (loadFromDir start disk).1).2 = .ok config' ∧
        config'.stored.deviceId = config.stored.deviceId ∧ config'.key = config.key ∧
        config'.certificate = config.certificate

/-- A damaged settings file, a key and a certificate are still there, or under another name.
A certificate that is not of the key may go. -/
structure NothingLost (start : Start L) (disk : Disk) : Prop where
  config : ∀ bytes, disk.config = some bytes → found L disk.config = .damaged →
    (loadFromDir start disk).1.config = some bytes ∨ bytes ∈ (loadFromDir start disk).1.aside
  key : ∀ bytes, disk.key = some bytes →
    (loadFromDir start disk).1.key = some bytes ∨ bytes ∈ (loadFromDir start disk).1.aside ∨
      ∃ key again, L.readKey bytes = .ok key ∧ (loadFromDir start disk).1.key = some again ∧
        L.readKey again = .ok key
  certificate : ∀ bytes certificate, disk.certificate = some bytes →
    L.readCertificate bytes = some certificate →
    (loadFromDir start disk).1.certificate = some bytes ∨
      bytes ∈ (loadFromDir start disk).1.aside ∨
      (∃ again, (loadFromDir start disk).1.certificate = some again ∧
        L.readCertificate again = some certificate) ∨
      ∃ config, (loadFromDir start disk).2 = .ok config ∧
        certificateMatchesKey certificate config.key = false

/-- What is asked of a start. -/
structure Meets (start : Start L) (disk : Disk) : Prop where
  coherent : ∀ config, (loadFromDir start disk).2 = .ok config → config.Coherent
  again : SameAgain start disk
  kept : NothingLost start disk

/-- The id of the run. -/
def idOf (start : Start L) (disk : Disk) : String :=
  ((found L disk.config).settings start.newId).deviceId

/-- The start comes to writing `config.json`, and that works. -/
def Saves (start : Start L) (disk : Disk) : Prop :=
  start.makeDir = .ok () ∧ (found L disk.config).readOnly = false ∧
  ∃ key certificate bytes, pickKey start (prepared start disk) = .ok key ∧
    pickCertificate start (prepared start disk) key (idOf start disk) = .ok certificate ∧
    start.makeDirToSave = .ok () ∧
    L.writeStored ((found L disk.config).settings start.newId) = .ok bytes ∧
    start.writeConfig = .ok ()

/-- A pair that is left in place and belongs together names the id of the run. A damaged
settings file has a copy when `config.json` is written. -/
structure Sane (start : Start L) (disk : Disk) : Prop where
  names : start.makeDir = .ok () → ∀ key certificate,
    pickKey start (prepared start disk) = .ok key →
    storedCertificate key (prepared start disk) = some certificate →
    L.commonName certificate = some (idOf start disk)
  copied : ∀ bytes, disk.config = some bytes → found L disk.config = .damaged →
    bytes ∈ (prepared start disk).aside ∨ ¬Saves start disk

/-! ### Renames and writes -/

theorem moved_cases (file : Option Bytes) (move : Bool) (aside : List Bytes) :
    moved file move aside = (file, aside) ∨
      ∃ bytes, file = some bytes ∧ moved file move aside = (none, bytes :: aside) := by
  cases file with
  | none => exact .inl rfl
  | some bytes =>
    cases move with
    | true => exact .inr ⟨bytes, rfl, rfl⟩
    | false => exact .inl rfl

/-- What is moved is aside. -/
theorem moved_kept (move : Bool) (aside : List Bytes) (h : file = some bytes) :
    (moved file move aside).1 = some bytes ∨ bytes ∈ (moved file move aside).2 := by
  obtain heq | ⟨b, hb, heq⟩ := moved_cases file move aside
  · rw [heq]
    exact .inl h
  · rw [heq]
    rw [h] at hb
    cases hb
    exact .inr List.mem_cons_self

theorem moved_aside (file : Option Bytes) (move : Bool) (aside : List Bytes) :
    aside ⊆ (moved file move aside).2 := by
  obtain heq | ⟨b, -, heq⟩ := moved_cases file move aside
  · rw [heq]
    exact fun _ h => h
  · rw [heq]
    exact List.subset_cons_self _ _

/-- The key or the certificate is where it was, or aside. -/
theorem prepared_kept (start : Start L) (disk : Disk) :
    (∀ bytes, disk.config = some bytes →
      (prepared start disk).config = some bytes ∨ bytes ∈ (prepared start disk).aside) ∧
    (∀ bytes, disk.key = some bytes →
      (prepared start disk).key = some bytes ∨ bytes ∈ (prepared start disk).aside) ∧
    ∀ bytes, disk.certificate = some bytes →
      (prepared start disk).certificate = some bytes ∨ bytes ∈ (prepared start disk).aside := by
  have hkey : (setAside start disk).key = disk.key := by
    unfold setAside
    split <;> rfl
  have hcertificate : (setAside start disk).certificate = disk.certificate := by
    unfold setAside
    split <;> rfl
  have hconfig (bytes : Bytes) (h : disk.config = some bytes) :
      (setAside start disk).config = some bytes ∨ bytes ∈ (setAside start disk).aside := by
    unfold setAside
    split
    · exact moved_kept _ _ h
    · exact .inl h
    · exact .inl h
    · exact .inl h
  unfold prepared
  split
  · have haside : (setAside start disk).aside ⊆ (setPairAside start (setAside start disk)).aside :=
      List.Subset.trans (moved_aside _ _ _) (moved_aside _ _ _)
    refine ⟨fun bytes h => ?_, fun bytes h => ?_, fun bytes h => ?_⟩
    · exact (hconfig bytes h).imp id (fun hmem => haside hmem)
    · obtain hsame | hmem := moved_kept start.moveKey (setAside start disk).aside (hkey.trans h)
      · exact .inl hsame
      · exact .inr (moved_aside _ _ _ hmem)
    · exact moved_kept start.moveCertificate _ (hcertificate.trans h)
  · exact ⟨hconfig, fun bytes h => .inl (hkey.trans h), fun bytes h => .inl (hcertificate.trans h)⟩

theorem writeIfChanged_ok (h : writeIfChanged file bytes write = .ok b) :
    b = bytes ∧ (file = some bytes ∨ write = .ok ()) := by
  unfold writeIfChanged at h
  split at h
  · rename_i hsame
    cases h
    exact ⟨rfl, .inl hsame⟩
  · cases write with
    | error e => cases h
    | ok u =>
      cases h
      exact ⟨rfl, .inr rfl⟩

/-- A step of the save. -/
theorem save_ok {encode : Except String Bytes}
    (h : encode.bind (fun bytes => writeIfChanged file bytes write) = .ok b) :
    encode = .ok b ∧ (file = some b ∨ write = .ok ()) := by
  cases encode with
  | error e => cases h
  | ok bytes =>
    obtain ⟨rfl, hwrite⟩ := writeIfChanged_ok h
    exact ⟨rfl, hwrite⟩

/-- A file after a save, as it was or as it was to be written. -/
def Saved (file file' : Option Bytes) (encode : Except String Bytes) : Prop :=
  file' = file ∨ ∃ bytes, encode = .ok bytes ∧ file' = some bytes

/-- What the files are after a save, and after one that went through. -/
theorem writeFiles_cases (start : Start L) (disk : Disk) (config : Config L) :
    (writeFiles start disk config).1.aside = disk.aside ∧
    Saved disk.config (writeFiles start disk config).1.config (L.writeStored config.stored) ∧
    Saved disk.key (writeFiles start disk config).1.key (L.keyPem config.key) ∧
    Saved disk.certificate (writeFiles start disk config).1.certificate
      (L.certificatePem config.certificate) ∧
    ((writeFiles start disk config).2 = .ok () → ∃ stored key certificate,
      L.writeStored config.stored = .ok stored ∧ L.keyPem config.key = .ok key ∧
      L.certificatePem config.certificate = .ok certificate ∧
      (writeFiles start disk config).1
        = { disk with config := some stored, key := some key, certificate := some certificate }) := by
  cases hdir : start.makeDirToSave with
  | error e =>
    have heq : writeFiles start disk config = (disk, .error e) := by simp only [writeFiles, hdir]
    rw [heq]
    exact ⟨rfl, .inl rfl, .inl rfl, .inl rfl, fun h => by cases h⟩
  | ok u =>
    cases hstored : (L.writeStored config.stored).bind
        (fun bytes => writeIfChanged disk.config bytes start.writeConfig) with
    | error e =>
      have heq : writeFiles start disk config = (disk, .error e) := by
        simp only [writeFiles, hdir, hstored]
      rw [heq]
      exact ⟨rfl, .inl rfl, .inl rfl, .inl rfl, fun h => by cases h⟩
    | ok stored =>
      have hwritten := (save_ok hstored).1
      cases hkey : (L.keyPem config.key).bind
          (fun bytes => writeIfChanged disk.key bytes start.writeKey) with
      | error e =>
        have heq : writeFiles start disk config = ({ disk with config := some stored }, .error e) := by
          simp only [writeFiles, hdir, hstored, hkey]
        rw [heq]
        exact ⟨rfl, .inr ⟨stored, hwritten, rfl⟩, .inl rfl, .inl rfl, fun h => by cases h⟩
      | ok key =>
        have hpem := (save_ok hkey).1
        cases hcertificate : (L.certificatePem config.certificate).bind
            (fun bytes => writeIfChanged disk.certificate bytes start.writeCertificate) with
        | error e =>
          have heq : writeFiles start disk config
              = ({ disk with config := some stored, key := some key }, .error e) := by
            simp only [writeFiles, hdir, hstored, hkey, hcertificate]
          rw [heq]
          exact ⟨rfl, .inr ⟨stored, hwritten, rfl⟩, .inr ⟨key, hpem, rfl⟩, .inl rfl,
            fun h => by cases h⟩
        | ok certificate =>
          have heq : writeFiles start disk config = ({ disk with
              config := some stored, key := some key, certificate := some certificate },
              .ok ()) := by
            simp only [writeFiles, hdir, hstored, hkey, hcertificate]
          have hcertified := (save_ok hcertificate).1
          rw [heq]
          exact ⟨rfl, .inr ⟨stored, hwritten, rfl⟩, .inr ⟨key, hpem, rfl⟩,
            .inr ⟨certificate, hcertified, rfl⟩,
            fun _ => ⟨stored, key, certificate, hwritten, hpem, hcertified, rfl⟩⟩

/-- The settings file is written, if the step before it and the write work. -/
theorem writeFiles_config (hdir : start.makeDirToSave = .ok ())
    (hstored : L.writeStored config.stored = .ok bytes) (hwrite : start.writeConfig = .ok ()) :
    (writeFiles start disk config).1.config = some bytes := by
  have hsave : (L.writeStored config.stored).bind
      (fun bytes => writeIfChanged disk.config bytes start.writeConfig) = .ok bytes := by
    rw [hstored]
    show writeIfChanged disk.config bytes start.writeConfig = .ok bytes
    rw [writeIfChanged, hwrite]
    split <;> rfl
  simp only [writeFiles, hdir, hsave]
  split
  · rfl
  · split <;> rfl

/-- It is as it was, or was written. -/
theorem writeFiles_config_cases (start : Start L) (disk : Disk) (config : Config L) :
    (writeFiles start disk config).1.config = disk.config ∨
      start.makeDirToSave = .ok () ∧ start.writeConfig = .ok () ∧
      ∃ bytes, L.writeStored config.stored = .ok bytes := by
  cases hdir : start.makeDirToSave with
  | error e => exact .inl (by simp only [writeFiles, hdir])
  | ok u =>
    cases hstored : (L.writeStored config.stored).bind
        (fun bytes => writeIfChanged disk.config bytes start.writeConfig) with
    | error e => exact .inl (by simp only [writeFiles, hdir, hstored])
    | ok stored =>
      obtain ⟨hwritten, hsame | hwrite⟩ := save_ok hstored
      · refine .inl ?_
        rw [hsame]
        simp only [writeFiles, hdir, hstored]
        split
        · rfl
        · split <;> rfl
      · exact .inr ⟨rfl, hwrite, stored, hwritten⟩

/-! ### A start -/

/-- What a start that works comes to. -/
theorem load_ok (h : (loadFromDir start disk).2 = .ok config) :
    start.makeDir = .ok () ∧ pickKey start (prepared start disk) = .ok config.key ∧
    pickCertificate start (prepared start disk) config.key (idOf start disk)
      = .ok config.certificate ∧
    config.stored = (found L disk.config).settings start.newId ∧
    config.readOnly = (found L disk.config).readOnly ∧
    (loadFromDir start disk).1 = if config.readOnly then prepared start disk
      else (writeFiles start (prepared start disk) config).1 := by
  cases hdir : start.makeDir with
  | error e =>
    simp only [loadFromDir, hdir] at h
    cases h
  | ok u =>
    cases hkey : pickKey start (prepared start disk) with
    | error e =>
      simp only [loadFromDir, hdir, hkey] at h
      cases h
    | ok key =>
      cases hcertificate : pickCertificate start (prepared start disk) key
          ((found L disk.config).settings start.newId).deviceId with
      | error e =>
        simp only [loadFromDir, hdir, hkey, hcertificate] at h
        cases h
      | ok certificate =>
        simp only [loadFromDir, hdir, hkey, hcertificate] at h ⊢
        cases hreadOnly : (found L disk.config).readOnly with
        | true =>
          rw [hreadOnly, if_pos rfl] at h
          cases h
          exact ⟨trivial, rfl, hcertificate, rfl, rfl, rfl⟩
        | false =>
          rw [hreadOnly, if_neg Bool.false_ne_true] at h
          cases h
          exact ⟨trivial, rfl, hcertificate, rfl, rfl, rfl⟩

/-- One that does not work leaves what the renames left. -/
theorem load_error {error : String} (h : (loadFromDir start disk).2 = .error error) :
    (loadFromDir start disk).1 = disk ∨ (loadFromDir start disk).1 = prepared start disk := by
  cases hdir : start.makeDir with
  | error e => exact .inl (by simp only [loadFromDir, hdir])
  | ok u =>
    cases hkey : pickKey start (prepared start disk) with
    | error e => exact .inr (by simp only [loadFromDir, hdir, hkey])
    | ok key =>
      cases hcertificate : pickCertificate start (prepared start disk) key
          ((found L disk.config).settings start.newId).deviceId with
      | error e => exact .inr (by simp only [loadFromDir, hdir, hkey, hcertificate])
      | ok certificate =>
        simp only [loadFromDir, hdir, hkey, hcertificate] at h
        split at h <;> cases h

/-- A start works if it has a key and a certificate. -/
theorem load_of_picks (hdir : start.makeDir = .ok ())
    (hkey : pickKey start (prepared start disk) = .ok key)
    (hcertificate : pickCertificate start (prepared start disk) key (idOf start disk)
      = .ok certificate) :
    (loadFromDir start disk).2 = .ok
      { stored := (found L disk.config).settings start.newId, key, certificate
        readOnly := (found L disk.config).readOnly } := by
  have hcertificate : pickCertificate start (prepared start disk) key
      ((found L disk.config).settings start.newId).deviceId = .ok certificate := hcertificate
  simp only [loadFromDir, hdir, hkey, hcertificate]
  split <;> rfl

theorem pick_stored (h : storedCertificate key disk = some certificate) :
    pickCertificate start disk key deviceId = .ok certificate := by
  rw [pickCertificate, h]

/-- The certificate of a run is of its key. It names the id, if it was made. -/
theorem pick_matches (hstart : start.Lawful)
    (h : pickCertificate start disk key deviceId = .ok certificate) :
    certificateMatchesKey certificate key = true ∧
      (storedCertificate key disk = some certificate ∨
        L.commonName certificate = some deviceId) := by
  unfold pickCertificate at h
  cases hstored : storedCertificate key disk with
  | some stored =>
    rw [hstored] at h
    cases h
    exact ⟨(Option.filter_eq_some_iff.mp hstored).2, .inl rfl⟩
  | none =>
    rw [hstored] at h
    obtain ⟨hmatches, hname⟩ := hstart key deviceId certificate h
    exact ⟨hmatches, .inr hname⟩

/-- A settings file that reads is found, and has its id. -/
theorem found_stored (h : L.readStored bytes = some stored) :
    found L (some bytes) = .stored stored := by
  unfold found
  simp only [h]

theorem not_damaged (h : L.readStored bytes = some stored) : found L (some bytes) ≠ .damaged := by
  rw [found_stored h]
  exact fun heq => by cases heq

theorem settings_stored (newId : String) (stored : Stored L.Rest) :
    ((Found.stored stored : Found L).settings newId).deviceId = stored.deviceId := by
  unfold Found.settings
  simp only
  split <;> rfl

/-- Nothing is moved beside a settings file that reads. -/
theorem prepared_stored (h : found L disk.config = .stored stored) :
    prepared start disk = disk := by
  unfold prepared setAside
  rw [h]
  rfl

theorem same_again (hL : L.Lawful) (hstart : start.Lawful) : SameAgain start disk := by
  intro config hload hreadOnly hsaved again hdir
  obtain ⟨-, -, hpick, -, -, hdisk⟩ := load_ok hload
  obtain ⟨stored, key, certificate, hstored, hkey, hcertificate, hfiles⟩ :=
    (writeFiles_cases start (prepared start disk) config).2.2.2.2 hsaved
  rw [hreadOnly, if_neg Bool.false_ne_true, hfiles] at hdisk
  obtain ⟨settings, hread, hid⟩ := hL.stored_back _ _ hstored
  rw [hdisk]
  have hfound : found L (some stored) = .stored settings := found_stored hread
  have hprepared : prepared again { prepared start disk with
      config := some stored, key := some key, certificate := some certificate }
        = { prepared start disk with
          config := some stored, key := some key, certificate := some certificate } :=
    prepared_stored hfound
  have hpickKey : pickKey again { prepared start disk with
      config := some stored, key := some key, certificate := some certificate } = .ok config.key :=
    hL.key_back _ _ hkey
  have hpickCertificate : storedCertificate config.key { prepared start disk with
      config := some stored, key := some key, certificate := some certificate }
        = some config.certificate := by
    refine Option.filter_eq_some_iff.mpr ⟨hL.certificate_back _ _ hcertificate, ?_⟩
    exact (pick_matches hstart hpick).1
  rw [← hprepared] at hpickKey hpickCertificate
  refine ⟨_, load_of_picks hdir hpickKey (pick_stored hpickCertificate), ?_, rfl, rfl⟩
  show ((found L (some stored)).settings again.newId).deviceId = config.stored.deviceId
  rw [hfound, settings_stored, hid]

/-! ### What is kept -/

/-- The directory behind a start is that of before, or of its renames, or comes of a save. -/
theorem load_cases (start : Start L) (disk : Disk) :
    ((loadFromDir start disk).1 = disk ∨ (loadFromDir start disk).1 = prepared start disk) ∨
      ∃ config, (loadFromDir start disk).2 = .ok config ∧ config.readOnly = false ∧
        (loadFromDir start disk).1 = (writeFiles start (prepared start disk) config).1 := by
  cases hload : (loadFromDir start disk).2 with
  | error e => exact .inl (load_error hload)
  | ok config =>
    obtain ⟨-, -, -, -, -, hdisk⟩ := load_ok hload
    cases hreadOnly : config.readOnly with
    | true =>
      rw [hreadOnly, if_pos rfl] at hdisk
      exact .inl (.inr hdisk)
    | false =>
      rw [hreadOnly, if_neg Bool.false_ne_true] at hdisk
      exact .inr ⟨config, rfl, hreadOnly, hdisk⟩

theorem key_kept (hL : L.Lawful) (h : disk.key = some bytes) :
    (loadFromDir start disk).1.key = some bytes ∨ bytes ∈ (loadFromDir start disk).1.aside ∨
      ∃ key again, L.readKey bytes = .ok key ∧ (loadFromDir start disk).1.key = some again ∧
        L.readKey again = .ok key := by
  have hprepared := (prepared_kept start disk).2.1 bytes h
  obtain (hdisk | hdisk) | ⟨config, hload, -, hdisk⟩ := load_cases start disk
  · rw [hdisk]
    exact .inl h
  · rw [hdisk]
    exact hprepared.imp id .inl
  · obtain ⟨haside, -, hkey, -⟩ := writeFiles_cases start (prepared start disk) config
    rw [hdisk, haside]
    obtain hsame | hmoved := hprepared
    · obtain hkept | ⟨again, hpem, hwritten⟩ := hkey
      · exact .inl (hkept.trans hsame)
      · have hread : L.readKey bytes = .ok config.key := by
          have hpick := (load_ok hload).2.1
          rwa [pickKey, hsame] at hpick
        exact .inr (.inr ⟨config.key, again, hread, hwritten, hL.key_back _ _ hpem⟩)
    · exact .inr (.inl hmoved)

theorem certificate_kept (hL : L.Lawful) (h : disk.certificate = some bytes)
    (hread : L.readCertificate bytes = some certificate) :
    (loadFromDir start disk).1.certificate = some bytes ∨
      bytes ∈ (loadFromDir start disk).1.aside ∨
      (∃ again, (loadFromDir start disk).1.certificate = some again ∧
        L.readCertificate again = some certificate) ∨
      ∃ config, (loadFromDir start disk).2 = .ok config ∧
        certificateMatchesKey certificate config.key = false := by
  have hprepared := (prepared_kept start disk).2.2 bytes h
  obtain (hdisk | hdisk) | ⟨config, hload, -, hdisk⟩ := load_cases start disk
  · rw [hdisk]
    exact .inl h
  · rw [hdisk]
    exact hprepared.imp id .inl
  · obtain ⟨haside, -, -, hfile, -⟩ := writeFiles_cases start (prepared start disk) config
    cases hmatches : certificateMatchesKey certificate config.key with
    | false => exact .inr (.inr (.inr ⟨config, hload, hmatches⟩))
    | true =>
      rw [hdisk, haside]
      obtain hsame | hmoved := hprepared
      · obtain hkept | ⟨again, hpem, hwritten⟩ := hfile
        · exact .inl (hkept.trans hsame)
        · -- It was picked, so it is what was written.
          have hstored : storedCertificate config.key (prepared start disk) = some certificate := by
            refine Option.filter_eq_some_iff.mpr ⟨?_, hmatches⟩
            rw [hsame]
            exact hread
          have hpick := (load_ok hload).2.2.1
          rw [pick_stored hstored] at hpick
          cases hpick
          exact .inr (.inr (.inl ⟨again, hwritten, hL.certificate_back _ _ hpem⟩))
      · exact .inr (.inl hmoved)

theorem damaged_kept (h : disk.config = some bytes)
    (hcopied : bytes ∈ (prepared start disk).aside ∨ ¬Saves start disk) :
    (loadFromDir start disk).1.config = some bytes ∨
      bytes ∈ (loadFromDir start disk).1.aside := by
  have hprepared := (prepared_kept start disk).1 bytes h
  obtain (hdisk | hdisk) | ⟨config, hload, hreadOnly, hdisk⟩ := load_cases start disk
  · rw [hdisk]
    exact .inl h
  · rw [hdisk]
    exact hprepared
  · have haside := (writeFiles_cases start (prepared start disk) config).1
    rw [hdisk, haside]
    refine hcopied.elim .inr (fun hsaves => ?_)
    obtain hsame | hmoved := hprepared
    · obtain hkept | ⟨hdir, hwrite, bytes, hstored⟩ :=
        writeFiles_config_cases start (prepared start disk) config
      · exact .inl (hkept.trans hsame)
      · obtain ⟨hmake, hkey, hcertificate, hsettings, hread, -⟩ := load_ok hload
        rw [hsettings] at hstored
        refine absurd ⟨hmake, hread.symm.trans hreadOnly, config.key, config.certificate, bytes,
          hkey, hcertificate, hdir, hstored, hwrite⟩ hsaves
    · exact .inr hmoved

/-- A damaged file that is written over, and has no copy, is lost. -/
theorem damaged_lost (hL : L.Lawful) (h : disk.config = some bytes)
    (hdamaged : found L disk.config = .damaged) (hsaves : Saves start disk)
    (hkept : (loadFromDir start disk).1.config = some bytes ∨
      bytes ∈ (loadFromDir start disk).1.aside) : bytes ∈ (prepared start disk).aside := by
  obtain ⟨hmake, hreadOnly, key, certificate, written, hkey, hcertificate, hdir, hstored, hwrite⟩ :=
    hsaves
  have hload := load_of_picks hmake hkey hcertificate
  have hdisk := (load_ok hload).2.2.2.2.2
  simp only [hreadOnly, if_neg Bool.false_ne_true] at hdisk
  rw [hdisk, writeFiles_config hdir hstored hwrite, (writeFiles_cases _ _ _).1] at hkept
  refine hkept.resolve_left (fun hsame => ?_)
  cases hsame
  obtain ⟨again, hread, -⟩ := hL.stored_back _ _ hstored
  rw [h] at hdamaged
  exact not_damaged hread hdamaged

/-- A start meets what is asked of it just when a pair that it leaves in place names the id,
and a damaged settings file that it writes over has a copy. -/
theorem start_coherent (hL : L.Lawful) (hstart : start.Lawful) (disk : Disk) :
    Meets start disk ↔ Sane start disk := by
  constructor
  · intro hmeets
    refine ⟨fun hmake key certificate hkey hstored => ?_, fun bytes h hdamaged => ?_⟩
    · exact (hmeets.coherent _ (load_of_picks hmake hkey (pick_stored hstored))).2
    · by_cases hsaves : Saves start disk
      · exact .inl (damaged_lost hL h hdamaged hsaves (hmeets.kept.config bytes h hdamaged))
      · exact .inr hsaves
  · intro hsane
    refine ⟨fun config hload => ?_, same_again hL hstart, ?_⟩
    · obtain ⟨hmake, hkey, hcertificate, hsettings, -⟩ := load_ok hload
      obtain ⟨hmatches, hwhich⟩ := pick_matches hstart hcertificate
      refine ⟨hmatches, ?_⟩
      rw [hsettings]
      exact hwhich.elim (hsane.names hmake config.key config.certificate hkey) id
    · exact ⟨fun bytes h hdamaged => damaged_kept h (hsane.copied bytes h hdamaged),
        fun bytes h => key_kept hL h,
        fun bytes certificate h hread => certificate_kept hL h hread⟩

/-! ### Two computers -/

/-- Keys of one byte, and certificates and settings that are that and a text. -/
def plain : Libraries where
  Key := UInt8
  Certificate := UInt8 × String
  Rest := Unit
  readKey
    | [key] => .ok key
    | _ => .error "not a key"
  keyPem key := .ok [key]
  readCertificate
    | key :: name => (utf8Text name).map (fun name => (key, name))
    | [] => none
  certificatePem certificate := .ok (certificate.1 :: utf8Bytes certificate.2)
  publicOf key := some [key]
  certified certificate := some [certificate.1]
  commonName certificate := some certificate.2
  readStored
    | 123 :: id => (utf8Text id).map (fun id => { version := 1, deviceId := id, rest := () })
    | _ => none
  readRaw _ := none
  writeStored stored :=
    if stored.version = 1 then .ok (123 :: utf8Bytes stored.deviceId) else .error "version"
  freshRest := ()
  withoutRemoved rest := rest

theorem plain_readStored (id : String) : plain.readStored (123 :: utf8Bytes id)
    = some { version := 1, deviceId := id, rest := () } := by
  show (utf8Text (utf8Bytes id)).map _ = _
  rw [Lib.utf8Text_utf8Bytes]
  rfl

theorem plain_readCertificate (key : UInt8) (name : String) :
    plain.readCertificate (key :: utf8Bytes name) = some ((key, name) : UInt8 × String) := by
  show (utf8Text (utf8Bytes name)).map _ = _
  rw [Lib.utf8Text_utf8Bytes]
  rfl

theorem plain_lawful : plain.Lawful where
  key_back key bytes h := by
    cases h
    rfl
  certificate_back certificate bytes h := by
    cases h
    exact plain_readCertificate certificate.1 certificate.2
  stored_back stored bytes h := by
    have hwrite : plain.writeStored stored
        = if stored.version = 1 then .ok (123 :: utf8Bytes stored.deviceId)
          else .error "version" := rfl
    rw [hwrite] at h
    split at h
    · cases h
      exact ⟨_, plain_readStored stored.deviceId, rfl⟩
    · cases h

/-- Nothing fails. -/
def smooth : Start plain where
  newId := "c"
  newKey := .ok (9 : UInt8)
  newCertificate key deviceId := .ok ((key, deviceId) : UInt8 × String)
  makeDir := .ok ()
  moveConfig := true
  moveKey := true
  moveCertificate := true
  makeDirToSave := .ok ()
  writeConfig := .ok ()
  writeKey := .ok ()
  writeCertificate := .ok ()

theorem smooth_lawful : smooth.Lawful := by
  intro key deviceId certificate h
  cases h
  refine ⟨?_, rfl⟩
  show (([key] : List UInt8) == [key]) = true
  exact beq_self_eq_true _

/-- The settings of computer `b`, beside the key and the certificate of `a`. -/
def restored : Disk where
  config := some (123 :: utf8Bytes "b")
  key := some [7]
  certificate := some (7 :: utf8Bytes "a")

/-- A disk that holds the files of two computers. -/
theorem start_coherent_restored : Meets smooth restored ↔ Sane smooth restored :=
  start_coherent plain_lawful smooth_lawful restored

/-- The run claims the id `b`, with a certificate that names `a`. -/
theorem another_id_named : ∃ config, (loadFromDir smooth restored).2 = .ok config ∧
    config.stored.deviceId = "b" ∧ plain.commonName config.certificate = some "a" := by
  refine ⟨{ stored := { version := 1, deviceId := "b", rest := () }, key := (7 : UInt8)
            certificate := ((7, "a") : UInt8 × String), readOnly := false }, ?_, rfl, rfl⟩
  have hfound : found plain restored.config
      = .stored { version := 1, deviceId := "b", rest := () } :=
    found_stored (plain_readStored "b")
  have hprepared : prepared smooth restored = restored := prepared_stored hfound
  have hkey : pickKey smooth (prepared smooth restored) = .ok (7 : UInt8) := by
    rw [hprepared]
    rfl
  have hcertificate : storedCertificate (L := plain) (7 : UInt8) (prepared smooth restored)
      = some ((7, "a") : UInt8 × String) := by
    rw [hprepared]
    exact Option.filter_eq_some_iff.mpr ⟨plain_readCertificate 7 "a", by decide⟩
  refine (load_of_picks rfl hkey (pick_stored hcertificate)).trans ?_
  rw [hfound]
  rfl

end DeskLink.Identity
