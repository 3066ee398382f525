import DeskLink.Proofs.Session.Compared

/-!
# `DeskLink.Proofs.Session.Trust`: the sessions and the trust store

A session is paired when the trust store holds the certificate of its link
(`World.Agree`). The code writes the two one after the other, so in between
they differ: `Task.midway` says at which sections an operation is there, and
`Task.Holds` what the device is like then.

`World.Orderly` is what the moves have to be like. While an operation is
midway, no other operation of the device writes anything or gets midway; a
save fails only where the trust store already says what the failure makes of
the session; and a QR proof comes through a current binding.

* `run_holds`: one section of an operation.
* `after_settled`: one move.
* `settled_agrees`: the run.
* `trust_parted`: what happens otherwise.
-/

set_option autoImplicit false

namespace DeskLink.Session

open DeskLink.Pairing (PairState PairingHandler Packet)

/-! ### What a device is like -/

section
variable (w : World)

/-- The device has the session `s`, with the link `i`. -/
def World.Linked (d : String) (s : DeviceSession) (i : Nat) : Prop :=
  w.manager.sessions[d]? = some s ∧ s.activeLink = some i

/-- The session is paired exactly when the certificate of its link is
trusted. -/
def World.Agree (d : String) : Prop :=
  ∀ s i, w.Linked d s i → (s.pairing.state = .paired ↔ w.trust[d]? = w.certificate i)

/-- The session is paired, and the certificate is not trusted. -/
def World.Joined (b : SessionBinding) : Prop :=
  ∀ s i, w.Linked b.deviceId s i → w.manager.isCurrent b = true ∧ s.pairing.state = .paired ∧
    w.trust[b.deviceId]? ≠ w.certificate i

/-- The session is paired, whatever is trusted. -/
def World.Pending (b : SessionBinding) : Prop :=
  ∀ s i, w.Linked b.deviceId s i → w.manager.isCurrent b = true ∧ s.pairing.state = .paired

def World.Bound (b : SessionBinding) : Prop :=
  ∀ s i, w.Linked b.deviceId s i → w.manager.isCurrent b = true

/-- The session is not paired, whatever is trusted. -/
def World.Dropped (d : String) : Prop :=
  ∀ s i, w.Linked d s i → s.pairing.state ≠ .paired

def World.Unlinked (d : String) : Prop := ∀ s i, ¬w.Linked d s i

/-- What is said of the newcomer is what the trust store says. -/
def World.Foretold (d : String) (link : SessionLink) (paired : Bool) : Prop :=
  paired = true ↔ w.trust[d]? = some link.certificatePem

end

/-! ### Where an operation is midway -/

/-- The operation has made one of its writes, or has read what it is going
to write. -/
def Task.midway : Task → Bool
  | .send _ _ _ state _ | .revert _ _ state => state = .paired
  | .persistTrust .. | .forget .. | .drop .. | .untrust _ | .trust _ | .unpair _ | .clear _
  | .ask .. | .attach .. | .adopt .. | .register .. => true
  | _ => false

/-- The section neither pairs nor unpairs, and the operation is not midway
after it. -/
def Task.free : Task → Bool
  | .send _ _ _ state _ | .revert _ _ state => state ≠ .paired
  | .check .. | .compare .. | .seek .. | .read .. | .recognise .. | .rebind .. => true
  | _ => false

/-- What the device is like when an operation is at this section. -/
def Task.Holds (w : World) : Task → Prop
  | .send b _ _ state _ | .revert b _ state =>
    if state = .paired then w.Joined b else w.Agree b.deviceId
  | .persistTrust b _ _ _ _ | .unpair b => w.Joined b
  | .forget d _ => w.Unlinked d
  | .drop b _ => w.Bound b
  | .untrust d => w.Dropped d
  | .clear b => w.Dropped b.deviceId
  | .trust b => w.Pending b
  | .ask d link => w.Agree d ∧ (w.trust[d]? = none ∨ w.trust[d]? = some link.certificatePem)
  | .attach d link paired | .adopt d link paired => w.Agree d ∧ w.Foretold d link paired
  | .register d link paired => w.Foretold d link paired
  | task => w.Agree task.device

/-- What a transition goes back to is not a pairing, and trust is written
for one. -/
def Task.Sane : Task → Prop
  | .send _ _ snapshot _ _ | .revert _ snapshot _ => snapshot.state ≠ .paired
  | .persistTrust _ _ snapshot state _ => snapshot.state ≠ .paired ∧ state = .paired
  | _ => True

/-- A save that fails does no harm, and a QR proof comes through a current
binding. -/
def Task.Fair (w : World) (c : Choice) : Task → Prop
  | .trust b => c.ok = true ∨ w.trust[b.deviceId]? ≠ w.certificate b.link
  | .untrust d => c.ok = true ∨ w.trust[d]? = none
  | .prove b => w.manager.isCurrent b = true ∨
      ∀ s ∈ w.manager.sessions[b.deviceId]?, s.activeLink = none
  | _ => True

def World.Orderly (w : World) : Move → Prop
  | .advance i c => ∀ task ∈ w.tasks[i]?, task.Fair w c ∧
      (task.free = true ∨ ∀ other ∈ w.tasks.eraseIdx i, other.device = task.device →
        other.midway = false)
  | _ => True

instance (w : World) (c : Choice) : (task : Task) → Decidable (task.Fair w c)
  | .trust _ | .untrust _ => inferInstanceAs (Decidable (_ ∨ _))
  | .prove b => inferInstanceAs (Decidable (w.manager.isCurrent b = true ∨
      ∀ s ∈ w.manager.sessions[b.deviceId]?, s.activeLink = none))
  | .check .. | .compare .. | .seek .. | .apply .. | .send .. | .persistTrust .. | .revert ..
  | .revoke .. | .forget .. | .find .. | .drop .. | .read .. | .recognise .. | .rebind ..
  | .receive .. | .unpair _ | .clear _ | .pin .. | .proveLink .. | .ask .. | .attach ..
  | .adopt .. | .register .. => .isTrue trivial

instance (w : World) : (move : Move) → Decidable (w.Orderly move)
  | .advance i c => inferInstanceAs (Decidable (∀ task ∈ w.tasks[i]?, task.Fair w c ∧
      (task.free = true ∨ ∀ other ∈ w.tasks.eraseIdx i, other.device = task.device →
        other.midway = false)))
  | .start _ | .call _ => .isTrue trivial

/-- What every move keeps. -/
structure World.Settled (w : World) : Prop where
  grounded : Grounded w.manager
  sane : ∀ task ∈ w.tasks, task.Sane
  holds : ∀ task ∈ w.tasks, task.midway = true → task.Holds w
  agree : ∀ d, (∀ task ∈ w.tasks, task.device = d → task.midway = false) → w.Agree d

/-! ### Nothing happens to a device -/

/-- The device is neither paired nor unpaired, and gets no link. -/
structure Alike (w w' : World) (d : String) : Prop where
  sessions : Option.Rel Beside w.manager.sessions[d]? w'.manager.sessions[d]?
  trust : w'.trust[d]? = w.trust[d]?
  links : SameLinks w.manager w'.manager

section
variable {w w' : World} {d : String} {i : Nat} {s' : DeviceSession} {b : SessionBinding}

theorem SameLinks.certificate (h : SameLinks w.manager w'.manager)
    (hi : i < w.manager.links.length) : w'.certificate i = w.certificate i := by
  obtain ⟨l', hl', hsame⟩ :=
    Option.map_eq_some_iff.mp (h i _ (List.getElem?_eq_getElem hi))
  unfold World.certificate
  rw [hl', List.getElem?_eq_getElem hi]
  exact congrArg some (congrArg Prod.fst hsame)

/-- A link that a session still has, it had. -/
theorem Alike.back (h : Alike w w' d) (hw : Grounded w.manager) (hs' : w'.Linked d s' i) :
    ∃ s, w.Linked d s i ∧ Beside s s' ∧
      w'.certificate i = w.certificate i := by
  have hrel := h.sessions
  rw [hs'.1] at hrel
  obtain ⟨s, hs, hbeside⟩ := rel_some hrel
  have hactive : s.activeLink = some i := by
    rcases hbeside.follows.activeLink with heq | hnone
    · exact heq.symm.trans hs'.2
    · exact nomatch hnone.symm.trans hs'.2
  exact ⟨s, ⟨hs, hactive⟩, hbeside, h.links.certificate (hw.placed d s i hs hactive)⟩

theorem Alike.current (h : Alike w w' d) (hw' : Grounded w'.manager) (hb : b.deviceId = d)
    (hc : w.manager.isCurrent b = true) (hs' : w'.Linked d s' i) :
    w'.manager.isCurrent b = true := by
  obtain ⟨s, hs, hid, hgen, hactive, htoken⟩ := isCurrent_holds hc
  have hrel := h.sessions
  rw [hs'.1] at hrel
  obtain ⟨s₀, hs₀, hbeside⟩ := rel_some hrel
  subst hb
  obtain rfl := Option.some.inj (hs.symm.trans hs₀)
  have hlink : s'.activeLink = s.activeLink := by
    rcases hbeside.follows.activeLink with heq | hnone
    · exact heq
    · exact nomatch hnone.symm.trans hs'.2
  exact isCurrent_of_holds hw' hs'.1 (hbeside.follows.sessionId.trans hid)
    (hbeside.follows.generation.trans hgen) (hlink.trans hactive)
    (hbeside.follows.cancellation.trans htoken)

theorem Alike.agree (h : Alike w w' d) (hw : Grounded w.manager) (hagree : w.Agree d) :
    w'.Agree d := by
  intro s' i hs'
  obtain ⟨s, hs, hbeside, hcertificate⟩ := h.back hw hs'
  rw [hbeside.paired, h.trust, hcertificate]
  exact hagree s i hs

theorem Alike.joined (h : Alike w w' b.deviceId) (hw : Grounded w.manager)
    (hw' : Grounded w'.manager) (hjoined : w.Joined b) : w'.Joined b := by
  intro s' i hs'
  obtain ⟨s, hs, hbeside, hcertificate⟩ := h.back hw hs'
  obtain ⟨hcurrent, hpaired, htrust⟩ := hjoined s i hs
  rw [h.trust, hcertificate]
  exact ⟨h.current hw' rfl hcurrent hs', hbeside.paired.mpr hpaired, htrust⟩

/-- What an operation holds is kept where nothing happens to its device. -/
theorem Alike.holds {task : Task} (h : Alike w w' task.device) (hw : Grounded w.manager)
    (hw' : Grounded w'.manager) (hholds : task.Holds w) : task.Holds w' := by
  cases task with
  | send b command snapshot state timestamp =>
    simp only [Task.Holds] at hholds ⊢
    by_cases hstate : state = .paired
    · rw [if_pos hstate] at hholds ⊢
      exact h.joined hw hw' hholds
    · rw [if_neg hstate] at hholds ⊢
      exact h.agree hw hholds
  | revert b snapshot expected =>
    simp only [Task.Holds] at hholds ⊢
    by_cases hstate : expected = .paired
    · rw [if_pos hstate] at hholds ⊢
      exact h.joined hw hw' hholds
    · rw [if_neg hstate] at hholds ⊢
      exact h.agree hw hholds
  | persistTrust b command snapshot state timestamp => exact h.joined hw hw' hholds
  | unpair b => exact h.joined hw hw' hholds
  | forget d reason =>
    intro s' i hs'
    obtain ⟨s, hs, -⟩ := h.back hw hs'
    exact hholds s i hs
  | drop b reason =>
    intro s' i hs'
    obtain ⟨s, hs, -⟩ := h.back hw hs'
    exact h.current hw' rfl (hholds s i hs) hs'
  | untrust d =>
    intro s' i hs'
    obtain ⟨s, hs, hbeside, -⟩ := h.back hw hs'
    exact fun hpaired => hholds s i hs (hbeside.paired.mp hpaired)
  | clear b =>
    intro s' i hs'
    obtain ⟨s, hs, hbeside, -⟩ := h.back hw hs'
    exact fun hpaired => hholds s i hs (hbeside.paired.mp hpaired)
  | trust b =>
    intro s' i hs'
    obtain ⟨s, hs, hbeside, -⟩ := h.back hw hs'
    obtain ⟨hcurrent, hpaired⟩ := hholds s i hs
    exact ⟨h.current hw' rfl hcurrent hs', hbeside.paired.mpr hpaired⟩
  | ask d link =>
    have htrust : w'.trust[d]? = w.trust[d]? := h.trust
    refine ⟨h.agree hw hholds.1, ?_⟩
    rw [htrust]
    exact hholds.2
  | attach d link paired | adopt d link paired =>
    have htrust : w'.trust[d]? = w.trust[d]? := h.trust
    refine ⟨h.agree hw hholds.1, ?_⟩
    unfold World.Foretold
    rw [htrust]
    exact hholds.2
  | register d link paired =>
    have htrust : w'.trust[d]? = w.trust[d]? := h.trust
    show paired = true ↔ w'.trust[d]? = some link.certificatePem
    rw [htrust]
    exact hholds
  | _ => exact h.agree hw hholds

end

/-! ### One section of an operation -/

/-- What the device is like when an operation comes to `next`, or ends. -/
def World.Came (w : World) (d : String) : Option Task → Prop
  | none => w.Agree d
  | some task => task.Holds w

section
variable {sha256 : List UInt8 → List UInt8} {w w' : World} {c : Choice} {b : SessionBinding}
variable {d reason : String} {i : Nat} {s s₁ : DeviceSession} {command : Command} {packet : Packet}
variable {link : SessionLink} {now : Int} {pairing snapshot : PairingHandler}
variable {goesFirst paired : Bool}

theorem linked_insert {s' : DeviceSession}
    (h : w'.manager.sessions = w.manager.sessions.insert d s₁) (hs' : w'.Linked d s' i) :
    s' = s₁ ∧ s₁.activeLink = some i := by
  have hs := hs'.1
  rw [h, getElem?_keyInsert, if_pos rfl] at hs
  obtain rfl := Option.some.inj hs
  exact ⟨rfl, hs'.2⟩

theorem certificate_of_links (h : w'.manager.links = w.manager.links) (i : Nat) :
    w'.certificate i = w.certificate i := by
  unfold World.certificate
  rw [h]

theorem certificate_made (hw : Grounded w.manager) (hs : w.Linked d s i) :
    ∃ pem, w.certificate i = some pem := by
  unfold World.certificate
  rw [List.getElem?_eq_getElem (hw.placed d s i hs.1 hs.2)]
  exact ⟨_, rfl⟩

/-- A current binding has the link of the session. -/
theorem current_linked (hc : w.manager.isCurrent b = true) (hs : w.Linked b.deviceId s i) :
    i = b.link := by
  obtain ⟨s₀, hs₀, -, -, hactive, -⟩ := isCurrent_holds hc
  obtain rfl := Option.some.inj (hs₀.symm.trans hs.1)
  exact Option.some.inj (hs.2.symm.trans hactive)

/-- A section that goes through a binding: nothing happens, because the
binding is not current; or the session is changed. -/
theorem through_cases {R : Type} (w : World) (b : SessionBinding)
    (operation : DeviceSession → DeviceSession × R) :
    (w.through b operation = w ∧ w.manager.isCurrent b = false ∧
      ∃ e, (w.manager.withSession b operation).2 = .error e) ∨
    ∃ s, w.manager.sessions[b.deviceId]? = some s ∧ w.manager.isCurrent b = true ∧
      (w.through b operation).manager.sessions
        = w.manager.sessions.insert b.deviceId (operation s).1 ∧
      (w.through b operation).manager.links = w.manager.links ∧
      (w.manager.withSession b operation).2 = .ok (operation s).2 := by
  unfold World.through
  rcases withSession_outcome w.manager b operation with ⟨e, heq, hstale⟩ | ⟨s, hs, hcurrent, heq⟩
  · rw [heq]
    exact .inl ⟨rfl, hstale, e, rfl⟩
  · rw [heq]
    exact .inr ⟨s, hs, hcurrent, rfl, rfl, rfl⟩

/-- A binding stays current when its session is changed and stays bound. -/
theorem current_kept (hw' : Grounded w'.manager) (hs : w.manager.sessions[b.deviceId]? = some s)
    (hc : w.manager.isCurrent b = true)
    (hsessions : w'.manager.sessions = w.manager.sessions.insert b.deviceId s₁)
    (hkept : Kept s s₁) : w'.manager.isCurrent b = true := by
  obtain ⟨s₀, hs₀, hid, hgen, hactive, htoken⟩ := isCurrent_holds hc
  obtain rfl := Option.some.inj (hs.symm.trans hs₀)
  have hs₁ : w'.manager.sessions[b.deviceId]? = some s₁ := by
    rw [hsessions, getElem?_keyInsert, if_pos rfl]
  exact isCurrent_of_holds hw' hs₁ (hkept.sessionId.trans hid) (hkept.generation.trans hgen)
    (hkept.activeLink.trans hactive) (hkept.cancellation.trans htoken)

theorem trustDevice_trust (hw : Grounded w.manager) (hc : w.manager.isCurrent b = true) :
    (w.trustDevice b).trust[b.deviceId]? = w.certificate b.link := by
  obtain ⟨s, hs, -, -, hactive, -⟩ := isCurrent_holds hc
  obtain ⟨pem, hpem⟩ := certificate_made hw (d := b.deviceId) ⟨hs, hactive⟩
  unfold World.trustDevice
  rw [hpem]
  exact (getElem?_keyInsert ..).trans (if_pos rfl)

/-- The pairing that a command moves on was none. -/
theorem build_unpaired {pairing' : PairingHandler}
    (h : command.build pairing now = .ok (pairing', packet)) : pairing.state ≠ .paired := by
  intro hpaired
  cases command with
  | request => simp [Command.build, PairingHandler.requestPacket, hpaired] at h
  | accept shown => simp [Command.build, PairingHandler.acceptPacket, hpaired] at h

theorem apply_holds (hw : Grounded w.manager) (hholds : w.Agree b.deviceId) :
    ((Task.apply b command).run sha256 w c).1.Came b.deviceId
      ((Task.apply b command).run sha256 w c).2 := by
  have hw' := (run_shift sha256 w c (.apply b command)).grounded hw
  simp only [Task.run] at hw' ⊢
  rcases through_cases w b (applyCommand command c.nowSecs) with
    ⟨hsame, -, e, herror⟩ | ⟨s, hs, hcurrent, hsessions, hlinks, hok⟩
  · rw [hsame, herror]
    exact hholds
  · rw [hok]
    have htrust : (w.through b (applyCommand command c.nowSecs)).trust = w.trust := rfl
    generalize w.through b (applyCommand command c.nowSecs) = w' at hw' hsessions hlinks htrust ⊢
    unfold applyCommand at hsessions ⊢
    cases hbuild : command.build s.pairing c.nowSecs with
    | error e =>
      rw [hbuild] at hsessions
      intro s' i hs'
      obtain ⟨rfl, hactive⟩ := linked_insert hsessions hs'
      rw [htrust, certificate_of_links hlinks]
      exact hholds s' i ⟨hs, hactive⟩
    | ok built =>
      obtain ⟨pairing, packet⟩ := built
      rw [hbuild] at hsessions
      have hunpaired := build_unpaired hbuild
      show if pairing.state = .paired then w'.Joined b else w'.Agree b.deviceId
      have hdistrust : ∀ i, s.activeLink = some i → w.trust[b.deviceId]? ≠ w.certificate i :=
        fun i hi htrusted => hunpaired ((hholds s i ⟨hs, hi⟩).mpr htrusted)
      split
      · rename_i hpaired
        intro s' i hs'
        obtain ⟨rfl, hactive⟩ := linked_insert hsessions hs'
        rw [htrust, certificate_of_links hlinks]
        refine ⟨current_kept hw' hs hcurrent hsessions ?_, hpaired, hdistrust i hactive⟩
        exact ⟨rfl, rfl, rfl, rfl, rfl, fun h => ⟨h.1, h.2, h.3⟩⟩
      · rename_i hpaired
        intro s' i hs'
        obtain ⟨rfl, hactive⟩ := linked_insert hsessions hs'
        rw [htrust, certificate_of_links hlinks]
        exact iff_of_false hpaired (hdistrust i hactive)

theorem persistTrust_holds {state : PairState} {timestamp : Int} (hw : Grounded w.manager)
    (hstate : state = .paired) (hholds : w.Joined b) :
    ((Task.persistTrust b command snapshot state timestamp).run sha256 w c).1.Came b.deviceId
      ((Task.persistTrust b command snapshot state timestamp).run sha256 w c).2 := by
  simp only [Task.run]
  split
  · intro s i hs
    have hs : w.Linked b.deviceId s i := by
      refine ⟨?_, hs.2⟩
      rw [← trustDevice_manager w b]
      exact hs.1
    obtain ⟨hcurrent, hpaired, -⟩ := hholds s i hs
    obtain rfl := current_linked hcurrent hs
    refine iff_of_true hpaired ?_
    show (w.trustDevice b).trust[b.deviceId]? = (w.trustDevice b).certificate b.link
    rw [trustDevice_trust hw hcurrent]
    exact (certificate_of_links (by rw [trustDevice_manager]) _).symm
  · show if state = .paired then w.Joined b else _
    rw [if_pos hstate]
    exact hholds

theorem revert_holds (hsnapshot : snapshot.state ≠ .paired) (hholds : w.Joined b) :
    ((Task.revert b snapshot .paired).run sha256 w c).1.Came b.deviceId
      ((Task.revert b snapshot .paired).run sha256 w c).2 := by
  simp only [Task.run]
  rcases through_cases w b (fun s =>
      (if s.pairing.state = .paired then { s with pairing := snapshot } else s, ())) with
    ⟨hsame, hstale, -⟩ | ⟨s, hs, hcurrent, hsessions, hlinks, -⟩
  · rw [hsame]
    intro s i hs
    obtain ⟨hcurrent, -⟩ := hholds s i hs
    rw [hstale] at hcurrent
    cases hcurrent
  · intro s' i hs'
    obtain ⟨rfl, hactive⟩ := linked_insert hsessions hs'
    have hlink : s.activeLink = some i := by
      simp only at hactive
      split at hactive <;> exact hactive
    obtain ⟨-, hpaired, htrust⟩ := hholds s i ⟨hs, hlink⟩
    simp only [if_pos hpaired]
    refine iff_of_false hsnapshot ?_
    rw [certificate_of_links hlinks]
    exact htrust

/-- Without a link a device has no binding. -/
theorem currentBinding_none (hw : Grounded w.manager) (h : w.manager.currentBinding d = none) :
    w.Unlinked d := by
  intro s i hs
  unfold DeviceManager.currentBinding at h
  rw [hs.1] at h
  simp only [if_neg (hw.live d s hs.1)] at h
  unfold DeviceSession.binding at h
  rw [hs.2] at h
  cases h

theorem forget_holds (hholds : w.Unlinked d) : ((Task.forget d reason).run sha256 w c).1.Came d
      ((Task.forget d reason).run sha256 w c).2 := by
  simp only [Task.run]
  show World.Agree { w with manager := (w.manager.forgetPairing d).1 } d
  intro s' i hs'
  exfalso
  obtain ⟨hs', hactive⟩ := hs'
  simp only [DeviceManager.forgetPairing] at hs'
  cases hs : w.manager.sessions[d]? with
  | none =>
    rw [hs] at hs'
    exact hholds s' i ⟨hs', hactive⟩
  | some s =>
    rw [hs] at hs'
    rw [getElem?_keyInsert, if_pos rfl] at hs'
    obtain rfl := Option.some.inj hs'
    exact hholds s i ⟨hs, hactive⟩

theorem find_holds (hw : Grounded w.manager) : ((Task.find d reason).run sha256 w c).1.Came d
      ((Task.find d reason).run sha256 w c).2 := by
  simp only [Task.run]
  cases hb : w.manager.currentBinding d with
  | none => exact fun s i hs => absurd hs (currentBinding_none hw hb s i)
  | some b => exact fun s i _ => (currentBinding_cases hw hb).2

/-- A revocation leaves no pairing, where the binding is current. -/
theorem revoke_dropped (hholds : w.Bound b ∨ w.Dropped b.deviceId) :
    World.Dropped { w with manager := (w.manager.revokePairing b reason).1 } b.deviceId := by
  rcases through_cases w b (fun s =>
      let s' := { s with
        pairing := s.pairing.rejectPacket.1
        lastDisconnectReason := some reason
        pendingFeatures := [] }
      (s'.clearWebrtcState.1, (s.pairing.rejectPacket.2, s'.clearWebrtcState.2))) with
    ⟨hsame, hstale, -⟩ | ⟨s, hs, hcurrent, hsessions, hlinks, -⟩
  · show World.Dropped (w.through b _) b.deviceId
    rw [hsame]
    rcases hholds with hbound | hdropped
    · intro s i hs
      have hcurrent := hbound s i hs
      rw [hstale] at hcurrent
      cases hcurrent
    · exact hdropped
  · intro s' i hs'
    obtain ⟨rfl, hactive⟩ := linked_insert hsessions hs'
    show PairState.notPaired ≠ .paired
    decide

theorem untrust_holds (hw : Grounded w.manager) (hfair : c.ok = true ∨ w.trust[d]? = none)
    (hholds : w.Dropped d) :
    ((Task.untrust d).run sha256 w c).1.Came d ((Task.untrust d).run sha256 w c).2 := by
  simp only [Task.run]
  -- Either way nothing is trusted.
  have hnone : (if c.ok then { w with trust := w.trust.erase d } else w).trust[d]? = none := by
    split
    · exact (getElem?_keyErase ..).trans (if_pos rfl)
    · exact hfair.resolve_left ‹_›
  have hmanager : (if c.ok then { w with trust := w.trust.erase d } else w).manager
      = w.manager := by
    split <;> rfl
  generalize (if c.ok then { w with trust := w.trust.erase d } else w) = w' at hnone hmanager ⊢
  intro s i hs
  have hs : w.Linked d s i := by
    rw [World.Linked, ← hmanager]
    exact hs
  refine iff_of_false (hholds s i hs) ?_
  obtain ⟨pem, hpem⟩ := certificate_made hw hs
  have hcertificate : w'.certificate i = w.certificate i :=
    certificate_of_links (by rw [hmanager]) i
  rw [hnone, hcertificate, hpem]
  exact (Option.some_ne_none pem).symm

/-- A packet takes a pairing to a pairing or to none. -/
theorem receive_paired (h : pairing.state = .paired) :
    (pairing.receive packet goesFirst now).state = .paired ∨
      (pairing.receive packet goesFirst now).state = .notPaired := by
  unfold PairingHandler.receive
  split
  · rw [h]
    exact .inl h
  · exact .inr rfl

theorem receive_holds (hw : Grounded w.manager) (hholds : w.Agree b.deviceId) :
    ((Task.receive b packet goesFirst).run sha256 w c).1.Came b.deviceId
      ((Task.receive b packet goesFirst).run sha256 w c).2 := by
  have hw' := (run_shift sha256 w c (.receive b packet goesFirst)).grounded hw
  simp only [Task.run] at hw' ⊢
  have htrust : (w.through b (receivePacket packet goesFirst c.nowSecs)).trust = w.trust := rfl
  rcases through_cases w b (receivePacket packet goesFirst c.nowSecs) with
    ⟨hsame, -, e, herror⟩ | ⟨s, hs, hcurrent, hsessions, hlinks, hok⟩
  · rw [hsame, herror]
    exact hholds
  · rw [hok]
    generalize w.through b (receivePacket packet goesFirst c.nowSecs) = w'
      at hw' hsessions hlinks htrust ⊢
    unfold receivePacket at hsessions ⊢
    have hstates : s.pairing.state = .paired →
        (s.pairing.receive packet goesFirst c.nowSecs).state = .paired ∨
          (s.pairing.receive packet goesFirst c.nowSecs).state = .notPaired := receive_paired
    generalize s.pairing.receive packet goesFirst c.nowSecs = pairing at hsessions hstates ⊢
    have hkept : Kept s { s with pairing } := ⟨rfl, rfl, rfl, rfl, rfl, fun h => ⟨h.1, h.2, h.3⟩⟩
    simp only
    split
    · rename_i hpaired
      intro s' i hs'
      obtain ⟨rfl, -⟩ := linked_insert hsessions hs'
      exact ⟨current_kept hw' hs hcurrent hsessions hkept, hpaired⟩
    · rename_i hunpaired
      split
      · intro s' i hs'
        obtain ⟨rfl, -⟩ := linked_insert hsessions hs'
        exact hunpaired
      · rename_i hbefore
        -- It was not paired before either.
        intro s' i hs'
        obtain ⟨rfl, hactive⟩ := linked_insert hsessions hs'
        refine iff_of_false hunpaired ?_
        rw [htrust, certificate_of_links hlinks]
        intro htrusted
        have hpaired := (hholds s i ⟨hs, hactive⟩).mpr htrusted
        exact hbefore ⟨hpaired, (hstates hpaired).resolve_left hunpaired⟩

theorem trust_holds (hw : Grounded w.manager)
    (hfair : c.ok = true ∨ w.trust[b.deviceId]? ≠ w.certificate b.link) (hholds : w.Pending b) :
    ((Task.trust b).run sha256 w c).1.Came b.deviceId ((Task.trust b).run sha256 w c).2 := by
  simp only [Task.run]
  split
  · intro s i hs
    have hs : w.Linked b.deviceId s i := by
      refine ⟨?_, hs.2⟩
      rw [← trustDevice_manager w b]
      exact hs.1
    obtain ⟨hcurrent, hpaired⟩ := hholds s i hs
    obtain rfl := current_linked hcurrent hs
    refine iff_of_true hpaired ?_
    rw [trustDevice_trust hw hcurrent]
    exact (certificate_of_links (by rw [trustDevice_manager]) _).symm
  · rename_i hok
    intro s i hs
    obtain ⟨hcurrent, hpaired⟩ := hholds s i hs
    obtain rfl := current_linked hcurrent hs
    exact ⟨hcurrent, hpaired, hfair.resolve_left hok⟩

theorem unpair_holds (hholds : w.Joined b) :
    ((Task.unpair b).run sha256 w c).1.Came b.deviceId ((Task.unpair b).run sha256 w c).2 := by
  simp only [Task.run]
  rcases through_cases w b (fun s => ({ s with pairing := .new false }, ())) with
    ⟨hsame, hstale, -⟩ | ⟨s, hs, -, hsessions, hlinks, -⟩
  · show World.Agree (w.through b _) b.deviceId
    rw [hsame]
    intro s i hs
    obtain ⟨hcurrent, -⟩ := hholds s i hs
    rw [hstale] at hcurrent
    cases hcurrent
  · intro s' i hs'
    obtain ⟨rfl, hactive⟩ := linked_insert hsessions hs'
    obtain ⟨-, -, htrust⟩ := hholds s i ⟨hs, hactive⟩
    refine iff_of_false ?_ ?_
    · show PairState.notPaired ≠ .paired
      decide
    · rw [show (w.setPairing b (.new false)).certificate i = w.certificate i from
        certificate_of_links hlinks i]
      exact htrust

theorem prove_holds (hw : Grounded w.manager) (hfair : w.manager.isCurrent b = true ∨
      ∀ s ∈ w.manager.sessions[b.deviceId]?, s.activeLink = none) :
    ((Task.prove b).run sha256 w c).1.Came b.deviceId ((Task.prove b).run sha256 w c).2 := by
  have hw' := (run_shift sha256 w c (.prove b)).grounded hw
  simp only [Task.run] at hw' ⊢
  rcases through_cases w b (fun s => ({ s with pairing := .new true }, ())) with
    ⟨hsame, hstale, -⟩ | ⟨s, hs, hcurrent, hsessions, -, -⟩
  · show World.Pending (w.through b _) b
    rw [hsame]
    intro s i hs
    rcases hfair with hcurrent | hnone
    · rw [hstale] at hcurrent
      cases hcurrent
    · cases (hnone s hs.1).symm.trans hs.2
  · intro s' i hs'
    obtain ⟨rfl, -⟩ := linked_insert hsessions hs'
    refine ⟨current_kept hw' hs hcurrent hsessions ?_, rfl⟩
    exact ⟨rfl, rfl, rfl, rfl, rfl, fun h => ⟨h.1, h.2, h.3⟩⟩

theorem adopt_holds (hw : Grounded w.manager) (hagree : w.Agree d)
    (hforetold : w.Foretold d link paired) : ((Task.adopt d link paired).run sha256 w c).1.Came d
      ((Task.adopt d link paired).run sha256 w c).2 := by
  simp only [Task.run]
  split
  · exact hagree
  · rename_i within _
    simp only
    split
    · exact hforetold
    · rcases adopt_cases w.manager d link.transport link.certificatePem within c.now with
        hsame | ⟨s, s', hs, hsessions, hactive, -, hpairing, hlinks⟩
      · rw [hsame]
        exact hagree
      · intro s₁ i hs₁
        obtain ⟨rfl, hi⟩ := linked_insert hsessions hs₁
        have hi : s.activeLink = some i := hactive.symm.trans hi
        generalize (w.manager.adoptOrKeep d link.transport link.certificatePem within c.now).1
          = m' at hlinks
        have hcertificate : World.certificate { w with manager := m' } i = w.certificate i :=
          SameLinks.certificate hlinks (hw.placed d s i hs hi)
        rw [hpairing, hcertificate]
        exact hagree s i ⟨hs, hi⟩
  · exact hforetold

theorem register_holds (hw : Grounded w.manager) (hforetold : w.Foretold d link paired) :
    ((Task.register d link paired).run sha256 w c).1.Came d
      ((Task.register d link paired).run sha256 w c).2 := by
  simp only [Task.run]
  rcases register_cases w.manager d link paired c.now with
    ⟨s, hs, hstate, -⟩ | ⟨s', hsessions, hactive, -, hpaired, hnew, -⟩
  · exact absurd hstate (hw.live d s hs)
  · intro s₁ i hs₁
    obtain ⟨rfl, hi⟩ := linked_insert hsessions hs₁
    obtain rfl := Option.some.inj (hactive.symm.trans hi)
    have hcertificate : World.certificate
        { w with manager := (w.manager.registerLink d link paired c.now).1 } w.manager.links.length
          = some link.certificatePem := by
      obtain ⟨made, hmade, hsame⟩ := Option.map_eq_some_iff.mp hnew
      unfold World.certificate
      rw [hmade]
      exact congrArg some (congrArg Prod.fst hsame)
    rw [hpaired, hcertificate]
    exact hforetold

theorem ask_holds (hagree : w.Agree d)
    (hpinned : w.trust[d]? = none ∨ w.trust[d]? = some link.certificatePem) :
    ((Task.ask d link).run sha256 w c).1.Came d ((Task.ask d link).run sha256 w c).2 := by
  refine ⟨hagree, ?_⟩
  show w.trust[d]?.isSome = true ↔ w.trust[d]? = some link.certificatePem
  rcases hpinned with h | h
  · rw [h]
    simp
  · rw [h]
    simp

theorem pin_holds {qr : Bool} (hagree : w.Agree d) :
    ((Task.pin d link qr).run sha256 w c).1.Came d ((Task.pin d link qr).run sha256 w c).2 := by
  simp only [Task.run]
  cases htrust : w.trust[d]? with
  | none => exact ⟨hagree, .inl htrust⟩
  | some pem =>
    simp only
    split
    · rename_i hpem
      subst hpem
      exact ⟨hagree, .inr htrust⟩
    · split
      · exact hagree
      · exact hagree

theorem proveLink_holds (hagree : w.Agree d) : ((Task.proveLink d link).run sha256 w c).1.Came d
      ((Task.proveLink d link).run sha256 w c).2 := by
  simp only [Task.run]
  split
  · show true = true ↔ (w.trust.insert d link.certificatePem)[d]? = some link.certificatePem
    simp
  · exact hagree

/-- One section of an operation that is not free, while no other operation
of the device is midway. -/
theorem run_holds {task : Task} (hw : Grounded w.manager) (hsane : task.Sane)
    (hfair : task.Fair w c) (hfree : task.free = false) (hholds : task.Holds w) :
    (task.run sha256 w c).1.Came task.device (task.run sha256 w c).2 := by
  cases task with
  | check | compare | seek | read | recognise | rebind => cases hfree
  | apply b command => exact apply_holds hw hholds
  | send b command snapshot state timestamp =>
    obtain rfl : state = .paired := by simpa [Task.free] using hfree
    simp only [Task.run]
    split <;> exact hholds
  | persistTrust b command snapshot state timestamp => exact persistTrust_holds hw hsane.2 hholds
  | revert b snapshot expected =>
    obtain rfl : expected = .paired := by simpa [Task.free] using hfree
    exact revert_holds hsane hholds
  | revoke d reason =>
    simp only [Task.run]
    split
    · rename_i hnone
      exact currentBinding_none hw (Option.isNone_iff_eq_none.mp hnone)
    · exact hholds
  | forget d reason => exact forget_holds hholds
  | find d reason => exact find_holds hw
  | drop b reason => exact revoke_dropped (.inl hholds)
  | untrust d => exact untrust_holds hw hfair hholds
  | receive b packet goesFirst => exact receive_holds hw hholds
  | trust b => exact trust_holds hw hfair hholds
  | unpair b => exact unpair_holds hholds
  | clear b => exact revoke_dropped (.inr hholds)
  | prove b => exact prove_holds hw hfair
  | pin d link qr => exact pin_holds hholds
  | proveLink d link => exact proveLink_holds hholds
  | ask d link => exact ask_holds hholds.1 hholds.2
  | attach d link paired =>
    simp only [Task.run]
    split
    · exact hholds.1
    · exact hholds
  | adopt d link paired => exact adopt_holds hw hholds.1 hholds.2
  | register d link paired => exact register_holds hw hholds

end

/-! ### One move -/

section
variable {sha256 : List UInt8 → List UInt8} {w w' : World} {c : Choice} {task t : Task} {d : String}
variable {i : Nat} {tasks : List Task}

theorem Alike.refl (w : World) (d : String) : Alike w w d := ⟨beside_refl _, rfl, .refl _⟩

/-- A section leaves other devices alone. -/
theorem run_other (hd : d ≠ task.device) : Alike w (task.run sha256 w c).1 d where
  sessions := by
    rw [run_sessions sha256 w c task hd]
    exact beside_refl _
  trust := run_trust sha256 w c task hd
  links := (run_shift sha256 w c task).links

/-- A free section leaves every device alone. -/
theorem run_free (hsane : task.Sane) (hfree : task.free = true) :
    Alike w (task.run sha256 w c).1 d := by
  cases task with
  | check | seek | read | recognise | rebind => exact .refl w d
  | compare b shown =>
    simp only [Task.run]
    split <;> exact .refl w d
  | send b command snapshot state timestamp => exact .refl w d
  | revert b snapshot expected =>
    have hexpected : expected ≠ .paired := by simpa [Task.free] using hfree
    refine ⟨withSession_beside (fun s => ?_) d, rfl, ?_⟩
    · simp only
      split
      · rename_i hstate
        refine ⟨⟨rfl, rfl, rfl, rfl, .inl rfl, fun h => ⟨h.1, h.2, h.3⟩⟩, ?_, id⟩
        rw [hstate]
        exact iff_of_false hsane hexpected
      · exact .refl s
    · exact sameLinks_of_eq (withSession_links w.manager b _)
  | _ => cases hfree

theorem run_free_next (hfree : task.free = true) (h : (task.run sha256 w c).2 = some t) :
    t.midway = false := by
  cases task with
  | check | seek =>
    obtain ⟨b, -, rfl⟩ := Option.map_eq_some_iff.mp h
    rfl
  | send b command snapshot state timestamp =>
    have hstate : state ≠ .paired := by simpa [Task.free] using hfree
    simp only [Task.run, if_neg hstate] at h
    split at h
    · cases h
    · cases h
      simpa [Task.midway] using hstate
  | compare | read | recognise | rebind | revert =>
    simp only [Task.run] at h
    repeat' split at h
    all_goals cases h
    all_goals rfl
  | _ => cases hfree

theorem run_sane (hsane : task.Sane) (h : (task.run sha256 w c).2 = some t) : t.Sane := by
  cases task with
  | apply b command =>
    simp only [Task.run] at h
    split at h
    · rename_i snapshot state timestamp hok
      cases h
      obtain ⟨s, -, -, hresult⟩ := withSession_ok hok
      unfold applyCommand at hresult
      split at hresult
      · cases hresult
      · rename_i hbuild
        cases hresult
        exact build_unpaired hbuild
    · cases h
    · cases h
  | send b command snapshot state timestamp =>
    simp only [Task.run] at h
    split at h
    · split at h
      · rename_i hstate
        cases h
        exact ⟨hsane, hstate⟩
      · cases h
    · cases h
      exact hsane
  | persistTrust b command snapshot state timestamp =>
    simp only [Task.run] at h
    split at h
    · cases h
    · cases h
      exact hsane.1
  | check | seek =>
    obtain ⟨b, -, rfl⟩ := Option.map_eq_some_iff.mp h
    trivial
  | _ =>
    simp only [Task.run] at h
    repeat' split at h
    all_goals cases h
    all_goals trivial

/-- An operation stays with its device. -/
theorem run_device (hw : Grounded w.manager) (h : (task.run sha256 w c).2 = some t) :
    t.device = task.device := by
  cases task with
  | check | seek =>
    obtain ⟨b, hb, rfl⟩ := Option.map_eq_some_iff.mp h
    exact (currentBinding_cases hw hb).1
  | find d reason =>
    simp only [Task.run] at h
    split at h
    · cases h
      rfl
    · rename_i b hb
      cases h
      exact (currentBinding_cases hw hb).1
  | rebind b packet goesFirst =>
    obtain rfl := Option.some.inj h
    show ((w.manager.currentBinding b.deviceId).getD b).deviceId = b.deviceId
    cases hb : w.manager.currentBinding b.deviceId with
    | none => rfl
    | some b' => exact (currentBinding_cases hw hb).1
  | _ =>
    simp only [Task.run] at h
    repeat' split at h
    all_goals cases h
    all_goals rfl

theorem free_midway (hfree : task.free = true) : task.midway = false := by
  cases task with
  | send b command snapshot state timestamp => simpa [Task.free, Task.midway] using hfree
  | revert b snapshot state => simpa [Task.free, Task.midway] using hfree
  | check | compare | seek | read | recognise | rebind => rfl
  | _ => cases hfree

theorem holds_iff_agree (hmidway : task.midway = false) :
    task.Holds w ↔ w.Agree task.device := by
  cases task with
  | send b command snapshot state timestamp =>
    exact iff_of_eq (if_neg (by simpa [Task.midway] using hmidway))
  | revert b snapshot state =>
    exact iff_of_eq (if_neg (by simpa [Task.midway] using hmidway))
  | persistTrust | forget | drop | untrust | trust | unpair | clear | ask | attach | adopt
  | register => cases hmidway
  | _ => exact .rfl

theorem mem_cases (hi : tasks[i]? = some task) (h : t ∈ tasks) :
    t = task ∨ t ∈ tasks.eraseIdx i := by
  obtain ⟨j, hj⟩ := List.mem_iff_getElem?.mp h
  by_cases hji : j = i
  · subst hji
    exact .inl (Option.some.inj (hj.symm.trans hi))
  · exact .inr (List.mem_eraseIdx_iff_getElem?.mpr ⟨j, hji, hj⟩)

/-- The other tasks stay, and the one that ran is what it came to. -/
theorem mem_proceed_iff (hi : tasks[i]? = some task) (next : Option Task) :
    t ∈ proceed tasks i next ↔ t ∈ tasks.eraseIdx i ∨ next = some t := by
  have hlt : i < tasks.length := (List.getElem?_eq_some_iff.mp hi).1
  cases next with
  | none => simp [proceed]
  | some t' =>
    show t ∈ tasks.set i t' ↔ _
    rw [List.mem_iff_getElem?, List.mem_eraseIdx_iff_getElem?]
    constructor
    · rintro ⟨j, hj⟩
      by_cases hji : i = j
      · subst hji
        rw [List.getElem?_set_self hlt] at hj
        exact .inr hj
      · rw [List.getElem?_set_ne hji] at hj
        exact .inl ⟨j, Ne.symm hji, hj⟩
    · rintro (⟨j, hji, hj⟩ | heq)
      · exact ⟨j, by rw [List.getElem?_set_ne (Ne.symm hji)]; exact hj⟩
      · exact ⟨i, by rw [List.getElem?_set_self hlt]; exact heq⟩

/-- What the task that runs holds. -/
theorem World.Settled.running (h : w.Settled) (hi : w.tasks[i]? = some task)
    (hothers : ∀ other ∈ w.tasks.eraseIdx i, other.device = task.device → other.midway = false) :
    task.Holds w := by
  cases hmidway : task.midway with
  | true => exact h.holds task (List.mem_of_getElem? hi) hmidway
  | false =>
    refine (holds_iff_agree hmidway).mpr (h.agree task.device (fun other hother hdevice => ?_))
    rcases mem_cases hi hother with rfl | hmem
    · exact hmidway
    · exact hothers other hmem hdevice

/-- A task runs a section. -/
theorem advance_settled (h : w.Settled) (hi : w.tasks[i]? = some task) (hfair : task.Fair w c)
    (horder : task.free = true ∨ ∀ other ∈ w.tasks.eraseIdx i, other.device = task.device →
      other.midway = false) :
    World.Settled { (task.run sha256 w c).1 with
      tasks := proceed w.tasks i (task.run sha256 w c).2 } := by
  have hshift := run_shift sha256 w c task
  have hw' := hshift.grounded h.grounded
  have hsane := h.sane task (List.mem_of_getElem? hi)
  -- What an operation at another place holds, or the device of none.
  have hother : ∀ d, (d ≠ task.device ∨ task.free = true) →
      Alike w (task.run sha256 w c).1 d := fun d hd => hd.elim run_other (run_free hsane)
  refine ⟨hw', ?_, ?_, ?_⟩
  · intro t ht
    rcases (mem_proceed_iff hi _).mp ht with hmem | hnext
    · exact h.sane t (List.mem_of_mem_eraseIdx hmem)
    · exact run_sane hsane hnext
  · intro t ht hmidway
    rcases (mem_proceed_iff hi _).mp ht with hmem | hnext
    · have halike : Alike w (task.run sha256 w c).1 t.device := by
        refine hother _ ?_
        by_contra hcon
        obtain ⟨hsame, hbusy⟩ := not_or.mp hcon
        have hnot := horder.resolve_left hbusy t hmem (not_not.mp hsame)
        rw [hnot] at hmidway
        cases hmidway
      exact halike.holds h.grounded hw' (h.holds t (List.mem_of_mem_eraseIdx hmem) hmidway)
    · cases hfree : task.free with
      | true =>
        rw [run_free_next hfree hnext] at hmidway
        cases hmidway
      | false =>
        have hothers := horder.resolve_left (by simp [hfree])
        have hcame : (task.run sha256 w c).1.Came task.device (task.run sha256 w c).2 :=
          run_holds h.grounded hsane hfair hfree (h.running hi hothers)
        rw [hnext] at hcame
        exact hcame
  · intro d hidle
    have hrest : ∀ other ∈ w.tasks.eraseIdx i, other.device = d → other.midway = false :=
      fun other hmem => hidle other ((mem_proceed_iff hi _).mpr (.inl hmem))
    by_cases hd : d = task.device ∧ task.free = false
    · obtain ⟨rfl, hfree⟩ := hd
      have hcame : (task.run sha256 w c).1.Came task.device (task.run sha256 w c).2 :=
        run_holds h.grounded hsane hfair hfree (h.running hi hrest)
      cases hnext : (task.run sha256 w c).2 with
      | none =>
        rw [hnext] at hcame
        exact hcame
      | some t =>
        rw [hnext] at hcame
        have hdevice := run_device h.grounded hnext
        have hmidway := hidle t ((mem_proceed_iff hi _).mpr (.inr hnext)) hdevice
        rw [← hdevice]
        exact (holds_iff_agree hmidway).mp hcame
    · have hd : d ≠ task.device ∨ task.free = true := by
        rcases not_and_or.mp hd with hd | hd
        · exact .inl hd
        · exact .inr (by simpa using hd)
      refine (hother d hd).agree h.grounded (h.agree d (fun other hmem hdevice => ?_))
      rcases mem_cases hi hmem with rfl | hmem
      · rcases hd with hd | hfree
        · exact absurd hdevice.symm hd
        · exact free_midway hfree
      · exact hrest other hmem hdevice

theorem op_start (op : Op) : op.task.Sane ∧ op.task.midway = false := by
  cases op with
  | acceptPair d shown => cases shown <;> exact ⟨trivial, rfl⟩
  | _ => exact ⟨trivial, rfl⟩

/-- One move. -/
theorem after_settled {move : Move} (h : w.Settled) (horderly : w.Orderly move) :
    (w.after sha256 move).Settled := by
  cases move with
  | start op =>
    obtain ⟨hsane, hmidway⟩ := op_start op
    have hmem : ∀ t ∈ w.tasks ++ [op.task], t ∈ w.tasks ∨ t = op.task :=
      fun t ht => (List.mem_append.mp ht).imp_right List.mem_singleton.mp
    refine ⟨h.grounded, fun t ht => ?_, fun t ht htm => ?_, fun d hidle => ?_⟩
    · rcases hmem t ht with hold | rfl
      · exact h.sane t hold
      · exact hsane
    · rcases hmem t ht with hold | rfl
      · exact h.holds t hold htm
      · rw [hmidway] at htm
        cases htm
    · exact h.agree d (fun t ht => hidle t (List.mem_append_left _ ht))
  | advance i c =>
    simp only [World.after]
    cases hi : w.tasks[i]? with
    | none => exact h
    | some task =>
      obtain ⟨hfair, horder⟩ := horderly task hi
      exact advance_settled h hi hfair horder
  | call call =>
    simp only [World.after]
    split
    · rename_i haside
      have hshift := aside_shift w.manager haside
      have hw' := hshift.grounded h.grounded
      have halike : ∀ d, Alike w { w with manager := w.manager.after call } d :=
        fun d => ⟨aside_beside w.manager haside d, rfl, hshift.links⟩
      refine ⟨hw', h.sane, fun t ht htm => ?_, fun d hidle => ?_⟩
      · exact (halike t.device).holds h.grounded hw' (h.holds t ht htm)
      · exact (halike d).agree h.grounded (h.agree d hidle)
    · exact h

end

/-! ### The run -/

/-- The sessions and the trust store agree. Start with any trust store, and
let users ask, accept, reject and unpair, pair packets and QR proofs come in
and links arrive, one section at a time and in any order, with sends and
saves that may fail. While every move is orderly: when no operation of a
device is in progress, its session, if it has a link, is paired exactly when
the trust store holds the certificate of that link. -/
theorem settled_agrees (sha256 : List UInt8 → List UInt8) (trust : KeyMap String)
    (moves : List Move)
    (horderly : Lib.Alongside (World.after sha256) World.Orderly { trust } moves) (d : String)
    (hidle : ∀ task ∈ (Lib.applyAll (World.after sha256) { trust } moves).tasks,
      task.device ≠ d) :
    (Lib.applyAll (World.after sha256) { trust } moves).Agree d := by
  have hstart : World.Settled { trust } := by
    refine ⟨empty_grounded, (fun t h => nomatch h), (fun t h => nomatch h), ?_⟩
    intro d _ s i hs
    have hs := hs.1
    simp at hs
  have hend := horderly.invariant (fun w move h hC => after_settled h hC) hstart
  exact hend.agree d (fun task hmem hdevice => absurd hdevice (hidle task hmem))

/-- Once all is done the phone is trusted on both sides. -/
theorem settled_agrees_honest :
    (Lib.applyAll (World.after digests) {} honest).tasks = [] ∧
    (Lib.applyAll (World.after digests) {} honest).trust["phone"]? = some "phone's" ∧
    (Lib.applyAll (World.after digests) {} honest).Agree "phone" := by
  refine ⟨by decide +kernel, by decide +kernel, ?_⟩
  have hidle : ∀ task ∈ (Lib.applyAll (World.after digests) {} honest).tasks,
      task.device ≠ "phone" := by decide +kernel
  exact settled_agrees digests ∅ honest (by decide +kernel) "phone" hidle

/-- The next section of the task `i`, in which a save fails. -/
def failing (i : Nat) : Move := .advance i { ok := false, nowSecs := 100 }

/-- The phone takes its request back after the acceptance moved the pairing
and before it is saved. -/
def takenBack : List Move :=
  asks "phone" "phone's" 2 0 0 ++ .start (.acceptPair "phone" none) :: sections 0 3
    ++ .start (.pairPacket ⟨"phone", 1, 1, 0, 0⟩ { pair := some false } false) :: sections 1 4
    ++ sections 0 1

/-- The user unpairs the phone, and the trust store cannot be saved. -/
def keptTrust : List Move :=
  honest ++ .start (.unpair "phone") :: sections 0 3 ++ [failing 0]

/-- The paired phone asks again, and the trust store cannot be saved. -/
def askedAgain : List Move :=
  honest ++ .start (.pairPacket ⟨"phone", 1, 1, 0, 0⟩
      { pair := some true, timestamp := some 100 } false) :: sections 0 2 ++ failing 0 :: sections 0 1

/-- The phone dials again, and a QR proof comes through its first link. -/
def lateProof : List Move :=
  asks "phone" "phone's" 2 0 0 ++ asks "phone" "phone's" 2 0 1
    ++ .start (.qrProof ⟨"phone", 1, 1, 0, 0⟩) :: sections 0 2

/-- The session of the phone and the trust store differ. -/
def World.parted (w : World) : Bool :=
  w.manager.sessions["phone"]?.any (fun s => s.activeLink.any (fun i =>
    decide (s.pairing.state = .paired) != decide (w.trust["phone"]? = w.certificate i)))

theorem not_agree_of_parted {w : World} (h : w.parted = true) : ¬w.Agree "phone" := by
  intro hagree
  unfold World.parted at h
  rw [Option.any_eq_true] at h
  obtain ⟨s, hs, h⟩ := h
  rw [Option.any_eq_true] at h
  obtain ⟨i, hi, h⟩ := h
  have hiff := hagree s i ⟨hs, hi⟩
  simp only [hiff, bne_self_eq_false] at h
  cases h

/-- After each of these runs no operation is in progress, and the session of
the phone and the trust store differ. -/
theorem trust_parted :
    [takenBack, keptTrust, askedAgain, lateProof].Forall (fun moves =>
      (Lib.applyAll (World.after digests) {} moves).tasks = [] ∧
      ¬(Lib.applyAll (World.after digests) {} moves).Agree "phone") := by
  have hparted : ∀ moves ∈ [takenBack, keptTrust, askedAgain, lateProof],
      (Lib.applyAll (World.after digests) {} moves).tasks = [] ∧
      (Lib.applyAll (World.after digests) {} moves).parted = true := by decide +kernel
  apply List.forall_iff_forall_mem.mpr
  exact fun moves hmem => ⟨(hparted moves hmem).1, not_agree_of_parted (hparted moves hmem).2⟩

end DeskLink.Session
