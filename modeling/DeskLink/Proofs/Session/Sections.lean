import DeskLink.Proofs.Session.Binding
import DeskLink.Session.Commands

/-!
# `DeskLink.Proofs.Session.Sections`: what a section can touch

A section of a task touches the session and the trust of its own device
only (`run_sessions`, `run_trust`). What it does to the manager is nothing,
or goes through a binding, or is one of the calls that name a device
(`run_manager`).

`Shift` is what every move is to the manager (`world_shift`): a step that
ends no session, and after which the links are the ones they were.
`Grounded` is what it keeps. `Beside` is what the calls beside the pairing
do to a session (`aside_beside`).
-/

set_option autoImplicit false

namespace DeskLink.Session

open DeskLink.Pairing (PairState PairingHandler Packet)

variable {m m' : DeviceManager} {R : Type} {b : SessionBinding} {d : String} {s' s : DeviceSession}
variable {call : Call} {operation : DeviceSession → DeviceSession × R}

/-! ### Links -/

/-- The certificate and the keys of a link. -/
def SessionLink.identity (link : SessionLink) : String × List UInt8 × List UInt8 :=
  (link.certificatePem, link.localPublicDer, link.remotePublicDer)

/-- The links that were there are the same ones, though their sockets may
have changed. -/
def SameLinks (m m' : DeviceManager) : Prop :=
  ∀ (i : Nat) (link : SessionLink), m.links[i]? = some link →
    m'.links[i]?.map SessionLink.identity = some link.identity

theorem SameLinks.refl (m : DeviceManager) : SameLinks m m := by
  intro i link h
  rw [h]
  rfl

theorem sameLinks_of_eq (h : m'.links = m.links) : SameLinks m m' := by
  intro i link hi
  rw [h, hi]
  rfl

theorem SameLinks.trans {m'' : DeviceManager} (h : SameLinks m m') (h' : SameLinks m' m'') :
    SameLinks m m'' := by
  intro i link hi
  obtain ⟨link', hi', hsame⟩ := Option.map_eq_some_iff.mp (h i link hi)
  rw [← hsame]
  exact h' i link' hi'

theorem closeLink_same (m : DeviceManager) (i : Nat) : SameLinks m (m.closeLink i) := by
  intro j link hj
  show (m.links.modify i _)[j]?.map _ = _
  rw [List.getElem?_modify, hj]
  by_cases hij : i = j <;> simp [hij, SessionLink.identity]

theorem relinkPairing_paired (pairing : PairingHandler) (paired : Bool) :
    (DeviceManager.relinkPairing pairing paired).state = .paired ↔ paired = true := by
  rcases pairing with ⟨state, timestamp, deadline⟩
  cases state <;> cases paired <;> simp [DeviceManager.relinkPairing, PairingHandler.new]

/-- A link arrives: the session of the device has it, and is paired as the
newcomer is said to be. -/
theorem register_cases (m : DeviceManager) (d : String) (link : SessionLink) (paired : Bool)
    (now : Nat) :
    (∃ s, m.sessions[d]? = some s ∧ s.state = .terminated ∧
      (m.registerLink d link paired now).1 = m) ∨
    ∃ s', (m.registerLink d link paired now).1.sessions = m.sessions.insert d s' ∧
      s'.activeLink = some m.links.length ∧ s'.state = .ready ∧
      (s'.pairing.state = .paired ↔ paired = true) ∧
      (m.registerLink d link paired now).1.links[m.links.length]?.map SessionLink.identity
        = some link.identity ∧
      SameLinks m (m.registerLink d link paired now).1 := by
  have happend : ∀ m' : DeviceManager, m'.links = m.links ++ [link] → SameLinks m m' := by
    intro m' hlinks j l hj
    rw [hlinks, List.getElem?_append_left (List.getElem?_eq_some_iff.mp hj).1, hj]
    rfl
  unfold DeviceManager.registerLink
  cases hs : m.sessions[d]? with
  | none =>
    refine .inr ⟨_, rfl, rfl, rfl, ?_, ?_, happend _ rfl⟩
    · cases paired <;> simp [PairingHandler.new]
    · simp
  | some s =>
    by_cases hstate : s.state = .terminated
    · simp only [if_pos hstate]
      exact .inl ⟨s, rfl, hstate, trivial⟩
    · simp only [if_neg hstate]
      have hpaired : (DeviceManager.relinkPairing s.pairing paired).state = .paired
          ↔ paired = true := relinkPairing_paired s.pairing paired
      cases s.activeLink with
      | none => exact .inr ⟨_, rfl, rfl, rfl, hpaired, by simp, happend _ rfl⟩
      | some replaced =>
        have hclosed := (happend { m with links := m.links ++ [link] } rfl).trans
          (closeLink_same _ replaced)
        refine .inr ⟨_, rfl, rfl, rfl, hpaired, ?_, hclosed⟩
        exact closeLink_same { m with links := m.links ++ [link] } replaced m.links.length link
          (by simp)

/-- An adoption puts a socket on the link that the session has. -/
theorem adopt_cases (m : DeviceManager) (d : String) (transport : Nat) (pem : String)
    (within now : Nat) :
    (m.adoptOrKeep d transport pem within now).1 = m ∨
    ∃ s s', m.sessions[d]? = some s ∧
      (m.adoptOrKeep d transport pem within now).1.sessions = m.sessions.insert d s' ∧
      s'.activeLink = s.activeLink ∧ s'.state = .ready ∧ s'.pairing = s.pairing ∧
      SameLinks m (m.adoptOrKeep d transport pem within now).1 := by
  unfold DeviceManager.adoptOrKeep
  cases hs : m.sessions[d]? with
  | none => exact .inl rfl
  | some s =>
    simp only
    split
    · exact .inl rfl
    · split
      · exact .inl rfl
      · split
        · exact .inl rfl
        · split
          · exact .inl rfl
          · split
            · exact .inl rfl
            · rename_i id _ _ link hlink _ _
              refine .inr ⟨s, _, rfl, rfl, rfl, rfl, rfl, ?_⟩
              intro j l hj
              show (m.links.set id _)[j]?.map _ = _
              by_cases hij : id = j
              · subst hij
                obtain rfl := Option.some.inj (hlink.symm.trans hj)
                rw [List.getElem?_set_self (List.getElem?_eq_some_iff.mp hj).1]
                rfl
              · rw [List.getElem?_set_ne hij, hj]
                rfl

/-- An operation runs exactly when the binding is current. -/
theorem withSession_outcome (m : DeviceManager) (b : SessionBinding)
    (operation : DeviceSession → DeviceSession × R) :
    (∃ e, m.withSession b operation = (m, .error e) ∧ m.isCurrent b = false) ∨
      ∃ s, m.sessions[b.deviceId]? = some s ∧ m.isCurrent b = true ∧
        m.withSession b operation
          = ({ m with sessions := m.sessions.insert b.deviceId (operation s).1 },
            .ok (operation s).2) := by
  unfold DeviceManager.withSession DeviceManager.isCurrent
  cases m.sessions[b.deviceId]? with
  | none => exact .inl ⟨_, rfl, by simp⟩
  | some s =>
    by_cases hstate : s.state = .terminated
    · exact .inl ⟨.terminatedSession, by simp [hstate], by simp [hstate]⟩
    · by_cases hholds : DeviceManager.holds s b = true ∧ b.cancellation ∉ m.cancelled
      · exact .inr ⟨s, rfl, by simp [hstate, hholds.1, hholds.2], by simp [hstate, hholds]⟩
      · refine .inl ⟨.staleBinding, by simp only [if_neg hstate, if_neg hholds], ?_⟩
        by_cases hset : b.cancellation ∈ m.cancelled
        · simp [hset]
        · simpa [hstate, hset] using hholds

/-- An operation that ran went through a current binding. -/
theorem withSession_ok {r : R} (h : (m.withSession b operation).2 = .ok r) :
    ∃ s, m.sessions[b.deviceId]? = some s ∧ m.isCurrent b = true ∧ (operation s).2 = r := by
  rcases withSession_outcome m b operation with ⟨e, heq, -⟩ | ⟨s, hs, hcurrent, heq⟩
  · rw [heq] at h
    cases h
  · rw [heq] at h
    exact ⟨s, hs, hcurrent, Except.ok.inj h⟩

theorem withSession_links (m : DeviceManager) (b : SessionBinding)
    (operation : DeviceSession → DeviceSession × R) :
    (m.withSession b operation).1.links = m.links := by
  rcases withSession_cases operation with heq | ⟨s, -, -, heq⟩ <;> rw [heq]

/-! ### What every move does to the manager -/

/-- Every link that a session has was made. -/
def Placed (m : DeviceManager) : Prop :=
  ∀ (d : String) (s : DeviceSession) (i : Nat), m.sessions[d]? = some s → s.activeLink = some i →
    i < m.links.length

/-- No session is terminated. -/
def Live (m : DeviceManager) : Prop :=
  ∀ (d : String) (s : DeviceSession), m.sessions[d]? = some s → s.state ≠ .terminated

/-- A step that ends no session, and leaves the links what they are. -/
structure Shift (m m' : DeviceManager) : Prop where
  step : Step m m'
  links : SameLinks m m'
  placed : Placed m → Placed m'
  live : Live m → Live m'

theorem Shift.refl (m : DeviceManager) : Shift m m := ⟨.refl m, .refl m, id, id⟩

theorem SameLinks.length_le (h : SameLinks m m') : m.links.length ≤ m'.links.length := by
  by_contra hlt
  have hi : m'.links.length < m.links.length := by omega
  have hsame := h m'.links.length _ (List.getElem?_eq_getElem hi)
  rw [List.getElem?_eq_none (Nat.le_refl _)] at hsame
  cases hsame

/-- One session changes; a link that it takes was made. -/
theorem insert_shift (hsessions : m'.sessions = m.sessions.insert d s') (hstep : Step m m')
    (hlinks : SameLinks m m')
    (hactive : Placed m → ∀ i, s'.activeLink = some i → i < m'.links.length)
    (hstate : Live m → s'.state ≠ .terminated) : Shift m m' where
  step := hstep
  links := hlinks
  placed h := by
    intro e t i ht hi
    rw [hsessions, getElem?_keyInsert] at ht
    split at ht
    · obtain rfl := Option.some.inj ht
      exact hactive h i hi
    · exact Nat.lt_of_lt_of_le (h e t i ht hi) hlinks.length_le
  live h := by
    intro e t ht
    rw [hsessions, getElem?_keyInsert] at ht
    split at ht
    · obtain rfl := Option.some.inj ht
      exact hstate h
    · exact h e t ht

/-- One session changes and keeps its link. -/
theorem kept_shift (hs : m.sessions[d]? = some s) (hsessions : m'.sessions = m.sessions.insert d s')
    (hstep : Step m m') (hlinks : SameLinks m m')
    (hactive : s'.activeLink = s.activeLink ∨ s'.activeLink = none)
    (hstate : s.state ≠ .terminated → s'.state ≠ .terminated) : Shift m m' := by
  refine insert_shift hsessions hstep hlinks (fun h i hi => ?_) (fun h => hstate (h d s hs))
  rcases hactive with heq | hnone
  · exact Nat.lt_of_lt_of_le (h d s i hs (heq.symm.trans hi)) hlinks.length_le
  · rw [hnone] at hi
    cases hi

theorem withSession_shift (h : ∀ s, Kept s (operation s).1 ∧ (operation s).1.state = s.state) :
    Shift m (m.withSession b operation).1 := by
  rcases withSession_cases operation with heq | ⟨s, hs, -, heq⟩
  · rw [heq]
    exact .refl m
  · rw [heq]
    refine kept_shift hs rfl (step_insert hs (h s).1) (.refl m) (.inl (h s).1.activeLink) ?_
    rw [(h s).2]
    exact id

theorem forgetPairing_shift (m : DeviceManager) (d : String) :
    Shift m (m.forgetPairing d).1 := by
  have hstep := forgetPairing_step m d
  unfold DeviceManager.forgetPairing at hstep ⊢
  cases hs : m.sessions[d]? with
  | none => exact .refl m
  | some s =>
    rw [hs] at hstep
    exact kept_shift hs rfl hstep (.refl m) (.inl rfl) id

theorem adopt_shift (m : DeviceManager) (d : String) (transport : Nat) (pem : String)
    (within now : Nat) : Shift m (m.adoptOrKeep d transport pem within now).1 := by
  have hstep := adopt_step m d transport pem within now
  rcases adopt_cases m d transport pem within now with
    heq | ⟨s, s', hs, hsessions, hactive, hstate, -, hlinks⟩
  · rw [heq]
    exact .refl m
  · exact kept_shift hs hsessions hstep hlinks (.inl hactive) (fun _ => by simp [hstate])

theorem register_shift (m : DeviceManager) (d : String) (link : SessionLink) (paired : Bool)
    (now : Nat) : Shift m (m.registerLink d link paired now).1 := by
  have hstep := register_step m d link paired now
  rcases register_cases m d link paired now with
    ⟨-, -, -, heq⟩ | ⟨s', hsessions, hactive, hstate, -, hnew, hlinks⟩
  · rw [heq]
    exact .refl m
  · refine insert_shift hsessions hstep hlinks (fun _ i hi => ?_) (fun _ => by simp [hstate])
    obtain rfl := Option.some.inj (hactive.symm.trans hi)
    obtain ⟨made, hmade, -⟩ := Option.map_eq_some_iff.mp hnew
    exact (List.getElem?_eq_some_iff.mp hmade).1

/-! ### Calls beside the pairing -/

/-- What a call beside the pairing does to a session: it can take its link,
but neither pairs it nor unpairs it. -/
structure Beside (s s' : DeviceSession) : Prop where
  follows : Follows s s'
  paired : s'.pairing.state = .paired ↔ s.pairing.state = .paired
  state : s.state ≠ .terminated → s'.state ≠ .terminated

theorem Beside.refl (s : DeviceSession) : Beside s s := ⟨(Kept.refl s).follows, .rfl, id⟩

theorem beside_refl (o : Option DeviceSession) : Option.Rel Beside o o := by
  cases o with
  | none => exact .none
  | some s => exact .some (.refl s)

theorem beside_insert (hs : m.sessions[d]? = some s) (h : Beside s s') (e : String) :
    Option.Rel Beside m.sessions[e]? (m.sessions.insert d s')[e]? := by
  rw [getElem?_keyInsert]
  split
  · rename_i he
    rw [← he, hs]
    exact .some h
  · exact beside_refl _

theorem withSession_beside (h : ∀ s, Beside s (operation s).1) (e : String) :
    Option.Rel Beside m.sessions[e]? (m.withSession b operation).1.sessions[e]? := by
  rcases withSession_cases operation with heq | ⟨s, hs, -, heq⟩
  · rw [heq]
    exact beside_refl _
  · rw [heq]
    exact beside_insert hs (h s) e

theorem disconnect_beside (m : DeviceManager) (b : SessionBinding) (reason : String) (e : String) :
    Option.Rel Beside m.sessions[e]? (m.disconnectIfCurrent b reason).1.sessions[e]? := by
  unfold DeviceManager.disconnectIfCurrent
  cases hs : m.sessions[b.deviceId]? with
  | none => exact beside_refl _
  | some s =>
    simp only
    split
    · exact beside_refl _
    · refine beside_insert hs ?_ e
      refine ⟨⟨rfl, rfl, rfl, rfl, .inr rfl, ?_⟩, .rfl, ?_⟩
      · exact fun _ => clearWebrtcState_whole _
      · exact fun _ => by simp [DeviceSession.clearWebrtcState]

theorem bootstrapDisconnected_beside (m : DeviceManager) (b : SessionBinding) (reason : String)
    (epoch : Option UInt64) (e : String) :
    Option.Rel Beside m.sessions[e]? (m.bootstrapDisconnected b reason epoch).1.sessions[e]? := by
  unfold DeviceManager.bootstrapDisconnected
  cases hs : m.sessions[b.deviceId]? with
  | none => exact beside_refl _
  | some s =>
    simp only
    split
    · exact beside_refl _
    · split
      · refine beside_insert hs ?_ e
        refine ⟨⟨rfl, rfl, rfl, rfl, .inl rfl, ?_⟩, .rfl, ?_⟩
        · exact fun h => ⟨h.1, h.2, h.3⟩
        · exact fun _ => by simp
      · exact disconnect_beside m b reason e

theorem expireIfDue_paired (pairing : PairingHandler) (now : Int) :
    (pairing.expireIfDue now).1.state = .paired ↔ pairing.state = .paired := by
  unfold PairingHandler.expireIfDue
  split
  · rfl
  · split
    · rfl
    · split
      · rfl
      · rename_i hwaiting
        -- A negotiation that is given up was not a pairing.
        constructor
        · nofun
        · intro hpaired
          exact absurd ⟨by simp [hpaired], by simp [hpaired]⟩ hwaiting

theorem aside_beside (m : DeviceManager) (h : call.aside = true) (e : String) :
    Option.Rel Beside m.sessions[e]? (m.after call).sessions[e]? := by
  cases call with
  | closeLink link => exact beside_refl _
  | disconnect b reason => exact disconnect_beside m b reason e
  | bootstrapDisconnected b reason => exact bootstrapDisconnected_beside m b reason none e
  | readerDisconnected b epoch reason =>
    exact bootstrapDisconnected_beside m b reason (some epoch) e
  | install b attempt wire peer transfers onlyIfNone =>
    refine withSession_beside (fun s => ?_) e
    split
    · exact .refl s
    · split
      · exact .refl s
      · exact ⟨⟨rfl, rfl, rfl, rfl, .inl rfl, fun _ => ⟨rfl, rfl, rfl⟩⟩, .rfl, id⟩
  | clearWebrtc b attempt reason =>
    refine withSession_beside (fun s => ?_) e
    split
    · exact .refl s
    · exact ⟨⟨rfl, rfl, rfl, rfl, .inl rfl, fun _ => clearWebrtcState_whole _⟩, .rfl, id⟩
  | handover b attempt operation =>
    refine withSession_beside (fun s => ?_) e
    split
    · exact .refl s
    · cases hhandover : s.webrtcHandover with
      | none => exact .refl s
      | some handover =>
        refine ⟨⟨rfl, rfl, rfl, rfl, .inl rfl, fun h => ⟨h.1, h.2, ?_⟩⟩, .rfl, id⟩
        have hsome := h.3
        rw [hhandover] at hsome
        exact hsome
  | expirePairing now =>
    show Option.Rel Beside m.sessions[e]? (m.sessions.map _)[e]?
    rw [Std.ExtTreeMap.getElem?_map]
    cases m.sessions[e]? with
    | none => exact .none
    | some s =>
      refine .some ⟨⟨rfl, rfl, rfl, rfl, .inl rfl, fun h => ⟨h.1, h.2, h.3⟩⟩, ?_, id⟩
      exact expireIfDue_paired s.pairing now
  | noteInbound d now =>
    show Option.Rel Beside m.sessions[e]? (m.noteInbound d now).sessions[e]?
    unfold DeviceManager.noteInbound
    cases hs : m.sessions[d]? with
    | none => exact beside_refl _
    | some s =>
      refine beside_insert hs ?_ e
      exact ⟨⟨rfl, rfl, rfl, rfl, .inl rfl, fun h => ⟨h.1, h.2, h.3⟩⟩, .rfl, id⟩
  | _ => cases h

theorem disconnect_links (m : DeviceManager) (b : SessionBinding) (reason : String) :
    (m.disconnectIfCurrent b reason).1.links = m.links := by
  unfold DeviceManager.disconnectIfCurrent
  cases m.sessions[b.deviceId]? with
  | none => rfl
  | some s =>
    simp only
    split <;> rfl

theorem bootstrapDisconnected_links (m : DeviceManager) (b : SessionBinding) (reason : String)
    (epoch : Option UInt64) : (m.bootstrapDisconnected b reason epoch).1.links = m.links := by
  unfold DeviceManager.bootstrapDisconnected
  cases m.sessions[b.deviceId]? with
  | none => rfl
  | some s =>
    simp only
    split
    · rfl
    · split
      · rfl
      · exact disconnect_links m b reason

theorem aside_same (m : DeviceManager) (h : call.aside = true) : SameLinks m (m.after call) := by
  cases call with
  | closeLink link => exact closeLink_same m link
  | disconnect b reason => exact sameLinks_of_eq (disconnect_links m b reason)
  | bootstrapDisconnected b reason =>
    exact sameLinks_of_eq (bootstrapDisconnected_links m b reason none)
  | readerDisconnected b epoch reason =>
    exact sameLinks_of_eq (bootstrapDisconnected_links m b reason (some epoch))
  | install | clearWebrtc | handover => exact sameLinks_of_eq (withSession_links m _ _)
  | expirePairing now => exact .refl m
  | noteInbound d now =>
    show SameLinks m (m.noteInbound d now)
    unfold DeviceManager.noteInbound
    cases m.sessions[d]? with
    | none => exact .refl m
    | some s => exact sameLinks_of_eq rfl
  | _ => cases h

theorem aside_shift (m : DeviceManager) (h : call.aside = true) : Shift m (m.after call) := by
  have hlinks := aside_same m h
  refine ⟨after_step m call, hlinks, fun hplaced => ?_, fun hlive => ?_⟩
  · intro d s' i hs' hi
    have hrel := aside_beside m h d
    rw [hs'] at hrel
    obtain ⟨s, hs, hbeside⟩ := rel_some hrel
    rcases hbeside.follows.activeLink with heq | hnone
    · exact Nat.lt_of_lt_of_le (hplaced d s i hs (heq.symm.trans hi)) hlinks.length_le
    · rw [hnone] at hi
      cases hi
  · intro d s' hs'
    have hrel := aside_beside m h d
    rw [hs'] at hrel
    obtain ⟨s, hs, hbeside⟩ := rel_some hrel
    exact hbeside.state (hlive d s hs)

/-! ### Sections -/

section
variable (sha256 : List UInt8 → List UInt8) (w : World) (c : Choice) {e : String} {t : Task}

theorem trustDevice_manager (b : SessionBinding) : (w.trustDevice b).manager = w.manager := by
  unfold World.trustDevice
  split <;> rfl

/-- What a section does to the manager: nothing, or something through a
binding that keeps the session bound, or one of the calls that name a
device. -/
theorem run_manager (task : Task) :
    (task.run sha256 w c).1.manager = w.manager ∨
    (∃ (R : Type) (b : SessionBinding) (f : DeviceSession → DeviceSession × R),
      b.deviceId = task.device ∧ (∀ s, Kept s (f s).1 ∧ (f s).1.state = s.state) ∧
      (task.run sha256 w c).1.manager = (w.manager.withSession b f).1) ∨
    (task.run sha256 w c).1.manager = (w.manager.forgetPairing task.device).1 ∨
    (∃ (transport : Nat) (pem : String) (within : Nat), (task.run sha256 w c).1.manager
      = (w.manager.adoptOrKeep task.device transport pem within c.now).1) ∨
    ∃ (link : SessionLink) (paired : Bool), (task.run sha256 w c).1.manager
      = (w.manager.registerLink task.device link paired c.now).1 := by
  have hpairing : ∀ (s : DeviceSession) (pairing : PairingHandler),
      Kept s { s with pairing } ∧ { s with pairing }.state = s.state :=
    fun s pairing => ⟨⟨rfl, rfl, rfl, rfl, rfl, fun h => ⟨h.1, h.2, h.3⟩⟩, rfl⟩
  have hrevoke : ∀ (b : SessionBinding) (reason : String), b.deviceId = task.device →
      (task.run sha256 w c).1.manager = (w.manager.revokePairing b reason).1 →
      ∃ (R : Type) (b : SessionBinding) (f : DeviceSession → DeviceSession × R),
        b.deviceId = task.device ∧ (∀ s, Kept s (f s).1 ∧ (f s).1.state = s.state) ∧
        (task.run sha256 w c).1.manager = (w.manager.withSession b f).1 := by
    intro b reason hdevice heq
    refine ⟨_, b, _, hdevice, ?_, heq⟩
    exact fun s => ⟨⟨rfl, rfl, rfl, rfl, rfl, fun _ => clearWebrtcState_whole _⟩, rfl⟩
  cases task with
  | check | seek | send | revoke | find | untrust | read | recognise | rebind | pin | ask
  | attach =>
    refine .inl ?_
    simp only [Task.run]
    try split <;> rfl
  | compare b shown =>
    refine .inl ?_
    simp only [Task.run]
    split <;> rfl
  | apply b command =>
    refine .inr (.inl ⟨_, b, applyCommand command c.nowSecs, rfl, fun s => ?_, rfl⟩)
    unfold applyCommand
    split
    · exact ⟨.refl s, rfl⟩
    · exact hpairing s _
  | persistTrust b command snapshot state timestamp =>
    refine .inl ?_
    simp only [Task.run]
    split
    · exact trustDevice_manager w b
    · rfl
  | revert b snapshot expected =>
    refine .inr (.inl ⟨_, b, _, rfl, fun s => ?_, rfl⟩)
    show Kept s (if _ then _ else _) ∧ (if _ then _ else _ : DeviceSession).state = _
    split
    · exact hpairing s snapshot
    · exact ⟨.refl s, rfl⟩
  | forget d reason => exact .inr (.inr (.inl rfl))
  | drop b reason => exact .inr (.inl (hrevoke b reason rfl rfl))
  | receive b packet goesFirst =>
    exact .inr (.inl ⟨_, b, receivePacket packet goesFirst c.nowSecs, rfl,
      fun s => hpairing s _, rfl⟩)
  | trust b =>
    refine .inl ?_
    simp only [Task.run]
    split
    · exact trustDevice_manager w b
    · rfl
  | unpair b => exact .inr (.inl ⟨_, b, _, rfl, fun s => hpairing s _, rfl⟩)
  | clear b => exact .inr (.inl (hrevoke b _ rfl rfl))
  | prove b => exact .inr (.inl ⟨_, b, _, rfl, fun s => hpairing s _, rfl⟩)
  | proveLink d link =>
    refine .inl ?_
    simp only [Task.run]
    split <;> rfl
  | adopt d link paired =>
    simp only [Task.run]
    split
    · exact .inl rfl
    · exact .inr (.inr (.inr (.inl ⟨_, _, _, rfl⟩)))
    · exact .inl rfl
  | register d link paired => exact .inr (.inr (.inr (.inr ⟨link, paired, rfl⟩)))

theorem insert_other {m m' : DeviceManager} {d : String} {s' : DeviceSession}
    (h : m'.sessions = m.sessions.insert d s') (he : e ≠ d) :
    m'.sessions[e]? = m.sessions[e]? := by
  rw [h, getElem?_keyInsert, if_neg (Ne.symm he)]

/-- The sessions of other devices are left alone. -/
theorem run_sessions (task : Task) (he : e ≠ task.device) :
    (task.run sha256 w c).1.manager.sessions[e]? = w.manager.sessions[e]? := by
  rcases run_manager sha256 w c task with
    heq | ⟨R, b, f, hb, -, heq⟩ | heq | ⟨transport, pem, within, heq⟩ | ⟨link, paired, heq⟩
  · rw [heq]
  · rw [heq]
    rcases withSession_cases f with hsame | ⟨s, -, -, hins⟩
    · rw [hsame]
    · rw [hins]
      exact insert_other rfl (hb ▸ he)
  · rw [heq]
    unfold DeviceManager.forgetPairing
    cases w.manager.sessions[task.device]? with
    | none => rfl
    | some s => exact insert_other rfl he
  · rw [heq]
    rcases adopt_cases w.manager task.device transport pem within c.now with
      hsame | ⟨s, s', -, hsessions, -⟩
    · rw [hsame]
    · exact insert_other hsessions he
  · rw [heq]
    rcases register_cases w.manager task.device link paired c.now with
      ⟨-, -, -, hsame⟩ | ⟨s', hsessions, -⟩
    · rw [hsame]
    · exact insert_other hsessions he

theorem trustDevice_other (b : SessionBinding) (he : e ≠ b.deviceId) :
    (w.trustDevice b).trust[e]? = w.trust[e]? := by
  unfold World.trustDevice
  split
  · exact (getElem?_keyInsert ..).trans (if_neg (Ne.symm he))
  · rfl

/-- The trust of other devices is left alone. -/
theorem run_trust (task : Task) (he : e ≠ task.device) :
    (task.run sha256 w c).1.trust[e]? = w.trust[e]? := by
  cases task with
  | persistTrust b command snapshot state timestamp =>
    simp only [Task.run]
    split
    · exact trustDevice_other w b he
    · rfl
  | trust b =>
    simp only [Task.run]
    split
    · exact trustDevice_other w b he
    · rfl
  | untrust d =>
    simp only [Task.run]
    split
    · exact (getElem?_keyErase ..).trans (if_neg (Ne.symm he))
    · rfl
  | proveLink d link =>
    simp only [Task.run]
    split
    · exact (getElem?_keyInsert ..).trans (if_neg (Ne.symm he))
    · rfl
  | compare | adopt =>
    simp only [Task.run]
    split <;> rfl
  | _ => rfl

theorem run_shift (task : Task) : Shift w.manager (task.run sha256 w c).1.manager := by
  rcases run_manager sha256 w c task with
    heq | ⟨R, b, f, -, hf, heq⟩ | heq | ⟨transport, pem, within, heq⟩ | ⟨link, paired, heq⟩
  · rw [heq]
    exact .refl _
  · rw [heq]
    exact withSession_shift hf
  · rw [heq]
    exact forgetPairing_shift _ _
  · rw [heq]
    exact adopt_shift _ _ _ _ _ _
  · rw [heq]
    exact register_shift _ _ _ _ _

/-- Every move is a shift of the manager. -/
theorem world_shift (move : Move) : Shift w.manager (w.after sha256 move).manager := by
  cases move with
  | start op => exact .refl _
  | advance i c =>
    simp only [World.after]
    cases w.tasks[i]? with
    | none => exact .refl _
    | some task => exact run_shift sha256 w c task
  | call call =>
    simp only [World.after]
    split
    · rename_i haside
      exact aside_shift _ haside
    · exact .refl _

theorem mem_proceed {tasks : List Task} {i : Nat} {next : Option Task}
    (h : t ∈ proceed tasks i next) : t ∈ tasks ∨ next = some t := by
  cases next with
  | none => exact .inl (List.mem_of_mem_eraseIdx h)
  | some t' =>
    rcases List.mem_or_eq_of_mem_set h with hmem | rfl
    · exact .inl hmem
    · exact .inr rfl

/-- A task was there before the move, or begins with it, or is what a task
that ran a section came to. -/
theorem task_cases {move : Move} (h : t ∈ (w.after sha256 move).tasks) :
    t ∈ w.tasks ∨ (∃ op, move = .start op ∧ t = op.task) ∨
      ∃ i c task, move = .advance i c ∧ w.tasks[i]? = some task ∧
        (task.run sha256 w c).2 = some t := by
  cases move with
  | start op =>
    rcases List.mem_append.mp h with hmem | hnew
    · exact .inl hmem
    · exact .inr (.inl ⟨op, rfl, List.mem_singleton.mp hnew⟩)
  | advance i c =>
    simp only [World.after] at h
    cases htask : w.tasks[i]? with
    | none =>
      rw [htask] at h
      exact .inl h
    | some task =>
      rw [htask] at h
      rcases mem_proceed h with hmem | hnext
      · exact .inl hmem
      · exact .inr (.inr ⟨i, c, task, rfl, htask, hnext⟩)
  | call call =>
    simp only [World.after] at h
    split at h <;> exact .inl h

end

/-! ### What every move keeps -/

structure Grounded (m : DeviceManager) : Prop where
  sound : Sound m
  placed : Placed m
  live : Live m

theorem empty_grounded : Grounded {} :=
  ⟨empty_sound, fun d s i h => by simp at h, fun d s h => by simp at h⟩

theorem Shift.grounded (h : Shift m m') (hm : Grounded m) : Grounded m' :=
  ⟨h.step.sound hm.sound, h.placed hm.placed, h.live hm.live⟩

section
variable {m m' : DeviceManager} {b : SessionBinding}

theorem isCurrent_of_holds {s : DeviceSession} (hm : Grounded m)
    (hs : m.sessions[b.deviceId]? = some s) (hid : s.sessionId = b.sessionId)
    (hgen : s.connectionGeneration = b.generation) (hlink : s.activeLink = some b.link)
    (htoken : s.cancellation = b.cancellation) : m.isCurrent b = true := by
  have hset : b.cancellation ∉ m.cancelled := by
    intro hmem
    rw [← htoken] at hmem
    have hnone := hm.sound.gone b.deviceId s hs hmem
    rw [hlink] at hnone
    cases hnone
  have hlive := hm.live b.deviceId s hs
  simp [DeviceManager.isCurrent, hs, hset, hlive, DeviceManager.holds, hid, hgen, hlink, htoken]

/-- A binding whose token was made does not become current again. -/
theorem Shift.current_back (h : Shift m m') (hm : Grounded m) (hmade : b.cancellation < m.tokens)
    (hc : m'.isCurrent b = true) : m.isCurrent b = true := by
  obtain ⟨s', hs', hid, hgen, hlink, htoken⟩ := isCurrent_holds hc
  rcases h.step.session_cases hs' with ⟨s, hs, hf⟩ | ⟨hr, -⟩
  · have hactive : s.activeLink = some b.link := by
      rcases hf.activeLink with heq | hnone
      · exact heq.symm.trans hlink
      · rw [hnone] at hlink
        cases hlink
    exact isCurrent_of_holds hm hs (hf.sessionId.symm.trans hid) (hf.generation.symm.trans hgen)
      hactive (hf.cancellation.symm.trans htoken)
  · -- The token of a link that was just registered is newer.
    have hnew := hr.cancellation
    omega

theorem current_link (hm : Grounded m) (hc : m.isCurrent b = true) :
    ∃ link, m.links[b.link]? = some link := by
  obtain ⟨s, hs, -, -, hlink, -⟩ := isCurrent_holds hc
  exact ⟨_, List.getElem?_eq_getElem (hm.placed b.deviceId s b.link hs hlink)⟩

theorem current_made (hm : Grounded m) (hc : m.isCurrent b = true) :
    b.cancellation < m.tokens := by
  obtain ⟨s, hs, -, -, -, htoken⟩ := isCurrent_holds hc
  rw [← htoken]
  exact hm.sound.made b.deviceId s hs

/-- The binding that a device has is current. -/
theorem currentBinding_cases {d : String} (hm : Grounded m) (h : m.currentBinding d = some b) :
    b.deviceId = d ∧ m.isCurrent b = true := by
  unfold DeviceManager.currentBinding at h
  cases hs : m.sessions[d]? with
  | none =>
    rw [hs] at h
    cases h
  | some s =>
    rw [hs] at h
    simp only [if_neg (hm.live d s hs)] at h
    obtain ⟨link, hlink, rfl⟩ := Option.map_eq_some_iff.mp h
    have hdevice := hm.sound.device d s hs
    refine ⟨hdevice, isCurrent_of_holds hm ?_ rfl rfl hlink rfl⟩
    show m.sessions[s.deviceId]? = some s
    rw [hdevice]
    exact hs

end

end DeskLink.Session
