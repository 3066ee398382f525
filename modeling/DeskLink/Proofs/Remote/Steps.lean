import DeskLink.Remote.Session

/-!
# `DeskLink.Proofs.Remote.Steps`: what a call does to a session

The fields that the proofs are about, after each function of the session;
what the checks of a message say (`check_ok`, `stale_current`); and what
every call keeps, whatever the phone sends.

* `call_sound`: a session has an identifier exactly when it is neither idle
  nor stopped, and holds one lease at most.
-/

set_option autoImplicit false

namespace DeskLink.Remote

/-! ### Fields -/

section
variable (s : RemoteSession) (state : SessionState) (clock : Clock)

@[simp] theorem setState_state : (s.setState state clock).state = state := rfl
@[simp] theorem setState_remoteSessionId :
    (s.setState state clock).remoteSessionId = s.remoteSessionId := rfl
@[simp] theorem setState_direction : (s.setState state clock).direction = s.direction := rfl
@[simp] theorem setState_lease : (s.setState state clock).lease = s.lease := rfl
@[simp] theorem setState_peerInputLease :
    (s.setState state clock).peerInputLease = s.peerInputLease := rfl

/-- A screen that is taken changes nothing else. -/
theorem takeScreen_fields (message : ControlMessage) :
    (s.takeScreen message).state = s.state ∧
    (s.takeScreen message).remoteSessionId = s.remoteSessionId ∧
    (s.takeScreen message).lease = s.lease ∧
    (s.takeScreen message).peerInputLease = s.peerInputLease := by
  unfold RemoteSession.takeScreen
  split
  · unfold RemoteSession.setPhoneScreen
    split <;> exact ⟨rfl, rfl, rfl, rfl⟩
  · exact ⟨rfl, rfl, rfl, rfl⟩

@[simp] theorem acceptReady_remoteSessionId (message : ControlMessage) :
    (s.acceptReady message clock).remoteSessionId = s.remoteSessionId := by
  unfold RemoteSession.acceptReady
  simp only
  split <;> simp [takeScreen_fields]

@[simp] theorem acceptReady_lease (message : ControlMessage) :
    (s.acceptReady message clock).lease = s.lease := by
  unfold RemoteSession.acceptReady
  simp only
  split <;> simp [takeScreen_fields]

@[simp] theorem acceptReady_peerInputLease (message : ControlMessage) :
    (s.acceptReady message clock).peerInputLease = s.peerInputLease := by
  unfold RemoteSession.acceptReady
  simp only
  split <;> simp [takeScreen_fields]

/-- A rotation does not end control. -/
theorem acceptReady_rotated {message : ControlMessage} (h : message.kind = .screenReady ∧
      (s.state = .controlling ∨ s.state = .requestingControl)) :
    (s.acceptReady message clock).state = s.state := by
  unfold RemoteSession.acceptReady
  simp only [if_pos h]
  exact (takeScreen_fields ..).1

/-- A view that is granted, or ready, is viewed. -/
theorem acceptReady_state (message : ControlMessage) :
    (s.acceptReady message clock).state = .viewing ∨
      (s.state = .controlling ∨ s.state = .requestingControl) ∧
        (s.acceptReady message clock).state = s.state := by
  by_cases h : message.kind = .screenReady ∧
      (s.state = .controlling ∨ s.state = .requestingControl)
  · exact .inr ⟨h.2, acceptReady_rotated s clock h⟩
  · refine .inl ?_
    unfold RemoteSession.acceptReady
    simp only [if_neg h]
    rfl

end

/-! ### Messages -/

section
variable {s : RemoteSession} {message : ControlMessage} {clock : Clock}

/-- A message is refused, or its checks pass and it is applied. -/
theorem accept_cases (s : RemoteSession) (message : ControlMessage) (clock : Clock) :
    (∃ e, s.accept message clock = (s, .error e)) ∨
      s.checkMessage message = .ok () ∧
        s.accept message clock = s.applyMessage message clock := by
  unfold RemoteSession.accept
  cases s.checkMessage message with
  | error e => exact .inl ⟨e, rfl⟩
  | ok u => exact .inr ⟨rfl, rfl⟩

theorem accept_heartbeat (hk : message.kind = .heartbeat) :
    s.accept message clock = s.acceptHeartbeat message clock := by
  simp [RemoteSession.accept, RemoteSession.checkMessage, RemoteSession.stale,
    RemoteSession.applyMessage, hk]

/-- What the checks of a message that was applied say. -/
theorem check_ok (h : s.checkMessage message = .ok ()) :
    s.stale message = false ∧ (message.kind = .controlGranted ∨ message.kind = .takeoverGranted →
      s.state = .requestingControl ∨ s.state = .controlling) := by
  unfold RemoteSession.checkMessage at h
  split at h
  · cases h
  · split at h
    · cases h
    · rename_i hstale
      split at h
      · cases h
      · rename_i hstate
        refine ⟨by simpa using hstale, fun hgranted => ?_⟩
        by_contra hcon
        exact hstate ⟨hgranted, not_or.mp hcon⟩

theorem mismatched_iff : s.mismatched message = false ↔
    s.remoteSessionId = some message.remoteSessionId := by
  simp [RemoteSession.mismatched]

/-- A message that changes a session and is not of the kinds that are
checked otherwise names the current one. -/
theorem stale_current (hkind : message.kind = .viewGranted ∨ message.kind = .screenReady ∨
      message.kind = .pauseLocked ∨ message.kind = .resume ∨ message.kind = .controlGranted ∨
      message.kind = .takeoverGranted ∨ message.kind = .requestControl ∨
      message.kind = .takeoverRequest)
    (h : s.stale message = false) : s.remoteSessionId = some message.remoteSessionId := by
  rw [← mismatched_iff]
  unfold RemoteSession.stale at h
  rcases hkind with hk | hk | hk | hk | hk | hk | hk | hk <;> rw [hk] at h <;> exact h

end

/-! ### Uses of the phone's lease -/

/-- The phone's lease after a use at the time `now`. -/
def PeerInputLease.refreshed (lease : PeerInputLease) (sequence now : Int) : PeerInputLease :=
  { lease with
    sequenceWindow := (lease.sequenceWindow.accept sequence).1
    expiresAt := now + leaseLifetime }

section
variable (s : RemoteSession) (clock : Clock)

/-- An input packet does nothing, or finds that the lease has run out, or
uses it. -/
theorem verify_cases (packet : InputPacket) (owner : String) :
    (∃ e, s.verifyPeerInput packet owner clock = (s, .error e)) ∨
    (∃ lease e, s.state = .peerControlling ∧ s.peerInputLease = some lease ∧
      lease.expiresAt ≤ clock.now ∧
      s.verifyPeerInput packet owner clock
        = ({ s with peerInputLease := none }.setState .viewing clock, .error e)) ∨
    ∃ id lease sequence, s.state = .peerControlling ∧ s.remoteSessionId = some id ∧
      s.peerInputLease = some lease ∧ lease.ownerDeviceId = owner ∧
      clock.now < lease.expiresAt ∧ packet.remoteSessionId = some id ∧
      packet.leaseId = some lease.id ∧ packet.inputSequence = some sequence ∧
      (lease.sequenceWindow.accept sequence).2 = true ∧
      s.verifyPeerInput packet owner clock
        = ({ s with peerInputLease := some (lease.refreshed sequence clock.now) }, .ok ()) := by
  unfold RemoteSession.verifyPeerInput
  split
  · exact .inl ⟨_, rfl⟩
  · rename_i hstate
    split
    · exact .inl ⟨_, rfl⟩
    · exact .inl ⟨_, rfl⟩
    · rename_i id lease hid hpeer
      split
      · exact .inl ⟨_, rfl⟩
      · rename_i howner
        split
        · rename_i hexpired
          exact .inr (.inl ⟨lease, _, not_not.mp hstate, hpeer, hexpired, rfl⟩)
        · rename_i hvalid
          split
          · exact .inl ⟨_, rfl⟩
          · rename_i hquoted
            obtain ⟨hsession, hlease⟩ := not_or.mp hquoted
            split
            · exact .inl ⟨_, rfl⟩
            · rename_i sequence hsequence
              simp only
              split
              · exact .inl ⟨_, rfl⟩
              · rename_i haccepted
                refine .inr (.inr ⟨id, lease, sequence, not_not.mp hstate, hid, hpeer,
                  not_not.mp howner, by omega, not_not.mp hsession, not_not.mp hlease,
                  hsequence, by simpa using haccepted, rfl⟩)

/-- A heartbeat refreshes this computer's lease, or does nothing, or finds
that the phone's lease has run out, or uses it. -/
theorem heartbeat_cases (message : ControlMessage) :
    (∃ lease, s.lease = some lease ∧ s.acceptHeartbeat message clock
      = ({ s with lease := some { lease with expiresAt := clock.now + leaseLifetime } }, .ok ())) ∨
    (s.lease = none ∧ (∃ e, s.acceptHeartbeat message clock = (s, .error e)) ∨
      s.lease = none ∧ s.peerInputLease = none ∧ s.acceptHeartbeat message clock = (s, .ok ())) ∨
    (∃ lease e, s.lease = none ∧ s.peerInputLease = some lease ∧ lease.expiresAt ≤ clock.now ∧
      s.acceptHeartbeat message clock
        = ({ s with peerInputLease := none }.setState .viewing clock, .error e)) ∨
    ∃ lease, s.lease = none ∧ s.peerInputLease = some lease ∧ clock.now < lease.expiresAt ∧
      message.leaseId = some lease.id ∧ message.ownerDeviceId = some lease.ownerDeviceId ∧
      (lease.sequenceWindow.accept message.sequence).2 = true ∧
      s.acceptHeartbeat message clock = ({ s with
        peerInputLease := some (lease.refreshed message.sequence clock.now) }, .ok ()) := by
  unfold RemoteSession.acceptHeartbeat
  split
  · rename_i lease hlease
    exact .inl ⟨lease, hlease, rfl⟩
  · rename_i lease hnone hpeer
    split
    · rename_i hexpired
      exact .inr (.inr (.inl ⟨lease, _, hnone, hpeer, hexpired, rfl⟩))
    · rename_i hvalid
      simp only
      split
      · exact .inr (.inl (.inl ⟨hnone, _, rfl⟩))
      · rename_i hquoted
        obtain ⟨hlease, hrest⟩ := not_or.mp hquoted
        obtain ⟨howner, haccepted⟩ := not_or.mp hrest
        exact .inr (.inr (.inr ⟨lease, hnone, hpeer, by omega, not_not.mp hlease,
          not_not.mp howner, by simpa using haccepted, rfl⟩))
  · rename_i hnone hpeer
    exact .inr (.inl (.inr ⟨hnone, hpeer, rfl⟩))

end

/-! ### The other calls -/

section
variable (s : RemoteSession) (clock : Clock)

theorem adoptOffer_cases (id : String) :
    (∃ e, s.adoptOffer id clock = (s, .error e)) ∨
      (s.state = .idle ∨ s.state = .stopped) ∧
        s.adoptOffer id clock = (s.requestUnder id (some .phoneToDesktop) clock, .ok ()) := by
  unfold RemoteSession.adoptOffer
  split
  · exact .inl ⟨_, rfl⟩
  · split
    · exact .inl ⟨_, rfl⟩
    · rename_i hstate
      refine .inr ⟨?_, rfl⟩
      by_contra hcon
      exact hstate (not_or.mp hcon)

theorem beginControl_cases :
    (∃ e, s.beginControl clock = (s, .error e)) ∨
      (s.state = .viewing ∨ s.state = .requestingControl) ∧
        s.beginControl clock = (s.setState .requestingControl clock, .ok ()) := by
  unfold RemoteSession.beginControl
  split
  · exact .inl ⟨_, rfl⟩
  · rename_i hstate
    refine .inr ⟨?_, rfl⟩
    by_contra hcon
    exact hstate (not_or.mp hcon)

theorem expirePending_cases :
    s.expirePending clock = (s, none) ∨
    s.expirePending clock = (s.stop clock, some .requestingView) ∨
    ∃ state, (state = .requestingControl ∨ state = .authorizingPeerControl) ∧ s.state = state ∧
      s.expirePending clock = (s.backToView clock, some state) := by
  unfold RemoteSession.expirePending
  simp only
  split
  · split
    · exact .inr (.inl rfl)
    · exact .inl rfl
  · rename_i hstate
    split
    · exact .inr (.inr ⟨_, .inl rfl, hstate, rfl⟩)
    · exact .inl rfl
  · rename_i hstate
    split
    · exact .inr (.inr ⟨_, .inr rfl, hstate, rfl⟩)
    · exact .inl rfl
  · exact .inl rfl

theorem expirePeerInputLease_cases :
    s.expirePeerInputLease clock = (s, false) ∨
    ∃ lease, s.peerInputLease = some lease ∧ lease.expiresAt ≤ clock.now ∧
      (s.state = .peerControlling ∧ s.expirePeerInputLease clock
          = ({ s with peerInputLease := none }.setState .viewing clock, true) ∨
        s.state ≠ .peerControlling ∧ s.expirePeerInputLease clock
          = ({ s with peerInputLease := none }, true)) := by
  unfold RemoteSession.expirePeerInputLease
  split
  · exact .inl rfl
  · rename_i lease hpeer
    split
    · rename_i hexpired
      refine .inr ⟨lease, hpeer, hexpired, ?_⟩
      simp only
      split
      · exact .inl ⟨by assumption, rfl⟩
      · exact .inr ⟨by assumption, rfl⟩
    · exact .inl rfl

theorem stopIfCurrent_cases (id : String) :
    s.stopIfCurrent id clock = (s, false) ∨ s.stopIfCurrent id clock = (s.stop clock, true) := by
  unfold RemoteSession.stopIfCurrent
  split
  · exact .inr rfl
  · exact .inl rfl

/-- An outgoing packet takes a number, and nothing else. -/
theorem stampInput_cases :
    (s.stampInputAt clock.now).1 = s ∨ (s.stampInputAt clock.now).1 = s.nextSequence.1 := by
  unfold RemoteSession.stampInputAt
  repeat' split
  all_goals first | exact .inl rfl | exact .inr rfl

theorem grantPeerControl_cases (leaseId owner : String) (expiresAt : Int) :
    (∃ e, s.grantPeerControl leaseId owner expiresAt clock = (s, .error e)) ∨
    s.state = .authorizingPeerControl ∧ s.grantPeerControl leaseId owner expiresAt clock
      = ({ s with
          lease := none
          peerInputLease := some { id := leaseId, ownerDeviceId := owner, expiresAt } }.setState
        .peerControlling clock, .ok ()) := by
  unfold RemoteSession.grantPeerControl
  split
  · exact .inl ⟨_, rfl⟩
  · rename_i hstate
    split
    · exact .inl ⟨_, rfl⟩
    · exact .inr ⟨not_not.mp (not_or.mp hstate).1, rfl⟩

end

/-! ### What every call keeps -/

/-- A session has an identifier exactly when it is neither idle nor stopped,
a lease belongs to a session, and there is one at most. -/
structure RemoteSession.Sound (s : RemoteSession) : Prop where
  placed : s.remoteSessionId.isSome ↔ s.state ≠ .idle ∧ s.state ≠ .stopped
  owned : s.lease.isSome ∨ s.peerInputLease.isSome → s.remoteSessionId.isSome
  single : s.lease = none ∨ s.peerInputLease = none

section
variable {s s' : RemoteSession} {message : ControlMessage} {clock : Clock}

theorem new_sound : RemoteSession.Sound {} := ⟨by simp, by simp, .inl rfl⟩

/-- The leases go, and the session stays. -/
theorem unleased_sound (hid : s'.remoteSessionId.isSome) (hlease : s'.lease = none)
    (hstate : s'.state ≠ .idle ∧ s'.state ≠ .stopped) : s'.Sound :=
  ⟨iff_of_true hid hstate, fun _ => hid, .inl hlease⟩

theorem stop_sound : (s.stop clock).Sound :=
  ⟨by simp [RemoteSession.stop], by simp [RemoteSession.stop], .inl rfl⟩

theorem requestUnder_sound {id : String} {direction : Option ScreenDirection} :
    (s.requestUnder id direction clock).Sound :=
  unleased_sound rfl rfl ⟨nofun, nofun⟩

theorem backToView_sound (hid : s.remoteSessionId.isSome) : (s.backToView clock).Sound :=
  unleased_sound hid rfl ⟨nofun, nofun⟩

/-- The leases are what they were, and the state is one of a session. -/
theorem RemoteSession.Sound.moved (h : s.Sound) (hid : s'.remoteSessionId = s.remoteSessionId)
    (hsome : s.remoteSessionId.isSome) (hlease : s'.lease = s.lease)
    (hpeer : s'.peerInputLease = s.peerInputLease)
    (hstate : s'.state ≠ .idle ∧ s'.state ≠ .stopped) : s'.Sound := by
  have hsome' : s'.remoteSessionId.isSome := by rw [hid]; exact hsome
  refine ⟨iff_of_true hsome' hstate, fun _ => hsome', ?_⟩
  rw [hlease, hpeer]
  exact h.single

/-- A lease is refreshed, or goes. -/
theorem RemoteSession.Sound.leased (h : s.Sound) (hstate : s'.state = s.state)
    (hid : s'.remoteSessionId = s.remoteSessionId)
    (hlease : s'.lease.isSome = s.lease.isSome ∨ s'.lease = none)
    (hpeer : s'.peerInputLease.isSome = s.peerInputLease.isSome ∨ s'.peerInputLease = none) :
    s'.Sound := by
  refine ⟨by rw [hid, hstate]; exact h.placed, fun hsome => ?_, ?_⟩
  · rw [hid]
    refine h.owned (hsome.imp (fun hs => ?_) (fun hs => ?_))
    · rcases hlease with heq | hnone
      · exact heq ▸ hs
      · simp [hnone] at hs
    · rcases hpeer with heq | hnone
      · exact heq ▸ hs
      · simp [hnone] at hs
  · rcases hlease with hlease | hlease
    · rcases hpeer with hpeer | hpeer
      · rcases h.single with hs | hs
        · exact .inl (by simpa [hs] using hlease)
        · exact .inr (by simpa [hs] using hpeer)
      · exact .inr hpeer
    · exact .inl hlease

/-- A lease of the phone that has run out goes, and the view is left. -/
theorem lapsed_sound (h : s.Sound) (hpeer : s.peerInputLease.isSome) :
    ({ s with peerInputLease := none }.setState .viewing clock).Sound :=
  ⟨iff_of_true (h.owned (.inr hpeer)) ⟨nofun, nofun⟩, fun _ => h.owned (.inr hpeer), .inr rfl⟩

theorem acceptReady_sound (h : s.Sound) (hid : s.remoteSessionId.isSome) :
    (s.acceptReady message clock).Sound := by
  refine h.moved (by simp) hid (by simp) (by simp) ?_
  rcases acceptReady_state s clock message with hstate | ⟨hcontrol, hstate⟩
  · rw [hstate]
    exact ⟨nofun, nofun⟩
  · rw [hstate]
    exact h.placed.mp hid

theorem acceptGranted_sound (h : s.Sound) (hid : s.remoteSessionId.isSome) :
    (s.acceptGranted message clock).1.Sound := by
  unfold RemoteSession.acceptGranted
  split
  · exact h
  · split
    · exact h
    · exact ⟨iff_of_true hid ⟨nofun, nofun⟩, fun _ => hid, .inr rfl⟩

theorem acceptHeartbeat_sound (h : s.Sound) : (s.acceptHeartbeat message clock).1.Sound := by
  rcases heartbeat_cases s clock message with ⟨lease, hlease, heq⟩ |
    (⟨-, e, heq⟩ | ⟨-, -, heq⟩) | ⟨lease, e, -, hpeer, -, heq⟩ |
    ⟨lease, -, hpeer, -, -, -, -, heq⟩
  · rw [heq]
    exact h.leased rfl rfl (.inl (by simp [hlease])) (.inl rfl)
  · rw [heq]
    exact h
  · rw [heq]
    exact h
  · rw [heq]
    exact lapsed_sound h (by simp [hpeer])
  · rw [heq]
    exact h.leased rfl rfl (.inl rfl) (.inl (by simp [hpeer]))

theorem acceptControlDenied_sound (h : s.Sound) :
    (s.acceptControlDenied message clock).Sound := by
  unfold RemoteSession.acceptControlDenied
  split
  · exact h
  · rename_i hid
    split
    · exact h
    · exact backToView_sound (Option.isSome_iff_ne_none.mpr hid)

theorem applyMessage_sound (h : s.Sound) (hcheck : s.checkMessage message = .ok ()) :
    (s.applyMessage message clock).1.Sound := by
  have hstale := (check_ok hcheck).1
  unfold RemoteSession.applyMessage
  cases hk : message.kind with
  | requestView => exact requestUnder_sound
  | viewGranted | screenReady | controlGranted | takeoverGranted | pauseLocked | resume =>
    have hcurrent := stale_current (by simp [hk]) hstale
    have hid : s.remoteSessionId.isSome := by rw [hcurrent]; rfl
    first
    | exact acceptReady_sound h hid
    | exact acceptGranted_sound h hid
    | exact unleased_sound hid rfl ⟨nofun, nofun⟩
    | exact h.moved rfl hid rfl rfl ⟨nofun, nofun⟩
  | heartbeat => exact acceptHeartbeat_sound h
  | controlDenied => exact acceptControlDenied_sound h
  | viewDenied | screenError | release | screenStopped => exact stop_sound
  | requestControl | takeoverRequest =>
    have hcurrent := stale_current (by simp [hk]) hstale
    have hid : s.remoteSessionId.isSome := by rw [hcurrent]; rfl
    simp only
    split
    · exact h.moved rfl hid rfl rfl ⟨nofun, nofun⟩
    · exact h
  | _ => exact h

theorem verifyPeerInput_sound (h : s.Sound) (packet : InputPacket) (owner : String) :
    (s.verifyPeerInput packet owner clock).1.Sound := by
  rcases verify_cases s clock packet owner with ⟨e, heq⟩ | ⟨lease, e, -, hpeer, -, heq⟩ |
    ⟨id, lease, sequence, -, -, hpeer, -, -, -, -, -, -, heq⟩
  · rw [heq]
    exact h
  · rw [heq]
    exact lapsed_sound h (by simp [hpeer])
  · rw [heq]
    exact h.leased rfl rfl (.inl rfl) (.inl (by simp [hpeer]))

/-- One call. -/
theorem call_sound (h : s.Sound) (op : Op) : (s.call clock op).1.Sound := by
  cases op with
  | accept message =>
    show (s.accept message clock).1.Sound
    rcases accept_cases s message clock with ⟨e, heq⟩ | ⟨hcheck, heq⟩
    · rw [heq]
      exact h
    · rw [heq]
      exact applyMessage_sound h hcheck
  | beginView id direction => exact requestUnder_sound
  | adoptOffer id =>
    show (s.adoptOffer id clock).1.Sound
    rcases adoptOffer_cases s clock id with ⟨e, heq⟩ | ⟨-, heq⟩
    · rw [heq]
      exact h
    · rw [heq]
      exact requestUnder_sound
  | beginControl =>
    show (s.beginControl clock).1.Sound
    rcases beginControl_cases s clock with ⟨e, heq⟩ | ⟨hview, heq⟩
    · rw [heq]
      exact h
    · rw [heq]
      refine h.moved rfl (h.placed.mpr ?_) rfl rfl ⟨nofun, nofun⟩
      rcases hview with hview | hview <;> rw [hview] <;> exact ⟨nofun, nofun⟩
  | expirePending =>
    show (s.expirePending clock).1.Sound
    rcases expirePending_cases s clock with heq | heq | ⟨state, hstate, rfl, heq⟩
    · rw [heq]
      exact h
    · rw [heq]
      exact stop_sound
    · rw [heq]
      refine backToView_sound (h.placed.mpr ?_)
      rcases hstate with hstate | hstate <;> rw [hstate] <;> exact ⟨nofun, nofun⟩
  | expirePeerInputLease =>
    show (s.expirePeerInputLease clock).1.Sound
    rcases expirePeerInputLease_cases s clock with
      heq | ⟨lease, hpeer, -, ⟨-, heq⟩ | ⟨-, heq⟩⟩
    · rw [heq]
      exact h
    · rw [heq]
      exact lapsed_sound h (by simp [hpeer])
    · rw [heq]
      exact h.leased rfl rfl (.inl rfl) (.inr rfl)
  | stop => exact stop_sound
  | stopIfCurrent id =>
    show (s.stopIfCurrent id clock).1.Sound
    rcases stopIfCurrent_cases s clock id with heq | heq
    · rw [heq]
      exact h
    · rw [heq]
      exact stop_sound
  | grantPeerControl leaseId owner waited =>
    show (s.grantPeerControl leaseId owner (clock.now - waited + leaseLifetime) clock).1.Sound
    rcases grantPeerControl_cases s clock leaseId owner (clock.now - waited + leaseLifetime) with
      ⟨e, heq⟩ | ⟨hstate, heq⟩
    · rw [heq]
      exact h
    · rw [heq]
      have hid := h.placed.mpr (by simp [hstate])
      exact ⟨iff_of_true hid ⟨nofun, nofun⟩, fun _ => hid, .inl rfl⟩
  | verifyPeerInput packet owner => exact verifyPeerInput_sound h packet owner
  | nextSequence => exact ⟨h.placed, h.owned, h.single⟩
  | stampInput =>
    show (s.stampInputAt clock.now).1.Sound
    rcases stampInput_cases s clock with heq | heq
    · rw [heq]
      exact h
    · rw [heq]
      exact ⟨h.placed, h.owned, h.single⟩

end

end DeskLink.Remote
