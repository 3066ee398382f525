import DeskLink.Lib.Unwind
import DeskLink.Proofs.Remote.Grant

/-!
# `DeskLink.Proofs.Remote.Agreement`: the state of a session and its leases

`Shown` keeps beside the session whether its view was granted, or ready.
`Tidy` is what the state and the leases have in common: a lease is held only
in the states of its kind of control, and a session is viewed, or
controlled, only once its view was granted.

`Shown.Regular` is what the calls have to be like. A view is not granted
again while a lease is held, a session is not resumed or denied control
before it is viewed, and a heartbeat names the session and comes before the
lease it refreshes has run out.

* `after_tidy`: one call.
* `session_agrees`: the run.
* `session_disagrees`: what happens otherwise.
-/

set_option autoImplicit false

namespace DeskLink.Remote

/-! ### What the calls have to be like -/

structure Shown where
  session : RemoteSession := {}
  /-- The view of the current session was granted, or ready. -/
  viewed : Bool := false
deriving DecidableEq, Repr

/-- The call starts a session, when it does what it is for. -/
def Op.starts : Op → Bool
  | .accept message => message.kind = .requestView
  | .beginView .. | .adoptOffer _ => true
  | _ => false

/-- The call shows a session. -/
def Op.shows : Op → Bool
  | .accept message => message.kind = .viewGranted ∨ message.kind = .screenReady
  | _ => false

def Shown.after (w : Shown) (move : Op × Clock) : Shown where
  session := (w.session.call move.2 move.1).1
  viewed :=
    if (w.session.call move.2 move.1).2 = false then w.viewed
    else if move.1.starts then false
    else if move.1.shows then true
    else w.viewed

/-- A heartbeat names the session, if it can refresh a lease; and this
computer's lease has not run out. -/
def RemoteSession.Beats (s : RemoteSession) (message : ControlMessage) (clock : Clock) : Prop :=
  (∀ lease ∈ s.lease, s.mismatched message = false ∧ clock.now < lease.expiresAt) ∧
    ∀ lease ∈ s.peerInputLease, s.mismatched message = false ∨
      clock.now < lease.expiresAt ∧ message.leaseId ≠ some lease.id

def Shown.Regular (w : Shown) (move : Op × Clock) : Prop :=
  match move.1 with
  | .accept message =>
    (message.kind = .heartbeat → w.session.Beats message move.2) ∧
    (w.session.mismatched message = false →
      (message.kind = .viewGranted ∨ message.kind = .resume →
        w.session.lease = none ∧ w.session.peerInputLease = none) ∧
      (message.kind = .screenReady → w.session.peerInputLease = none) ∧
      (message.kind = .resume ∨ message.kind = .controlDenied → w.viewed = true))
  | _ => True

/-! ### What the state and the leases have in common -/

/-- The states of a session that is viewed or controlled. -/
def SessionState.viewed : SessionState → Bool
  | .viewing | .requestingControl | .authorizingPeerControl | .peerControlling
  | .controlling => true
  | .idle | .requestingView | .pausedLocked | .stopped => false

structure Shown.Tidy (w : Shown) : Prop where
  sound : w.session.Sound
  lease : w.session.lease.isSome → w.session.state = .controlling
  peerInputLease : w.session.peerInputLease.isSome →
    w.session.state = .peerControlling ∨ w.session.state = .authorizingPeerControl
  viewed : w.session.state.viewed = true → w.viewed = true

section
variable {w : Shown} {s' : RemoteSession} {viewed : Bool} {clock : Clock}

/-- Nothing that counts changes. -/
theorem Shown.Tidy.same (h : w.Tidy) (hs' : s'.Sound) (hstate : s'.state = w.session.state)
    (hlease : s'.lease.isSome → w.session.lease.isSome)
    (hpeer : s'.peerInputLease.isSome → w.session.peerInputLease.isSome) :
    Shown.Tidy ⟨s', w.viewed⟩ where
  sound := hs'
  lease hsome := by
    show s'.state = _
    rw [hstate]
    exact h.lease (hlease hsome)
  peerInputLease hsome := by
    show s'.state = _ ∨ s'.state = _
    rw [hstate]
    exact h.peerInputLease (hpeer hsome)
  viewed hv := h.viewed (by rw [← hstate]; exact hv)

/-- The leases go. -/
theorem tidy_unleased (hs' : s'.Sound) (hlease : s'.lease = none)
    (hpeer : s'.peerInputLease = none) (hviewed : s'.state.viewed = true → viewed = true) :
    Shown.Tidy ⟨s', viewed⟩ :=
  ⟨hs', fun hsome => by simp [hlease] at hsome, fun hsome => by simp [hpeer] at hsome, hviewed⟩

/-! ### One call -/

variable {op : Op} {message : ControlMessage} {s : RemoteSession} {t : Int}

theorem after_failed (hcall : w.session.call clock op = (s', false)) :
    w.after (op, clock) = ⟨s', w.viewed⟩ := by
  simp [Shown.after, hcall]

theorem after_done (hcall : w.session.call clock op = (s', true)) (hstarts : op.starts = false)
    (hshows : op.shows = false) : w.after (op, clock) = ⟨s', w.viewed⟩ := by
  simp [Shown.after, hcall, hstarts, hshows]

theorem after_starts (hcall : w.session.call clock op = (s', true)) (hstarts : op.starts = true) :
    w.after (op, clock) = ⟨s', false⟩ := by
  simp [Shown.after, hcall, hstarts]

theorem after_shows (hcall : w.session.call clock op = (s', true)) (hstarts : op.starts = false)
    (hshows : op.shows = true) : w.after (op, clock) = ⟨s', true⟩ := by
  simp [Shown.after, hcall, hstarts, hshows]

/-- A call that neither starts nor shows a session. -/
theorem after_other {done : Bool} (hcall : w.session.call clock op = (s', done))
    (hstarts : op.starts = false) (hshows : op.shows = false) :
    w.after (op, clock) = ⟨s', w.viewed⟩ := by
  cases done with
  | false => exact after_failed hcall
  | true => exact after_done hcall hstarts hshows

/-- A lease of the phone that has run out goes. -/
theorem Shown.Tidy.lapsed (h : w.Tidy) {lease : PeerInputLease}
    (hpeer : w.session.peerInputLease = some lease) :
    Shown.Tidy ⟨{ w.session with peerInputLease := none }.setState .viewing clock, w.viewed⟩ := by
  have hsome : w.session.peerInputLease.isSome := by simp [hpeer]
  have hstate := h.peerInputLease hsome
  have hnone : w.session.lease = none := h.sound.single.resolve_right (by simp [hpeer])
  refine tidy_unleased (lapsed_sound h.sound hsome) hnone rfl (fun _ => h.viewed ?_)
  rcases hstate with hstate | hstate <;> rw [hstate] <;> rfl

theorem heartbeat_tidy (h : w.Tidy) (hk : message.kind = .heartbeat) :
    (w.after (.accept message, clock)).Tidy := by
  have hcall : w.session.call clock (.accept message)
      = ((w.session.acceptHeartbeat message clock).1,
        (w.session.acceptHeartbeat message clock).2.isOk) := by
    rw [← accept_heartbeat hk]
    rfl
  have hsound : (w.session.call clock (.accept message)).1.Sound := call_sound h.sound _
  rw [after_other hcall (by simp [Op.starts, hk]) (by simp [Op.shows, hk])]
  rw [hcall] at hsound
  rcases heartbeat_cases w.session clock message with ⟨lease, hlease, heq⟩ |
    (⟨-, e, heq⟩ | ⟨-, -, heq⟩) | ⟨lease, e, -, hpeer, -, heq⟩ |
    ⟨lease, -, hpeer, -, -, -, -, heq⟩
  · rw [heq] at hsound ⊢
    exact h.same hsound rfl (fun _ => by simp [hlease]) id
  · rw [heq]
    exact h
  · rw [heq]
    exact h
  · rw [heq]
    exact h.lapsed hpeer
  · rw [heq] at hsound ⊢
    exact h.same hsound rfl id (fun _ => by simp [hpeer])

/-- A view is granted, or ready. -/
theorem ready_tidy (h : w.Tidy) (hs' : (w.session.acceptReady message clock).Sound)
    (hlease : message.kind ≠ .screenReady → w.session.lease = none)
    (hpeer : w.session.peerInputLease = none) :
    Shown.Tidy ⟨w.session.acceptReady message clock, true⟩ := by
  by_cases hrotated : message.kind = .screenReady ∧
      (w.session.state = .controlling ∨ w.session.state = .requestingControl)
  · have hstate := acceptReady_rotated w.session clock hrotated
    refine ⟨hs', fun hsome => ?_, fun hsome => ?_, fun _ => rfl⟩
    · show (w.session.acceptReady message clock).state = _
      rw [hstate]
      exact h.lease (by simpa using hsome)
    · simp [hpeer] at hsome
  · refine tidy_unleased hs' ?_ (by simpa using hpeer) (fun _ => rfl)
    rw [acceptReady_lease]
    by_contra hsome
    have hcontrolling := h.lease (Option.isSome_iff_ne_none.mpr hsome)
    by_cases hk : message.kind = .screenReady
    · exact hrotated ⟨hk, .inl hcontrolling⟩
    · exact hsome (hlease hk)

/-- A message that passed the check, by its kind. -/
theorem message_tidy (h : w.Tidy) (hregular : w.Regular (.accept message, clock))
    (hcheck : w.session.checkMessage message = .ok ()) (hk : message.kind ≠ .heartbeat) :
    (w.after (.accept message, clock)).Tidy := by
  have hcall : w.session.call clock (.accept message)
      = ((w.session.applyMessage message clock).1,
        (w.session.applyMessage message clock).2.isOk) := by
    show ((w.session.accept message clock).1, (w.session.accept message clock).2.isOk) = _
    unfold RemoteSession.accept
    rw [hcheck]
  have hsound : (w.session.applyMessage message clock).1.Sound := applyMessage_sound h.sound hcheck
  obtain ⟨hstale, hgranted⟩ := check_ok hcheck
  obtain ⟨-, hregular⟩ := hregular
  unfold RemoteSession.applyMessage at hcall hsound
  cases hkind : message.kind with
  | heartbeat => exact absurd hkind hk
  | requestView =>
    rw [hkind] at hcall
    rw [after_starts hcall (by simp [Op.starts, hkind])]
    exact tidy_unleased requestUnder_sound rfl rfl (fun hviewed => absurd hviewed Bool.false_ne_true)
  | viewGranted =>
    rw [hkind] at hcall hsound
    have hcurrent := mismatched_iff.mpr (stale_current (by simp [hkind]) hstale)
    obtain ⟨hlease, hpeer⟩ := (hregular hcurrent).1 (.inl hkind)
    rw [after_shows hcall (by simp [Op.starts, hkind]) (by simp [Op.shows, hkind])]
    exact ready_tidy h hsound (fun _ => hlease) hpeer
  | screenReady =>
    rw [hkind] at hcall hsound
    have hcurrent := mismatched_iff.mpr (stale_current (by simp [hkind]) hstale)
    have hpeer := (hregular hcurrent).2.1 hkind
    rw [after_shows hcall (by simp [Op.starts, hkind]) (by simp [Op.shows, hkind])]
    exact ready_tidy h hsound (fun hne => absurd hkind hne) hpeer
  | controlGranted | takeoverGranted =>
    rw [hkind] at hcall hsound
    rw [after_other hcall (by simp [Op.starts, hkind]) (by simp [Op.shows, hkind])]
    simp only [RemoteSession.acceptGranted] at hsound ⊢
    split
    · exact h
    · split
      · exact h
      · refine ⟨⟨?_, ?_, .inr rfl⟩, fun _ => rfl, by simp, fun _ => h.viewed ?_⟩
        · exact iff_of_true (h.sound.placed.mpr (by
            rcases hgranted (by simp [hkind]) with hs | hs <;> simp [hs])) (by simp)
        · exact fun _ => h.sound.placed.mpr (by
            rcases hgranted (by simp [hkind]) with hs | hs <;> simp [hs])
        · rcases hgranted (by simp [hkind]) with hs | hs <;> rw [hs] <;> rfl
  | pauseLocked =>
    rw [hkind] at hcall hsound
    rw [after_done hcall (by simp [Op.starts, hkind]) (by simp [Op.shows, hkind])]
    exact tidy_unleased hsound rfl rfl (fun hviewed => absurd hviewed Bool.false_ne_true)
  | resume =>
    rw [hkind] at hcall hsound
    have hcurrent := mismatched_iff.mpr (stale_current (by simp [hkind]) hstale)
    obtain ⟨hlease, hpeer⟩ := (hregular hcurrent).1 (.inr hkind)
    rw [after_done hcall (by simp [Op.starts, hkind]) (by simp [Op.shows, hkind])]
    exact tidy_unleased hsound hlease hpeer (fun _ => (hregular hcurrent).2.2 (.inl hkind))
  | viewDenied | screenError | release | screenStopped =>
    rw [hkind] at hcall hsound
    rw [after_done hcall (by simp [Op.starts, hkind]) (by simp [Op.shows, hkind])]
    exact tidy_unleased hsound rfl rfl (fun hviewed => absurd hviewed Bool.false_ne_true)
  | controlDenied =>
    rw [hkind] at hcall hsound
    rw [after_done hcall (by simp [Op.starts, hkind]) (by simp [Op.shows, hkind])]
    simp only [RemoteSession.acceptControlDenied] at hsound ⊢
    by_cases hid : w.session.remoteSessionId = none
    · rw [if_pos hid]
      exact h
    · rw [if_neg hid] at hsound ⊢
      split
      · exact h
      · rename_i hheld
        rw [if_neg hheld] at hsound
        refine tidy_unleased hsound rfl rfl (fun _ => (hregular ?_).2.2 (.inr hkind))
        simpa [RemoteSession.stale, hkind, Option.isSome_iff_ne_none.mpr hid] using hstale
  | requestControl | takeoverRequest =>
    rw [hkind] at hcall hsound
    rw [after_other hcall (by simp [Op.starts, hkind]) (by simp [Op.shows, hkind])]
    simp only at hsound ⊢
    split
    · rename_i hasked
      rw [if_pos hasked] at hsound
      refine ⟨hsound, fun hsome => ?_, fun _ => .inr rfl, fun _ => h.viewed ?_⟩
      · have hstate := h.lease hsome
        simp [hstate] at hasked
      · rcases hasked.1 with hs | hs | hs <;> rw [hs] <;> rfl
    · exact h
  | _ =>
    rw [hkind] at hcall
    rw [after_other hcall (by simp [Op.starts, hkind]) (by simp [Op.shows, hkind])]
    exact h

/-- A message that arrives. -/
theorem accept_tidy (h : w.Tidy) (hregular : w.Regular (.accept message, clock)) :
    (w.after (.accept message, clock)).Tidy := by
  by_cases hk : message.kind = .heartbeat
  · exact heartbeat_tidy h hk
  · rcases accept_cases w.session message clock with ⟨e, heq⟩ | ⟨hcheck, -⟩
    · have hcall : w.session.call clock (.accept message) = (w.session, false) := by
        show ((w.session.accept message clock).1, (w.session.accept message clock).2.isOk) = _
        rw [heq]
        rfl
      rw [after_failed hcall]
      exact h
    · exact message_tidy h hregular hcheck hk

theorem beginControl_tidy (h : w.Tidy) (hsound : (w.session.beginControl clock).1.Sound) :
    (w.after (.beginControl, clock)).Tidy := by
  rw [after_other rfl rfl rfl]
  rcases beginControl_cases w.session clock with ⟨e, heq⟩ | ⟨hview, heq⟩
  · rw [heq]
    exact h
  · have hnot : w.session.state ≠ .controlling ∧ w.session.state ≠ .peerControlling ∧
        w.session.state ≠ .authorizingPeerControl := by
      rcases hview with hview | hview <;> rw [hview] <;> exact ⟨nofun, nofun, nofun⟩
    rw [heq] at hsound ⊢
    refine ⟨hsound, fun hsome => absurd (h.lease hsome) hnot.1, fun hsome => ?_, fun _ => ?_⟩
    · exact ((h.peerInputLease hsome).elim hnot.2.1 hnot.2.2).elim
    · refine h.viewed ?_
      rcases hview with hview | hview <;> rw [hview] <;> rfl

theorem expirePending_tidy (h : w.Tidy) (hsound : (w.session.expirePending clock).1.Sound) :
    (w.after (.expirePending, clock)).Tidy := by
  rw [after_other rfl rfl rfl]
  rcases expirePending_cases w.session clock with heq | heq | ⟨state, hstate, rfl, heq⟩
  · rw [heq]
    exact h
  · rw [heq] at hsound ⊢
    exact tidy_unleased hsound rfl rfl nofun
  · rw [heq] at hsound ⊢
    refine tidy_unleased hsound rfl rfl (fun _ => h.viewed ?_)
    rcases hstate with hstate | hstate <;> rw [hstate] <;> rfl

theorem verifyPeerInput_tidy {packet : InputPacket} {owner : String} (h : w.Tidy)
    (hsound : (w.session.verifyPeerInput packet owner clock).1.Sound) :
    (w.after (.verifyPeerInput packet owner, clock)).Tidy := by
  rw [after_other rfl rfl rfl]
  show Shown.Tidy ⟨(w.session.verifyPeerInput packet owner clock).1, w.viewed⟩
  rcases verify_cases w.session clock packet owner with ⟨e, heq⟩ |
    ⟨lease, e, -, hpeer, -, heq⟩ | ⟨_, lease, sequence, -, -, hpeer, -, -, -, -, -, -, heq⟩
  · rw [heq]
    exact h
  · rw [heq]
    exact h.lapsed hpeer
  · rw [heq] at hsound ⊢
    exact h.same hsound rfl id (fun _ => by simp [hpeer])

/-- One call. -/
theorem after_tidy {move : Op × Clock} (h : w.Tidy) (hregular : w.Regular move) :
    (w.after move).Tidy := by
  obtain ⟨op, clock⟩ := move
  have hsound : (w.session.call clock op).1.Sound := call_sound h.sound op
  cases op with
  | accept message => exact accept_tidy h hregular
  | beginView id direction =>
    rw [after_starts rfl rfl]
    exact tidy_unleased requestUnder_sound rfl rfl nofun
  | adoptOffer id =>
    have hcall : w.session.call clock (.adoptOffer id)
        = ((w.session.adoptOffer id clock).1, (w.session.adoptOffer id clock).2.isOk) := rfl
    rcases adoptOffer_cases w.session clock id with ⟨e, heq⟩ | ⟨-, heq⟩
    · rw [heq] at hcall
      rw [after_failed hcall]
      exact h
    · rw [heq] at hcall
      rw [after_starts hcall rfl]
      exact tidy_unleased requestUnder_sound rfl rfl nofun
  | beginControl => exact beginControl_tidy h hsound
  | expirePending => exact expirePending_tidy h hsound
  | expirePeerInputLease =>
    rw [after_other rfl rfl rfl]
    have hsound : (w.session.expirePeerInputLease clock).1.Sound := hsound
    rcases expirePeerInputLease_cases w.session clock with
      heq | ⟨lease, hpeer, -, ⟨-, heq⟩ | ⟨-, heq⟩⟩
    · rw [heq]
      exact h
    · rw [heq]
      exact h.lapsed hpeer
    · rw [heq] at hsound ⊢
      exact h.same hsound rfl id nofun
  | stop =>
    rw [after_other rfl rfl rfl]
    exact tidy_unleased stop_sound rfl rfl nofun
  | stopIfCurrent id =>
    rw [after_other rfl rfl rfl]
    show Shown.Tidy ⟨(w.session.stopIfCurrent id clock).1, w.viewed⟩
    rcases stopIfCurrent_cases w.session clock id with heq | heq
    · rw [heq]
      exact h
    · rw [heq]
      exact tidy_unleased stop_sound rfl rfl nofun
  | grantPeerControl leaseId owner waited =>
    rw [after_other rfl rfl rfl]
    show Shown.Tidy ⟨(w.session.grantPeerControl leaseId owner
      (clock.now - waited + leaseLifetime) clock).1, w.viewed⟩
    have hsound : (w.session.grantPeerControl leaseId owner (clock.now - waited + leaseLifetime)
      clock).1.Sound := hsound
    rcases grantPeerControl_cases w.session clock leaseId owner (clock.now - waited + leaseLifetime)
      with ⟨e, heq⟩ | ⟨hstate, heq⟩
    · rw [heq]
      exact h
    · rw [heq] at hsound ⊢
      exact ⟨hsound, nofun, fun _ => .inl rfl, fun _ => h.viewed (by rw [hstate]; rfl)⟩
  | verifyPeerInput packet owner => exact verifyPeerInput_tidy h hsound
  | nextSequence =>
    rw [after_other rfl rfl rfl]
    exact h.same hsound rfl id id
  | stampInput =>
    rw [after_other rfl rfl rfl]
    show Shown.Tidy ⟨(w.session.stampInputAt clock.now).1, w.viewed⟩
    rcases stampInput_cases w.session clock with heq | heq
    · rw [heq]
      exact h
    · rw [heq]
      exact h.same ⟨h.sound.placed, h.sound.owned, h.sound.single⟩ rfl id id

/-! ### Leases that have run out -/

/-- Every lease that is held has run out by the time `t`. -/
structure RemoteSession.RunOut (s : RemoteSession) (t : Int) : Prop where
  lease : ∀ lease ∈ s.lease, lease.expiresAt ≤ t
  peerInputLease : ∀ lease ∈ s.peerInputLease, lease.expiresAt ≤ t

/-- The call grants a lease, when it does what it is for. -/
def Op.grants : Op → Bool
  | .accept message => message.kind = .controlGranted ∨ message.kind = .takeoverGranted
  | .grantPeerControl .. => true
  | _ => false

theorem runOut_kept (h : s.RunOut t) (hlease : s'.lease = s.lease ∨ s'.lease = none)
    (hpeer : s'.peerInputLease = s.peerInputLease ∨ s'.peerInputLease = none) : s'.RunOut t := by
  refine ⟨?_, ?_⟩
  · rcases hlease with heq | hnone
    · rw [heq]
      exact h.lease
    · rw [hnone]
      nofun
  · rcases hpeer with heq | hnone
    · rw [heq]
      exact h.peerInputLease
    · rw [hnone]
      nofun

/-- A message that grants nothing keeps the leases, or drops them, or
refreshes one that is still good. -/
theorem applyMessage_runOut (h : s.RunOut t) (hk : message.kind ≠ .heartbeat)
    (hgrants : (Op.accept message).grants = false) :
    (s.applyMessage message clock).1.RunOut t := by
  unfold RemoteSession.applyMessage
  cases hkind : message.kind with
  | heartbeat => exact absurd hkind hk
  | requestView | pauseLocked | viewDenied | screenError | release | screenStopped =>
    exact runOut_kept h (.inr rfl) (.inr rfl)
  | viewGranted | screenReady => exact runOut_kept h (.inl (by simp)) (.inl (by simp))
  | controlGranted | takeoverGranted => simp [Op.grants, hkind] at hgrants
  | resume => exact runOut_kept h (.inl rfl) (.inl rfl)
  | controlDenied =>
    simp only [RemoteSession.acceptControlDenied]
    repeat' split
    · exact h
    · exact h
    · exact runOut_kept h (.inr rfl) (.inr rfl)
  | requestControl | takeoverRequest =>
    simp only
    split
    · exact runOut_kept h (.inl rfl) (.inl rfl)
    · exact h
  | _ => exact h

theorem heartbeat_runOut (h : s.RunOut t) (ht : t ≤ clock.now) (hbeats : s.Beats message clock) :
    (s.acceptHeartbeat message clock).1.RunOut t := by
  rcases heartbeat_cases s clock message with ⟨lease, hlease, -⟩ |
    (⟨-, e, heq⟩ | ⟨-, -, heq⟩) | ⟨lease, e, -, -, -, heq⟩ |
    ⟨lease, -, hpeer, hvalid, -, -, -, -⟩
  · -- A regular heartbeat finds no lease of this computer that has run out.
    have hvalid := (hbeats.1 lease hlease).2
    have hout := h.lease lease hlease
    omega
  · rw [heq]
    exact h
  · rw [heq]
    exact h
  · rw [heq]
    exact runOut_kept h (.inl rfl) (.inr rfl)
  · have hout := h.peerInputLease lease hpeer
    omega

/-- A message that arrives late: a grant is refused, and nothing else extends a lease. -/
theorem accept_runOut (h : w.session.RunOut t) (ht : t ≤ clock.now)
    (hregular : w.Regular (.accept message, clock))
    (hgrants : (Op.accept message).grants = true →
      (w.session.accept message clock).2.isOk = false) :
    (w.session.accept message clock).1.RunOut t := by
  by_cases hk : message.kind = .heartbeat
  · rw [accept_heartbeat hk]
    exact heartbeat_runOut h ht (hregular.1 hk)
  · rcases accept_cases w.session message clock with ⟨e, heq⟩ | ⟨-, heq⟩
    · rw [heq]
      exact h
    · rw [heq]
      by_cases hop : (Op.accept message).grants = true
      · -- The grant was refused for what it lacked.
        have hfailed : (w.session.applyMessage message clock).2.isOk = false := by
          rw [← heq]
          exact hgrants hop
        have hkind : message.kind = .controlGranted ∨ message.kind = .takeoverGranted := by
          simpa [Op.grants] using hop
        have hsame : (w.session.applyMessage message clock).1 = w.session := by
          unfold RemoteSession.applyMessage at hfailed ⊢
          rcases hkind with hkind | hkind
          all_goals
            rw [hkind] at hfailed ⊢
            simp only [RemoteSession.acceptGranted] at hfailed ⊢
            repeat' split
            · rfl
            · rfl
            · simp_all [Except.isOk, Except.toBool]
        rw [hsame]
        exact h
      · exact applyMessage_runOut h hk (by simpa using hop)

/-- No call that grants nothing brings a lease back. -/
theorem after_runOut (h : w.session.RunOut t) (ht : t ≤ clock.now)
    (hregular : w.Regular (op, clock))
    (hgrants : op.grants = true → (w.session.call clock op).2 = false) :
    (w.after (op, clock)).session.RunOut t := by
  show (w.session.call clock op).1.RunOut t
  cases op with
  | accept message => exact accept_runOut h ht hregular hgrants
  | beginView id direction => exact runOut_kept h (.inr rfl) (.inr rfl)
  | adoptOffer id =>
    show (w.session.adoptOffer id clock).1.RunOut t
    rcases adoptOffer_cases w.session clock id with ⟨e, heq⟩ | ⟨-, heq⟩
    · rw [heq]
      exact h
    · rw [heq]
      exact runOut_kept h (.inr rfl) (.inr rfl)
  | beginControl =>
    show (w.session.beginControl clock).1.RunOut t
    rcases beginControl_cases w.session clock with ⟨e, heq⟩ | ⟨-, heq⟩
    · rw [heq]
      exact h
    · rw [heq]
      exact runOut_kept h (.inl rfl) (.inl rfl)
  | expirePending =>
    show (w.session.expirePending clock).1.RunOut t
    rcases expirePending_cases w.session clock with heq | heq | ⟨state, -, -, heq⟩
    · rw [heq]
      exact h
    · rw [heq]
      exact runOut_kept h (.inr rfl) (.inr rfl)
    · rw [heq]
      exact runOut_kept h (.inr rfl) (.inr rfl)
  | expirePeerInputLease =>
    show (w.session.expirePeerInputLease clock).1.RunOut t
    rcases expirePeerInputLease_cases w.session clock with
      heq | ⟨lease, -, -, ⟨-, heq⟩ | ⟨-, heq⟩⟩
    · rw [heq]
      exact h
    · rw [heq]
      exact runOut_kept h (.inl rfl) (.inr rfl)
    · rw [heq]
      exact runOut_kept h (.inl rfl) (.inr rfl)
  | stop => exact runOut_kept h (.inr rfl) (.inr rfl)
  | stopIfCurrent id =>
    show (w.session.stopIfCurrent id clock).1.RunOut t
    rcases stopIfCurrent_cases w.session clock id with heq | heq
    · rw [heq]
      exact h
    · rw [heq]
      exact runOut_kept h (.inr rfl) (.inr rfl)
  | grantPeerControl leaseId owner waited =>
    have hfailed := hgrants rfl
    change (w.session.grantPeerControl leaseId owner (clock.now - waited + leaseLifetime)
      clock).2.isOk = false at hfailed
    show (w.session.grantPeerControl leaseId owner (clock.now - waited + leaseLifetime)
      clock).1.RunOut t
    rcases grantPeerControl_cases w.session clock leaseId owner (clock.now - waited + leaseLifetime)
      with ⟨e, heq⟩ | ⟨-, heq⟩
    · rw [heq]
      exact h
    · rw [heq] at hfailed
      cases hfailed
  | verifyPeerInput packet owner =>
    show (w.session.verifyPeerInput packet owner clock).1.RunOut t
    rcases verify_cases w.session clock packet owner with ⟨e, heq⟩ |
      ⟨lease, e, -, -, -, heq⟩ | ⟨id, lease, sequence, -, -, hpeer, -, hvalid, -⟩
    · rw [heq]
      exact h
    · rw [heq]
      exact runOut_kept h (.inl rfl) (.inr rfl)
    · have hout := h.peerInputLease lease hpeer
      omega
  | nextSequence => exact runOut_kept h (.inl rfl) (.inl rfl)
  | stampInput =>
    show (w.session.stampInputAt clock.now).1.RunOut t
    rcases stampInput_cases w.session clock with heq | heq
    · rw [heq]
      exact h
    · rw [heq]
      exact runOut_kept h (.inl rfl) (.inl rfl)

/-- A message that names another session leaves a session alone. -/
theorem mismatched_same (hregular : w.Regular (.accept message, clock))
    (hid : w.session.remoteSessionId.isSome) (hmismatched : w.session.mismatched message = true)
    (hview : message.kind ≠ .requestView) : (w.session.accept message clock).1 = w.session := by
  by_cases hk : message.kind = .heartbeat
  · have hbeats := hregular.1 hk
    rw [accept_heartbeat hk]
    rcases heartbeat_cases w.session clock message with ⟨lease, hlease, -⟩ |
      (⟨-, e, heq⟩ | ⟨-, -, heq⟩) | ⟨lease, e, -, hpeer, hout, -⟩ |
      ⟨lease, -, hpeer, -, hquoted, -⟩
    · have hnamed := (hbeats.1 lease hlease).1
      rw [hmismatched] at hnamed
      cases hnamed
    · rw [heq]
    · rw [heq]
    · rcases hbeats.2 lease hpeer with hnamed | ⟨hvalid, -⟩
      · rw [hmismatched] at hnamed
        cases hnamed
      · have hvalid : clock.now < lease.expiresAt := hvalid
        omega
    · rcases hbeats.2 lease hpeer with hnamed | ⟨-, hother⟩
      · rw [hmismatched] at hnamed
        cases hnamed
      · exact absurd hquoted hother
  · rcases accept_cases w.session message clock with ⟨e, heq⟩ | ⟨hcheck, heq⟩
    · rw [heq]
    · obtain ⟨hstale, -⟩ := check_ok hcheck
      rw [heq]
      unfold RemoteSession.applyMessage
      unfold RemoteSession.stale at hstale
      cases hkind : message.kind <;> rw [hkind] at hstale hk hview
      all_goals first
        | rfl
        | exact absurd rfl hk
        | exact absurd rfl hview
        | simp [hmismatched, hid] at hstale

end

variable {t : Int}

/-! ### The run -/

/-- A lease is good at the time `t`: this computer may send input, or the
phone may. -/
def RemoteSession.Good (s : RemoteSession) (t : Int) : Prop :=
  (s.heartbeatLease t).isSome ∨ s.Usable t

theorem RemoteSession.RunOut.not_good {s : RemoteSession} {t' : Int} (h : s.RunOut t)
    (ht : t ≤ t') : ¬s.Good t' := by
  rintro (hown | ⟨-, lease, hpeer, hvalid⟩)
  · unfold RemoteSession.heartbeatLease at hown
    split at hown
    · cases hown
    · obtain ⟨lease, hlease⟩ := Option.isSome_iff_exists.mp hown
      obtain ⟨hheld, hvalid⟩ := Option.filter_eq_some_iff.mp hlease
      have hout := h.lease lease hheld
      have hvalid := of_decide_eq_true hvalid
      omega
  · have hout := h.peerInputLease lease hpeer
    omega

/-- A lease is held that has run out by the time `t`. -/
def RemoteSession.Lapsed (s : RemoteSession) (t : Int) : Prop :=
  (∃ lease ∈ s.lease, lease.expiresAt ≤ t) ∨ ∃ lease ∈ s.peerInputLease, lease.expiresAt ≤ t

theorem RemoteSession.Lapsed.runOut {s : RemoteSession} (h : s.Lapsed t) (hs : s.Sound) :
    s.RunOut t := by
  rcases h with ⟨lease, hlease, hout⟩ | ⟨lease, hpeer, hout⟩
  · have hnone := hs.single.resolve_left (by rw [hlease]; nofun)
    refine ⟨fun l hl => ?_, fun l hl => nomatch hnone.symm.trans hl⟩
    obtain rfl := Option.some.inj (hlease.symm.trans hl)
    exact hout
  · have hnone := hs.single.resolve_right (by rw [hpeer]; nofun)
    refine ⟨fun l hl => (nomatch hnone.symm.trans hl), fun l hl => ?_⟩
    obtain rfl := Option.some.inj (hpeer.symm.trans hl)
    exact hout

/-- The move comes at the time `t` or later, and grants no lease. -/
def Shown.Ungranted (t : Int) (w : Shown) (move : Op × Clock) : Prop :=
  t ≤ move.2.now ∧ (move.1.grants = true → (w.session.call move.2 move.1).2 = false)

theorem applyAll_runOut {w : Shown} {moves : List (Op × Clock)} (h : w.session.RunOut t)
    (hregular : Lib.Alongside Shown.after Shown.Regular w moves)
    (hungranted : Lib.Alongside Shown.after (Shown.Ungranted t) w moves) :
    (Lib.applyAll Shown.after w moves).session.RunOut t := by
  induction moves generalizing w with
  | nil => exact h
  | cons move moves ih =>
    obtain ⟨ht, hgrants⟩ := hungranted.1
    exact ih (after_runOut h ht hregular.1 hgrants) hregular.2 hungranted.2

/-- The session after the calls. -/
def shown (moves : List (Op × Clock)) : Shown := Lib.applyAll Shown.after {} moves

/-- The state of a session and its leases agree. After any regular calls: a
session has an identifier exactly when it is neither idle nor stopped; one
lease at most is held, this computer's only while it controls, and the
phone's only while the phone does or asks to; what is viewed or controlled
was granted, or ready, as a view of this session; a lease that has run out
is good at no later time, until one is granted; and a regular message that
names another session changes nothing, a request of a view apart. -/
theorem session_agrees (moves : List (Op × Clock))
    (hregular : Lib.Alongside Shown.after Shown.Regular {} moves) :
    ((shown moves).session.remoteSessionId.isSome ↔
      (shown moves).session.state ≠ .idle ∧ (shown moves).session.state ≠ .stopped) ∧
    ((shown moves).session.lease = none ∨ (shown moves).session.peerInputLease = none) ∧
    ((shown moves).session.lease.isSome → (shown moves).session.state = .controlling) ∧
    ((shown moves).session.peerInputLease.isSome →
      (shown moves).session.state = .peerControlling ∨
      (shown moves).session.state = .authorizingPeerControl) ∧
    ((shown moves).session.state.viewed = true → (shown moves).viewed = true) ∧
    (∀ (t : Int) (later : List (Op × Clock)), (shown moves).session.Lapsed t →
      Lib.Alongside Shown.after Shown.Regular (shown moves) later →
      Lib.Alongside Shown.after (Shown.Ungranted t) (shown moves) later →
      ∀ t', t ≤ t' → ¬(shown (moves ++ later)).session.Good t') ∧
    ∀ (message : ControlMessage) (clock : Clock), (shown moves).Regular (.accept message, clock) →
      (shown moves).session.remoteSessionId.isSome →
      (shown moves).session.remoteSessionId ≠ some message.remoteSessionId →
      message.kind ≠ .requestView →
      ((shown moves).session.accept message clock).1 = (shown moves).session := by
  have hstart : Shown.Tidy {} := ⟨new_sound, nofun, nofun, nofun⟩
  have h : (shown moves).Tidy :=
    hregular.invariant (fun w move h hC => after_tidy h hC) hstart
  refine ⟨h.sound.placed, h.sound.single, h.lease, h.peerInputLease, h.viewed, ?_, ?_⟩
  · intro t later hlapsed hlater hungranted t' ht'
    have hout := applyAll_runOut (hlapsed.runOut h.sound) hlater hungranted
    have happend : shown (moves ++ later) = Lib.applyAll Shown.after (shown moves) later :=
      Lib.applyAll_append ..
    rw [happend]
    exact hout.not_good ht'
  · intro message clock hmessage hid hother hview
    exact mismatched_same hmessage hid (by simpa [RemoteSession.mismatched] using hother) hview

instance (s : RemoteSession) (message : ControlMessage) (clock : Clock) :
    Decidable (s.Beats message clock) := inferInstanceAs (Decidable (_ ∧ _))

instance (w : Shown) : (move : Op × Clock) → Decidable (w.Regular move)
  | (.accept _, _) => inferInstanceAs (Decidable (_ ∧ _))
  | (.beginView .., _) | (.adoptOffer _, _) | (.beginControl, _) | (.expirePending, _)
  | (.expirePeerInputLease, _) | (.stop, _) | (.stopIfCurrent _, _) | (.grantPeerControl .., _)
  | (.verifyPeerInput .., _) | (.nextSequence, _) | (.stampInput, _) => .isTrue trivial

/-- A message of the session "s". -/
def told (kind : ControlKind) (now : Int) : Op × Clock :=
  (.accept
    { kind
      remoteSessionId := "s"
      sequence := 1
      leaseId := some "lease"
      leaseExpiresAt := some 100 }, ⟨now, 0⟩)

/-- This computer views the phone, and controls it until the time 100. -/
def controlling : List (Op × Clock) :=
  [(.beginView "s" .phoneToDesktop, ⟨0, 0⟩), told .screenReady 1, (.beginControl, ⟨2, 0⟩),
    told .controlGranted 3]

/-- The heartbeat comes within the lease, and control goes on. -/
theorem session_agrees_controlling :
    Lib.Alongside Shown.after Shown.Regular {} (controlling ++ [told .heartbeat 50]) ∧
    (shown (controlling ++ [told .heartbeat 50])).session.lease.isSome ∧
    (shown (controlling ++ [told .heartbeat 50])).session.state = .controlling := by
  have hregular : Lib.Alongside Shown.after Shown.Regular {}
      (controlling ++ [told .heartbeat 50]) := by
    decide +kernel
  have hsome : (shown (controlling ++ [told .heartbeat 50])).session.lease.isSome := by
    decide +kernel
  exact ⟨hregular, hsome, (session_agrees _ hregular).2.2.1 hsome⟩

/-- The phone views this computer's screen, and controls it. -/
def peerControlled : List (Op × Clock) :=
  [(.beginView "s" .desktopToPhone, ⟨0, 0⟩), told .viewGranted 1, told .requestControl 2,
    (.grantPeerControl "lease" "phone" 0, ⟨3, 0⟩)]

/-- Five ways in which the state and the leases part. A view that is granted
again ends control and keeps this computer's lease; a phone that says its
screen is ready, while it controls this one, keeps its lease without
control; a session that is resumed is viewed, though no view of it was
granted; a heartbeat revives this computer's lease long after it has run out;
and one that names another session refreshes the lease all the same. -/
theorem session_disagrees :
    ((shown (controlling ++ [told .viewGranted 4])).session.lease.isSome ∧
      (shown (controlling ++ [told .viewGranted 4])).session.state = .viewing) ∧
    ((shown (peerControlled ++ [told .screenReady 4])).session.peerInputLease.isSome ∧
      (shown (peerControlled ++ [told .screenReady 4])).session.state = .viewing) ∧
    ((shown [(.beginView "s" .phoneToDesktop, ⟨0, 0⟩), told .resume 1]).session.state = .viewing ∧
      (shown [(.beginView "s" .phoneToDesktop, ⟨0, 0⟩), told .resume 1]).viewed = false) ∧
    ((shown controlling).session.heartbeatLease 1000 = none ∧
      ((shown (controlling ++ [told .heartbeat 1000])).session.heartbeatLease 1000).isSome) ∧
    ((shown controlling).session.remoteSessionId = some "s" ∧
      ((shown controlling).session.accept
        { kind := .heartbeat, remoteSessionId := "other", sequence := 1 } ⟨50, 0⟩).1
        ≠ (shown controlling).session) := by
  decide +kernel

end DeskLink.Remote
