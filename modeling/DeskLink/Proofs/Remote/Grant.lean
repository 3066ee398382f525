import DeskLink.Lib.Trace
import DeskLink.Proofs.Remote.Steps

/-!
# `DeskLink.Proofs.Remote.Grant`: input under a live grant

`Grant` is what a reader of the calls and of their outcomes would write
down: the last lease that was granted to the phone, for which session and
owner, when it was last granted or used, which sequence numbers were used
under it, and whether anything has ended it since (`Op.ends`). It is kept
beside the session (`Watched`) and read by nothing in it.

`Backed` says that what the session holds is what was written down: a lease
of the phone is the one granted, it runs out at most a lifetime after its
last use, and the window of its sequence numbers remembers every number that
was used and is not too old to be accepted.

* `accept_window`: what the window accepts was not used before.
* `call_kept`: one call.
* `input_granted`: the run.
-/

set_option autoImplicit false

namespace DeskLink.Remote

/-! ### What is written down -/

structure Grant where
  session : String
  lease : String
  owner : String
  /-- When the lease was granted or last used. -/
  last : Int
  used : List Int
  /-- Nothing has ended the grant. -/
  live : Bool
deriving DecidableEq, Repr

def Grant.use (g : Grant) (sequence now : Int) : Grant :=
  { g with last := now, used := sequence :: g.used }

def Grant.end (g : Grant) : Grant := { g with live := false }

/-- The kinds of a release, a denial, a stop, a pause, a new request or a
replacement. -/
def ControlKind.ends : ControlKind → Bool
  | .release | .screenStopped | .viewDenied | .screenError | .controlDenied | .pauseLocked
  | .requestView | .requestControl | .takeoverRequest | .controlGranted | .takeoverGranted => true
  | _ => false

/-- The calls that end a grant, when they do what they are for. -/
def Op.ends : Op → Bool
  | .accept message => message.kind.ends
  | .beginView .. | .adoptOffer _ | .beginControl | .expirePending | .expirePeerInputLease
  | .stop | .stopIfCurrent _ => true
  | .grantPeerControl .. | .verifyPeerInput .. | .nextSequence | .stampInput => false

/-- The sequence number that a call uses under the lease of the phone: that
of an input packet, or of a heartbeat when this computer has no lease
itself. -/
def RemoteSession.using (s : RemoteSession) : Op → Option Int
  | .verifyPeerInput packet _ => packet.inputSequence
  | .accept message =>
    if message.kind = .heartbeat ∧ s.lease = none ∧ s.peerInputLease.isSome
    then some message.sequence else none
  | _ => none

/-- The lease and the owner that a call grants it to. -/
def Op.granting : Op → Option (String × String)
  | .grantPeerControl leaseId owner _ => some (leaseId, owner)
  | _ => none

structure Watched where
  session : RemoteSession := {}
  grant : Option Grant := none

def Watched.written (w : Watched) (clock : Clock) (op : Op) : Option Grant :=
  if (w.session.call clock op).2 = false then w.grant
  else match op.granting, w.session.using op with
    | some (leaseId, owner), _ =>
      w.session.remoteSessionId.map (fun id => ⟨id, leaseId, owner, clock.now, [], true⟩)
    | none, some sequence => w.grant.map (·.use sequence clock.now)
    | none, none => if op.ends then w.grant.map Grant.end else w.grant

def Watched.after (w : Watched) (move : Op × Clock) : Watched where
  session := (w.session.call move.2 move.1).1
  grant := w.written move.2 move.1

/-! ### The window -/

/-- The window remembers every number used that is not too old. -/
structure Covers (window : InputSequenceWindow) (used : List Int) : Prop where
  highest : ∀ q ∈ used, q ≤ window.highest
  seen : ∀ q ∈ used, window.highest - q < InputSequenceWindow.width → q ∈ window.seen

/-- What the window accepts was not used before, and is remembered. -/
theorem accept_window {window : InputSequenceWindow} {used : List Int} {q : Int}
    (h : Covers window used) (hok : (window.accept q).2 = true) :
    q ∉ used ∧ Covers (window.accept q).1 (q :: used) := by
  unfold InputSequenceWindow.accept at hok ⊢
  by_cases hpos : q ≤ 0
  · simp [hpos] at hok
  · rw [if_neg hpos] at hok ⊢
    by_cases hnew : window.highest < q
    · rw [if_pos hnew] at hok ⊢
      have hfresh : q ∉ used := fun hmem => absurd (h.highest q hmem) (by omega)
      refine ⟨hfresh, ?_, ?_⟩
      · intro p hp
        rcases List.mem_cons.mp hp with rfl | hmem
        · exact Int.le_refl _
        · have hle := h.highest p hmem
          show p ≤ q
          omega
      · intro p hp hrecent
        -- A number that is still recent was remembered before.
        have hrecent : q - p < InputSequenceWindow.width := hrecent
        refine List.mem_filter.mpr ⟨?_, decide_eq_true (by omega)⟩
        rcases List.mem_cons.mp hp with rfl | hmem
        · exact List.mem_cons_self ..
        · exact List.mem_cons_of_mem _ (h.seen p hmem (by omega))
    · rw [if_neg hnew] at hok ⊢
      by_cases hold : InputSequenceWindow.width ≤ window.highest - q
      · simp [hold] at hok
      · rw [if_neg hold] at hok ⊢
        by_cases hseen : q ∈ window.seen
        · simp [hseen] at hok
        · rw [if_neg hseen]
          refine ⟨fun hmem => hseen (h.seen q hmem (by omega)), ?_, ?_⟩
          · intro p hp
            rcases List.mem_cons.mp hp with rfl | hmem
            · show p ≤ window.highest
              omega
            · exact h.highest p hmem
          · intro p hp hrecent
            rcases List.mem_cons.mp hp with rfl | hmem
            · exact List.mem_cons_self ..
            · exact List.mem_cons_of_mem _ (h.seen p hmem hrecent)

theorem covers_empty : Covers {} [] := ⟨nofun, nofun⟩

/-! ### What the session holds was granted -/

/-- The phone's lease is the one that was written down, and it is good for a
lifetime after its last use. -/
structure Grant.Of (g : Grant) (lease : PeerInputLease) : Prop where
  id : g.lease = lease.id
  owner : g.owner = lease.ownerDeviceId
  expires : lease.expiresAt ≤ g.last + leaseLifetime
  window : Covers lease.sequenceWindow g.used

structure Backed (s : RemoteSession) (grant : Option Grant) : Prop where
  held : ∀ lease, s.peerInputLease = some lease → ∃ g, grant = some g ∧ g.Of lease
  live : s.state = .peerControlling →
    ∃ g, grant = some g ∧ g.live = true ∧ s.remoteSessionId = some g.session
  once : ∀ g, grant = some g → g.used.Nodup

section
variable {s s' : RemoteSession} {grant : Option Grant} {clock : Clock} {message : ControlMessage}
variable {sequence : Int}

theorem new_backed : Backed {} none := ⟨nofun, nofun, nofun⟩

/-- Nothing that counts changes. -/
theorem Backed.same (h : Backed s grant) (hstate : s'.state = s.state)
    (hid : s'.remoteSessionId = s.remoteSessionId)
    (hpeer : s'.peerInputLease = s.peerInputLease) : Backed s' grant :=
  ⟨by rw [hpeer]; exact h.held, by rw [hstate, hid]; exact h.live, h.once⟩

/-- The phone's lease stays, and nothing is accepted under it. -/
theorem Backed.idle (h : Backed s grant) (hpeer : s'.peerInputLease = s.peerInputLease)
    (hstate : s'.state ≠ .peerControlling) : Backed s' grant :=
  ⟨by rw [hpeer]; exact h.held, fun hs => absurd hs hstate, h.once⟩

/-- The phone's lease goes. -/
theorem Backed.dropped (h : Backed s grant) (hpeer : s'.peerInputLease = none)
    (hstate : s'.state ≠ .peerControlling) : Backed s' grant :=
  ⟨by rw [hpeer]; nofun, fun hs => absurd hs hstate, h.once⟩

/-- The end of the grant is written down, and nothing is accepted under it. -/
theorem Backed.ended (h : Backed s grant) (hstate : s.state ≠ .peerControlling) :
    Backed s (grant.map Grant.end) where
  held lease hlease := by
    obtain ⟨g, rfl, hof⟩ := h.held lease hlease
    exact ⟨g.end, rfl, hof.id, hof.owner, hof.expires, hof.window⟩
  live hs := absurd hs hstate
  once g hg := by
    obtain ⟨g₀, hg₀, rfl⟩ := Option.map_eq_some_iff.mp hg
    exact h.once g₀ hg₀

/-- A sequence number is used under the phone's lease. -/
theorem Backed.used (h : Backed s grant) {lease : PeerInputLease}
    (hlease : s.peerInputLease = some lease)
    (haccepted : (lease.sequenceWindow.accept sequence).2 = true) :
    Backed { s with peerInputLease := some (lease.refreshed sequence clock.now) }
      (grant.map (·.use sequence clock.now)) := by
  obtain ⟨g, rfl, hof⟩ := h.held lease hlease
  obtain ⟨hfresh, hcovers⟩ := accept_window hof.window haccepted
  refine ⟨?_, ?_, ?_⟩
  · intro lease' hlease'
    obtain rfl := Option.some.inj hlease'
    exact ⟨_, rfl, hof.id, hof.owner, Int.le_refl _, hcovers⟩
  · intro hs
    obtain ⟨g', hg', hlive, hsession⟩ := h.live hs
    obtain rfl := Option.some.inj hg'
    exact ⟨_, rfl, hlive, hsession⟩
  · intro g' hg'
    obtain rfl := Option.some.inj hg'
    exact List.nodup_cons.mpr ⟨hfresh, h.once g rfl⟩

/-! ### One call -/

/-- A message that is not a heartbeat changes nothing, or takes the session
out of the phone's control. -/
theorem applyMessage_cases (hs : s.Sound) (hheartbeat : message.kind ≠ .heartbeat) :
    (s.applyMessage message clock).1 = s ∧
      (message.kind.ends = true → (s.applyMessage message clock).2.isOk = true →
        s.state ≠ .peerControlling) ∨
    (s.applyMessage message clock).1.state ≠ .peerControlling ∧
      ((s.applyMessage message clock).1.peerInputLease = s.peerInputLease ∨
        (s.applyMessage message clock).1.peerInputLease = none) := by
  unfold RemoteSession.applyMessage
  cases hk : message.kind with
  | heartbeat => exact absurd hk hheartbeat
  | requestView | pauseLocked | viewDenied | screenError | release | screenStopped =>
    exact .inr ⟨nofun, .inr rfl⟩
  | viewGranted | screenReady =>
    refine .inr ⟨?_, .inl (by simp)⟩
    rcases acceptReady_state s clock message with hstate | ⟨hcontrol, hstate⟩
    · rw [hstate]
      nofun
    · rw [hstate]
      rcases hcontrol with hcontrol | hcontrol <;> rw [hcontrol] <;> nofun
  | controlGranted | takeoverGranted =>
    simp only [RemoteSession.acceptGranted]
    split
    · exact .inl ⟨rfl, fun _ hok => nomatch hok⟩
    · split
      · exact .inl ⟨rfl, fun _ hok => nomatch hok⟩
      · exact .inr ⟨nofun, .inr rfl⟩
  | resume => exact .inr ⟨nofun, .inl rfl⟩
  | controlDenied =>
    simp only [RemoteSession.acceptControlDenied]
    split
    · rename_i hid
      refine .inl ⟨rfl, fun _ _ hstate => ?_⟩
      have hsome := hs.placed.mpr (by simp [hstate])
      rw [hid] at hsome
      cases hsome
    · split
      · rename_i hcontrol
        exact .inl ⟨rfl, fun _ _ => by rw [hcontrol.1]; nofun⟩
      · exact .inr ⟨nofun, .inr rfl⟩
  | requestControl | takeoverRequest =>
    simp only
    split
    · exact .inr ⟨nofun, .inl rfl⟩
    · exact .inl ⟨rfl, fun _ hok => nomatch hok⟩
  | _ => exact .inl ⟨rfl, nofun⟩

theorem applyMessage_backed (hs : s.Sound) (h : Backed s grant)
    (hheartbeat : message.kind ≠ .heartbeat) :
    Backed (s.applyMessage message clock).1 grant ∧
      (message.kind.ends = true → (s.applyMessage message clock).2.isOk = true →
        (s.applyMessage message clock).1.state ≠ .peerControlling) := by
  rcases applyMessage_cases hs hheartbeat with ⟨hsame, hends⟩ | ⟨hstate, hpeer | hpeer⟩
  · rw [hsame]
    exact ⟨h, hends⟩
  · exact ⟨h.idle hpeer hstate, fun _ _ => hstate⟩
  · exact ⟨h.dropped hpeer hstate, fun _ _ => hstate⟩

/-- What the call leaves is backed by what is written down of it. -/
def Watched.Kept (w : Watched) (op : Op) (clock : Clock) : Prop :=
  Backed (w.after (op, clock)).session (w.after (op, clock)).grant

variable {w : Watched} {op : Op} {owner : String}

theorem kept_failed (hcall : w.session.call clock op = (s', false)) (h : Backed s' w.grant) :
    w.Kept op clock := by
  unfold Watched.Kept Watched.after Watched.written
  simp only [hcall, if_true]
  exact h

theorem kept_used (hcall : w.session.call clock op = (s', true)) (hgrant : op.granting = none)
    (hused : w.session.using op = some sequence)
    (h : Backed s' (w.grant.map (·.use sequence clock.now))) : w.Kept op clock := by
  unfold Watched.Kept Watched.after Watched.written
  simp only [hcall, Bool.true_eq_false, if_false, hgrant, hused]
  exact h

theorem kept_other (hcall : w.session.call clock op = (s', true))
    (hgrant : op.granting = none)
    (hunused : w.session.using op = none) (h : Backed s' w.grant)
    (hends : op.ends = true → s'.state ≠ .peerControlling) : w.Kept op clock := by
  unfold Watched.Kept Watched.after Watched.written
  simp only [hcall, Bool.true_eq_false, if_false, hgrant, hunused]
  split
  · rename_i hop
    exact h.ended (hends hop)
  · exact h

/-- A call that ends a grant, or changes nothing that counts. -/
theorem kept_call {done : Bool} (hcall : w.session.call clock op = (s', done))
    (hgrant : op.granting = none)
    (hunused : w.session.using op = none) (h : Backed s' w.grant)
    (hends : done = true → op.ends = true → s'.state ≠ .peerControlling) : w.Kept op clock := by
  cases done with
  | false => exact kept_failed hcall h
  | true => exact kept_other hcall hgrant hunused h (hends rfl)

theorem heartbeat_kept (hk : message.kind = .heartbeat) (h : Backed w.session w.grant) :
    w.Kept (.accept message) clock := by
  have haccept : w.session.accept message clock = w.session.acceptHeartbeat message clock :=
    accept_heartbeat hk
  have hends : (Op.accept message).ends = false := by simp [Op.ends, ControlKind.ends, hk]
  have hcall : w.session.call clock (.accept message)
      = ((w.session.acceptHeartbeat message clock).1,
        (w.session.acceptHeartbeat message clock).2.isOk) := by
    rw [← haccept]
    rfl
  rcases heartbeat_cases w.session clock message with ⟨lease, hlease, heq⟩ |
    (⟨hnone, e, heq⟩ | ⟨hnone, hpeer, heq⟩) | ⟨lease, e, hnone, hpeer, -, heq⟩ |
    ⟨lease, hnone, hpeer, -, -, -, haccepted, heq⟩
  · rw [heq] at hcall
    exact kept_other hcall rfl (by simp [RemoteSession.using, hlease]) (h.same rfl rfl rfl)
      (by simp [hends])
  · rw [heq] at hcall
    exact kept_failed hcall h
  · rw [heq] at hcall
    exact kept_other hcall rfl (by simp [RemoteSession.using, hpeer]) h (by simp [hends])
  · rw [heq] at hcall
    exact kept_failed hcall (h.dropped rfl nofun)
  · rw [heq] at hcall
    exact kept_used hcall rfl (by simp [RemoteSession.using, hk, hnone, hpeer])
      (h.used hpeer haccepted)

theorem verify_kept {packet : InputPacket} (h : Backed w.session w.grant) :
    w.Kept (.verifyPeerInput packet owner) clock := by
  have hcall : w.session.call clock (.verifyPeerInput packet owner)
      = ((w.session.verifyPeerInput packet owner clock).1,
        (w.session.verifyPeerInput packet owner clock).2.isOk) := rfl
  rcases verify_cases w.session clock packet owner with ⟨e, heq⟩ | ⟨lease, e, -, -, -, heq⟩ |
    ⟨id, lease, sequence, -, -, hpeer, -, -, -, -, hsequence, haccepted, heq⟩
  · rw [heq] at hcall
    exact kept_failed hcall h
  · rw [heq] at hcall
    exact kept_failed hcall (h.dropped rfl nofun)
  · rw [heq] at hcall
    exact kept_used hcall rfl hsequence (h.used hpeer haccepted)

theorem grant_kept {leaseId : String} {waited : Nat} (hs : w.session.Sound)
    (h : Backed w.session w.grant) : w.Kept (.grantPeerControl leaseId owner waited) clock := by
  have hcall : w.session.call clock (.grantPeerControl leaseId owner waited)
      = ((w.session.grantPeerControl leaseId owner (clock.now - waited + leaseLifetime) clock).1,
        (w.session.grantPeerControl leaseId owner (clock.now - waited + leaseLifetime)
          clock).2.isOk) := rfl
  rcases grantPeerControl_cases w.session clock leaseId owner (clock.now - waited + leaseLifetime)
    with ⟨e, heq⟩ | ⟨hstate, heq⟩
  · rw [heq] at hcall
    exact kept_failed hcall h
  · rw [heq] at hcall
    obtain ⟨id, hid⟩ := Option.isSome_iff_exists.mp (hs.placed.mpr (by simp [hstate]))
    unfold Watched.Kept Watched.after Watched.written
    simp only [hcall, Except.isOk, Except.toBool, Bool.true_eq_false, if_false, Op.granting, hid]
    refine ⟨?_, ?_, ?_⟩
    · intro lease hlease
      obtain rfl := Option.some.inj hlease
      refine ⟨_, rfl, rfl, rfl, ?_, covers_empty⟩
      show clock.now - waited + leaseLifetime ≤ clock.now + leaseLifetime
      omega
    · exact fun _ => ⟨_, rfl, rfl, rfl⟩
    · intro g hg
      obtain rfl := Option.some.inj hg
      exact List.nodup_nil

theorem accept_kept (hs : w.session.Sound) (h : Backed w.session w.grant) :
    w.Kept (.accept message) clock := by
  by_cases hk : message.kind = .heartbeat
  · exact heartbeat_kept hk h
  · have hunused : w.session.using (.accept message) = none := by
      simp [RemoteSession.using, hk]
    have hcall : w.session.call clock (.accept message)
        = ((w.session.accept message clock).1, (w.session.accept message clock).2.isOk) := rfl
    rcases accept_cases w.session message clock with ⟨e, heq⟩ | ⟨hcheck, heq⟩
    · rw [heq] at hcall
      exact kept_failed hcall h
    · rw [heq] at hcall
      obtain ⟨hbacked, hends⟩ := applyMessage_backed hs h hk
      exact kept_call hcall rfl hunused hbacked (fun hok hop => hends hop hok)

/-- One call. -/
theorem call_kept (hs : w.session.Sound) (h : Backed w.session w.grant) (op : Op) :
    w.Kept op clock := by
  cases op with
  | accept message => exact accept_kept hs h
  | verifyPeerInput packet owner => exact verify_kept h
  | grantPeerControl leaseId owner waited => exact grant_kept hs h
  | beginView id direction =>
    exact kept_call rfl rfl rfl (h.dropped rfl nofun) (fun _ _ => nofun)
  | stop => exact kept_call rfl rfl rfl (h.dropped rfl nofun) (fun _ _ => nofun)
  | nextSequence => exact kept_call rfl rfl rfl (h.same rfl rfl rfl) nofun
  | adoptOffer id =>
    have hcall : w.session.call clock (.adoptOffer id)
        = ((w.session.adoptOffer id clock).1, (w.session.adoptOffer id clock).2.isOk) := rfl
    rcases adoptOffer_cases w.session clock id with ⟨e, heq⟩ | ⟨-, heq⟩
    · rw [heq] at hcall
      exact kept_failed hcall h
    · rw [heq] at hcall
      exact kept_other hcall rfl rfl (h.dropped rfl nofun) (fun _ => nofun)
  | beginControl =>
    have hcall : w.session.call clock .beginControl
        = ((w.session.beginControl clock).1, (w.session.beginControl clock).2.isOk) := rfl
    rcases beginControl_cases w.session clock with ⟨e, heq⟩ | ⟨-, heq⟩
    · rw [heq] at hcall
      exact kept_failed hcall h
    · rw [heq] at hcall
      exact kept_other hcall rfl rfl (h.idle rfl nofun) (fun _ => nofun)
  | expirePending =>
    have hcall : w.session.call clock .expirePending
        = ((w.session.expirePending clock).1, (w.session.expirePending clock).2.isSome) := rfl
    rcases expirePending_cases w.session clock with heq | heq | ⟨state, -, -, heq⟩
    · rw [heq] at hcall
      exact kept_failed hcall h
    · rw [heq] at hcall
      exact kept_other hcall rfl rfl (h.dropped rfl nofun) (fun _ => nofun)
    · rw [heq] at hcall
      exact kept_other hcall rfl rfl (h.dropped rfl nofun) (fun _ => nofun)
  | expirePeerInputLease =>
    have hcall : w.session.call clock .expirePeerInputLease
        = w.session.expirePeerInputLease clock := rfl
    rcases expirePeerInputLease_cases w.session clock with
      heq | ⟨lease, hpeer, -, ⟨-, heq⟩ | ⟨hstate, heq⟩⟩
    · rw [heq] at hcall
      exact kept_failed hcall h
    · rw [heq] at hcall
      exact kept_other hcall rfl rfl (h.dropped rfl nofun) (fun _ => nofun)
    · rw [heq] at hcall
      exact kept_other hcall rfl rfl (h.dropped rfl hstate) (fun _ => hstate)
  | stopIfCurrent id =>
    have hcall : w.session.call clock (.stopIfCurrent id) = w.session.stopIfCurrent id clock := rfl
    rcases stopIfCurrent_cases w.session clock id with heq | heq
    · rw [heq] at hcall
      exact kept_failed hcall h
    · rw [heq] at hcall
      exact kept_other hcall rfl rfl (h.dropped rfl nofun) (fun _ => nofun)
  | stampInput =>
    refine kept_call rfl rfl rfl ?_ nofun
    rcases stampInput_cases w.session clock with heq | heq
    · rw [heq]
      exact h
    · rw [heq]
      exact h.same rfl rfl rfl

/-- One move keeps both. -/
theorem after_backed (h : w.session.Sound ∧ Backed w.session w.grant) (move : Op × Clock) :
    (w.after move).session.Sound ∧ Backed (w.after move).session (w.after move).grant :=
  ⟨call_sound h.1 move.1, call_kept h.1 h.2 move.1⟩

end

/-! ### The run -/

/-- The session after the calls, and what was written down of them. -/
def watched (moves : List (Op × Clock)) : Watched := Lib.applyAll Watched.after {} moves

theorem applyAll_backed {w : Watched} (h : w.session.Sound ∧ Backed w.session w.grant)
    (moves : List (Op × Clock)) :
    (Lib.applyAll Watched.after w moves).session.Sound ∧
      Backed (Lib.applyAll Watched.after w moves).session
        (Lib.applyAll Watched.after w moves).grant := by
  induction moves generalizing w with
  | nil => exact h
  | cons move moves ih => exact ih (after_backed h move)

theorem watched_backed (moves : List (Op × Clock)) :
    (watched moves).session.Sound ∧ Backed (watched moves).session (watched moves).grant :=
  applyAll_backed ⟨new_sound, new_backed⟩ moves

/-- Input of the phone would be obeyed at the time `now`, if it quoted the
lease. -/
def RemoteSession.Usable (s : RemoteSession) (now : Int) : Prop :=
  s.state = .peerControlling ∧ ∃ lease, s.peerInputLease = some lease ∧ now < lease.expiresAt

section
variable {s : RemoteSession} {clock : Clock} {message : ControlMessage} {grant : Option Grant}

/-- A message keeps the phone's control at most. -/
theorem accept_usable {now : Int} (hs : s.Sound) (hnow : clock.now ≤ now)
    (h : (s.accept message clock).1.Usable now) : s.Usable clock.now := by
  have hsame : s.Usable now → s.Usable clock.now := by
    rintro ⟨hstate, lease, hlease, hvalid⟩
    exact ⟨hstate, lease, hlease, by omega⟩
  by_cases hk : message.kind = .heartbeat
  · rw [accept_heartbeat hk] at h
    rcases heartbeat_cases s clock message with ⟨lease, hlease, heq⟩ |
      (⟨-, e, heq⟩ | ⟨-, -, heq⟩) | ⟨lease, e, -, -, -, heq⟩ |
      ⟨lease, -, hpeer, hvalid, -, -, -, heq⟩
    · rw [heq] at h
      exact hsame h
    · rw [heq] at h
      exact hsame h
    · rw [heq] at h
      exact hsame h
    · rw [heq] at h
      exact nomatch h.1
    · -- A heartbeat refreshes a lease that is still good.
      rw [heq] at h
      exact ⟨h.1, lease, hpeer, hvalid⟩
  · rcases accept_cases s message clock with ⟨e, heq⟩ | ⟨-, heq⟩
    · rw [heq] at h
      exact hsame h
    · rw [heq] at h
      rcases applyMessage_cases hs hk with ⟨heq, -⟩ | ⟨hstate, -⟩
      · rw [heq] at h
        exact hsame h
      · exact absurd h.1 hstate

/-- What an input that is accepted says about the grant. -/
theorem Backed.input {packet : InputPacket} {owner : String} (h : Backed s grant)
    (hok : (s.verifyPeerInput packet owner clock).2.isOk = true) :
    ∃ g sequence, grant = some g ∧ g.live = true ∧ s.remoteSessionId = some g.session ∧
      packet.remoteSessionId = some g.session ∧ packet.leaseId = some g.lease ∧ owner = g.owner ∧
      clock.now - g.last < leaseLifetime ∧ packet.inputSequence = some sequence ∧
      sequence ∉ g.used := by
  rcases verify_cases s clock packet owner with ⟨e, heq⟩ | ⟨lease, e, -, -, -, heq⟩ |
    ⟨id, lease, sequence, hstate, hid, hpeer, howner, hvalid, hsession, hlease, hsequence,
      haccepted, -⟩
  · rw [heq] at hok
    cases hok
  · rw [heq] at hok
    cases hok
  · obtain ⟨g, rfl, hof⟩ := h.held lease hpeer
    obtain ⟨g', hg', hlive, hgs⟩ := h.live hstate
    obtain rfl := Option.some.inj hg'
    obtain rfl := Option.some.inj (hid.symm.trans hgs)
    have hexpires := hof.expires
    refine ⟨g, sequence, rfl, hlive, hgs, hsession, ?_, ?_, by omega, hsequence, ?_⟩
    · rw [hof.id]
      exact hlease
    · rw [hof.owner]
      exact howner.symm
    · exact (accept_window hof.window haccepted).1

/-- What a heartbeat that uses the phone's lease says about the grant. -/
theorem Backed.heartbeat {sequence : Int} (h : Backed s grant)
    (hused : s.using (.accept message) = some sequence)
    (hok : (s.accept message clock).2.isOk = true) :
    ∃ g, grant = some g ∧ message.leaseId = some g.lease ∧ message.ownerDeviceId = some g.owner ∧
      clock.now - g.last < leaseLifetime ∧ sequence ∉ g.used := by
  unfold RemoteSession.using at hused
  simp only at hused
  split at hused
  · rename_i hbeat
    obtain ⟨hk, hnone, hsome⟩ := hbeat
    obtain rfl := Option.some.inj hused
    rw [accept_heartbeat hk] at hok
    rcases heartbeat_cases s clock message with ⟨lease, hlease, -⟩ |
      (⟨-, e, heq⟩ | ⟨-, hpeer, -⟩) | ⟨lease, e, -, -, -, heq⟩ |
      ⟨lease, -, hpeer, hvalid, hlease, howner, haccepted, -⟩
    · exact nomatch hnone.symm.trans hlease
    · rw [heq] at hok
      cases hok
    · simp [hpeer] at hsome
    · rw [heq] at hok
      cases hok
    · obtain ⟨g, rfl, hof⟩ := h.held lease hpeer
      have hexpires := hof.expires
      refine ⟨g, rfl, ?_, ?_, by omega, (accept_window hof.window haccepted).1⟩
      · rw [hof.id]
        exact hlease
      · rw [hof.owner]
        exact howner
  · cases hused

end

/-- The phone's input is obeyed under a live grant only. After any calls, at
any times: an input packet that is accepted quotes the lease last granted,
by its owner and for the current session, which nothing has ended; less than
a lifetime has passed since it was granted or last used; and its number was
not used under it. A heartbeat that uses the lease quotes it too, in time
and with a number that was not used. No number was used twice. And no
message makes the phone's control usable that was not. -/
theorem input_granted (moves : List (Op × Clock)) :
    (∀ (packet : InputPacket) (owner : String) (clock : Clock),
      ((watched moves).session.verifyPeerInput packet owner clock).2.isOk = true →
      ∃ g sequence, (watched moves).grant = some g ∧ g.live = true ∧
        (watched moves).session.remoteSessionId = some g.session ∧
        packet.remoteSessionId = some g.session ∧ packet.leaseId = some g.lease ∧
        owner = g.owner ∧ clock.now - g.last < leaseLifetime ∧
        packet.inputSequence = some sequence ∧ sequence ∉ g.used) ∧
    (∀ (message : ControlMessage) (clock : Clock) (sequence : Int),
      (watched moves).session.using (.accept message) = some sequence →
      ((watched moves).session.accept message clock).2.isOk = true →
      ∃ g, (watched moves).grant = some g ∧ message.leaseId = some g.lease ∧
        message.ownerDeviceId = some g.owner ∧ clock.now - g.last < leaseLifetime ∧
        sequence ∉ g.used) ∧
    (∀ g, (watched moves).grant = some g → g.used.Nodup) ∧
    ∀ (message : ControlMessage) (clock : Clock) (now : Int), clock.now ≤ now →
      ((watched moves).session.accept message clock).1.Usable now →
      (watched moves).session.Usable clock.now := by
  obtain ⟨hsound, hbacked⟩ := watched_backed moves
  exact ⟨fun packet owner clock hok => hbacked.input hok,
    fun message clock sequence hused hok => hbacked.heartbeat hused hok, hbacked.once,
    fun message clock now hnow h => accept_usable hsound hnow h⟩

end DeskLink.Remote
