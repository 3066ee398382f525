import DeskLink.Lib.Trace
import DeskLink.Session.Operations

/-!
# `DeskLink.Proofs.Session.Binding`: stale bindings

`Step` says once what a call can do to the sessions and the tokens: leave
every session bound as it is (`quiet`), register a link, disconnect a
device, or end everything. `Sound` is what every step keeps: a token belongs
to one session, a session whose token is set has no link, and the parts of
a session's WebRTC state are there together.

* `after_step`: every call is such a step.
* `after_sound`: one call keeps `Sound`.
* `stale_powerless`: the run.
* `stale_notice`: what the run does not promise.
-/

set_option autoImplicit false

namespace DeskLink.Session

open DeskLink.Pairing (PairState PairingHandler Packet)

variable {d : String} {m : DeviceManager} {s s' : DeviceSession}

/-! ### What a call can do -/

/-- The peer, the transfer manager, the attempt and the handover are all
there or all absent. -/
structure DeviceSession.Whole (s : DeviceSession) : Prop where
  transferManager : s.transferManager.isSome = s.activeWebrtc.isSome
  webrtcAttemptId : s.webrtcAttemptId.isSome = s.activeWebrtc.isSome
  webrtcHandover : s.webrtcHandover.isSome = s.activeWebrtc.isSome

theorem clearWebrtcState_whole (s : DeviceSession) : s.clearWebrtcState.1.Whole := ⟨rfl, rfl, rfl⟩

/-- The session `s` became `s'`, and its bindings are what they were. -/
structure Kept (s s' : DeviceSession) : Prop where
  sessionId : s'.sessionId = s.sessionId
  generation : s'.connectionGeneration = s.connectionGeneration
  deviceId : s'.deviceId = s.deviceId
  activeLink : s'.activeLink = s.activeLink
  cancellation : s'.cancellation = s.cancellation
  whole : s.Whole → s'.Whole

theorem Kept.refl (s : DeviceSession) : Kept s s := ⟨rfl, rfl, rfl, rfl, rfl, id⟩

/-- The session `s'` has no link left. -/
structure Ended (s s' : DeviceSession) : Prop where
  sessionId : s'.sessionId = s.sessionId
  generation : s'.connectionGeneration = s.connectionGeneration
  deviceId : s'.deviceId = s.deviceId
  activeLink : s'.activeLink = none
  cancellation : s'.cancellation = s.cancellation
  whole : s'.Whole

/-- The session that the link `link` is registered in. -/
structure Registered (m : DeviceManager) (d : String) (s' : DeviceSession) : Prop where
  cancellation : s'.cancellation = m.tokens
  deviceId : (∀ s ∈ m.sessions[d]?, s.deviceId = d) → s'.deviceId = d
  generation : ∀ s ∈ m.sessions[d]?,
    s'.sessionId = s.sessionId ∧ s'.connectionGeneration = min (s.connectionGeneration + 1) u64Max
  whole : s'.Whole

/-- What a call does to the sessions and the tokens. -/
inductive Step (m m' : DeviceManager) : Prop where
  | quiet (tokens : m'.tokens = m.tokens) (cancelled : m'.cancelled = m.cancelled)
      (sessions : ∀ d : String, Option.Rel Kept m.sessions[d]? m'.sessions[d]?)
  | registered (d : String) (s' : DeviceSession) (sessions : m'.sessions = m.sessions.insert d s')
      (tokens : m'.tokens = m.tokens + 1)
      (cancelled : m'.cancelled = m.cancelled ++ (m.sessions[d]?.map (·.cancellation)).toList)
      (registered : Registered m d s')
  | disconnected (d : String) (s s' : DeviceSession) (session : m.sessions[d]? = some s)
      (sessions : m'.sessions = m.sessions.insert d s') (tokens : m'.tokens = m.tokens)
      (cancelled : m'.cancelled = m.cancelled ++ [s.cancellation]) (ended : Ended s s')
  | terminated (tokens : m'.tokens = m.tokens)
      (sessions : ∀ d : String, Option.Rel Ended m.sessions[d]? m'.sessions[d]?)
      (cancelled : ∀ t, t ∈ m'.cancelled ↔ t ∈ m.cancelled ∨
        ∃ (d : String) (s : DeviceSession), m.sessions[d]? = some s ∧ s.cancellation = t)

theorem rel_refl (o : Option DeviceSession) : Option.Rel Kept o o := by
  cases o with
  | none => exact .none
  | some s => exact .some (.refl s)

theorem Step.refl (m : DeviceManager) : Step m m := .quiet rfl rfl (fun _ => rel_refl _)

/-- A session replaced by one that is bound alike. -/
theorem rel_insert (hs : m.sessions[d]? = some s) (h : Kept s s') (e : String) :
    Option.Rel Kept m.sessions[e]? (m.sessions.insert d s')[e]? := by
  rw [getElem?_keyInsert]
  by_cases he : d = e
  · subst he
    rw [hs, if_pos rfl]
    exact .some h
  · rw [if_neg he]
    exact rel_refl _

theorem step_insert (hs : m.sessions[d]? = some s) (h : Kept s s') :
    Step m { m with sessions := m.sessions.insert d s' } :=
  .quiet rfl rfl (rel_insert hs h)

/-! ### Through a binding -/

section
variable {R : Type} {m : DeviceManager} {b : SessionBinding}

/-- An operation runs on the session only through a current binding. -/
theorem withSession_cases (operation : DeviceSession → DeviceSession × R) :
    (m.withSession b operation).1 = m ∨
      ∃ s, m.sessions[b.deviceId]? = some s ∧ m.isCurrent b = true ∧
        m.withSession b operation
          = ({ m with sessions := m.sessions.insert b.deviceId (operation s).1 },
            .ok (operation s).2) := by
  unfold DeviceManager.withSession
  cases hs : m.sessions[b.deviceId]? with
  | none => exact .inl rfl
  | some s =>
    show (if _ then _ else _ : DeviceManager × Except SessionError R).1 = m ∨ _
    by_cases hstate : s.state = .terminated
    · rw [if_pos hstate]
      exact .inl rfl
    · by_cases hholds : DeviceManager.holds s b = true ∧ b.cancellation ∉ m.cancelled
      · refine .inr ⟨s, rfl, ?_, ?_⟩
        · simp [DeviceManager.isCurrent, hs, hstate, hholds.1, hholds.2]
        · show (if _ then _ else _ : DeviceManager × Except SessionError R) = _
          rw [if_neg hstate, if_pos hholds]
      · rw [if_neg hstate, if_neg hholds]
        exact .inl rfl

theorem withSession_step {operation : DeviceSession → DeviceSession × R}
    (h : ∀ s, Kept s (operation s).1) : Step m (m.withSession b operation).1 := by
  rcases withSession_cases operation with heq | ⟨s, hs, -, heq⟩
  · rw [heq]
    exact .refl m
  · rw [heq]
    exact step_insert hs (h s)

theorem trySession_step {operation : DeviceSession → DeviceSession × Except SessionError R}
    (h : ∀ s, Kept s (operation s).1) : Step m (m.trySession b operation).1 :=
  withSession_step h

/-- Through a binding that is not current nothing happens. -/
theorem withSession_stale (operation : DeviceSession → DeviceSession × R)
    (h : m.isCurrent b = false) : (m.withSession b operation).1 = m := by
  rcases withSession_cases operation with heq | ⟨s, -, hcurrent, -⟩
  · exact heq
  · rw [h] at hcurrent
    cases hcurrent

theorem trySession_fst (operation : DeviceSession → DeviceSession × Except SessionError R) :
    (m.trySession b operation).1 = (m.withSession b operation).1 := rfl

theorem trySession_stale (operation : DeviceSession → DeviceSession × Except SessionError R)
    (h : m.isCurrent b = false) : (m.trySession b operation).1 = m :=
  withSession_stale operation h

end

/-! ### Every call -/

section
variable (m : DeviceManager)

theorem relink_registered {d : String} {s : DeviceSession} (hs : m.sessions[d]? = some s)
    (link : Nat) (paired : Bool) (now : Nat) :
    Registered m d (DeviceManager.relink s link m.tokens paired now) where
  cancellation := rfl
  deviceId h := h s hs
  generation s₀ hs₀ := by
    obtain rfl : s = s₀ := Option.some.inj (hs.symm.trans hs₀)
    exact ⟨rfl, rfl⟩
  whole := ⟨rfl, rfl, rfl⟩

theorem register_step (d : String) (link : SessionLink) (paired : Bool) (now : Nat) :
    Step m (m.registerLink d link paired now).1 := by
  unfold DeviceManager.registerLink
  cases hs : m.sessions[d]? with
  | none =>
    refine .registered d _ rfl rfl ?_ ⟨rfl, fun _ => rfl, ?_, ⟨rfl, rfl, rfl⟩⟩
    · rw [hs]
      exact (List.append_nil _).symm
    · rw [hs]
      intro s h
      cases h
  | some s =>
    by_cases hstate : s.state = .terminated
    · simp only [hstate, if_true]
      exact .refl m
    · simp only [if_neg hstate]
      have hregistered := relink_registered m hs m.links.length paired now
      cases hlink : s.activeLink with
      | none => exact .registered d _ rfl rfl (by rw [hs]; rfl) hregistered
      | some replaced => exact .registered d _ rfl rfl (by rw [hs]; rfl) hregistered

theorem adopt_step (d : String) (transport : Nat) (pem : String) (within now : Nat) :
    Step m (m.adoptOrKeep d transport pem within now).1 := by
  unfold DeviceManager.adoptOrKeep
  cases hs : m.sessions[d]? with
  | none => exact .refl m
  | some s =>
    have hkept : ∀ x y z, Kept s { s with
        state := x
        webrtcRecoveryAttempt := 0
        lastDisconnectReason := y
        lastInboundAt := z } := by
      intro x y z
      exact ⟨rfl, rfl, rfl, rfl, rfl, fun h => ⟨h.1, h.2, h.3⟩⟩
    simp only
    split
    · exact .refl m
    · split
      · exact .refl m
      · split
        · exact .refl m
        · split
          · exact .refl m
          · split
            · exact .refl m
            · -- The link's socket is swapped; no binding changes.
              exact .quiet rfl rfl (rel_insert hs (hkept .ready none now))

theorem disconnect_step (b : SessionBinding) (reason : String) :
    Step m (m.disconnectIfCurrent b reason).1 := by
  unfold DeviceManager.disconnectIfCurrent
  cases hs : m.sessions[b.deviceId]? with
  | none => exact .refl m
  | some s =>
    by_cases hstale : (!DeviceManager.holds s b) = true ∨ s.state = .terminated
    · simp only [if_pos hstale]
      exact .refl m
    · simp only [if_neg hstale]
      refine .disconnected b.deviceId s _ hs rfl rfl rfl ⟨rfl, rfl, rfl, rfl, rfl, ?_⟩
      exact clearWebrtcState_whole _

theorem bootstrapDisconnected_step (b : SessionBinding) (reason : String) (epoch : Option UInt64) :
    Step m (m.bootstrapDisconnected b reason epoch).1 := by
  unfold DeviceManager.bootstrapDisconnected
  cases hs : m.sessions[b.deviceId]? with
  | none => exact .refl m
  | some s =>
    simp only
    split
    · exact .refl m
    · split
      · exact step_insert hs ⟨rfl, rfl, rfl, rfl, rfl, fun h => ⟨h.1, h.2, h.3⟩⟩
      · exact disconnect_step m b reason

theorem install_step (b : SessionBinding) (attempt wire : String) (peer transfers : Nat)
    (onlyIfNone : Bool) :
    Step m (m.installWebrtcPeerWith b attempt wire peer transfers onlyIfNone).1 := by
  unfold DeviceManager.installWebrtcPeerWith
  refine trySession_step (fun s => ?_)
  split
  · exact .refl s
  · split
    · exact .refl s
    · exact ⟨rfl, rfl, rfl, rfl, rfl, fun _ => ⟨rfl, rfl, rfl⟩⟩

theorem clearWebrtc_step (b : SessionBinding) (attempt reason : String) :
    Step m (m.clearWebrtcIfCurrent b attempt reason).1 := by
  unfold DeviceManager.clearWebrtcIfCurrent
  refine trySession_step (fun s => ?_)
  split
  · exact .refl s
  · exact ⟨rfl, rfl, rfl, rfl, rfl, fun _ => clearWebrtcState_whole _⟩

theorem withWebrtcHandover_step {R : Type} (b : SessionBinding) (attempt : String)
    (operation : HandoverRuntime → HandoverRuntime × Except String R) :
    Step m (m.withWebrtcHandover b attempt operation).1 := by
  refine withSession_step (fun s => ?_)
  split
  · exact .refl s
  · cases hhandover : s.webrtcHandover with
    | none => exact .refl s
    | some handover =>
      refine ⟨rfl, rfl, rfl, rfl, rfl, fun h => ⟨h.1, h.2, ?_⟩⟩
      have hsome := h.3
      rw [hhandover] at hsome
      exact hsome

theorem acceptSignal_step (b : SessionBinding) (attempt request : String) :
    Step m (m.acceptWebrtcSignal b attempt request).1 := by
  refine trySession_step (fun s => ?_)
  have hkept : ∀ seen, Kept s { s with seenWebrtcRequestIds := seen } :=
    fun _ => ⟨rfl, rfl, rfl, rfl, rfl, fun h => ⟨h.1, h.2, h.3⟩⟩
  split
  · exact .refl s
  · split
    · exact .refl s
    · simp only
      split
      · exact hkept _
      · split <;> exact hkept _

theorem noteSignal_step (b : SessionBinding) (request : String) :
    Step m (m.noteSignalRequest b request).1 := by
  refine trySession_step (fun s => ?_)
  split
  · exact .refl s
  · exact ⟨rfl, rfl, rfl, rfl, rfl, fun h => ⟨h.1, h.2, h.3⟩⟩

theorem acceptEnvelope_step (b : SessionBinding) (attempt message : String) :
    Step m (m.acceptWebrtcEnvelope b attempt message).1 := by
  refine trySession_step (fun s => ?_)
  split
  · exact .refl s
  · exact ⟨rfl, rfl, rfl, rfl, rfl, fun h => ⟨h.1, h.2, h.3⟩⟩

theorem queueFeature_step (b : SessionBinding) (packet : String) (now : Nat) :
    Step m (m.queueFeature b packet now).1 := by
  refine withSession_step (fun s => ?_)
  split
  · exact .refl s
  · exact ⟨rfl, rfl, rfl, rfl, rfl, fun h => ⟨h.1, h.2, h.3⟩⟩

theorem revoke_step (b : SessionBinding) (reason : String) :
    Step m (m.revokePairing b reason).1 :=
  withSession_step (fun _ => ⟨rfl, rfl, rfl, rfl, rfl, fun _ => clearWebrtcState_whole _⟩)

theorem forgetPairing_step (d : String) : Step m (m.forgetPairing d).1 := by
  unfold DeviceManager.forgetPairing
  cases hs : m.sessions[d]? with
  | none => exact .refl m
  | some s =>
    exact step_insert hs ⟨rfl, rfl, rfl, rfl, rfl, fun _ => clearWebrtcState_whole _⟩

theorem claimNotice_step (b : SessionBinding) (interval now : Nat) :
    Step m (m.claimNotPairedNotice b interval now).1 := by
  unfold DeviceManager.claimNotPairedNotice
  cases hs : m.sessions[b.deviceId]? with
  | none => exact .refl m
  | some s =>
    simp only
    split
    · exact .refl m
    · split
      · exact .refl m
      · exact step_insert hs ⟨rfl, rfl, rfl, rfl, rfl, fun h => ⟨h.1, h.2, h.3⟩⟩

theorem noteInbound_step (d : String) (now : Nat) : Step m (m.noteInbound d now) := by
  unfold DeviceManager.noteInbound
  cases hs : m.sessions[d]? with
  | none => exact .refl m
  | some s => exact step_insert hs ⟨rfl, rfl, rfl, rfl, rfl, fun h => ⟨h.1, h.2, h.3⟩⟩

theorem expirePairing_step (now : Int) : Step m (m.expirePairing now).1 := by
  refine .quiet rfl rfl (fun d => ?_)
  show Option.Rel Kept m.sessions[d]? (m.sessions.map _)[d]?
  rw [Std.ExtTreeMap.getElem?_map]
  cases m.sessions[d]? with
  | none => exact .none
  | some s => exact .some ⟨rfl, rfl, rfl, rfl, rfl, fun h => ⟨h.1, h.2, h.3⟩⟩

theorem terminateAll_step : Step m m.terminateAll.1 := by
  refine .terminated rfl (fun d => ?_) (fun t => ?_)
  · show Option.Rel Ended m.sessions[d]? (m.sessions.map _)[d]?
    rw [Std.ExtTreeMap.getElem?_map]
    cases m.sessions[d]? with
    | none => exact .none
    | some s => exact .some ⟨rfl, rfl, rfl, rfl, rfl, clearWebrtcState_whole _⟩
  · show t ∈ m.cancelled ++ m.sessions.toList.map (·.2.cancellation) ↔ _
    rw [List.mem_append, List.mem_map]
    refine or_congr_right ⟨?_, ?_⟩
    · rintro ⟨⟨d, s⟩, hmem, rfl⟩
      exact ⟨d, s, Std.ExtTreeMap.mem_toList_iff_getElem?_eq_some.mp hmem, rfl⟩
    · rintro ⟨d, s, hs, rfl⟩
      exact ⟨(d, s), Std.ExtTreeMap.mem_toList_iff_getElem?_eq_some.mpr hs, rfl⟩

end

variable {m' : DeviceManager} {t : Nat}

/-- Every call is a step. -/
theorem after_step (m : DeviceManager) (call : Call) : Step m (m.after call) := by
  cases call with
  | register d link paired now => exact register_step m d link paired now
  | adopt d transport pem within now => exact adopt_step m d transport pem within now
  | closeLink link => exact .quiet rfl rfl (fun _ => rel_refl _)
  | disconnect b reason => exact disconnect_step m b reason
  | bootstrapDisconnected b reason => exact bootstrapDisconnected_step m b reason none
  | readerDisconnected b epoch reason => exact bootstrapDisconnected_step m b reason (some epoch)
  | install b attempt wire peer transfers none =>
    exact install_step m b attempt wire peer transfers none
  | clearWebrtc b attempt reason => exact clearWebrtc_step m b attempt reason
  | handover b attempt operation => exact withWebrtcHandover_step m b attempt operation
  | acceptSignal b attempt request => exact acceptSignal_step m b attempt request
  | noteSignal b request => exact noteSignal_step m b request
  | acceptEnvelope b attempt message => exact acceptEnvelope_step m b attempt message
  | queueFeature b packet now => exact queueFeature_step m b packet now
  | takePending b now =>
    exact withSession_step (fun s => ⟨rfl, rfl, rfl, rfl, rfl, fun h => ⟨h.1, h.2, h.3⟩⟩)
  | revoke b reason => exact revoke_step m b reason
  | changePairing b change =>
    exact withSession_step (fun s => ⟨rfl, rfl, rfl, rfl, rfl, fun h => ⟨h.1, h.2, h.3⟩⟩)
  | changeRecovery b change =>
    exact withSession_step (fun s => ⟨rfl, rfl, rfl, rfl, rfl, fun h => ⟨h.1, h.2, h.3⟩⟩)
  | restart b change =>
    exact withSession_step (fun s => ⟨rfl, rfl, rfl, rfl, rfl, fun _ => clearWebrtcState_whole _⟩)
  | forgetPairing d => exact forgetPairing_step m d
  | expirePairing now => exact expirePairing_step m now
  | claimNotice b interval now => exact claimNotice_step m b interval now
  | noteInbound d now => exact noteInbound_step m d now
  | terminateAll => exact terminateAll_step m

/-! ### Reading a step -/

theorem rel_some {r : DeviceSession → DeviceSession → Prop} {o : Option DeviceSession}
    (h : Option.Rel r o (some s')) : ∃ s, o = some s ∧ r s s' := by
  cases h with
  | some hr => exact ⟨_, rfl, hr⟩

/-- The session `s` became `s'` without being registered anew. -/
structure Follows (s s' : DeviceSession) : Prop where
  sessionId : s'.sessionId = s.sessionId
  generation : s'.connectionGeneration = s.connectionGeneration
  deviceId : s'.deviceId = s.deviceId
  cancellation : s'.cancellation = s.cancellation
  activeLink : s'.activeLink = s.activeLink ∨ s'.activeLink = none
  whole : s.Whole → s'.Whole

theorem Kept.follows (h : Kept s s') : Follows s s' :=
  ⟨h.sessionId, h.generation, h.deviceId, h.cancellation, .inl h.activeLink, h.whole⟩

theorem Ended.follows (h : Ended s s') : Follows s s' :=
  ⟨h.sessionId, h.generation, h.deviceId, h.cancellation, .inr h.activeLink, fun _ => h.whole⟩

/-- A session after a step is one from before it, or was registered in
it. -/
theorem Step.session_cases (hstep : Step m m') {e : String} (hs' : m'.sessions[e]? = some s') :
    (∃ s, m.sessions[e]? = some s ∧ Follows s s') ∨
      Registered m e s' ∧ m'.tokens = m.tokens + 1 ∧
        ∀ e' ≠ e, m'.sessions[e']? = m.sessions[e']? := by
  cases hstep with
  | quiet tokens cancelled sessions =>
    have hrel := sessions e
    rw [hs'] at hrel
    obtain ⟨s, hs, hkept⟩ := rel_some hrel
    exact .inl ⟨s, hs, hkept.follows⟩
  | terminated tokens sessions cancelled =>
    have hrel := sessions e
    rw [hs'] at hrel
    obtain ⟨s, hs, hended⟩ := rel_some hrel
    exact .inl ⟨s, hs, hended.follows⟩
  | registered d s₁ sessions tokens cancelled registered =>
    rw [sessions, getElem?_keyInsert] at hs'
    by_cases hd : d = e
    · subst hd
      rw [if_pos rfl] at hs'
      obtain rfl := Option.some.inj hs'
      refine .inr ⟨registered, tokens, fun e' he' => ?_⟩
      rw [sessions, getElem?_keyInsert, if_neg (Ne.symm he')]
    · rw [if_neg hd] at hs'
      exact .inl ⟨s', hs', (Kept.refl s').follows⟩
  | disconnected d s s₁ session sessions tokens cancelled ended =>
    rw [sessions, getElem?_keyInsert] at hs'
    by_cases hd : d = e
    · subst hd
      rw [if_pos rfl] at hs'
      obtain rfl := Option.some.inj hs'
      exact .inl ⟨s, session, ended.follows⟩
    · rw [if_neg hd] at hs'
      exact .inl ⟨s', hs', (Kept.refl s').follows⟩

/-- A token that a step sets is that of a session it takes the link or the
token from. -/
theorem Step.cancelled_cases (hstep : Step m m') (ht : t ∈ m'.cancelled) :
    t ∈ m.cancelled ∨ ∃ (d : String) (s : DeviceSession), m.sessions[d]? = some s ∧
      s.cancellation = t ∧
      ∀ s', m'.sessions[d]? = some s' → s'.activeLink = none ∨ Registered m d s' := by
  cases hstep with
  | quiet tokens cancelled sessions => exact .inl (cancelled ▸ ht)
  | terminated tokens sessions cancelled =>
    rcases (cancelled t).mp ht with ht | ⟨d, s, hs, hst⟩
    · exact .inl ht
    · refine .inr ⟨d, s, hs, hst, fun s' hs' => .inl ?_⟩
      have hrel := sessions d
      rw [hs'] at hrel
      obtain ⟨s₀, -, hended⟩ := rel_some hrel
      exact hended.activeLink
  | registered d s₁ sessions tokens cancelled registered =>
    rw [cancelled, List.mem_append, Option.mem_toList] at ht
    refine ht.imp_right (fun ht => ?_)
    obtain ⟨s, hs, hst⟩ := Option.map_eq_some_iff.mp ht
    refine ⟨d, s, hs, hst, fun s' hs' => .inr ?_⟩
    rw [sessions, getElem?_keyInsert, if_pos rfl] at hs'
    obtain rfl := Option.some.inj hs'
    exact registered
  | disconnected d s s₁ session sessions tokens cancelled ended =>
    rw [cancelled, List.mem_append, List.mem_singleton] at ht
    refine ht.imp_right (fun ht => ⟨d, s, session, ht.symm, fun s' hs' => .inl ?_⟩)
    rw [sessions, getElem?_keyInsert, if_pos rfl] at hs'
    obtain rfl := Option.some.inj hs'
    exact ended.activeLink

theorem Step.tokens_le (hstep : Step m m') : m.tokens ≤ m'.tokens := by
  cases hstep with
  | quiet tokens cancelled sessions => omega
  | terminated tokens sessions cancelled => omega
  | registered d s₁ sessions tokens cancelled registered => omega
  | disconnected d s s₁ session sessions tokens cancelled ended => omega

/-- A token stays set. -/
theorem Step.cancelled_mono (hstep : Step m m') (ht : t ∈ m.cancelled) : t ∈ m'.cancelled := by
  cases hstep with
  | quiet tokens cancelled sessions => exact cancelled ▸ ht
  | terminated tokens sessions cancelled => exact (cancelled t).mpr (.inl ht)
  | registered d s₁ sessions tokens cancelled registered =>
    rw [cancelled]
    exact List.mem_append_left _ ht
  | disconnected d s s₁ session sessions tokens cancelled ended =>
    rw [cancelled]
    exact List.mem_append_left _ ht

/-! ### What every step keeps -/

/-- A token belongs to one session, and a session whose token is set has
no link. -/
structure Sound (m : DeviceManager) : Prop where
  device : ∀ (d : String) (s : DeviceSession), m.sessions[d]? = some s → s.deviceId = d
  whole : ∀ (d : String) (s : DeviceSession), m.sessions[d]? = some s → s.Whole
  made : ∀ (d : String) (s : DeviceSession), m.sessions[d]? = some s → s.cancellation < m.tokens
  cancelled : ∀ t ∈ m.cancelled, t < m.tokens
  own : ∀ (d d' : String) (s s' : DeviceSession), m.sessions[d]? = some s →
    m.sessions[d']? = some s' → s.cancellation = s'.cancellation → d = d'
  gone : ∀ (d : String) (s : DeviceSession), m.sessions[d]? = some s →
    s.cancellation ∈ m.cancelled → s.activeLink = none

theorem empty_sound : Sound {} where
  device d s h := by simp at h
  whole d s h := by simp at h
  made d s h := by simp at h
  cancelled t h := by cases h
  own d d' s s' h := by simp at h
  gone d s h := by simp at h

/-- One step. -/
theorem Step.sound (hstep : Step m m') (h : Sound m) : Sound m' := by
  have hle := hstep.tokens_le
  constructor
  · intro d s' hs'
    rcases hstep.session_cases hs' with ⟨s, hs, hf⟩ | ⟨hr, -⟩
    · rw [hf.deviceId]
      exact h.device d s hs
    · exact hr.deviceId (fun s hs => h.device d s hs)
  · intro d s' hs'
    rcases hstep.session_cases hs' with ⟨s, hs, hf⟩ | ⟨hr, -⟩
    · exact hf.whole (h.whole d s hs)
    · exact hr.whole
  · intro d s' hs'
    rcases hstep.session_cases hs' with ⟨s, hs, hf⟩ | ⟨hr, htokens, -⟩
    · have hmade := h.made d s hs
      rw [hf.cancellation]
      omega
    · rw [hr.cancellation]
      omega
  · intro t ht
    rcases hstep.cancelled_cases ht with ht | ⟨d, s, hs, rfl, -⟩
    · have hlt := h.cancelled t ht
      omega
    · have hmade := h.made d s hs
      omega
  · -- The new token is no other session's.
    intro d d' s' s₂' hs' hs₂' heq
    rcases hstep.session_cases hs' with ⟨s, hs, hf⟩ | ⟨hr, -, hothers⟩
    · rw [hf.cancellation] at heq
      rcases hstep.session_cases hs₂' with ⟨s₂, hs₂, hf₂⟩ | ⟨hr₂, -⟩
      · rw [hf₂.cancellation] at heq
        exact h.own d d' s s₂ hs hs₂ heq
      · have hmade := h.made d s hs
        rw [hr₂.cancellation] at heq
        omega
    · rw [hr.cancellation] at heq
      by_contra hne
      rw [hothers d' (Ne.symm hne)] at hs₂'
      have hmade := h.made d' s₂' hs₂'
      omega
  · intro d s' hs' ht
    rcases hstep.session_cases hs' with ⟨s, hs, hf⟩ | ⟨hr, -⟩
    · rcases hstep.cancelled_cases ht with ht | ⟨e, s₀, hs₀, hst, hgone⟩
      · rw [hf.cancellation] at ht
        exact hf.activeLink.elim (fun heq => heq.trans (h.gone d s hs ht)) id
      · rw [hf.cancellation] at hst
        obtain rfl := h.own e d s₀ s hs₀ hs hst
        rcases hgone s' hs' with hnone | hr
        · exact hnone
        · -- A session that follows has an older token than one registered.
          have hmade := h.made e s hs
          have htoken := hr.cancellation
          rw [hf.cancellation] at htoken
          omega
    · rw [hr.cancellation] at ht
      rcases hstep.cancelled_cases ht with ht | ⟨e, s₀, hs₀, hst, -⟩
      · exact absurd (h.cancelled _ ht) (Nat.lt_irrefl _)
      · have hmade := h.made e s₀ hs₀
        omega

theorem after_sound (h : Sound m) (call : Call) : Sound (m.after call) :=
  (after_step m call).sound h

/-! ### Bindings -/

section
variable {m : DeviceManager} {b : SessionBinding} {s : DeviceSession}

/-- What a current binding says is what the session says. -/
theorem isCurrent_holds (h : m.isCurrent b = true) : ∃ s, m.sessions[b.deviceId]? = some s ∧
    s.sessionId = b.sessionId ∧ s.connectionGeneration = b.generation ∧
      s.activeLink = some b.link ∧ s.cancellation = b.cancellation := by
  unfold DeviceManager.isCurrent at h
  split at h
  · cases h
  · cases hs : m.sessions[b.deviceId]? with
    | none =>
      rw [hs] at h
      cases h
    | some s =>
      rw [hs] at h
      exact ⟨s, rfl, of_decide_eq_true (Bool.and_eq_true_iff.mp h).2⟩

theorem current_unique {b' : SessionBinding} (hdevice : b.deviceId = b'.deviceId)
    (h : m.isCurrent b = true) (h' : m.isCurrent b' = true) : b = b' := by
  obtain ⟨s, hs, hid, hgen, hlink, htoken⟩ := isCurrent_holds h
  obtain ⟨s', hs', hid', hgen', hlink', htoken'⟩ := isCurrent_holds h'
  rw [← hdevice] at hs'
  obtain rfl := Option.some.inj (hs.symm.trans hs')
  have hlinks := Option.some.inj (hlink.symm.trans hlink')
  cases b
  cases b'
  simp_all

/-- A session that a stale binding still names would have a link and a
token that is set. -/
theorem Sound.refuses (h : Sound m) (hstale : m.isCurrent b = false)
    (hs : m.sessions[b.deviceId]? = some s) :
    (!DeviceManager.holds s b) = true ∨ s.state = .terminated := by
  by_contra hcon
  obtain ⟨hholds, hstate⟩ := not_or.mp hcon
  have hholds : DeviceManager.holds s b = true := by simpa using hholds
  have hfields := of_decide_eq_true hholds
  have htoken : b.cancellation ∈ m.cancelled := by
    by_contra hnot
    simp [DeviceManager.isCurrent, hs, hnot, hstate, hholds] at hstale
  have hnone := h.gone b.deviceId s hs (by rw [hfields.2.2.2]; exact htoken)
  rw [hfields.2.2.1] at hnone
  cases hnone

theorem disconnect_stale (h : Sound m) (hstale : m.isCurrent b = false) (reason : String) :
    (m.disconnectIfCurrent b reason).1 = m := by
  unfold DeviceManager.disconnectIfCurrent
  cases hs : m.sessions[b.deviceId]? with
  | none => rfl
  | some s => simp only [if_pos (h.refuses hstale hs)]

theorem bootstrapDisconnected_stale (h : Sound m) (hstale : m.isCurrent b = false)
    (reason : String) (epoch : Option UInt64) :
    (m.bootstrapDisconnected b reason epoch).1 = m := by
  unfold DeviceManager.bootstrapDisconnected
  cases hs : m.sessions[b.deviceId]? with
  | none => rfl
  | some s =>
    have hrefuses := h.refuses hstale hs
    have hout : (!DeviceManager.holds s b) = true ∨
        epoch.any (fun e => m.links[b.link]?.map (·.epoch) ≠ some e) = true ∨
          s.state = .terminated := hrefuses.imp_right .inr
    simp only [if_pos hout]

/-- A reader of another socket does nothing. -/
theorem readerDisconnected_other {epoch : UInt64}
    (hepoch : m.links[b.link]?.map (·.epoch) ≠ some epoch) (reason : String) :
    (m.readerDisconnected b epoch reason).1 = m := by
  unfold DeviceManager.readerDisconnected DeviceManager.bootstrapDisconnected
  cases hs : m.sessions[b.deviceId]? with
  | none => rfl
  | some s =>
    have hout : (!DeviceManager.holds s b) = true ∨
        (some epoch).any (fun e => m.links[b.link]?.map (·.epoch) ≠ some e) = true ∨
          s.state = .terminated := .inr (.inl (decide_eq_true hepoch))
    simp only [if_pos hout]

/-- Writing back what was there changes nothing. -/
theorem insert_same {d : String} (hs : m.sessions[d]? = some s) :
    { m with sessions := m.sessions.insert d s } = m := by
  have hsame : m.sessions.insert d s = m.sessions := by
    refine Std.ExtTreeMap.ext_getElem? (fun {e} => ?_)
    rw [getElem?_keyInsert]
    split
    · rename_i he
      rw [← he, hs]
    · rfl
  rw [hsame]

/-- A clear for another attempt does nothing. -/
theorem clearWebrtc_other {attempt : String}
    (h : ∀ s, m.sessions[b.deviceId]? = some s → s.webrtcAttemptId ≠ some attempt)
    (reason : String) : (m.clearWebrtcIfCurrent b attempt reason).1 = m := by
  unfold DeviceManager.clearWebrtcIfCurrent
  rw [trySession_fst]
  rcases withSession_cases _ with heq | ⟨s, hs, -, heq⟩
  · exact heq
  · rw [heq]
    simp only [if_pos (h s hs)]
    exact insert_same hs

/-- Nothing goes through a stale binding. -/
theorem through_stale (h : Sound m) (hstale : m.isCurrent b = false) {call : Call}
    (hthrough : call.through = some b) : m.after call = m := by
  cases call with
  | disconnect b' reason =>
    obtain rfl := Option.some.inj hthrough
    exact disconnect_stale h hstale reason
  | bootstrapDisconnected b' reason =>
    obtain rfl := Option.some.inj hthrough
    exact bootstrapDisconnected_stale h hstale reason none
  | readerDisconnected b' epoch reason =>
    obtain rfl := Option.some.inj hthrough
    exact bootstrapDisconnected_stale h hstale reason (some epoch)
  | register d link paired now => cases hthrough
  | adopt d transport pem within now => cases hthrough
  | closeLink link => cases hthrough
  | forgetPairing d => cases hthrough
  | expirePairing now => cases hthrough
  | claimNotice b' interval now => cases hthrough
  | noteInbound d now => cases hthrough
  | terminateAll => cases hthrough
  | install | clearWebrtc | acceptSignal | noteSignal | acceptEnvelope =>
    obtain rfl := Option.some.inj hthrough
    exact trySession_stale _ hstale
  | handover | queueFeature | takePending | revoke | changePairing | changeRecovery | restart =>
    obtain rfl := Option.some.inj hthrough
    exact withSession_stale _ hstale

end

variable {b : SessionBinding} {reason : String} {call : Call}

/-! ### Runs -/

/-- The manager after the calls, from an empty one. -/
def managed (calls : List Call) : DeviceManager := Lib.applyAll DeviceManager.after {} calls

/-- The binding was the device's at some moment of the run. -/
def HandedOut (calls : List Call) (b : SessionBinding) : Prop :=
  ∃ k s, (managed (calls.take k)).sessions[b.deviceId]? = some s ∧ s.binding = some b

/-- The call registers a link of the device `d`, or disconnects it. -/
def DeviceManager.Ends (m : DeviceManager) (d : String) : Call → Prop
  | .register e link paired now => e = d ∧ (m.registerLink e link paired now).2.isOk = true
  | .disconnect b reason => b.deviceId = d ∧ (m.disconnectIfCurrent b reason).2.wasCurrent = true
  | .bootstrapDisconnected b reason => b.deviceId = d ∧
      (m.bootstrapDisconnectedIfCurrent b reason).2.wasCurrent = true ∧
      (m.bootstrapDisconnectedIfCurrent b reason).2.featureTransportRetained = false
  | .readerDisconnected b epoch reason => b.deviceId = d ∧
      (m.readerDisconnected b epoch reason).2.wasCurrent = true ∧
      (m.readerDisconnected b epoch reason).2.featureTransportRetained = false
  | .terminateAll => True
  | _ => False

theorem applyAll_sound (h : Sound m) (calls : List Call) :
    Sound (Lib.applyAll DeviceManager.after m calls) := by
  induction calls generalizing m with
  | nil => exact h
  | cons call calls ih => exact ih (after_sound h call)

theorem managed_sound (calls : List Call) : Sound (managed calls) :=
  applyAll_sound empty_sound calls

/-- A token stays with its session until it is set. -/
def Tracked (m : DeviceManager) (d : String) (t : Nat) : Prop :=
  t ∈ m.cancelled ∨ ∃ s, m.sessions[d]? = some s ∧ s.cancellation = t

theorem Step.tracked (hstep : Step m m') (h : Tracked m d t) : Tracked m' d t := by
  rcases h with ht | ⟨s, hs, rfl⟩
  · exact .inl (hstep.cancelled_mono ht)
  · cases hstep with
    | quiet tokens cancelled sessions =>
      have hrel := sessions d
      rw [hs] at hrel
      cases hs' : m'.sessions[d]? with
      | none =>
        rw [hs'] at hrel
        cases hrel
      | some s' =>
        rw [hs'] at hrel
        cases hrel with
        | some hkept => exact .inr ⟨s', hs', hkept.cancellation⟩
    | terminated tokens sessions cancelled => exact .inl ((cancelled _).mpr (.inr ⟨d, s, hs, rfl⟩))
    | registered e s₁ sessions tokens cancelled registered =>
      by_cases he : e = d
      · subst he
        refine .inl ?_
        rw [cancelled, hs]
        exact List.mem_append_right _ (List.mem_singleton_self _)
      · refine .inr ⟨s, ?_, rfl⟩
        rw [sessions, getElem?_keyInsert, if_neg he]
        exact hs
    | disconnected e s₀ s₁ session sessions tokens cancelled ended =>
      by_cases he : e = d
      · subst he
        refine .inl ?_
        obtain rfl := Option.some.inj (hs.symm.trans session)
        rw [cancelled]
        exact List.mem_append_right _ (List.mem_singleton_self _)
      · refine .inr ⟨s, ?_, rfl⟩
        rw [sessions, getElem?_keyInsert, if_neg he]
        exact hs

theorem applyAll_tracked (h : Tracked m d t) (calls : List Call) :
    Tracked (Lib.applyAll DeviceManager.after m calls) d t := by
  induction calls generalizing m with
  | nil => exact h
  | cons call calls ih => exact ih ((after_step m call).tracked h)

theorem applyAll_cancelled (h : t ∈ m.cancelled) (calls : List Call) :
    t ∈ (Lib.applyAll DeviceManager.after m calls).cancelled := by
  induction calls generalizing m with
  | nil => exact h
  | cons call calls ih => exact ih ((after_step m call).cancelled_mono h)

/-- A disconnect that took place set the token of the session. -/
theorem disconnect_cancels (h : (m.disconnectIfCurrent b reason).2.wasCurrent = true)
    (hs : m.sessions[b.deviceId]? = some s) :
    s.cancellation ∈ (m.disconnectIfCurrent b reason).1.cancelled := by
  unfold DeviceManager.disconnectIfCurrent at h ⊢
  rw [hs] at h ⊢
  by_cases hstale : (!DeviceManager.holds s b) = true ∨ s.state = .terminated
  · simp only [if_pos hstale] at h
    cases h
  · simp only [if_neg hstale]
    exact List.mem_append_right _ (List.mem_singleton_self _)

theorem bootstrapDisconnected_cancels {epoch : Option UInt64}
    (h : (m.bootstrapDisconnected b reason epoch).2.wasCurrent = true)
    (hretained : (m.bootstrapDisconnected b reason epoch).2.featureTransportRetained = false)
    (hs : m.sessions[b.deviceId]? = some s) :
    s.cancellation ∈ (m.bootstrapDisconnected b reason epoch).1.cancelled := by
  unfold DeviceManager.bootstrapDisconnected at h hretained ⊢
  rw [hs] at h hretained ⊢
  simp only at h hretained ⊢
  split at h
  · cases h
  · rename_i hgo
    rw [if_neg hgo] at hretained ⊢
    split at h
    · rename_i hready
      rw [if_pos hready] at hretained
      cases hretained
    · rename_i hready
      rw [if_neg hready]
      exact disconnect_cancels h hs

theorem register_cancels {link : SessionLink} {paired : Bool} {now : Nat}
    (h : (m.registerLink d link paired now).2.isOk = true) (hs : m.sessions[d]? = some s) :
    s.cancellation ∈ (m.registerLink d link paired now).1.cancelled := by
  unfold DeviceManager.registerLink at h ⊢
  rw [hs] at h ⊢
  by_cases hstate : s.state = .terminated
  · simp only [if_pos hstate] at h
    cases h
  · simp only [if_neg hstate]
    cases s.activeLink with
    | none => exact List.mem_append_right _ (List.mem_singleton_self _)
    | some replaced => exact List.mem_append_right _ (List.mem_singleton_self _)

theorem ends_cancels (h : m.Ends d call) (hs : m.sessions[d]? = some s) :
    s.cancellation ∈ (m.after call).cancelled := by
  cases call with
  | register e link paired now =>
    obtain ⟨rfl, hok⟩ := h
    exact register_cancels hok hs
  | disconnect b reason =>
    obtain ⟨rfl, hcurrent⟩ := h
    exact disconnect_cancels hcurrent hs
  | bootstrapDisconnected b reason =>
    obtain ⟨rfl, hcurrent, hretained⟩ := h
    exact bootstrapDisconnected_cancels hcurrent hretained hs
  | readerDisconnected b epoch reason =>
    obtain ⟨rfl, hcurrent, hretained⟩ := h
    exact bootstrapDisconnected_cancels hcurrent hretained hs
  | terminateAll =>
    refine List.mem_append_right _ (List.mem_map.mpr ⟨(d, s), ?_, rfl⟩)
    exact Std.ExtTreeMap.mem_toList_iff_getElem?_eq_some.mpr hs
  | _ => cases h

/-- A binding that was handed out before a registration or a disconnect of
its device is cancelled after it. -/
theorem handedOut_cancelled {before later : List Call} (hb : HandedOut before b)
    (hends : (managed before).Ends b.deviceId call) :
    b.cancellation ∈ (managed (before ++ call :: later)).cancelled := by
  obtain ⟨k, s, hs, hbinding⟩ := hb
  have htoken : s.cancellation = b.cancellation := by
    obtain ⟨link, -, rfl⟩ := Option.map_eq_some_iff.mp hbinding
    rfl
  have htracked : Tracked (managed before) b.deviceId b.cancellation := by
    have hstart : Tracked (managed (before.take k)) b.deviceId b.cancellation :=
      .inr ⟨s, hs, htoken⟩
    have hsplit : managed before
        = Lib.applyAll DeviceManager.after (managed (before.take k)) (before.drop k) := by
      rw [managed, managed, ← Lib.applyAll_append, List.take_append_drop]
    rw [hsplit]
    exact applyAll_tracked hstart _
  have hset : b.cancellation ∈ ((managed before).after call).cancelled := by
    rcases htracked with ht | ⟨s', hs', ht⟩
    · exact (after_step _ call).cancelled_mono ht
    · rw [← ht]
      exact ends_cancels hends hs'
  rw [managed, Lib.applyAll_append]
  exact applyAll_cancelled hset later

/-- The generation of a session whose device registers a link again. -/
theorem register_generation (hs : m.sessions[d]? = some s) (hstate : s.state ≠ .terminated)
    (link : SessionLink) (paired : Bool) (now : Nat) :
    (m.after (.register d link paired now)).sessions[d]?
      = some (DeviceManager.relink s m.links.length m.tokens paired now) := by
  show (m.registerLink d link paired now).1.sessions[d]? = _
  unfold DeviceManager.registerLink
  rw [hs]
  simp only [if_neg hstate]
  cases s.activeLink with
  | none => exact (getElem?_keyInsert ..).trans (if_pos rfl)
  | some replaced => exact (getElem?_keyInsert ..).trans (if_pos rfl)

/-- Stale bindings are powerless. In every state that calls of the manager
reach: a device has at most one current binding; a session's generation
grows with each registration, below the largest; a binding handed out
before a registration or a disconnect of its device is cancelled; a call
through a binding that is not current changes nothing, nor does the reader
of another socket, nor a clear for another attempt; and the parts of a
session's WebRTC state are all there or all absent. -/
theorem stale_powerless (calls : List Call) :
    (∀ b b' : SessionBinding, b.deviceId = b'.deviceId → (managed calls).isCurrent b = true →
      (managed calls).isCurrent b' = true → b = b') ∧
    (∀ (d : String) (link : SessionLink) (paired : Bool) (now : Nat) (s : DeviceSession),
      (managed calls).sessions[d]? = some s → s.state ≠ .terminated →
      s.connectionGeneration < u64Max →
      ∃ s', ((managed calls).after (.register d link paired now)).sessions[d]? = some s' ∧
        s'.sessionId = s.sessionId ∧ s.connectionGeneration < s'.connectionGeneration) ∧
    (∀ (before later : List Call) (call : Call) (b : SessionBinding),
      calls = before ++ call :: later → HandedOut before b →
      (managed before).Ends b.deviceId call → b.cancellation ∈ (managed calls).cancelled) ∧
    (∀ (b : SessionBinding) (call : Call), call.through = some b →
      (managed calls).isCurrent b = false → (managed calls).after call = managed calls) ∧
    (∀ (b : SessionBinding) (epoch : UInt64) (reason : String),
      (managed calls).links[b.link]?.map (·.epoch) ≠ some epoch →
      (managed calls).after (.readerDisconnected b epoch reason) = managed calls) ∧
    (∀ (b : SessionBinding) (attempt reason : String),
      (∀ s, (managed calls).sessions[b.deviceId]? = some s → s.webrtcAttemptId ≠ some attempt) →
      (managed calls).after (.clearWebrtc b attempt reason) = managed calls) ∧
    ∀ (d : String) (s : DeviceSession), (managed calls).sessions[d]? = some s → s.Whole := by
  have hsound := managed_sound calls
  refine ⟨fun b b' hdevice h h' => current_unique hdevice h h', ?_, ?_, ?_, ?_, ?_, hsound.whole⟩
  · intro d link paired now s hs hstate hroom
    refine ⟨_, register_generation hs hstate link paired now, rfl, ?_⟩
    show s.connectionGeneration < min (s.connectionGeneration + 1) u64Max
    omega
  · rintro before later call b rfl hb hends
    exact handedOut_cancelled hb hends
  · intro b call hthrough hstale
    exact through_stale hsound hstale hthrough
  · intro b epoch reason hepoch
    exact readerDisconnected_other hepoch reason
  · intro b attempt reason hother
    exact clearWebrtc_other hother reason

/-- A phone registers a link. -/
def phoneLink : Call := .register "phone" { certificatePem := "" } false 0

/-- After `n + 1` registrations. -/
theorem phoneLink_generation (n : Nat) :
    ∃ s, (managed (List.replicate (n + 1) phoneLink)).sessions["phone"]? = some s ∧
      s.state = .ready ∧ s.connectionGeneration = min (n + 1) u64Max := by
  induction n with
  | zero =>
    refine ⟨_, (getElem?_keyInsert ..).trans (if_pos rfl), rfl, ?_⟩
    show 1 = min (0 + 1) u64Max
    have hmax : 1 ≤ u64Max := by decide
    omega
  | succ n ih =>
    obtain ⟨s, hs, hstate, hgen⟩ := ih
    have hlast : managed (List.replicate (n + 1 + 1) phoneLink)
        = (managed (List.replicate (n + 1) phoneLink)).after phoneLink := by
      rw [managed, List.replicate_succ', Lib.applyAll_append]
      rfl
    rw [hlast]
    refine ⟨_, register_generation hs (by rw [hstate]; decide) _ _ _, rfl, ?_⟩
    show min (s.connectionGeneration + 1) u64Max = _
    omega

/-- A paired phone with a WebRTC peer that is ready for features. -/
def readyPhone : List Call :=
  [.register "phone" { certificatePem := "" } true 0,
    .install ⟨"phone", 1, 1, 0, 0⟩ "attempt" "wire" 7 8 false,
    .handover ⟨"phone", 1, 1, 0, 0⟩ "attempt" (fun h => ({ h with featuresReady := true }, .ok ()))]

/-- Three things are not so. At the largest generation a registration does
not raise it. The end of the bootstrap socket of a phone whose peer is ready
cancels nothing. And a notice claimed through a binding that is not current
is written into the session. -/
theorem stale_notice :
    (∃ (calls : List Call) (s s' : DeviceSession), (managed calls).sessions["phone"]? = some s ∧
      s.state = .ready ∧ ((managed calls).after phoneLink).sessions["phone"]? = some s' ∧
      s'.connectionGeneration = s.connectionGeneration) ∧
    (HandedOut readyPhone ⟨"phone", 1, 1, 0, 0⟩ ∧
      ((managed readyPhone).bootstrapDisconnectedIfCurrent ⟨"phone", 1, 1, 0, 0⟩
        "socket closed").2.wasCurrent = true ∧
      0 ∉ ((managed readyPhone).after
        (.bootstrapDisconnected ⟨"phone", 1, 1, 0, 0⟩ "socket closed")).cancelled) ∧
    (HandedOut [phoneLink, phoneLink] ⟨"phone", 1, 1, 0, 0⟩ ∧
      (managed [phoneLink, phoneLink]).isCurrent ⟨"phone", 1, 1, 0, 0⟩ = false ∧
      ((managed [phoneLink, phoneLink]).after
          (.claimNotice ⟨"phone", 1, 1, 0, 0⟩ 5000 10)).sessions
        ≠ (managed [phoneLink, phoneLink]).sessions) := by
  refine ⟨?_, ⟨⟨1, _, rfl, rfl⟩, by decide, by decide⟩, ⟨1, _, rfl, rfl⟩, by decide, ?_⟩
  · obtain ⟨s, hs, hstate, hgen⟩ := phoneLink_generation u64Max
    refine ⟨_, s, _, hs, hstate, register_generation hs (by rw [hstate]; decide) _ _ _, ?_⟩
    show min (s.connectionGeneration + 1) u64Max = s.connectionGeneration
    omega
  · intro heq
    have hnotice := congrArg (fun sessions => sessions["phone"]?.map (·.lastNotPairedNotice)) heq
    exact absurd hnotice (by decide)

end DeskLink.Session
