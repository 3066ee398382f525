import DeskLink.Lib.Line
import DeskLink.Lib.Unwind
import DeskLink.Proofs.Session.Binding
import DeskLink.Session.Features

/-!
# `DeskLink.Proofs.Session.Features`: the order of queued features

A packet on its way to a device stands in a line: what the channel took, what
a flush has in hand, the queue, and last what its thread is sending. The
packets of one thread stand in this line in the order in which the thread
sent them, each once (`Lib.InLine`). Every step keeps the line, or drops a packet,
as long as it is `Features.Orderly`: no thread writes past its own packets
that wait, and no session stops being ready while a flush of it is on.

* `after_queue`: what a call does to a queue.
* `after_lined`: one step of anything.
* `features_ordered`: the run.
* `features_overtake`: what happens otherwise.
-/

set_option autoImplicit false

namespace DeskLink.Session

/-! ### What a call does to a queue -/

/-- The packets that wait for the device, the first one first. -/
def DeviceManager.queueOf (m : DeviceManager) (d : String) : List String :=
  (m.sessions[d]?.map (fun s => s.pendingFeatures.map (·.2))).getD []

/-- Every queue is as it was, or empty. -/
def Queues (m m' : DeviceManager) : Prop :=
  ∀ d, m'.queueOf d = m.queueOf d ∨ m'.queueOf d = []

section
variable {m : DeviceManager} {b : SessionBinding} {R : Type} {cancelled : List Nat}
variable {links : List SessionLink} {nextSessionId tokens : Nat} {d : String}

theorem Queues.refl (m : DeviceManager) : Queues m m := fun _ => .inl rfl

theorem queueOf_insert (m : DeviceManager) (d e : String) (s : DeviceSession) :
    (DeviceManager.mk nextSessionId (m.sessions.insert d s) links tokens cancelled).queueOf e
      = if d = e then s.pendingFeatures.map (·.2) else m.queueOf e := by
  unfold DeviceManager.queueOf
  simp only [getElem?_keyInsert]
  split <;> rfl

theorem queueOf_some {s : DeviceSession} (hs : m.sessions[d]? = some s) :
    m.queueOf d = s.pendingFeatures.map (·.2) := by
  unfold DeviceManager.queueOf
  rw [hs]
  rfl

/-- A session is replaced by one with its queue, or with none. -/
theorem queues_insert {s' : DeviceSession}
    (h : s'.pendingFeatures.map (·.2) = m.queueOf d ∨ s'.pendingFeatures = []) :
    Queues m ⟨nextSessionId, m.sessions.insert d s', links, tokens, cancelled⟩ := by
  intro e
  rw [queueOf_insert]
  by_cases hd : d = e
  · subst hd
    rw [if_pos rfl]
    refine h.imp id (fun hnil => ?_)
    rw [hnil]
    rfl
  · rw [if_neg hd]
    exact .inl rfl

theorem withSession_queues {operation : DeviceSession → DeviceSession × R}
    (h : ∀ s, (operation s).1.pendingFeatures = s.pendingFeatures ∨
      (operation s).1.pendingFeatures = []) : Queues m (m.withSession b operation).1 := by
  rcases withSession_cases operation with heq | ⟨s, hs, -, heq⟩
  · rw [heq]
    exact .refl m
  · rw [heq]
    refine queues_insert ((h s).imp (fun hsame => ?_) id)
    rw [queueOf_some hs, hsame]

theorem queues_map {change : DeviceSession → DeviceSession}
    (h : ∀ s, (change s).pendingFeatures = s.pendingFeatures) :
    Queues m { m with sessions := m.sessions.map (fun _ => change), cancelled } := by
  intro d
  refine .inl ?_
  show ((m.sessions.map (fun _ => change))[d]?.map _).getD [] = _
  unfold DeviceManager.queueOf
  rw [Std.ExtTreeMap.getElem?_map]
  cases m.sessions[d]? with
  | none => rfl
  | some s =>
    show (change s).pendingFeatures.map (·.2) = s.pendingFeatures.map (·.2)
    rw [h s]

theorem trySession_queues {operation : DeviceSession → DeviceSession × Except SessionError R}
    (h : ∀ s, (operation s).1.pendingFeatures = s.pendingFeatures ∨
      (operation s).1.pendingFeatures = []) : Queues m (m.trySession b operation).1 :=
  withSession_queues h

theorem Queues.closeLink {m' : DeviceManager} (h : Queues m m') (link : Nat) :
    Queues m (m'.closeLink link) := h

variable (m)

theorem register_queues (d : String) (link : SessionLink) (paired : Bool) (now : Nat) :
    Queues m (m.registerLink d link paired now).1 := by
  unfold DeviceManager.registerLink
  cases hs : m.sessions[d]? with
  | none => exact queues_insert (.inr rfl)
  | some s =>
    simp only
    split
    · exact .refl m
    · have hsame : Queues m
          { m with
            links := m.links ++ [link]
            sessions := m.sessions.insert d
              (DeviceManager.relink s m.links.length m.tokens paired now)
            tokens := m.tokens + 1
            cancelled := m.cancelled ++ [s.cancellation] } :=
        queues_insert (.inl (queueOf_some hs).symm)
      split
      · exact hsame.closeLink _
      · exact hsame

theorem adopt_queues (d : String) (transport : Nat) (pem : String) (within now : Nat) :
    Queues m (m.adoptOrKeep d transport pem within now).1 := by
  unfold DeviceManager.adoptOrKeep
  cases hs : m.sessions[d]? with
  | none => exact .refl m
  | some s =>
    simp only
    split
    · exact .refl m
    · split
      · exact .refl m
      · split
        · exact .refl m
        · split
          · exact .refl m
          · split
            · exact .refl m
            · exact queues_insert (.inl (queueOf_some hs).symm)

theorem disconnect_queues (b : SessionBinding) (reason : String) :
    Queues m (m.disconnectIfCurrent b reason).1 := by
  unfold DeviceManager.disconnectIfCurrent
  cases hs : m.sessions[b.deviceId]? with
  | none => exact .refl m
  | some s =>
    simp only
    split
    · exact .refl m
    · exact queues_insert (.inl (queueOf_some hs).symm)

theorem bootstrapDisconnected_queues (b : SessionBinding) (reason : String)
    (epoch : Option UInt64) : Queues m (m.bootstrapDisconnected b reason epoch).1 := by
  unfold DeviceManager.bootstrapDisconnected
  cases hs : m.sessions[b.deviceId]? with
  | none => exact .refl m
  | some s =>
    simp only
    split
    · exact .refl m
    · split
      · exact queues_insert (.inl (queueOf_some hs).symm)
      · exact disconnect_queues m b reason

/-- A call that neither queues nor takes leaves every queue as it was, or
empties it. -/
theorem after_queue {call : Call} (hother : call.ofFeatures = false) :
    Queues m (m.after call) := by
  cases call with
  | register d link paired now => exact register_queues m d link paired now
  | adopt d transport pem within now => exact adopt_queues m d transport pem within now
  | closeLink link => exact .refl m
  | disconnect b reason => exact disconnect_queues m b reason
  | bootstrapDisconnected b reason => exact bootstrapDisconnected_queues m b reason none
  | readerDisconnected b epoch reason => exact bootstrapDisconnected_queues m b reason (some epoch)
  | install b attempt wire peer transfers onlyIfNone =>
    show Queues m (m.installWebrtcPeerWith b attempt wire peer transfers onlyIfNone).1
    refine trySession_queues (fun s => .inl ?_)
    split
    · rfl
    · split <;> rfl
  | clearWebrtc b attempt reason =>
    show Queues m (m.clearWebrtcIfCurrent b attempt reason).1
    refine trySession_queues (fun s => .inl ?_)
    split <;> rfl
  | handover b attempt operation =>
    refine withSession_queues (fun s => .inl ?_)
    split
    · rfl
    · split <;> rfl
  | acceptSignal b attempt request =>
    show Queues m (m.acceptWebrtcSignal b attempt request).1
    refine trySession_queues (fun s => .inl ?_)
    split
    · rfl
    · split
      · rfl
      · simp only
        split
        · rfl
        · split <;> rfl
  | noteSignal b request =>
    show Queues m (m.noteSignalRequest b request).1
    refine trySession_queues (fun s => .inl ?_)
    split <;> rfl
  | acceptEnvelope b attempt message =>
    show Queues m (m.acceptWebrtcEnvelope b attempt message).1
    refine trySession_queues (fun s => .inl ?_)
    split <;> rfl
  | queueFeature b packet now => cases hother
  | takePending b now => cases hother
  | revoke b reason => exact withSession_queues (fun s => .inr rfl)
  | changePairing b change => exact withSession_queues (fun s => .inl rfl)
  | changeRecovery b change => exact withSession_queues (fun s => .inl rfl)
  | restart b change => exact withSession_queues (fun s => .inl rfl)
  | forgetPairing d =>
    show Queues m (m.forgetPairing d).1
    unfold DeviceManager.forgetPairing
    cases hs : m.sessions[d]? with
    | none => exact .refl m
    | some s => exact queues_insert (.inr rfl)
  | expirePairing now => exact queues_map (fun _ => rfl)
  | claimNotice b interval now =>
    show Queues m (m.claimNotPairedNotice b interval now).1
    unfold DeviceManager.claimNotPairedNotice
    cases hs : m.sessions[b.deviceId]? with
    | none => exact .refl m
    | some s =>
      simp only
      split
      · exact .refl m
      · split
        · exact .refl m
        · exact queues_insert (.inl (queueOf_some hs).symm)
  | noteInbound d now =>
    show Queues m (m.noteInbound d now)
    unfold DeviceManager.noteInbound
    cases hs : m.sessions[d]? with
    | none => exact .refl m
    | some s => exact queues_insert (.inl (queueOf_some hs).symm)
  | terminateAll => exact queues_map (fun _ => rfl)

end

/-! ### Queueing and taking -/

/-- The sessions differ in their queues only. -/
structure SameSessions (m m' : DeviceManager) : Prop where
  current : ∀ b, m'.isCurrent b = m.isCurrent b
  ready : ∀ b, m'.readyFor b = m.readyFor b

section
variable {m : DeviceManager} {b : SessionBinding} {R : Type}

theorem SameSessions.refl (m : DeviceManager) : SameSessions m m := ⟨fun _ => rfl, fun _ => rfl⟩

theorem sameSessions_requeue {d : String} {s : DeviceSession} (hs : m.sessions[d]? = some s)
    (pending : List (Nat × String)) :
    SameSessions m { m with sessions := m.sessions.insert d { s with pendingFeatures := pending } } := by
  have hcurrent : ∀ b, DeviceManager.isCurrent
      { m with sessions := m.sessions.insert d { s with pendingFeatures := pending } } b
      = m.isCurrent b := by
    intro b
    unfold DeviceManager.isCurrent
    simp only [getElem?_keyInsert]
    by_cases hd : d = b.deviceId
    · subst hd
      simp only [if_true, hs]
      rfl
    · rw [if_neg hd]
  refine ⟨hcurrent, fun b => ?_⟩
  unfold DeviceManager.readyFor
  rw [hcurrent b]
  simp only [getElem?_keyInsert]
  by_cases hd : d = b.deviceId
  · subst hd
    simp only [if_true, hs]
    rfl
  · rw [if_neg hd]

/-- An operation fails and changes nothing, or runs on the session of a
current binding. -/
theorem withSession_runs (operation : DeviceSession → DeviceSession × R) :
    (m.isCurrent b = false ∧ ∃ e, m.withSession b operation = (m, .error e)) ∨
      ∃ s, m.sessions[b.deviceId]? = some s ∧ m.isCurrent b = true ∧
        m.withSession b operation
          = ({ m with sessions := m.sessions.insert b.deviceId (operation s).1 },
            .ok (operation s).2) := by
  cases hcurrent : m.isCurrent b with
  | true =>
    obtain ⟨s, hs, hholds⟩ := isCurrent_holds hcurrent
    refine .inr ⟨s, hs, rfl, ?_⟩
    unfold DeviceManager.withSession
    unfold DeviceManager.isCurrent at hcurrent
    rw [hs] at hcurrent ⊢
    split at hcurrent
    · cases hcurrent
    · rename_i hlive
      obtain ⟨hstate, hholds'⟩ := Bool.and_eq_true_iff.mp hcurrent
      simp only [if_neg (of_decide_eq_true hstate), if_pos (And.intro hholds' hlive)]
  | false =>
    refine .inl ⟨rfl, ?_⟩
    unfold DeviceManager.withSession
    unfold DeviceManager.isCurrent at hcurrent
    cases hs : m.sessions[b.deviceId]? with
    | none => exact ⟨_, rfl⟩
    | some s =>
      rw [hs] at hcurrent
      simp only
      split
      · exact ⟨_, rfl⟩
      · rename_i hstate
        split
        · rename_i hholds
          rw [if_neg hholds.2] at hcurrent
          simp [hstate, hholds.1] at hcurrent
        · exact ⟨_, rfl⟩

theorem readyFor_iff : m.readyFor b = true ↔ m.isCurrent b = true ∧
    ∃ s, m.sessions[b.deviceId]? = some s ∧ s.featuresReady = true := by
  unfold DeviceManager.readyFor
  rw [Bool.and_eq_true, Option.any_eq_true]

/-- A packet is queued only while the session is not ready, and then at the
end. -/
theorem queueFeature_cases (b : SessionBinding) (packet : String) (now : Nat) :
    SameSessions m (m.queueFeature b packet now).1 ∧
    (((m.queueFeature b packet now).2 ≠ .ok true ∧
        ∀ d, (m.queueFeature b packet now).1.queueOf d = m.queueOf d) ∨
      (m.queueFeature b packet now).2 = .ok true ∧
        (∀ b', b'.deviceId = b.deviceId → m.readyFor b' = false) ∧
        (∀ d ≠ b.deviceId, (m.queueFeature b packet now).1.queueOf d = m.queueOf d) ∧
        ∃ rest : List String, rest.Sublist (m.queueOf b.deviceId) ∧
          (m.queueFeature b packet now).1.queueOf b.deviceId = rest ++ [packet]) := by
  unfold DeviceManager.queueFeature
  generalize hoperation : (fun s : DeviceSession => if s.featuresReady then (s, false)
    else
      let pending := if pendingFeatureLimit ≤ s.pendingFeatures.length
        then s.pendingFeatures.drop 1 else s.pendingFeatures
      ({ s with pendingFeatures := pending ++ [(now, packet)] }, true)) = operation
  rcases withSession_runs (m := m) (b := b) operation with ⟨-, e, heq⟩ | ⟨s, hs, -, heq⟩
  · rw [heq]
    exact ⟨.refl m, .inl ⟨nofun, fun _ => rfl⟩⟩
  · rw [heq, ← hoperation]
    cases hready : s.featuresReady with
    | true =>
      simp only [hready, if_true]
      refine ⟨?_, .inl ⟨nofun, fun d => ?_⟩⟩
      · exact sameSessions_requeue hs s.pendingFeatures
      · rw [queueOf_insert]
        by_cases hd : b.deviceId = d
        · subst hd
          rw [if_pos rfl, queueOf_some hs]
        · rw [if_neg hd]
    | false =>
      simp only [hready, Bool.false_eq_true, if_false]
      refine ⟨sameSessions_requeue hs _, .inr ⟨trivial, fun b' hb' => ?_, fun d hd => ?_, ?_⟩⟩
      · by_contra hne
        obtain ⟨-, s', hs', hready'⟩ := readyFor_iff.mp (Bool.of_not_eq_false hne)
        rw [hb', hs] at hs'
        obtain rfl := Option.some.inj hs'
        rw [hready] at hready'
        cases hready'
      · rw [queueOf_insert, if_neg (Ne.symm hd)]
      · refine ⟨((if pendingFeatureLimit ≤ s.pendingFeatures.length
          then s.pendingFeatures.drop 1 else s.pendingFeatures).map (·.2)), ?_, ?_⟩
        · rw [queueOf_some hs]
          refine List.Sublist.map _ ?_
          split
          · exact List.drop_sublist _ _
          · exact List.Sublist.refl _
        · rw [queueOf_insert, if_pos rfl, List.map_append]
          rfl

/-- A flush takes the queue, less what is too old. -/
theorem takePending_cases (b : SessionBinding) (now : Nat) :
    SameSessions m (m.takePendingFeatures b now).1 ∧
    (∀ d ≠ b.deviceId, (m.takePendingFeatures b now).1.queueOf d = m.queueOf d) ∧
    (m.takePendingFeatures b now).2.Sublist (m.queueOf b.deviceId) ∧
    (m.isCurrent b = true → (m.takePendingFeatures b now).1.queueOf b.deviceId = []) ∧
    ((m.takePendingFeatures b now).1.queueOf b.deviceId = [] ∨
      (m.takePendingFeatures b now).1.queueOf b.deviceId = m.queueOf b.deviceId ∧
        (m.takePendingFeatures b now).2 = []) := by
  unfold DeviceManager.takePendingFeatures
  rcases withSession_runs (m := m) (b := b) (fun s => ({ s with pendingFeatures := [] },
    (s.pendingFeatures.filter (fun p => now - p.1 ≤ pendingFeatureMaxAge)).map (·.2)))
    with ⟨hstale, e, heq⟩ | ⟨s, hs, -, heq⟩
  · rw [heq]
    refine ⟨.refl m, fun _ _ => rfl, List.nil_sublist _, fun hcurrent => ?_, .inr ⟨rfl, rfl⟩⟩
    rw [hstale] at hcurrent
    cases hcurrent
  · rw [heq]
    refine ⟨sameSessions_requeue hs [], fun d hd => ?_, ?_, fun _ => ?_, .inl ?_⟩
    · simp only
      rw [queueOf_insert, if_neg (Ne.symm hd)]
    · rw [queueOf_some hs]
      exact List.Sublist.map _ List.filter_sublist
    · simp only
      rw [queueOf_insert, if_pos rfl]
      rfl
    · simp only
      rw [queueOf_insert, if_pos rfl]
      rfl

end

/-! ### The line of a device -/

/-- What a flush has in hand. -/
def FlushPc.hand : FlushPc → List String
  | .take | .done => []
  | .handle pending => pending
  | .send _ packet rest _ => packet :: rest

/-- The next step writes to a channel. -/
def SendPc.writes : SendPc → Bool
  | .write .. => true
  | _ => false

namespace Features

variable (w : Features)

/-- What the flushes have in hand for the device. -/
def handOf (d : String) : List String :=
  w.flushes.flatMap (fun f => if f.binding.deviceId = d then f.pc.hand else [])

/-- What the channels of the device took. -/
def channelOf (d : String) : List String :=
  (w.channel.filter (fun e => e.deviceId = d)).map (·.packet)

/-- What was queued for the device and is on its way. -/
def waitingOf (d : String) : List String := w.handOf d ++ w.manager.queueOf d

/-- The line of the device, less what the threads are sending. -/
def lineOf (d : String) : List String := w.channelOf d ++ w.waitingOf d

/-- What the thread sends to the device, in its order. -/
def programOf (thread : Nat) (d : String) : List String :=
  (w.calls.filter (fun c => c.thread = thread ∧ c.deviceId = d)).map (·.packet)

/-- What the thread is sending to the device. -/
def ownOf (thread : Nat) (d : String) : List String :=
  match w.sends thread with
  | some (packet, pc) => if pc.binding.deviceId = d then [packet] else []
  | none => []

/-- A thread that writes to a channel has no packet of its own waiting for
the device; and no call takes the readiness from a session with a flush that
is on. -/
def Orderly : FeatureMove → Prop
  | .send thread _ refused => refused = false → ∀ sending ∈ w.sends thread,
      sending.2.writes = true → ∀ q ∈ w.waitingOf sending.2.binding.deviceId,
        q ∉ w.programOf thread sending.2.binding.deviceId
  | .call call => call.ofFeatures = false → ∀ f ∈ w.flushes, f.pc ≠ .done →
      (w.manager.after call).readyFor f.binding = true
  | _ => True

/-- Every thread's packets stand in their order in the lines of the
devices. -/
structure Ordered : Prop where
  line : ∀ thread d, Lib.InLine (w.programOf thread d) (w.lineOf d) (w.ownOf thread d)
  known : ∀ d, ∀ p ∈ w.lineOf d, ∃ thread, (⟨thread, d, p⟩ : SendCall) ∈ w.calls
  names : (w.calls.map (·.packet)).Nodup
  own : ∀ thread p pc, w.sends thread = some (p, pc) →
    (⟨thread, pc.binding.deviceId, p⟩ : SendCall) ∈ w.calls

end Features

section
variable {w w' : Features} {thread : Nat} {p : String} {pc : SendPc}

theorem mem_programOf {d : String} :
    p ∈ w.programOf thread d ↔ (⟨thread, d, p⟩ : SendCall) ∈ w.calls := by
  unfold Features.programOf
  rw [List.mem_map]
  refine ⟨?_, fun h => ⟨_, List.mem_filter.mpr ⟨h, by simp⟩, rfl⟩⟩
  rintro ⟨⟨t, d', p'⟩, hmem, rfl⟩
  obtain ⟨hcall, hwhose⟩ := List.mem_filter.mp hmem
  obtain ⟨rfl, rfl⟩ := of_decide_eq_true hwhose
  exact hcall

/-- A name is of one call. -/
theorem Features.Ordered.unique (h : w.Ordered) {c c' : SendCall} (hc : c ∈ w.calls)
    (hc' : c' ∈ w.calls) (heq : c.packet = c'.packet) : c = c' :=
  List.inj_on_of_nodup_map h.names hc hc' heq

theorem Features.Ordered.programOf_nodup (h : w.Ordered) (d : String) :
    (w.programOf thread d).Nodup :=
  (List.filter_sublist.map _).nodup h.names

theorem ownOf_sending (hsend : w.sends thread = some (p, pc)) :
    w.ownOf thread pc.binding.deviceId = [p] := by
  unfold Features.ownOf
  rw [hsend]
  exact if_pos rfl

/-- What a thread is sending is in no line. -/
theorem Features.Ordered.sending_fresh (h : w.Ordered) (hsend : w.sends thread = some (p, pc))
    (d : String) : p ∉ w.lineOf d := by
  intro hp
  obtain ⟨other, hknown⟩ := h.known d p hp
  have hown := h.own thread p pc hsend
  have heq := h.unique hown hknown rfl
  have hd : d = pc.binding.deviceId := (congrArg SendCall.deviceId heq).symm
  subst hd
  have hline := h.line thread pc.binding.deviceId
  rw [ownOf_sending hsend] at hline
  exact hline.not_mem (h.programOf_nodup _) hp

/-- Packets leave the lines, and sends go on or end. -/
theorem Features.Ordered.shrink (h : w.Ordered) (hcalls : w'.calls = w.calls)
    (hline : ∀ d, (w'.lineOf d).Sublist (w.lineOf d))
    (hsends : ∀ t, w'.sends t = none ∨ ∃ p pc pc', w.sends t = some (p, pc) ∧
      w'.sends t = some (p, pc') ∧ pc'.binding = pc.binding) : w'.Ordered where
  line t d := by
    have hprogram : w'.programOf t d = w.programOf t d := by
      unfold Features.programOf
      rw [hcalls]
    rw [hprogram]
    refine (h.line t d).mono (hline d) ?_
    unfold Features.ownOf
    rcases hsends t with hnone | ⟨p, pc, pc', hold, hnew, hbinding⟩
    · rw [hnone]
      exact List.nil_sublist _
    · rw [hold, hnew]
      simp only [hbinding]
      exact List.Sublist.refl _
  known d p hp := by
    rw [hcalls]
    exact h.known d p ((hline d).mem hp)
  names := by
    rw [hcalls]
    exact h.names
  own t p pc hsend := by
    rcases hsends t with hnone | ⟨p₀, pc₀, pc', hold, hnew, hbinding⟩
    · rw [hnone] at hsend
      cases hsend
    · obtain ⟨rfl, rfl⟩ := Prod.mk.inj (Option.some.inj (hnew.symm.trans hsend))
      rw [hcalls, hbinding]
      exact h.own t p₀ pc₀ hold

/-- What a thread is sending is put into the line, with none of the thread's
own behind it. -/
theorem Features.Ordered.put (h : w.Ordered) (hsend : w.sends thread = some (p, pc))
    (hcalls : w'.calls = w.calls) (hsends : w'.sends = Function.update w.sends thread none)
    {ahead behind : List String} (hold : (ahead ++ behind).Sublist (w.lineOf pc.binding.deviceId))
    (hnew : w'.lineOf pc.binding.deviceId = ahead ++ p :: behind)
    (hfree : ∀ q ∈ behind, q ∉ w.programOf thread pc.binding.deviceId)
    (hothers : ∀ d ≠ pc.binding.deviceId, w'.lineOf d = w.lineOf d) : w'.Ordered where
  line t d := by
    have hprogram : w'.programOf t d = w.programOf t d := by
      unfold Features.programOf
      rw [hcalls]
    rw [hprogram]
    have hown : t ≠ thread → w'.ownOf t d = w.ownOf t d := by
      intro ht
      unfold Features.ownOf
      rw [hsends, Function.update_of_ne ht]
    have hnone : w'.ownOf thread d = [] := by
      unfold Features.ownOf
      rw [hsends, Function.update_self]
    by_cases hd : d = pc.binding.deviceId
    · subst hd
      rw [hnew]
      by_cases ht : t = thread
      · subst ht
        rw [hnone]
        have hline := h.line t pc.binding.deviceId
        rw [ownOf_sending hsend] at hline
        exact (hline.mono hold (List.Sublist.refl _)).pass hfree
      · rw [hown ht]
        refine ((h.line t pc.binding.deviceId).mono hold (List.Sublist.refl _)).skip ?_
        intro hmem
        have heq := h.unique (mem_programOf.mp hmem) (h.own thread p pc hsend) rfl
        exact ht (congrArg SendCall.thread heq)
    · rw [hothers d hd]
      by_cases ht : t = thread
      · subst ht
        rw [hnone]
        exact (h.line t d).mono (List.Sublist.refl _) (List.nil_sublist _)
      · rw [hown ht]
        exact h.line t d
  known d q hq := by
    rw [hcalls]
    by_cases hd : d = pc.binding.deviceId
    · subst hd
      rw [hnew] at hq
      by_cases hqp : q = p
      · subst hqp
        exact ⟨thread, h.own thread q pc hsend⟩
      · refine h.known _ q (hold.mem ?_)
        rcases List.mem_append.mp hq with hq | hq
        · exact List.mem_append_left _ hq
        · exact List.mem_append_right _ (List.mem_of_ne_of_mem hqp hq)
    · rw [hothers d hd] at hq
      exact h.known d q hq
  names := by
    rw [hcalls]
    exact h.names
  own t q pc' hsend' := by
    rw [hsends] at hsend'
    rw [hcalls]
    by_cases ht : t = thread
    · subst ht
      rw [Function.update_self] at hsend'
      cases hsend'
    · rw [Function.update_of_ne ht] at hsend'
      exact h.own t q pc' hsend'

/-- A thread sends a packet with a new name. -/
theorem Features.Ordered.start (h : w.Ordered) (hidle : w.sends thread = none)
    (hfresh : p ∉ w.calls.map (·.packet))
    (hcalls : w'.calls = w.calls ++ [⟨thread, pc.binding.deviceId, p⟩])
    (hsends : w'.sends = Function.update w.sends thread (some (p, pc)))
    (hline : ∀ d, w'.lineOf d = w.lineOf d) : w'.Ordered where
  line t d := by
    rw [hline]
    have hsame : ¬(t = thread ∧ d = pc.binding.deviceId) →
        w'.programOf t d = w.programOf t d ∧ w'.ownOf t d = w.ownOf t d := by
      intro hne
      refine ⟨?_, ?_⟩
      · unfold Features.programOf
        rw [hcalls, List.filter_append, List.filter_cons_of_neg, List.filter_nil, List.append_nil]
        intro hwhose
        obtain ⟨ht, hd⟩ := of_decide_eq_true hwhose
        exact hne ⟨ht.symm, hd.symm⟩
      · unfold Features.ownOf
        rw [hsends]
        by_cases ht : t = thread
        · subst ht
          rw [Function.update_self, hidle]
          exact if_neg (fun hd => hne ⟨rfl, hd.symm⟩)
        · rw [Function.update_of_ne ht]
    by_cases hwhose : t = thread ∧ d = pc.binding.deviceId
    · obtain ⟨rfl, rfl⟩ := hwhose
      have hprogram : w'.programOf t pc.binding.deviceId
          = w.programOf t pc.binding.deviceId ++ [p] := by
        unfold Features.programOf
        rw [hcalls, List.filter_append, List.filter_cons_of_pos (by simp), List.filter_nil,
          List.map_append]
        rfl
      have hown : w'.ownOf t pc.binding.deviceId = [p] := by
        refine ownOf_sending ?_
        rw [hsends, Function.update_self]
      rw [hprogram, hown]
      refine Lib.InLine.start ((h.line t _).mono (List.Sublist.refl _) (List.nil_sublist _)) ?_
      intro hp
      obtain ⟨other, hknown⟩ := h.known _ p hp
      exact hfresh (List.mem_map.mpr ⟨_, hknown, rfl⟩)
    · rw [(hsame hwhose).1, (hsame hwhose).2]
      exact h.line t d
  known d q hq := by
    rw [hline] at hq
    obtain ⟨other, hknown⟩ := h.known d q hq
    rw [hcalls]
    exact ⟨other, List.mem_append_left _ hknown⟩
  names := by
    rw [hcalls, List.map_append, List.nodup_append]
    refine ⟨h.names, List.nodup_singleton _, ?_⟩
    intro q hq q' hq' heq
    obtain rfl := List.mem_singleton.mp hq'
    exact hfresh (heq ▸ hq)
  own t q pc' hsend := by
    rw [hsends] at hsend
    rw [hcalls]
    by_cases ht : t = thread
    · subst ht
      rw [Function.update_self] at hsend
      obtain ⟨rfl, rfl⟩ := Prod.mk.inj (Option.some.inj hsend)
      exact List.mem_append_right _ (List.mem_singleton_self _)
    · rw [Function.update_of_ne ht] at hsend
      exact List.mem_append_left _ (h.own t q pc' hsend)

end

/-! ### Flushes -/

/-- What holds of a flush: while it is on, its session is ready; and since it
took the queue, the queue stayed empty as long as the session stayed
ready. -/
structure Flush.Steady (m : DeviceManager) (f : Flush) : Prop where
  ready : f.ready = true → m.readyFor f.binding = true
  opened : f.pc ≠ .done → f.ready = true
  emptied : f.pc ≠ .take → f.ready = true → m.queueOf f.binding.deviceId = []
  sending : ∀ h packet rest pc, f.pc = .send h packet rest pc → h.binding = f.binding ∧
    h.webRtcReady = true ∧ (pc = .check h ∨ pc = .direct h ∨ ∃ peer, pc = .write h peer)

structure Features.Flushed (w : Features) : Prop where
  steady : ∀ f ∈ w.flushes, f.Steady w.manager
  /-- One flush of a device has packets in hand. -/
  apart : ∀ (i j : Nat) (fi fj : Flush), w.flushes[i]? = some fi → w.flushes[j]? = some fj →
    i ≠ j → fi.binding.deviceId = fj.binding.deviceId → fi.pc.hand = [] ∨ fj.pc.hand = []

/-- What was queued before the device was unpaired is not on its way. -/
structure Features.Timed (w : Features) : Prop where
  era : ∀ d, ∀ p ∈ w.waitingOf d, ∀ n, (p, n) ∈ w.queued → n = w.unpairings d
  written : ∀ e ∈ w.channel, ∀ n, (e.packet, n) ∈ w.queued → n = e.era
  unqueued : ∀ thread p pc, w.sends thread = some (p, pc) → ∀ n, (p, n) ∉ w.queued
  noted : ∀ p n, (p, n) ∈ w.queued → p ∈ w.calls.map (·.packet)

structure Features.Lined (w : Features) : Prop where
  sound : Sound w.manager
  ordered : w.Ordered
  flushed : w.Flushed
  timed : w.Timed

section
variable {m m' : DeviceManager} {w w' : Features} {f : Flush} {i thread now : Nat}
variable {packet p d : String} {pc : SendPc} {rest : List String} {pc' : FlushPc}
variable {move : FeatureMove} {b : SessionBinding} {h hd : FeatureTransportSnapshot}
variable {refused : Bool} {call : Call}

theorem Flush.Steady.sameSessions (h : f.Steady m) (halike : SameSessions m m')
    (hqueue : m.queueOf f.binding.deviceId = [] → f.ready = true →
      m'.queueOf f.binding.deviceId = []) : f.Steady m' where
  ready hready := by
    rw [halike.ready]
    exact h.ready hready
  opened := h.opened
  emptied htaken hready := hqueue (h.emptied htaken hready) hready
  sending := h.sending

/-- Where no flush has packets for the device in hand but one, that one's are
all. -/
theorem Features.Flushed.handOf_alone (h : w.Flushed) (hf : w.flushes[i]? = some f)
    (hhand : f.pc.hand ≠ []) : w.handOf f.binding.deviceId = f.pc.hand := by
  have hself : (if f.binding.deviceId = f.binding.deviceId then f.pc.hand else [])
      = f.pc.hand := if_pos rfl
  refine (Lib.flatMap_alone hf (fun j g hj hg => ?_)).trans hself
  split
  · rename_i hdevice
    exact (h.apart i j f g hf hg (Ne.symm hj) hdevice.symm).resolve_left hhand
  · rfl

/-- The readiness that the flushes saw does not change. -/
theorem after_eq_act (h : ∀ f ∈ (w.act move).flushes, f.ready = true →
      (w.act move).manager.readyFor f.binding = true) : w.after move = w.act move := by
  have hsame : (w.act move).flushes.map (fun f =>
      { f with ready := f.ready && (w.act move).manager.readyFor f.binding })
      = (w.act move).flushes := by
    refine (List.map_congr_left (fun f hf => ?_)).trans (List.map_id _)
    cases hready : f.ready with
    | false =>
      show Flush.mk f.binding f.pc _ = f
      rw [Bool.false_and, ← hready]
    | true =>
      show Flush.mk f.binding f.pc _ = f
      rw [h f hf hready, Bool.and_true, ← hready]
  unfold Features.after
  rw [hsame]

/-- A fresh handle is of its binding, and says what the session says. -/
theorem forBinding_ok (hok : m.forBinding b = .ok h) :
    h.binding = b ∧ (Sound m → m.readyFor b = true → h.webRtcReady = true) := by
  unfold DeviceManager.forBinding DeviceManager.featureTransportSnapshot at hok
  rcases withSession_runs (m := m) (b := b) (fun s => (s,
    ({ binding := b
       paired := s.pairing.state = .paired
       webRtcPeer := if s.webrtcHandover.isSome then s.activeWebrtc else none
       webRtcReady := s.activeWebrtc.isSome && s.featuresReady } : FeatureTransportSnapshot)))
    with ⟨-, e, heq⟩ | ⟨s, hs, -, heq⟩
  · rw [heq] at hok
    cases hok
  · rw [heq] at hok
    simp only at hok
    split at hok
    · cases hok
      refine ⟨rfl, fun hsound hready => ?_⟩
      obtain ⟨-, s', hs', hready'⟩ := readyFor_iff.mp hready
      obtain rfl := Option.some.inj (hs.symm.trans hs')
      -- A handover is there only together with a peer.
      have hwhole := (hsound.whole _ s hs).webrtcHandover
      have hsome : s.webrtcHandover.isSome = true := by
        unfold DeviceSession.featuresReady at hready'
        cases hhandover : s.webrtcHandover with
        | none =>
          rw [hhandover] at hready'
          cases hready'
        | some handover => rfl
      show (s.activeWebrtc.isSome && s.featuresReady) = true
      rw [← hwhole, hsome, hready']
      rfl
    · cases hok

/-- What a step of a `send` does. -/
theorem run_cases (m : DeviceManager) (packet : String) (now : Nat) (refused : Bool)
    (pc : SendPc) :
    SameSessions m (pc.run m packet now refused).1 ∧
    (((∀ d, (pc.run m packet now refused).1.queueOf d = m.queueOf d) ∧
        ((pc.run m packet now refused).2 = .failed ∨
          (∃ pc', (pc.run m packet now refused).2 = .next pc' ∧ pc'.binding = pc.binding) ∨
          ∃ peer, (pc.run m packet now refused).2 = .wrote peer ∧ pc.writes = true ∧
            refused = false)) ∨
      (pc.run m packet now refused).2 = .queued ∧ (∃ h, pc = .enqueue h) ∧
        (∀ b', b'.deviceId = pc.binding.deviceId → m.readyFor b' = false) ∧
        (∀ d ≠ pc.binding.deviceId, (pc.run m packet now refused).1.queueOf d = m.queueOf d) ∧
        ∃ rest : List String, rest.Sublist (m.queueOf pc.binding.deviceId) ∧
          (pc.run m packet now refused).1.queueOf pc.binding.deviceId = rest ++ [packet]) := by
  cases pc with
  | check h =>
    refine ⟨.refl m, .inl ⟨fun _ => rfl, .inr (.inl ⟨_, rfl, ?_⟩)⟩⟩
    split <;> rfl
  | direct h =>
    refine ⟨.refl m, .inl ⟨fun _ => rfl, ?_⟩⟩
    simp only [SendPc.run]
    split
    · exact .inl rfl
    · split
      · exact .inr (.inl ⟨_, rfl, rfl⟩)
      · exact .inl rfl
  | write h peer =>
    refine ⟨.refl m, .inl ⟨fun _ => rfl, ?_⟩⟩
    cases refused with
    | true => exact .inl rfl
    | false => exact .inr (.inr ⟨peer, rfl, rfl, rfl⟩)
  | enqueue h =>
    unfold SendPc.run
    cases refused with
    | true => exact ⟨.refl m, .inl ⟨fun _ => rfl, .inl rfl⟩⟩
    | false =>
      obtain ⟨halike, ⟨hnot, hsame⟩ | ⟨hqueued, hunready, hothers, hrest⟩⟩ :=
        queueFeature_cases (m := m) h.binding packet now
      · refine ⟨halike, .inl ⟨hsame, ?_⟩⟩
        simp only [Bool.false_eq_true, if_false]
        split
        · rename_i heq
          exact absurd heq hnot
        · exact .inr (.inl ⟨_, rfl, rfl⟩)
        · exact .inl rfl
      · refine ⟨halike, .inr ⟨?_, ⟨h, rfl⟩, hunready, hothers, hrest⟩⟩
        simp only [Bool.false_eq_true, if_false, hqueued]
  | refresh b =>
    refine ⟨.refl m, .inl ⟨fun _ => rfl, ?_⟩⟩
    simp only [SendPc.run]
    split
    · rename_i h heq
      exact .inr (.inl ⟨_, rfl, (forBinding_ok heq).1⟩)
    · exact .inl rfl
  | recheck h =>
    refine ⟨.refl m, .inl ⟨fun _ => rfl, ?_⟩⟩
    simp only [SendPc.run]
    split
    · exact .inr (.inl ⟨_, rfl, rfl⟩)
    · exact .inl rfl

/-! ### One step -/

/-- The queue of a device with a flush that saw it ready is empty, and stays
so through the step of a `send`. -/
theorem Features.Flushed.run (h : w.Flushed)
    (hmanager : w'.manager = (pc.run w.manager packet now refused).1)
    (hflushes : w'.flushes = w.flushes) : w'.Flushed := by
  obtain ⟨halike, hqueue⟩ := run_cases w.manager packet now refused pc
  refine ⟨fun f hf => ?_, ?_⟩
  · rw [hflushes] at hf
    have hsteady := h.steady f hf
    rw [hmanager]
    refine hsteady.sameSessions halike (fun hnil hready => ?_)
    rcases hqueue with ⟨hsame, -⟩ | ⟨-, -, hunready, hothers, -⟩
    · rw [hsame]
      exact hnil
    · by_cases hd : f.binding.deviceId = pc.binding.deviceId
      · have hnot := hunready f.binding hd
        rw [hsteady.ready hready] at hnot
        cases hnot
      · rw [hothers _ hd]
        exact hnil
  · rw [hflushes]
    exact h.apart

theorem run_sound (h : Sound m) (packet : String) (now : Nat) (refused : Bool) (pc : SendPc) :
    Sound (pc.run m packet now refused).1 := by
  cases pc with
  | enqueue handle =>
    cases refused with
    | true => exact h
    | false => exact after_sound h (.queueFeature handle.binding packet now)
  | _ => exact h

/-- The sends go on or end. -/
def SendsFollow (w w' : Features) : Prop :=
  ∀ t, w'.sends t = none ∨ ∃ p pc pc', w.sends t = some (p, pc) ∧
    w'.sends t = some (p, pc') ∧ pc'.binding = pc.binding

/-- Nothing is queued, and the sends go on or end. -/
theorem Features.Timed.follow (h : w.Timed) (hcalls : w'.calls = w.calls)
    (hqueued : w'.queued = w.queued) (hsends : SendsFollow w w')
    (hera : ∀ d, ∀ p ∈ w'.waitingOf d, ∀ n, (p, n) ∈ w.queued → n = w'.unpairings d)
    (hwritten : ∀ e ∈ w'.channel, ∀ n, (e.packet, n) ∈ w.queued → n = e.era) : w'.Timed where
  era := by
    rw [hqueued]
    exact hera
  written := by
    rw [hqueued]
    exact hwritten
  unqueued t p pc hsend n hn := by
    rw [hqueued] at hn
    rcases hsends t with hnone | ⟨p₀, pc₀, pc', hold, hnew, -⟩
    · rw [hnone] at hsend
      cases hsend
    · obtain ⟨rfl, rfl⟩ := Prod.mk.inj (Option.some.inj (hnew.symm.trans hsend))
      exact h.unqueued t p₀ pc₀ hold n hn
  noted p n hn := by
    rw [hqueued] at hn
    rw [hcalls]
    exact h.noted p n hn

/-- Nothing is written or queued, and packets may be dropped. -/
theorem Features.Lined.shrink (h : w.Lined) (hsound : Sound w'.manager) (hflushed : w'.Flushed)
    (hcalls : w'.calls = w.calls) (hchannel : w'.channel = w.channel)
    (hqueued : w'.queued = w.queued) (hunpairings : w'.unpairings = w.unpairings)
    (hwaiting : ∀ d, (w'.waitingOf d).Sublist (w.waitingOf d)) (hsends : SendsFollow w w') :
    w'.Lined where
  sound := hsound
  flushed := hflushed
  ordered := by
    refine h.ordered.shrink hcalls (fun d => ?_) hsends
    have hsame : w'.channelOf d = w.channelOf d := by
      unfold Features.channelOf
      rw [hchannel]
    unfold Features.lineOf
    rw [hsame]
    exact (List.Sublist.refl _).append (hwaiting d)
  timed := by
    refine h.timed.follow hcalls hqueued hsends (fun d p hp => ?_) ?_
    · rw [hunpairings]
      exact h.timed.era d p ((hwaiting d).mem hp)
    · rw [hchannel]
      exact h.timed.written

theorem sendsFollow_update {next : Option (String × SendPc)} (hsend : w.sends thread = some (p, pc))
    (hsends : w'.sends = Function.update w.sends thread next)
    (hnext : next = none ∨ ∃ pc', next = some (p, pc') ∧ pc'.binding = pc.binding) :
    SendsFollow w w' := by
  intro t
  rw [hsends]
  by_cases ht : t = thread
  · subst ht
    rw [Function.update_self]
    rcases hnext with rfl | ⟨pc', rfl, hbinding⟩
    · exact .inl rfl
    · exact .inr ⟨p, pc, pc', hsend, rfl, hbinding⟩
  · rw [Function.update_of_ne ht]
    cases hother : w.sends t with
    | none => exact .inl rfl
    | some other => exact .inr ⟨other.1, other.2, other.2, rfl, rfl, rfl⟩

theorem channelOf_append {n : Nat} (hchannel : w'.channel = w.channel ++ [⟨d, p, n⟩]) (e : String) :
    w'.channelOf e = if d = e then w.channelOf e ++ [p] else w.channelOf e := by
  unfold Features.channelOf
  rw [hchannel, List.filter_append, List.map_append]
  split
  · rename_i hd
    rw [List.filter_cons_of_pos (by simpa using hd)]
    rfl
  · rename_i hd
    rw [List.filter_cons_of_neg (by simpa using hd)]
    exact List.append_nil _

/-- A thread writes its packet to a channel. -/
theorem Features.Lined.write (h : w.Lined) (hsend : w.sends thread = some (p, pc))
    (hsound : Sound w'.manager) (hflushed : w'.Flushed) (hcalls : w'.calls = w.calls)
    (hchannel : w'.channel = w.channel ++
      [⟨pc.binding.deviceId, p, w.unpairings pc.binding.deviceId⟩]) (hqueued : w'.queued = w.queued)
    (hunpairings : w'.unpairings = w.unpairings) (hwaiting : ∀ d, w'.waitingOf d = w.waitingOf d)
    (hsends : w'.sends = Function.update w.sends thread none)
    (hfree : ∀ q ∈ w.waitingOf pc.binding.deviceId,
      q ∉ w.programOf thread pc.binding.deviceId) : w'.Lined where
  sound := hsound
  flushed := hflushed
  ordered := by
    refine h.ordered.put hsend hcalls hsends (List.Sublist.refl _) ?_ hfree (fun d hd => ?_)
    · unfold Features.lineOf
      rw [channelOf_append hchannel, if_pos rfl, hwaiting, List.append_assoc]
      rfl
    · unfold Features.lineOf
      rw [channelOf_append hchannel, if_neg (Ne.symm hd), hwaiting]
  timed := by
    have hfollow := sendsFollow_update hsend hsends (.inl rfl)
    refine h.timed.follow hcalls hqueued hfollow (fun d q hq => ?_) (fun e he n hn => ?_)
    · rw [hwaiting] at hq
      rw [hunpairings]
      exact h.timed.era d q hq
    · rw [hchannel] at he
      rcases List.mem_append.mp he with he | he
      · exact h.timed.written e he n hn
      · obtain rfl := List.mem_singleton.mp he
        exact absurd hn (h.timed.unqueued thread p pc hsend n)

/-- A thread queues its packet. -/
theorem Features.Lined.enqueue (h : w.Lined) (hsend : w.sends thread = some (p, pc))
    (hsound : Sound w'.manager) (hflushed : w'.Flushed) (hcalls : w'.calls = w.calls)
    (hchannel : w'.channel = w.channel)
    (hqueued : w'.queued = w.queued ++ [(p, w.unpairings pc.binding.deviceId)])
    (hunpairings : w'.unpairings = w.unpairings)
    (hothers : ∀ d ≠ pc.binding.deviceId, w'.waitingOf d = w.waitingOf d)
    (hrest : rest.Sublist (w.waitingOf pc.binding.deviceId))
    (hwaiting : w'.waitingOf pc.binding.deviceId = rest ++ [p])
    (hsends : w'.sends = Function.update w.sends thread none) : w'.Lined where
  sound := hsound
  flushed := hflushed
  ordered := by
    have hsame : ∀ d, w'.channelOf d = w.channelOf d := by
      intro d
      unfold Features.channelOf
      rw [hchannel]
    refine @Features.Ordered.put w w' thread p pc h.ordered hsend hcalls hsends
      (w.channelOf pc.binding.deviceId ++ rest) [] ?_ ?_ nofun (fun d hd => ?_)
    · rw [List.append_nil]
      exact (List.Sublist.refl _).append hrest
    · unfold Features.lineOf
      rw [hsame, hwaiting, List.append_assoc]
    · unfold Features.lineOf
      rw [hsame, hothers d hd]
  timed := by
    have hfollow := sendsFollow_update hsend hsends (.inl rfl)
    have hfresh := h.ordered.sending_fresh hsend
    refine ⟨fun d q hq n hn => ?_, fun e he n hn => ?_, fun t q pc' hsend' n hn => ?_,
      fun q n hn => ?_⟩
    · rw [hqueued] at hn
      rw [hunpairings]
      by_cases hd : d = pc.binding.deviceId
      · subst hd
        rcases List.mem_append.mp hn with hold | hn
        · rw [hwaiting] at hq
          rcases List.mem_append.mp hq with hq | hq
          · exact h.timed.era _ q (hrest.mem hq) n hold
          · obtain rfl := List.mem_singleton.mp hq
            exact absurd hold (h.timed.unqueued thread q pc hsend n)
        · obtain ⟨-, rfl⟩ := Prod.mk.inj (List.mem_singleton.mp hn)
          rfl
      · rw [hothers d hd] at hq
        rcases List.mem_append.mp hn with hn | hn
        · exact h.timed.era d q hq n hn
        · obtain ⟨rfl, -⟩ := Prod.mk.inj (List.mem_singleton.mp hn)
          exact absurd (List.mem_append_right _ hq) (hfresh d)
    · rw [hchannel] at he
      rw [hqueued] at hn
      rcases List.mem_append.mp hn with hn | hn
      · exact h.timed.written e he n hn
      · obtain ⟨heq, -⟩ := Prod.mk.inj (List.mem_singleton.mp hn)
        refine absurd (List.mem_append_left _ ?_) (hfresh e.deviceId)
        rw [← heq]
        exact List.mem_map.mpr ⟨e, List.mem_filter.mpr ⟨he, by simp⟩, rfl⟩
    · rw [hqueued] at hn
      rcases hfollow t with hnone | ⟨p₀, pc₀, pc₁, hold, hnew, -⟩
      · rw [hnone] at hsend'
        cases hsend'
      · obtain ⟨rfl, rfl⟩ := Prod.mk.inj (Option.some.inj (hnew.symm.trans hsend'))
        rcases List.mem_append.mp hn with hn | hn
        · exact h.timed.unqueued t p₀ pc₀ hold n hn
        · -- The name is of one call, and its thread is done.
          obtain ⟨rfl, -⟩ := Prod.mk.inj (List.mem_singleton.mp hn)
          have heq := h.ordered.unique (h.ordered.own t p₀ pc₀ hold)
            (h.ordered.own thread p₀ pc hsend) rfl
          obtain rfl : t = thread := congrArg SendCall.thread heq
          rw [hsends, Function.update_self] at hnew
          cases hnew
    · rw [hqueued] at hn
      rw [hcalls]
      rcases List.mem_append.mp hn with hn | hn
      · exact h.timed.noted q n hn
      · obtain ⟨rfl, -⟩ := Prod.mk.inj (List.mem_singleton.mp hn)
        exact List.mem_map.mpr ⟨_, h.ordered.own thread q pc hsend, rfl⟩

/-- A thread goes on with its `send`. -/
theorem sendStep_lined (h : w.Lined) (thread now : Nat) (refused : Bool)
    (horderly : w.Orderly (.send thread now refused)) :
    (w.sendStep thread now refused).Lined := by
  unfold Features.sendStep
  cases hsend : w.sends thread with
  | none => exact h
  | some sending =>
    obtain ⟨p, pc⟩ := sending
    simp only
    have hsound := run_sound h.sound p now refused pc
    obtain ⟨-, ⟨hsame, hfailed | ⟨pc', hnext, hbinding⟩ | ⟨peer, hwrote, hwrites, hok⟩⟩ |
      ⟨hqueued, -, -, hothers, rest, hrest, hqueue⟩⟩ := run_cases w.manager p now refused pc
    · rw [hfailed]
      refine h.shrink hsound (h.flushed.run rfl rfl) rfl rfl rfl rfl (fun d => ?_)
        (sendsFollow_update hsend rfl (.inl rfl))
      show (w.handOf d ++ (pc.run w.manager p now refused).1.queueOf d).Sublist
        (w.handOf d ++ w.manager.queueOf d)
      rw [hsame]
    · rw [hnext]
      refine h.shrink hsound (h.flushed.run rfl rfl) rfl rfl rfl rfl (fun d => ?_)
        (sendsFollow_update hsend rfl (.inr ⟨pc', rfl, hbinding⟩))
      show (w.handOf d ++ (pc.run w.manager p now refused).1.queueOf d).Sublist
        (w.handOf d ++ w.manager.queueOf d)
      rw [hsame]
    · rw [hwrote]
      refine h.write hsend hsound (h.flushed.run rfl rfl) rfl rfl rfl rfl (fun d => ?_) rfl ?_
      · show w.handOf d ++ (pc.run w.manager p now refused).1.queueOf d
          = w.handOf d ++ w.manager.queueOf d
        rw [hsame]
      · exact horderly hok (p, pc) hsend hwrites
    · rw [hqueued]
      have hrest' : (w.handOf pc.binding.deviceId ++ rest).Sublist
          (w.waitingOf pc.binding.deviceId) := (List.Sublist.refl _).append hrest
      refine h.enqueue hsend hsound (h.flushed.run rfl rfl) rfl rfl rfl rfl (fun d hd => ?_)
        hrest' ?_ rfl
      · show w.handOf d ++ (pc.run w.manager p now refused).1.queueOf d
          = w.handOf d ++ w.manager.queueOf d
        rw [hothers d hd]
      · show w.handOf pc.binding.deviceId ++
          (pc.run w.manager p now refused).1.queueOf pc.binding.deviceId = _
        rw [hqueue, List.append_assoc]

/-! ### One step of a flush -/

/-- The flush, further on. -/
def Flush.goTo (f : Flush) (pc : FlushPc) : Flush := { f with pc }

theorem hand_next (h : FeatureTransportSnapshot) (pending : List String) :
    (FlushPc.next h pending).hand = pending := by
  cases pending <;> rfl

/-- The flush at the place `i` has less in hand. -/
theorem Features.handOf_set_sublist (hf : w.flushes[i]? = some f)
    (hflushes : w'.flushes = w.flushes.set i (f.goTo pc')) (hhand : pc'.hand.Sublist f.pc.hand)
    (d : String) : (w'.handOf d).Sublist (w.handOf d) := by
  unfold Features.handOf
  rw [hflushes]
  refine Lib.flatMap_set_sublist hf ?_
  show (if f.binding.deviceId = d then pc'.hand else []).Sublist _
  split
  · exact hhand
  · exact List.Sublist.refl _

/-- The flushes after one of them has gone on. -/
theorem Features.Flushed.set (h : w.Flushed) (hf : w.flushes[i]? = some f)
    (hflushes : w'.flushes = w.flushes.set i (f.goTo pc'))
    (halike : SameSessions w.manager w'.manager)
    (hqueue : ∀ d, w.manager.queueOf d = [] → w'.manager.queueOf d = [])
    (hsteady : (f.goTo pc').Steady w'.manager)
    (hothers : pc'.hand ≠ [] → ∀ (j : Nat) (g : Flush), j ≠ i → w.flushes[j]? = some g →
      g.binding.deviceId = f.binding.deviceId → g.pc.hand = []) : w'.Flushed where
  steady g hg := by
    rw [hflushes] at hg
    rcases List.mem_or_eq_of_mem_set hg with hg | rfl
    · exact (h.steady g hg).sameSessions halike (fun hnil _ => hqueue _ hnil)
    · exact hsteady
  apart j k fj fk hj hk hjk hdevice := by
    rw [hflushes] at hj hk
    have hlt : i < w.flushes.length := (List.getElem?_eq_some_iff.mp hf).1
    by_cases hji : i = j
    · subst hji
      rw [List.getElem?_set_self hlt] at hj
      obtain rfl := Option.some.inj hj
      rw [List.getElem?_set_ne hjk] at hk
      by_cases hhand : pc'.hand = []
      · exact .inl hhand
      · exact .inr (hothers hhand k fk (Ne.symm hjk) hk hdevice.symm)
    · rw [List.getElem?_set_ne hji] at hj
      by_cases hki : i = k
      · subst hki
        rw [List.getElem?_set_self hlt] at hk
        obtain rfl := Option.some.inj hk
        by_cases hhand : pc'.hand = []
        · exact .inr hhand
        · exact .inl (hothers hhand j fj hjk hj hdevice)
      · rw [List.getElem?_set_ne hki] at hk
        exact h.apart j k fj fk hj hk hjk hdevice

/-- A flush that is on has its session's queue, or has packets in hand. -/
theorem Features.Flushed.others_empty (h : w.Flushed) (hqueue : w.manager.queueOf d ≠ [])
    {g : Flush} (hg : g ∈ w.flushes) (hdevice : g.binding.deviceId = d) : g.pc.hand = [] := by
  have hsteady := h.steady g hg
  cases hpc : g.pc with
  | take => rfl
  | done => rfl
  | handle pending =>
    refine absurd ?_ hqueue
    rw [← hdevice]
    exact hsteady.emptied (by rw [hpc]; nofun) (hsteady.opened (by rw [hpc]; nofun))
  | send handle packet rest pc =>
    refine absurd ?_ hqueue
    rw [← hdevice]
    exact hsteady.emptied (by rw [hpc]; nofun) (hsteady.opened (by rw [hpc]; nofun))

theorem sendsFollow_same (h : w'.sends = w.sends) : SendsFollow w w' := by
  intro t
  rw [h]
  cases hsend : w.sends t with
  | none => exact .inl rfl
  | some sending => exact .inr ⟨sending.1, sending.2, sending.2, rfl, rfl, rfl⟩

/-- A flush takes the queue. -/
theorem flush_take_lined (h : w.Lined) (hf : w.flushes[i]? = some f) (hpc : f.pc = .take)
    (now : Nat) (refused : Bool) : (w.flushStep i now refused).Lined := by
  have hsteady := h.flushed.steady f (List.mem_of_getElem? hf)
  have hready := hsteady.opened (by rw [hpc]; nofun)
  have hcurrent := (readyFor_iff.mp (hsteady.ready hready)).1
  obtain ⟨halike, hothers, htaken, hempty, -⟩ :=
    takePending_cases (m := w.manager) f.binding now
  have hsound : Sound (w.manager.takePendingFeatures f.binding now).1 :=
    after_sound h.sound (.takePending f.binding now)
  have hqueue := hempty hcurrent
  have hstep : w.flushStep i now refused =
      { w with
        manager := (w.manager.takePendingFeatures f.binding now).1
        flushes := w.flushes.set i (f.goTo
          (if (w.manager.takePendingFeatures f.binding now).2 = [] then .done
            else .handle (w.manager.takePendingFeatures f.binding now).2)) } := by
    unfold Features.flushStep
    rw [hf]
    simp only [hpc]
    rfl
  rw [hstep]
  generalize (w.manager.takePendingFeatures f.binding now).1 = m'
    at halike hothers hsound hqueue ⊢
  generalize (w.manager.takePendingFeatures f.binding now).2 = taken at htaken ⊢
  have hhand : ∀ pc : FlushPc, pc = (if taken = [] then .done else .handle taken) →
      pc.hand = taken ∧ pc ≠ .take ∧ ∀ h p rest pc', pc ≠ .send h p rest pc' := by
    intro pc heq
    subst heq
    split
    · rename_i hnil
      rw [hnil]
      exact ⟨rfl, nofun, nofun⟩
    · exact ⟨rfl, nofun, nofun⟩
  generalize hpc' : (if taken = [] then FlushPc.done else FlushPc.handle taken) = pc'
  obtain ⟨hhand, hnotTake, hnotSend⟩ := hhand pc' hpc'.symm
  have hkept : ∀ d, w.manager.queueOf d = [] → m'.queueOf d = [] := by
    intro d hnil
    by_cases hd : d = f.binding.deviceId
    · rw [hd]
      exact hqueue
    · rw [hothers d hd]
      exact hnil
  have hqueued : taken ≠ [] → w.manager.queueOf f.binding.deviceId ≠ [] := by
    intro hne hnil
    rw [hnil] at htaken
    exact hne (List.sublist_nil.mp htaken)
  refine h.shrink hsound ?_ rfl rfl rfl rfl (fun d => ?_) (sendsFollow_same rfl)
  · refine h.flushed.set hf rfl halike hkept ?_ (fun hne j g _ hg hdevice => ?_)
    · refine ⟨fun hr => ?_, fun _ => hready, fun _ _ => hqueue, fun hd p rest pc heq => ?_⟩
      · rw [halike.ready]
        exact hsteady.ready hr
      · exact absurd heq (hnotSend hd p rest pc)
    · rw [hhand] at hne
      exact h.flushed.others_empty (hqueued hne) (List.mem_of_getElem? hg) hdevice
  · unfold Features.waitingOf
    by_cases hd : d = f.binding.deviceId
    · subst hd
      simp only
      rw [hqueue, List.append_nil]
      by_cases hnil : taken = []
      · have hless : pc'.hand.Sublist f.pc.hand := by
          rw [hhand, hnil]
          exact List.nil_sublist _
        exact (Features.handOf_set_sublist hf rfl hless _).trans
          (List.sublist_append_left _ _)
      · -- No other flush has anything in hand, so what was taken is all.
        have hlt : i < w.flushes.length := (List.getElem?_eq_some_iff.mp hf).1
        have hall : (w.flushes.set i (f.goTo pc')).flatMap (fun g =>
            if g.binding.deviceId = f.binding.deviceId then g.pc.hand else []) = taken := by
          refine (Lib.flatMap_alone (List.getElem?_set_self hlt) (fun j g hj hg => ?_)).trans ?_
          · rw [List.getElem?_set_ne (Ne.symm hj)] at hg
            split
            · rename_i hdevice
              exact h.flushed.others_empty (hqueued hnil) (List.mem_of_getElem? hg) hdevice
            · rfl
          · exact (if_pos rfl).trans hhand
        unfold Features.handOf
        rw [hall]
        exact htaken.trans (List.sublist_append_right _ _)
    · simp only
      rw [hothers d hd]
      refine List.Sublist.append ?_ (List.Sublist.refl _)
      unfold Features.handOf
      refine Lib.flatMap_set_sublist hf ?_
      rw [if_neg (show ¬(f.goTo pc').binding.deviceId = d from fun heq => hd heq.symm)]
      exact List.nil_sublist _

/-- A flush takes its handle. -/
theorem flush_handle_lined (h : w.Lined) (hf : w.flushes[i]? = some f) {pending : List String}
    (hpc : f.pc = .handle pending) (now : Nat) (refused : Bool) :
    (w.flushStep i now refused).Lined := by
  have hsteady := h.flushed.steady f (List.mem_of_getElem? hf)
  have hready := hsteady.opened (by simp [hpc])
  have hempty := hsteady.emptied (by simp [hpc]) hready
  -- The handle that is taken is of this binding, and ready.
  have hnext : ∃ pc', w.flushStep i now refused
        = { w with flushes := w.flushes.set i (f.goTo pc') } ∧ pc'.hand.Sublist pending ∧
      ∀ hd p rest pc, pc' = .send hd p rest pc → hd.binding = f.binding ∧
        hd.webRtcReady = true ∧ (pc = .check hd ∨ pc = .direct hd ∨ ∃ peer, pc = .write hd peer) := by
    unfold Features.flushStep
    rw [hf]
    simp only [hpc]
    cases heq : w.manager.forBinding f.binding with
    | ok hd =>
      obtain ⟨hbinding, hwebrtc⟩ := forBinding_ok heq
      refine ⟨.next hd pending, rfl, ?_, fun hd' p rest pc hsend => ?_⟩
      · rw [hand_next]
      · cases pending with
        | nil => cases hsend
        | cons packet packets =>
          cases hsend
          exact ⟨hbinding, hwebrtc h.sound (hsteady.ready hready), .inl rfl⟩
    | error e =>
      refine ⟨.done, rfl, List.nil_sublist _, fun hd p rest pc hsend => ?_⟩
      cases hsend
  obtain ⟨pc', hstep, hhand, hsending⟩ := hnext
  rw [hstep]
  have hless : pc'.hand.Sublist f.pc.hand := by
    rw [hpc]
    exact hhand
  refine h.shrink h.sound ?_ rfl rfl rfl rfl (fun d => ?_) (sendsFollow_same rfl)
  · refine h.flushed.set hf rfl (.refl _) (fun _ => id) ?_ (fun hne j g hj hg hdevice => ?_)
    · exact ⟨hsteady.ready, fun _ => hready, fun _ _ => hempty, hsending⟩
    · have hsome : f.pc.hand ≠ [] := by
        intro hnil
        rw [hnil] at hless
        exact hne (List.sublist_nil.mp hless)
      exact (h.flushed.apart j i g f hg hf hj hdevice).resolve_right hsome
  · exact (Features.handOf_set_sublist hf rfl hless d).append (List.Sublist.refl _)

/-- A packet of a flush is refused, or goes on, or is written. The manager is
left alone. -/
theorem flush_run (hsteady : f.Steady m) (hpc : f.pc = .send h packet rest pc) (now : Nat)
    (refused : Bool) : pc.binding = f.binding ∧ (pc.run m packet now refused).1 = m ∧
      ((pc.run m packet now refused).2 = .failed ∨
        (∃ pc', (pc.run m packet now refused).2 = .next pc' ∧
          (pc' = .direct h ∨ ∃ peer, pc' = .write h peer)) ∨
        ∃ peer, (pc.run m packet now refused).2 = .wrote peer) := by
  obtain ⟨hbinding, hwebrtc, hshape⟩ := hsteady.sending h packet rest pc hpc
  have hready := hsteady.ready (hsteady.opened (by rw [hpc]; nofun))
  have hcurrent : m.isCurrent h.binding = true := by
    rw [hbinding]
    exact (readyFor_iff.mp hready).1
  rcases hshape with rfl | rfl | ⟨peer, rfl⟩
  · refine ⟨hbinding, rfl, .inr (.inl ⟨.direct h, ?_, .inl rfl⟩)⟩
    have hisReady : m.isReady h = true := by
      unfold DeviceManager.isReady
      rw [hwebrtc, hcurrent]
      rfl
    simp only [SendPc.run, hisReady, if_true]
  · refine ⟨hbinding, rfl, ?_⟩
    simp only [SendPc.run]
    split
    · exact .inl rfl
    · split
      · rename_i peer _
        exact .inr (.inl ⟨_, rfl, .inr ⟨peer, rfl⟩⟩)
      · exact .inl rfl
  · refine ⟨hbinding, rfl, ?_⟩
    cases refused with
    | true => exact .inl rfl
    | false => exact .inr (.inr ⟨peer, rfl⟩)

/-- A flush writes the first packet it has in hand to a channel. -/
theorem Features.Lined.flush_write (h : w.Lined) (hf : w.flushes[i]? = some f)
    (hhand : f.pc.hand = packet :: rest) (hflushed : w'.Flushed) (hmanager : w'.manager = w.manager)
    (hsends : w'.sends = w.sends) (hcalls : w'.calls = w.calls) (hqueued : w'.queued = w.queued)
    (hunpairings : w'.unpairings = w.unpairings) (hchannel : w'.channel = w.channel ++
      [⟨f.binding.deviceId, packet, w.unpairings f.binding.deviceId⟩])
    (hflushes : w'.flushes = w.flushes.set i (f.goTo pc')) (hrest : pc'.hand = rest)
    (hothers : ∀ (j : Nat) (g : Flush), j ≠ i → w.flushes[j]? = some g →
      g.binding.deviceId = f.binding.deviceId → g.pc.hand = []) : w'.Lined := by
  have hless : pc'.hand.Sublist f.pc.hand := by
    rw [hrest, hhand]
    exact List.sublist_cons_self _ _
  have hhandOf := h.flushed.handOf_alone hf (by rw [hhand]; nofun)
  have hhandOf' : w'.handOf f.binding.deviceId = rest := by
    have hlt : i < w.flushes.length := (List.getElem?_eq_some_iff.mp hf).1
    unfold Features.handOf
    rw [hflushes]
    refine (Lib.flatMap_alone (List.getElem?_set_self hlt) (fun j g hj hg => ?_)).trans ?_
    · rw [List.getElem?_set_ne (Ne.symm hj)] at hg
      split
      · rename_i hdevice
        exact hothers j g hj hg hdevice
      · rfl
    · exact (if_pos rfl).trans hrest
  have hwaiting : ∀ d, (w'.waitingOf d).Sublist (w.waitingOf d) := by
    intro d
    unfold Features.waitingOf
    rw [hmanager]
    exact (Features.handOf_set_sublist hf hflushes hless d).append (List.Sublist.refl _)
  refine ⟨by rw [hmanager]; exact h.sound, ?_, hflushed, ?_⟩
  · refine h.ordered.shrink hcalls (fun d => ?_) (sendsFollow_same hsends)
    unfold Features.lineOf
    rw [channelOf_append hchannel]
    split
    · -- The packet that leaves the hand is the one that the channel took.
      rename_i hd
      subst hd
      unfold Features.waitingOf
      rw [hhandOf, hhandOf', hhand, hmanager, List.append_assoc]
      exact List.Sublist.refl _
    · exact (List.Sublist.refl _).append (hwaiting d)
  · refine h.timed.follow hcalls hqueued (sendsFollow_same hsends) (fun d p hp => ?_)
      (fun e he n hn => ?_)
    · rw [hunpairings]
      exact h.timed.era d p ((hwaiting d).mem hp)
    · rw [hchannel] at he
      rcases List.mem_append.mp he with he | he
      · exact h.timed.written e he n hn
      · obtain rfl := List.mem_singleton.mp he
        refine h.timed.era _ packet (List.mem_append_left _ ?_) n hn
        rw [hhandOf, hhand]
        exact List.mem_cons_self ..

/-- The next step of a flush with a packet, by what becomes of the packet. -/
theorem flushStep_send (hf : w.flushes[i]? = some f) (hpc : f.pc = .send hd packet rest pc)
    {result : SendResult} :
    (pc.run w.manager packet now refused).2 = result → w.flushStep i now refused =
      { w.finishSend pc.binding.deviceId packet (pc.run w.manager packet now refused).1 result with
        flushes := w.flushes.set i (f.goTo (match result with
          | .next pc' => .send hd packet rest pc'
          | _ => .next hd rest)) } := by
  intro hresult
  unfold Features.flushStep
  rw [hf]
  simp only [hpc, hresult]
  rfl

/-- A flush goes on with a packet. -/
theorem flush_send_lined (h : w.Lined) (hf : w.flushes[i]? = some f)
    (hpc : f.pc = .send hd packet rest pc) (now : Nat) (refused : Bool) :
    (w.flushStep i now refused).Lined := by
  have hsteady := h.flushed.steady f (List.mem_of_getElem? hf)
  have hready := hsteady.opened (by simp [hpc])
  have hempty := hsteady.emptied (by simp [hpc]) hready
  have hhandle := hsteady.sending hd packet rest pc hpc
  have hhand : f.pc.hand = packet :: rest := by
    rw [hpc]
    rfl
  have hothers : ∀ (j : Nat) (g : Flush), j ≠ i → w.flushes[j]? = some g →
      g.binding.deviceId = f.binding.deviceId → g.pc.hand = [] := by
    intro j g hj hg hdevice
    exact (h.flushed.apart j i g f hg hf hj hdevice).resolve_right (by simp [hhand])
  obtain ⟨hbinding, hmanager, hresult⟩ := flush_run hsteady hpc now refused
  -- The flush goes to the next packet with what is left.
  have hnext : (f.goTo (.next hd rest)).Steady w.manager := by
    refine ⟨hsteady.ready, fun _ => hready, fun _ _ => hempty, fun hd' p rest' pc' heq => ?_⟩
    have heq : FlushPc.next hd rest = .send hd' p rest' pc' := heq
    cases rest with
    | nil => cases heq
    | cons q qs =>
      cases heq
      exact ⟨hhandle.1, hhandle.2.1, .inl rfl⟩
  have hrest : (FlushPc.next hd rest).hand.Sublist f.pc.hand := by
    rw [hand_next, hhand]
    exact List.sublist_cons_self _ _
  rcases hresult with hfailed | ⟨pc', hgoes, hshape⟩ | ⟨peer, hwrote⟩
  · rw [flushStep_send hf hpc hfailed, hmanager, hbinding]
    refine h.shrink h.sound ?_ rfl rfl rfl rfl (fun d => ?_) (sendsFollow_same rfl)
    · exact h.flushed.set hf rfl (.refl _) (fun _ => id) hnext (fun _ => hothers)
    · exact (Features.handOf_set_sublist hf rfl hrest d).append (List.Sublist.refl _)
  · rw [flushStep_send hf hpc hgoes, hmanager, hbinding]
    refine h.shrink h.sound ?_ rfl rfl rfl rfl (fun d => ?_) (sendsFollow_same rfl)
    · refine h.flushed.set hf rfl (.refl _) (fun _ => id) ?_ (fun _ => hothers)
      refine ⟨hsteady.ready, fun _ => hready, fun _ _ => hempty, fun hd' p rest' pc'' heq => ?_⟩
      have heq : FlushPc.send hd packet rest pc' = .send hd' p rest' pc'' := heq
      cases heq
      exact ⟨hhandle.1, hhandle.2.1, .inr hshape⟩
    · have hsame : (FlushPc.send hd packet rest pc').hand.Sublist f.pc.hand := by
        rw [hhand]
        exact List.Sublist.refl _
      exact (Features.handOf_set_sublist hf rfl hsame d).append (List.Sublist.refl _)
  · rw [flushStep_send hf hpc hwrote, hmanager, hbinding]
    refine h.flush_write hf hhand ?_ rfl rfl rfl rfl rfl rfl rfl (hand_next hd rest) hothers
    exact h.flushed.set hf rfl (.refl _) (fun _ => id) hnext (fun _ => hothers)

theorem flushStep_lined (h : w.Lined) (i now : Nat) (refused : Bool) :
    (w.flushStep i now refused).Lined := by
  cases hf : w.flushes[i]? with
  | none =>
    unfold Features.flushStep
    rw [hf]
    exact h
  | some f =>
    cases hpc : f.pc with
    | take => exact flush_take_lined h hf hpc now refused
    | handle pending => exact flush_handle_lined h hf hpc now refused
    | send hd packet rest pc => exact flush_send_lined h hf hpc now refused
    | done =>
      unfold Features.flushStep
      rw [hf]
      simp only [hpc]
      exact h

/-- A handle is taken, a thread begins to send, or a flush begins. -/
theorem takeHandle_lined (h : w.Lined) (b : SessionBinding) : (w.act (.takeHandle b)).Lined := by
  cases hhandle : w.manager.forBinding b with
  | ok hd =>
    simp only [Features.act, hhandle]
    exact h.shrink h.sound ⟨h.flushed.steady, h.flushed.apart⟩ rfl rfl rfl rfl
      (fun _ => List.Sublist.refl _) (sendsFollow_same rfl)
  | error e =>
    simp only [Features.act, hhandle]
    exact h

theorem start_lined (h : w.Lined) (thread handle : Nat) (packet : String) :
    (w.act (.start thread handle packet)).Lined := by
  simp only [Features.act]
  split
  · rename_i hd hidle hhandle
    split
    · exact h
    · rename_i hfresh
      refine ⟨h.sound, ?_, ⟨h.flushed.steady, h.flushed.apart⟩, ?_⟩
      · exact @Features.Ordered.start w _ thread packet (.check hd) h.ordered hidle hfresh rfl rfl
          (fun _ => rfl)
      · refine ⟨h.timed.era, h.timed.written, fun t p pc hsend n hn => ?_, fun p n hn => ?_⟩
        · by_cases ht : t = thread
          · subst ht
            have hsend : Function.update w.sends t (some (packet, .check hd)) t = some (p, pc) :=
              hsend
            rw [Function.update_self] at hsend
            obtain ⟨rfl, -⟩ := Prod.mk.inj (Option.some.inj hsend)
            exact hfresh (h.timed.noted packet n hn)
          · have hsend : Function.update w.sends thread (some (packet, .check hd)) t
                = some (p, pc) := hsend
            rw [Function.update_of_ne ht] at hsend
            exact h.timed.unqueued t p pc hsend n hn
        · show p ∈ (w.calls ++ [_]).map _
          rw [List.map_append]
          exact List.mem_append_left _ (h.timed.noted p n hn)
  · exact h

theorem webrtcFeaturesReady_iff {attempt : String} (h : m.webrtcFeaturesReady b attempt = true) :
    m.readyFor b = true := by
  unfold DeviceManager.webrtcFeaturesReady DeviceManager.trySession at h
  rcases withSession_runs (m := m) (b := b) (fun s => (s, if s.webrtcAttemptId ≠ some attempt
      then (.error .staleBinding : Except SessionError Bool) else .ok s.featuresReady))
    with ⟨-, e, heq⟩ | ⟨s, hs, hcurrent, heq⟩
  · rw [heq] at h
    cases h
  · rw [heq] at h
    refine readyFor_iff.mpr ⟨hcurrent, s, hs, ?_⟩
    simp only [Except.bind] at h
    split at h
    · rename_i ready hready
      have hready : (if s.webrtcAttemptId ≠ some attempt
        then (.error .staleBinding : Except SessionError Bool) else .ok s.featuresReady)
          = .ok ready := hready
      split at hready
      · cases hready
      · cases hready
        exact h
    · cases h

/-- The flush takes what is queued. -/
theorem flush_lined (h : w.Lined) (b : SessionBinding) (attempt : String) :
    (w.act (.flush b attempt)).Lined := by
  simp only [Features.act]
  split
  · rename_i hready
    have hready := webrtcFeaturesReady_iff hready
    have hsteady : Flush.Steady w.manager { binding := b } :=
      ⟨fun _ => hready, fun _ => rfl, fun htake => absurd rfl htake, nofun⟩
    refine h.shrink h.sound ⟨fun f hf => ?_, fun i j fi fj hi hj hij hdevice => ?_⟩ rfl rfl rfl rfl
      (fun d => ?_) (sendsFollow_same rfl)
    · rcases List.mem_append.mp hf with hf | hf
      · exact h.flushed.steady f hf
      · obtain rfl := List.mem_singleton.mp hf
        exact hsteady
    · -- The new flush has nothing in hand.
      have hold : ∀ (k : Nat) (f : Flush), (w.flushes ++ [{ binding := b }])[k]? = some f →
          f.pc.hand = [] ∨ w.flushes[k]? = some f := by
        intro k f hf
        by_cases hk : k < w.flushes.length
        · rw [List.getElem?_append_left hk] at hf
          exact .inr hf
        · rw [List.getElem?_append_right (by omega)] at hf
          obtain rfl := List.mem_singleton.mp (List.mem_of_getElem? hf)
          exact .inl rfl
      rcases hold i fi hi with hnil | hi
      · exact .inl hnil
      · rcases hold j fj hj with hnil | hj
        · exact .inr hnil
        · exact h.flushed.apart i j fi fj hi hj hij hdevice
    · have hhand : Features.handOf { w with flushes := w.flushes ++ [{ binding := b }] } d
          = w.handOf d := by
        unfold Features.handOf
        rw [List.flatMap_append]
        refine (congrArg _ ?_).trans (List.append_nil _)
        show (if b.deviceId = d then [] else []) ++ [] = []
        split <;> rfl
      unfold Features.waitingOf
      rw [hhand]
  · exact h

/-- An unpairing leaves no queue, and no peer that is ready. -/
theorem unpairs_clears (h : call.unpairs m = some d) : (m.after call).queueOf d = [] ∧
      ∀ b : SessionBinding, b.deviceId = d → (m.after call).readyFor b = false := by
  have hcleared : ∀ s : DeviceSession, s.pendingFeatures = [] → s.webrtcHandover = none →
      ∀ m' : DeviceManager, m'.sessions[d]? = some s →
        m'.queueOf d = [] ∧ ∀ b : SessionBinding, b.deviceId = d → m'.readyFor b = false := by
    intro s hpending hhandover m' hs
    refine ⟨?_, fun b hb => ?_⟩
    · rw [queueOf_some hs, hpending]
      rfl
    · by_contra hne
      obtain ⟨-, s', hs', hready⟩ := readyFor_iff.mp (Bool.of_not_eq_false hne)
      rw [hb, hs] at hs'
      obtain rfl := Option.some.inj hs'
      rw [DeviceSession.featuresReady, hhandover] at hready
      cases hready
  cases call with
  | revoke b reason =>
    simp only [Call.unpairs] at h
    split at h
    · rename_i hcurrent
      cases h
      show (DeviceManager.revokePairing m b reason).1.queueOf _ = [] ∧
        ∀ b' : SessionBinding, _ → (DeviceManager.revokePairing m b reason).1.readyFor b' = false
      unfold DeviceManager.revokePairing
      generalize hoperation : (fun s : DeviceSession =>
        let s' := { s with
          pairing := s.pairing.rejectPacket.1
          lastDisconnectReason := some reason
          pendingFeatures := [] }
        (s'.clearWebrtcState.1, (s.pairing.rejectPacket.2, s'.clearWebrtcState.2))) = operation
      rcases withSession_runs (m := m) (b := b) operation with ⟨hstale, -⟩ | ⟨s, hs, -, heq⟩
      · rw [hcurrent] at hstale
        cases hstale
      · rw [heq]
        refine hcleared (operation s).1 ?_ ?_ _ ?_
        · rw [← hoperation]
          rfl
        · rw [← hoperation]
          rfl
        · rw [getElem?_keyInsert, if_pos rfl]
    · cases h
  | forgetPairing deviceId =>
    cases h
    show (m.forgetPairing d).1.queueOf d = [] ∧
      ∀ b' : SessionBinding, _ → (m.forgetPairing d).1.readyFor b' = false
    unfold DeviceManager.forgetPairing
    cases hs : m.sessions[d]? with
    | none =>
      refine ⟨?_, fun b hb => ?_⟩
      · unfold DeviceManager.queueOf
        rw [hs]
        rfl
      · by_contra hne
        obtain ⟨-, s', hs', -⟩ := readyFor_iff.mp (Bool.of_not_eq_false hne)
        rw [hb, hs] at hs'
        cases hs'
    | some s =>
      refine hcleared (DeviceSession.clearWebrtcState
        { s with pairing := .new false, pendingFeatures := [] }).1 rfl rfl _ ?_
      rw [getElem?_keyInsert, if_pos rfl]
  | _ => cases h

/-- The flush has seen the readiness that the manager has now. -/
def Flush.saw (m : DeviceManager) (f : Flush) : Flush :=
  { f with ready := f.ready && m.readyFor f.binding }

/-- Any other call. -/
theorem call_lined (h : w.Lined) (hother : call.ofFeatures = false)
    (horderly : w.Orderly (.call call)) : (w.after (.call call)).Lined := by
  have horderly := horderly hother
  have hqueues := after_queue w.manager hother
  -- Only a device that the call unpairs is in a new era.
  have hafter : ∃ unpairings, w.after (.call call) =
      { w with
        manager := w.manager.after call
        flushes := w.flushes.map (Flush.saw (w.manager.after call))
        unpairings } ∧
      ∀ d, unpairings d = w.unpairings d ∨ call.unpairs w.manager = some d := by
    unfold Features.after Features.act
    simp only [hother, Bool.false_eq_true, if_false]
    cases call.unpairs w.manager with
    | none => exact ⟨w.unpairings, rfl, fun _ => .inl rfl⟩
    | some d' =>
      refine ⟨_, rfl, fun d => ?_⟩
      by_cases hd : d = d'
      · exact .inr (hd ▸ rfl)
      · exact .inl (Function.update_of_ne hd _ _)
  obtain ⟨unpairings, hafter, hkept⟩ := hafter
  rw [hafter]
  have hhand : ∀ d, (w.flushes.map (Flush.saw (w.manager.after call))).flatMap
      (fun f => if f.binding.deviceId = d then f.pc.hand else []) = w.handOf d := by
    intro d
    rw [List.flatMap_map]
    rfl
  have hqueue : ∀ d, ((w.manager.after call).queueOf d).Sublist (w.manager.queueOf d) := by
    intro d
    rcases hqueues d with hsame | hnil
    · rw [hsame]
    · rw [hnil]
      exact List.nil_sublist _
  have hflushed : Features.Flushed
      { w with
        manager := w.manager.after call
        flushes := w.flushes.map (Flush.saw (w.manager.after call)) } := by
    refine ⟨fun f hf => ?_, fun i j fi fj hi hj hij hdevice => ?_⟩
    · obtain ⟨g, hg, rfl⟩ := List.mem_map.mp hf
      have hsteady := h.flushed.steady g hg
      refine ⟨fun hready => ?_, fun hopen => ?_, fun htaken hready => ?_, hsteady.sending⟩
      · exact (Bool.and_eq_true_iff.mp hready).2
      · exact Bool.and_eq_true_iff.mpr ⟨hsteady.opened hopen, horderly g hg hopen⟩
      · have hempty := hsteady.emptied htaken (Bool.and_eq_true_iff.mp hready).1
        have hless := hqueue g.binding.deviceId
        rw [hempty] at hless
        exact List.sublist_nil.mp hless
    · simp only [List.getElem?_map, Option.map_eq_some_iff] at hi hj
      obtain ⟨gi, hgi, rfl⟩ := hi
      obtain ⟨gj, hgj, rfl⟩ := hj
      exact h.flushed.apart i j gi gj hgi hgj hij hdevice
  have hlined : Features.Lined
      { w with
        manager := w.manager.after call
        flushes := w.flushes.map (Flush.saw (w.manager.after call)) } := by
    refine h.shrink (after_sound h.sound call) hflushed rfl rfl rfl rfl (fun d => ?_)
      (sendsFollow_same rfl)
    unfold Features.waitingOf Features.handOf
    rw [hhand d]
    exact (List.Sublist.refl _).append (hqueue d)
  refine ⟨hlined.sound, ⟨hlined.ordered.line, hlined.ordered.known, hlined.ordered.names,
    hlined.ordered.own⟩, ⟨hlined.flushed.steady, hlined.flushed.apart⟩, ?_⟩
  refine ⟨fun d p hp n hn => ?_, hlined.timed.written, hlined.timed.unqueued, hlined.timed.noted⟩
  rcases hkept d with hsame | hunpairs
  · simp only [hsame]
    exact hlined.timed.era d p hp n hn
  · -- Nothing is on its way to a device that was just unpaired.
    exfalso
    obtain ⟨hnoQueue, hunready⟩ := unpairs_clears hunpairs
    rcases List.mem_append.mp hp with hp | hp
    · have hp : p ∈ w.handOf d := by
        rw [← hhand d]
        exact hp
      obtain ⟨f, hf, hp⟩ := List.mem_flatMap.mp hp
      split at hp
      · rename_i hdevice
        by_cases hopen : f.pc = .done
        · rw [hopen] at hp
          cases hp
        · have hready := horderly f hf hopen
          rw [hunready f.binding hdevice] at hready
          cases hready
      · cases hp
    · have hp : p ∈ (w.manager.after call).queueOf d := hp
      rw [hnoQueue] at hp
      cases hp

/-- One step of anything. -/
theorem after_lined (h : w.Lined) (horderly : w.Orderly move) : (w.after move).Lined := by
  have hsame : (w.act move).Lined → (w.after move).Lined := by
    intro hlined
    rw [after_eq_act (fun f hf => (hlined.flushed.steady f hf).ready)]
    exact hlined
  cases move with
  | takeHandle b => exact hsame (takeHandle_lined h b)
  | start thread handle packet => exact hsame (start_lined h thread handle packet)
  | send thread now refused => exact hsame (sendStep_lined h thread now refused horderly)
  | flush b attempt => exact hsame (flush_lined h b attempt)
  | flushStep i now refused => exact hsame (flushStep_lined h i now refused)
  | call call =>
    cases hother : call.ofFeatures with
    | true =>
      have hact : w.act (.call call) = w := by
        simp only [Features.act, hother, if_true]
      rw [← hact] at h
      exact hsame h
    | false => exact call_lined h hother horderly

end

/-! ### The run -/

theorem Features.Ordered.channel_nodup {w : Features} (h : w.Ordered) :
    (w.channel.map (·.packet)).Nodup := by
  rw [List.nodup_iff_count_le_one]
  intro p
  by_cases hp : p ∈ w.channel.map (·.packet)
  · obtain ⟨e, he, rfl⟩ := List.mem_map.mp hp
    have hmem : ∀ e' ∈ w.channel, e'.packet ∈ w.lineOf e'.deviceId := by
      intro e' he'
      exact List.mem_append_left _ (List.mem_map.mpr
        ⟨e', List.mem_filter.mpr ⟨he', by simp⟩, rfl⟩)
    obtain ⟨thread, hcall⟩ := h.known e.deviceId e.packet (hmem e he)
    -- All that the channels took under this name went to this device.
    have hcount : (w.channel.map (·.packet)).count e.packet
        = ((w.channelOf e.deviceId).filter (· ∈ w.programOf thread e.deviceId)).count
          e.packet := by
      rw [List.count_filter (by simpa using mem_programOf.mpr hcall)]
      unfold Features.channelOf
      rw [List.count_eq_countP, List.count_eq_countP, List.countP_map, List.countP_map,
        List.countP_filter]
      refine List.countP_congr (fun e' he' => ?_)
      simp only [Function.comp, Bool.and_eq_true, beq_iff_eq, decide_eq_true_eq]
      refine ⟨fun heq => ⟨heq, ?_⟩, fun hboth => hboth.1⟩
      obtain ⟨thread', hcall'⟩ := h.known e'.deviceId e'.packet (hmem e' he')
      exact congrArg SendCall.deviceId (h.unique hcall' hcall heq)
    have hsublist : ((w.channelOf e.deviceId).filter
        (· ∈ w.programOf thread e.deviceId)).Sublist (w.programOf thread e.deviceId) := by
      have hline := (h.line thread e.deviceId).mono (List.sublist_append_left _ _)
        (List.nil_sublist _)
      unfold Lib.InLine at hline
      rwa [List.append_nil] at hline
    rw [hcount]
    exact List.nodup_iff_count_le_one.mp (hsublist.nodup (h.programOf_nodup _)) _
  · rw [List.count_eq_zero_of_not_mem hp]
    omega

theorem empty_line (d : String) : ({} : Features).lineOf d = [] := by
  show [] ++ ([] ++ DeviceManager.queueOf {} d) = []
  simp [DeviceManager.queueOf]

theorem empty_lined : Features.Lined {} where
  sound := empty_sound
  ordered := by
    refine ⟨fun thread d => ?_, fun d p hp => ?_, List.nodup_nil, fun thread p pc hsend => ?_⟩
    · rw [empty_line]
      exact List.nil_sublist _
    · rw [empty_line] at hp
      cases hp
    · cases hsend
  flushed := by
    refine ⟨fun f hf => ?_, fun i j fi fj hi => ?_⟩
    · cases hf
    · cases hi
  timed := by
    refine ⟨fun d p hp n hn => ?_, fun e he => ?_, fun thread p pc hsend => ?_, fun p n hn => ?_⟩
    · cases hn
    · cases he
    · cases hsend
    · cases hn

/-- The sessions and the threads after the moves. -/
def features (moves : List FeatureMove) : Features := Lib.applyAll Features.after {} moves

/-- Queued features keep their order and are sent once. Take any orderly run:
a thread that writes to a channel has none of its own packets waiting for the
device, and no session loses its readiness while a flush of it is on. Then
what a thread sent to a device reaches its channels in the order of the
thread; nothing reaches them twice; the queue of a session is empty once a
flush has returned, as long as the session stays ready; and nothing that was
queued before an unpairing is written after it. -/
theorem features_ordered (moves : List FeatureMove)
    (horderly : Lib.Alongside Features.after Features.Orderly {} moves) :
    (∀ thread d, (((features moves).channelOf d).filter
      (· ∈ (features moves).programOf thread d)).Sublist ((features moves).programOf thread d)) ∧
    ((features moves).channel.map (·.packet)).Nodup ∧
    (∀ f ∈ (features moves).flushes, f.pc = .done → f.ready = true →
      (features moves).manager.queueOf f.binding.deviceId = []) ∧
    ∀ e ∈ (features moves).channel, ∀ n, (e.packet, n) ∈ (features moves).queued → n = e.era := by
  have h : (features moves).Lined :=
    horderly.invariant (fun w move h hC => after_lined h hC) empty_lined
  refine ⟨fun thread d => ?_, h.ordered.channel_nodup, fun f hf hdone hready => ?_,
    h.timed.written⟩
  · have hline := (h.ordered.line thread d).mono (List.sublist_append_left _ _)
      (List.nil_sublist _)
    unfold Lib.InLine at hline
    rwa [List.append_nil] at hline
  · exact (h.flushed.steady f hf).emptied (by rw [hdone]; nofun) hready

instance decidableFeaturesOrderly (w : Features) : (move : FeatureMove) → Decidable (w.Orderly move)
  | .send thread _ refused => inferInstanceAs (Decidable (refused = false →
      ∀ sending ∈ w.sends thread, sending.2.writes = true →
        ∀ q ∈ w.waitingOf sending.2.binding.deviceId,
          q ∉ w.programOf thread sending.2.binding.deviceId))
  | .call call => inferInstanceAs (Decidable (call.ofFeatures = false → ∀ f ∈ w.flushes,
      f.pc ≠ .done → (w.manager.after call).readyFor f.binding = true))
  | .takeHandle _ | .start .. | .flush .. | .flushStep .. => .isTrue trivial

/-- A paired phone. A thread sends "a" before the peer is ready, so it is
queued; then the features become ready, and the flush takes "a". -/
def queuedFeature : List FeatureMove :=
  let b : SessionBinding := ⟨"phone", 1, 1, 0, 0⟩
  [.call (.register "phone" { certificatePem := "" } true 0), .takeHandle b, .start 1 0 "a",
    .send 1 0 false, .send 1 0 false,
    .call (.install b "attempt" "wire" 7 8 false),
    .call (.handover b "attempt" (fun h => ({ h with featuresReady := true }, .ok ()))),
    .flush b "attempt", .flushStep 0 0 false, .flushStep 0 0 false]

/-- The flush sends what it took. -/
def flushedFeature : List FeatureMove :=
  [.flushStep 0 0 false, .flushStep 0 0 false, .flushStep 0 0 false]

/-- The thread sends "b", which it may write at once. -/
def directFeature : List FeatureMove :=
  [.takeHandle ⟨"phone", 1, 1, 0, 0⟩, .start 1 1 "b", .send 1 0 false, .send 1 0 false,
    .send 1 0 false]

/-- What was queued goes first, and each packet once. -/
theorem features_ordered_flushed :
    Lib.Alongside Features.after Features.Orderly {}
      (queuedFeature ++ flushedFeature ++ directFeature) ∧
    (features (queuedFeature ++ flushedFeature ++ directFeature)).channelOf "phone"
      = ["a", "b"] ∧
    ((features (queuedFeature ++ flushedFeature ++ directFeature)).channel.map
      (·.packet)).Nodup := by
  have horderly : Lib.Alongside Features.after Features.Orderly {}
      (queuedFeature ++ flushedFeature ++ directFeature) := by
    decide +kernel
  exact ⟨horderly, by decide +kernel, (features_ordered _ horderly).2.1⟩

/-- A thread that sends "b" while the flush has its "a" in hand overtakes it.
And a flush that is on writes "a" after the phone was unpaired. -/
theorem features_overtake :
    (features (queuedFeature ++ directFeature ++ flushedFeature)).programOf 1 "phone"
      = ["a", "b"] ∧
    (features (queuedFeature ++ directFeature ++ flushedFeature)).channelOf "phone"
      = ["b", "a"] ∧
    (features (queuedFeature ++ flushedFeature.take 2 ++
        [.call (.revoke ⟨"phone", 1, 1, 0, 0⟩ "unpaired")] ++ flushedFeature.drop 2)).channel
      = [⟨"phone", "a", 1⟩] ∧
    ("a", 0) ∈ (features (queuedFeature ++ flushedFeature.take 2 ++
        [.call (.revoke ⟨"phone", 1, 1, 0, 0⟩ "unpaired")] ++ flushedFeature.drop 2)).queued := by
  decide +kernel

end DeskLink.Session
