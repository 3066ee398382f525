import DeskLink.Lib.Unwind
import DeskLink.Proofs.Terminal.Leases
import DeskLink.Terminal.Access

/-!
# `DeskLink.Proofs.Terminal.Revoked`: revoked means revoked

`AccessWorld.Out device` is the state a revocation is meant to leave: access
is off, no message of the phone is past its check, its bridge is attached to
nothing, and nothing but notices is on its way to it. It is kept by every
move that does not give the access back (`after_out`).

The revocation itself reaches the bridge only. A message that is past the
access check still acts when it gets there, and what a pump thread has taken
is still sent. `AccessWorld.Idle` is that there is neither when the phone is
revoked; `revoked_stays_out` is what then holds until access is granted again,
and `revoked_attaches` is a run in which it does not.
-/

set_option autoImplicit false

namespace DeskLink.Terminal

variable {P : Type} {vt : Vt100 P} {hashing : Access.Hashing}

/-- Something closed, or an error: nothing of a session is in it. -/
def TerminalEvent.isNotice : TerminalEvent → Bool
  | .sendControl control => control.action = .closed ∨ control.action = .error
  | .sendChunk _ => false

/-- The bridge is attached to nothing and has nothing but notices to send. -/
structure TerminalBridge.Bare (bridge : TerminalBridge) : Prop where
  attached : bridge.attached = {}
  outbox : ∀ event ∈ bridge.outbox, event.isNotice = true

/-- Nothing of a session is on its way to the device. -/
structure Desk.Silent (desk : Desk P) (device : String) : Prop where
  bridge : ∀ bridge : TerminalBridge, desk.bridges[device]? = some bridge → bridge.Bare
  pumps : ∀ (token : Nat) (thread : PumpThread), desk.pumps[token]? = some thread →
    thread.device = device → ∀ event ∈ thread.sending, event.isNotice = true

/-- The phone is out: none of its messages will act, and nothing of a
session is on its way to it. -/
structure AccessWorld.Out (w : AccessWorld P) (device : String) : Prop where
  access : device ∉ w.access
  messages : ∀ message ∈ w.messages, message.device = device → message.past = false
  desk : w.desk.Silent device

/-- When a phone is revoked, no message of it is past the access check, and
its pump threads have nothing of a session to send. -/
def AccessWorld.Idle (w : AccessWorld P) : AccessMove → Prop
  | .desk (.revokeDevice device) =>
    (∀ message ∈ w.messages, message.device = device → message.past = false) ∧
      ∀ entry ∈ w.desk.pumps.toList, entry.2.device = device →
        ∀ event ∈ entry.2.sending, event.isNotice = true
  | _ => True

/-! ### Bridges -/

section Bare

variable {bridge : TerminalBridge} {desk : Desk P} {device : String}

theorem bare_new (wire : WireBinding) (token : Nat) : TerminalBridge.Bare { wire, token } :=
  ⟨rfl, by simp⟩

theorem outbox_queue (events : List TerminalEvent) {event : TerminalEvent}
    (hevent : event ∈ (bridge.queue events).1.outbox) : event ∈ bridge.outbox ∨ event ∈ events := by
  unfold TerminalBridge.queue at hevent
  dsimp only at hevent
  split at hevent
  · exact .inl hevent
  · exact List.mem_append.mp hevent

theorem attached_queue (events : List TerminalEvent) :
    (bridge.queue events).1.attached = bridge.attached := by
  unfold TerminalBridge.queue
  dsimp only
  split <;> rfl

/-- A refusal is a notice. -/
theorem TerminalBridge.Bare.refuse (h : bridge.Bare) (terminalId : Option Nat) (message : String) :
    (bridge.refuse terminalId message).Bare where
  attached := by
    show (bridge.queue _).1.attached = _
    rw [attached_queue]
    exact h.attached
  outbox event hevent := by
    obtain hevent | hevent := outbox_queue _ hevent
    · exact h.outbox event hevent
    · rw [List.mem_singleton] at hevent
      rw [hevent]
      rfl

theorem outbox_foldl_queueAlways (events : List TerminalEvent) (bridge : TerminalBridge) :
    (events.foldl TerminalBridge.queueAlways bridge).outbox = bridge.outbox ++ events := by
  induction events generalizing bridge with
  | nil => simp
  | cons event events ih =>
    rw [List.foldl_cons, ih]
    show bridge.outbox ++ [event] ++ events = _
    simp

/-- What is cut off is bare. -/
theorem finishWith_bare (held : Held P) (reason : String) :
    (held.finishWith vt reason).bridge.Bare where
  attached := (wire_foldl_queueAlways _ _).2.2
  outbox event hevent := by
    have houtbox : (held.finishWith vt reason).bridge.outbox = [] ++ _ :=
      outbox_foldl_queueAlways _ _
    rw [houtbox, List.nil_append, List.mem_append, List.mem_map, List.mem_singleton] at hevent
    obtain ⟨id, -, rfl⟩ | rfl := hevent
    · rfl
    · rfl

/-- Draining takes events out of the outbox. -/
theorem drain_mem (outbox : List TerminalEvent) (p : Pumping P)
    (hevents : ∀ event ∈ p.events, event.isNotice = true)
    (houtbox : ∀ event ∈ outbox, event.isNotice = true)
    (hheld : p.held.bridge.outbox = outbox) :
    (∀ event ∈ (Pumping.drain outbox p).events, event.isNotice = true) ∧
      (∀ event ∈ (Pumping.drain outbox p).held.bridge.outbox, event.isNotice = true) ∧
      (Pumping.drain outbox p).held.bridge.attached = p.held.bridge.attached := by
  induction outbox generalizing p with
  | nil =>
    refine ⟨hevents, ?_, rfl⟩
    show ∀ event ∈ p.held.bridge.outbox, _
    rw [hheld]
    exact houtbox
  | cons event outbox ih =>
    unfold Pumping.drain
    by_cases hspent : p.remaining = 0
    · rw [if_pos hspent]
      exact ⟨hevents, by rw [hheld]; exact houtbox, rfl⟩
    · rw [if_neg hspent]
      refine ih _ ?_ (fun e he => houtbox e (List.mem_cons_of_mem _ he)) rfl
      intro e he
      rcases List.mem_append.mp he with he | he
      · exact hevents e he
      · rw [List.mem_singleton.mp he]
        exact houtbox event (List.mem_cons_self ..)

/-- The pump of a bare bridge takes notices, and leaves it bare. -/
theorem pump_bare {held : Held P} (h : held.bridge.Bare) (budget : Nat) (order : List Nat)
    (script : Script) :
    (held.pump vt budget order script).1.bridge.Bare ∧
      ∀ event ∈ (held.pump vt budget order script).2, event.isNotice = true := by
  obtain ⟨hevents, houtbox, hattached⟩ := drain_mem held.bridge.outbox
    { held, script, remaining := budget } (by simp) h.outbox rfl
  rw [show (Pumping.held { held, script, remaining := budget : Pumping P }).bridge.attached = {}
    from h.attached] at hattached
  -- With nothing attached there is no terminal to pump.
  have hkeys : keysIn (∅ : IdMap Attachment) order = [] := by simp [keysIn]
  unfold Held.pump
  dsimp only
  split
  · exact ⟨⟨hattached, houtbox⟩, hevents⟩
  · rw [hattached, hkeys]
    exact ⟨⟨hattached, houtbox⟩, hevents⟩

end Bare

/-! ### Steps at the desk -/

/-- The step may put something of a session on its way to the device. -/
def DeskOp.reaches (device : String) : DeskOp → Bool
  | .control wire .. | .chunk wire .. => wire.peerDeviceId = device
  | .announceFinished _ told => device ∈ told
  | _ => false

section Silent

variable {desk : Desk P} {device : String}

/-- A bridge is put back: one of another device, or a bare one. -/
theorem Desk.Silent.put (h : desk.Silent device) {device' : String} {held : Held P}
    (hbare : device' = device → held.bridge.Bare) : (desk.put device' held).Silent device where
  bridge bridge hbridge := by
    have hbridge : (desk.bridges.insert device' held.bridge)[device]? = some bridge := hbridge
    rw [getElem?_keyInsert] at hbridge
    by_cases heq : device' = device
    · rw [if_pos heq, Option.some.injEq] at hbridge
      rw [← hbridge]
      exact hbare heq
    · rw [if_neg heq] at hbridge
      exact h.bridge bridge hbridge
  pumps := h.pumps

theorem withBridge_silent (h : desk.Silent device) {wire : WireBinding}
    (hwire : wire.peerDeviceId ≠ device) (operation : Held P → Held P × Except String Unit) :
    (desk.withBridge wire operation).1.Silent device := by
  unfold Desk.withBridge
  split
  · split
    · exact h.put (fun heq => absurd heq hwire)
    · exact h
  · exact h

theorem refuse_silent (h : desk.Silent device) (wire : WireBinding) (terminalId : Option Nat)
    (reason : String) : (desk.after vt (.refuse wire terminalId reason)).Silent device := by
  show (desk.withOpenBridge wire _).Silent device
  unfold Desk.withOpenBridge
  split
  · rename_i bridge hbridge
    split
    · rw [← put_hold]
      refine h.put (fun heq => ?_)
      rw [heq] at hbridge
      exact (h.bridge bridge hbridge).refuse terminalId reason
    · exact h
  · exact h

theorem begin_silent (h : desk.Silent device) (wire : WireBinding) :
    (desk.begin vt wire).Silent device := by
  have hreleased : ∃ released : Desk P, released.Silent device ∧ desk.begin vt wire =
      { released with
        bridges := released.bridges.insert wire.peerDeviceId { wire, token := desk.nextToken }
        nextToken := desk.nextToken + 1
        pumps := released.pumps.insert desk.nextToken { device := wire.peerDeviceId } } := by
    unfold Desk.begin
    cases desk.bridges[wire.peerDeviceId]? with
    | some previous => exact ⟨_, h.put (fun _ => ⟨rfl, by simp [Held.detachAll]⟩), rfl⟩
    | none => exact ⟨desk, h, rfl⟩
  obtain ⟨released, hreleased, heq⟩ := hreleased
  rw [heq]
  refine ⟨?_, ?_⟩
  · intro bridge hbridge
    simp only [getElem?_keyInsert] at hbridge
    by_cases heq : wire.peerDeviceId = device
    · rw [if_pos heq, Option.some.injEq] at hbridge
      rw [← hbridge]
      exact bare_new wire _
    · rw [if_neg heq] at hbridge
      exact hreleased.bridge bridge hbridge
  · intro token thread hthread hdevice
    simp only [getElem?_idInsert] at hthread
    by_cases heq : desk.nextToken = token
    · rw [if_pos heq, Option.some.injEq] at hthread
      rw [← hthread]
      simp
    · rw [if_neg heq] at hthread
      exact hreleased.pumps token thread hthread hdevice

theorem finish_silent (h : desk.Silent device) (device' : String) (token : Nat) :
    (desk.finish vt device' token).Silent device := by
  unfold Desk.finish
  split
  · split
    · refine ⟨fun bridge hbridge => ?_, h.pumps⟩
      rw [getElem?_keyErase] at hbridge
      split at hbridge
      · cases hbridge
      · exact h.bridge bridge hbridge
    · exact h
  · exact h

theorem cutOff_silent (h : desk.Silent device) (device' reason : String) :
    (desk.cutOff vt device' reason).Silent device := by
  unfold Desk.cutOff
  split
  · exact h.put (fun _ => finishWith_bare _ reason)
  · exact ⟨h.bridge, h.pumps⟩

/-- A pump of the device takes notices. -/
theorem pumpOnce_silent (h : desk.Silent device) (device' : String) (token budget : Nat)
    (order : List Nat) (script : Script) :
    (desk.pumpOnce vt device' token budget order script).1.Silent device ∧
      (device' = device → ∀ event ∈ (desk.pumpOnce vt device' token budget order script).2.getD [],
        event.isNotice = true) := by
  unfold Desk.pumpOnce
  cases hbridge : desk.bridges[device']? with
  | none => exact ⟨h, by simp⟩
  | some bridge =>
    dsimp only
    split
    · have hbare (heq : device' = device) :
          ({ bridge with elsewhere := desk.attachedElsewhere device' } : TerminalBridge).Bare := by
        rw [heq] at hbridge
        exact ⟨(h.bridge bridge hbridge).attached, (h.bridge bridge hbridge).outbox⟩
      refine ⟨h.put (fun heq => ?_), fun heq => ?_⟩
      · exact (@pump_bare P vt (desk.hold _) (hbare heq) budget order script).1
      · exact (@pump_bare P vt (desk.hold _) (hbare heq) budget order script).2
    · exact ⟨h, by simp⟩

theorem pumpThread_silent (h : desk.Silent device) (token budget : Nat) (order : List Nat)
    (script : Script) : (desk.pumpThread vt token budget order script).Silent device := by
  unfold Desk.pumpThread
  split
  · rename_i thread hthread
    split
    · obtain ⟨hpumped, htaken⟩ :=
        @pumpOnce_silent P vt desk device h thread.device token budget order script
      refine ⟨hpumped.bridge, fun token' thread' hthread' hdevice => ?_⟩
      simp only [getElem?_idInsert] at hthread'
      split at hthread'
      · cases hthread'
        exact htaken hdevice
      · exact hpumped.pumps token' thread' hthread' hdevice
    · exact h
  · exact h

theorem send_silent (h : desk.Silent device) (token : Nat) : (desk.send token).Silent device := by
  unfold Desk.send
  split
  · rename_i thread hthread
    split
    · rename_i event rest hsending
      refine ⟨h.bridge, fun token' thread' hthread' hdevice => ?_⟩
      rw [getElem?_idInsert] at hthread'
      split at hthread'
      · cases hthread'
        intro e he
        refine h.pumps token thread hthread hdevice e ?_
        rw [hsending]
        exact List.mem_cons_of_mem event he
      · exact h.pumps token' thread' hthread' hdevice
    · exact h
  · exact h

/-- A step that does not reach the device leaves it silent. -/
theorem after_silent (h : desk.Silent device) {op : DeskOp} (hop : op.reaches device = false) :
    (desk.after vt op).Silent device := by
  cases op with
  | begin wire => exact begin_silent h wire
  | finish device' token => exact finish_silent h device' token
  | control wire control start spawned =>
    exact withBridge_silent h (of_decide_eq_false hop) _
  | chunk wire chunk => exact withBridge_silent h (of_decide_eq_false hop) _
  | refuse wire terminalId reason => exact refuse_silent h wire terminalId reason
  | pump token budget order script => exact pumpThread_silent h token budget order script
  | send token => exact send_silent h token
  | revokeDevice device' => exact cutOff_silent h device' _
  | endDeviceSessions device' => exact cutOff_silent h device' _
  | announceFinished id told =>
    refine ⟨fun bridge hbridge => ?_, h.pumps⟩
    have htold : device ∉ told := of_decide_eq_false hop
    have hbridge : (desk.bridges.map _)[device]? = some bridge := hbridge
    rw [Std.ExtTreeMap.getElem?_map, Option.map_eq_some_iff] at hbridge
    obtain ⟨before, hbefore, rfl⟩ := hbridge
    rw [if_neg htold]
    exact h.bridge before hbefore
  | sweep idle => exact ⟨h.bridge, h.pumps⟩
  | deskCreate rows cols spawned => exact ⟨h.bridge, h.pumps⟩
  | deskClose id => exact ⟨h.bridge, h.pumps⟩
  | happens moment => exact ⟨h.bridge, h.pumps⟩

end Silent

/-! ### Moves -/

/-- The move gives the phone its access back. -/
def AccessMove.grants (device : String) : AccessMove → Bool
  | .setAccess device' allowed saved => device' = device && allowed && saved
  | _ => false

section Moves

variable {w : AccessWorld P} {device : String} {i : Nat} {message : Message}

/-- A message comes to another stage, which is not past the access check if
it is the phone's. -/
theorem AccessWorld.Out.advance (h : w.Out device) {stage : Stage}
    (hstage : ∀ message, w.messages[i]? = some message → message.device = device →
      ({ message with stage } : Message).past = false) : (w.advance i stage).Out device where
  access := h.access
  desk := h.desk
  messages message hmessage hdevice := by
    obtain ⟨j, hj⟩ := List.mem_iff_getElem?.mp hmessage
    have hj : (w.messages.modify i _)[j]? = some message := hj
    rw [List.getElem?_modify, Option.map_eq_map, Option.map_eq_some_iff] at hj
    obtain ⟨earlier, hearlier, rfl⟩ := hj
    by_cases heq : i = j
    · rw [if_pos heq] at hdevice ⊢
      exact hstage earlier (heq ▸ hearlier) hdevice
    · rw [if_neg heq] at hdevice ⊢
      exact h.messages earlier (List.mem_of_getElem? hearlier) hdevice

/-- Nothing of the password matters. -/
theorem AccessWorld.Out.lock (h : w.Out device) (lock : Access.SessionLock) :
    AccessWorld.Out { w with lock } device := ⟨h.access, h.messages, h.desk⟩

theorem AccessWorld.Out.desked (h : w.Out device) {desk : Desk P} (hdesk : desk.Silent device) :
    AccessWorld.Out { w with desk } device := ⟨h.access, h.messages, hdesk⟩

/-- A message that is past the check is of another phone. -/
theorem AccessWorld.Out.other (h : w.Out device) (hmessage : w.messages[i]? = some message)
    (hpast : message.past = true) : message.device ≠ device := by
  intro heq
  have hnot := h.messages message (List.mem_of_getElem? hmessage) heq
  rw [hpast] at hnot
  cases hnot

/-- The message of another phone may come to any stage. -/
theorem AccessWorld.Out.advance_other (h : w.Out device) (hmessage : w.messages[i]? = some message)
    (hother : message.device ≠ device) (stage : Stage) : (w.advance i stage).Out device := by
  refine h.advance (fun message' hmessage' hdevice => ?_)
  rw [hmessage, Option.some.injEq] at hmessage'
  exact absurd (hmessage' ▸ hdevice) hother

/-- So it may with a password check. -/
theorem AccessWorld.Out.locked_other (h : w.Out device) (hmessage : w.messages[i]? = some message)
    (hother : message.device ≠ device) (lock : Access.SessionLock) (stage : Stage) :
    (AccessWorld.advance { w with lock } i stage).Out device :=
  (h.lock lock).advance_other hmessage hother stage

theorem ask_out (h : w.Out device) (hmessage : w.messages[i]? = some message)
    (hother : message.device ≠ device) (stored : Option Access.PasswordHash) :
    (w.ask hashing i message stored).Out device := by
  unfold AccessWorld.ask
  split
  · exact h.advance_other hmessage hother _
  · dsimp only
    split
    · exact h.locked_other hmessage hother _ _
    · exact h.locked_other hmessage hother _ _
    · exact h.locked_other hmessage hother _ _

theorem answer_out (h : w.Out device) (hmessage : w.messages[i]? = some message)
    (hother : message.device ≠ device) (correct : Bool) (epoch : Nat) :
    (w.answer hashing i message correct epoch).Out device := by
  unfold AccessWorld.answer
  dsimp only
  split
  · exact h.locked_other hmessage hother _ _
  · exact h.locked_other hmessage hother _ _

theorem step_out (h : w.Out device) (hmessage : w.messages[i]? = some message) :
    (w.step vt hashing i message).Out device := by
  have hdone {w' : AccessWorld P} (h' : w'.Out device) : (w'.advance i .done).Out device :=
    h'.advance (fun _ _ _ => rfl)
  unfold AccessWorld.step
  split
  · -- The access check: of the phone, the message does not pass.
    refine h.advance (fun message' hmessage' hdevice => ?_)
    rw [hmessage, Option.some.injEq] at hmessage'
    subst hmessage'
    have hdenied : w.terminalAccessAllowed message.device = false := by
      rw [hdevice]
      exact decide_eq_false h.access
    unfold Message.afterAccess Message.past
    rw [hdenied]
    cases message.request <;> rfl
  · exact hdone (h.desked (after_silent h.desk rfl))
  · rename_i hstage
    exact h.advance_other hmessage (h.other hmessage (by unfold Message.past; rw [hstage])) _
  · rename_i hstage
    exact ask_out h hmessage (h.other hmessage (by unfold Message.past; rw [hstage])) _
  · rename_i hstage
    exact answer_out h hmessage (h.other hmessage (by unfold Message.past; rw [hstage])) _ _
  · exact hdone (h.desked (after_silent h.desk rfl))
  · -- The operation of another phone.
    rename_i hstage
    have hother := h.other hmessage (by unfold Message.past; rw [hstage])
    refine hdone (h.desked (after_silent h.desk ?_))
    unfold Message.operation
    split <;> exact decide_eq_false hother
  · exact h

/-- Every move but a grant keeps the phone out. -/
theorem after_out (h : w.Out device) {move : AccessMove} (hgrant : move.grants device = false) :
    (w.after vt hashing move).Out device := by
  cases move with
  | arrive wire request =>
    refine ⟨h.access, fun message hmessage hdevice => ?_, h.desk⟩
    rcases List.mem_append.mp hmessage with hold | hnew
    · exact h.messages message hold hdevice
    · rw [List.mem_singleton.mp hnew]
      rfl
  | step i =>
    cases hmessage : w.messages[i]? with
    | none =>
      simp only [AccessWorld.after, hmessage]
      exact h
    | some message =>
      simp only [AccessWorld.after, hmessage]
      exact step_out h hmessage
  | setAccess device' allowed saved =>
    show AccessWorld.Out (if allowed && saved then _ else _) device
    by_cases hon : (allowed && saved) = true
    · rw [if_pos hon]
      refine ⟨fun hmem => ?_, h.messages, h.desk⟩
      rcases List.mem_cons.mp hmem with heq | hmem
      · simp only [AccessMove.grants, heq, decide_true, Bool.true_and, hon] at hgrant
        cases hgrant
      · exact h.access hmem
    · rw [if_neg hon]
      exact ⟨fun hmem => h.access (List.mem_of_mem_filter hmem), h.messages, h.desk⟩
  | desk op =>
    show AccessWorld.Out (if op.ofMessage then w else _) device
    by_cases hop : op.ofMessage = true
    · rw [if_pos hop]
      exact h
    · rw [if_neg hop]
      refine h.desked (after_silent h.desk ?_)
      cases op <;> first | rfl | exact absurd rfl hop
  | announce id wanting =>
    refine h.desked (after_silent h.desk (decide_eq_false (fun hmem => ?_)))
    have htold := of_decide_eq_true (List.mem_filter.mp hmem).2
    exact h.access (of_decide_eq_true htold.1)
  | setPassword password => exact ⟨h.access, h.messages, h.desk⟩
  | relockAll => exact h.lock _
  | forgetUnlock device' => exact h.lock _
  | wait elapsed => exact ⟨h.access, h.messages, h.desk⟩

/-- A revocation of an idle phone puts it out. -/
theorem revoke_out (hoff : device ∉ w.access) (hidle : w.Idle (.desk (.revokeDevice device))) :
    (w.after vt hashing (.desk (.revokeDevice device))).Out device where
  access := hoff
  messages := hidle.1
  desk := {
    bridge := by
      intro bridge hbridge
      have hbridge : (w.desk.cutOff vt device terminalNotAllowed).bridges[device]? = some bridge :=
        hbridge
      unfold Desk.cutOff at hbridge
      split at hbridge
      · rename_i before _
        have hput : (w.desk.bridges.insert device _)[device]? = some bridge := hbridge
        rw [getElem?_keyInsert, if_pos rfl, Option.some.injEq] at hput
        rw [← hput]
        exact finishWith_bare _ _
      · rename_i hnone
        have hbridge : w.desk.bridges[device]? = some bridge := hbridge
        rw [hnone] at hbridge
        cases hbridge
    pumps := by
      intro token thread hthread hdevice
      have hthread : (w.desk.cutOff vt device terminalNotAllowed).pumps[token]? = some thread :=
        hthread
      have hsame : (w.desk.cutOff vt device terminalNotAllowed).pumps = w.desk.pumps := by
        unfold Desk.cutOff
        split <;> rfl
      rw [hsame] at hthread
      exact hidle.2 (token, thread) (Std.ExtTreeMap.mem_toList_iff_getElem?_eq_some.mpr hthread) hdevice }

/-- A phone that is out gets nothing done, and is sent notices. -/
theorem AccessWorld.Out.quiet (h : w.Out device) (move : AccessMove) :
    w.operates device move = none ∧
      ∀ event ∈ w.sends device move, event.isNotice = true := by
  refine ⟨?_, fun event hevent => ?_⟩
  · cases move with
    | step i =>
      simp only [AccessWorld.operates]
      cases hmessage : w.messages[i]? with
      | none => rfl
      | some message =>
        dsimp only
        refine if_neg (fun hboth => ?_)
        have hpast : message.past = true := by
          unfold Message.past
          rw [hboth.1]
        exact h.other hmessage hpast hboth.2
    | _ => rfl
  · unfold AccessWorld.sends at hevent
    split at hevent
    · split at hevent
      · rename_i thread hthread
        split at hevent
        · rename_i hdevice
          exact h.desk.pumps _ thread hthread hdevice event (List.mem_of_head? hevent)
        · cases hevent
      · cases hevent
    · cases hevent

end Moves

/-! ### Runs -/

/-- The world after a run of moves. -/
def AccessWorld.run (vt : Vt100 P) (hashing : Access.Hashing) (moves : List AccessMove) :
    AccessWorld P := Lib.applyAll (AccessWorld.after vt hashing) {} moves

/-- Every run in which phones are revoked while idle: after a phone was
revoked with its access off, and as long as it is not granted again, no move
carries out a request of the phone, and what is sent to it are notices. -/
theorem revoked_stays_out (moves : List AccessMove)
    (hidle : Lib.Alongside (AccessWorld.after vt hashing) AccessWorld.Idle ({} : AccessWorld P)
      moves)
    (before between rest : List AccessMove) (next : AccessMove) (device : String)
    (hmoves : moves = before ++ .desk (.revokeDevice device) :: (between ++ next :: rest))
    (hoff : device ∉ (AccessWorld.run vt hashing before : AccessWorld P).access)
    (hgrant : ∀ move ∈ between, move.grants device = false) :
    (AccessWorld.run vt hashing (before ++ .desk (.revokeDevice device) :: between)
        : AccessWorld P).operates device next = none ∧
      ∀ event ∈ (AccessWorld.run vt hashing (before ++ .desk (.revokeDevice device) :: between)
        : AccessWorld P).sends device next, event.isNotice = true := by
  rw [hmoves, Lib.alongside_append] at hidle
  refine AccessWorld.Out.quiet ?_ next
  unfold AccessWorld.run
  rw [Lib.applyAll_append, Lib.applyAll_cons]
  -- Out right after the revocation, and kept by what comes between.
  have hout : Lib.AllAlong (AccessWorld.after vt hashing) (fun w => w.Out device)
      ((AccessWorld.run vt hashing before).after vt hashing (.desk (.revokeDevice device)))
      between := by
    refine Lib.allAlong_of_forall (revoke_out hoff hidle.2.1) ?_
    intro move hmove w hout
    exact after_out hout (hgrant move hmove)
  exact hout.last

instance (w : AccessWorld P) : (move : AccessMove) → Decidable (w.Idle move)
  | .desk (.revokeDevice device) => inferInstanceAs (Decidable
      ((∀ message ∈ w.messages, message.device = device → message.past = false) ∧
        ∀ entry ∈ w.desk.pumps.toList, entry.2.device = device →
          ∀ event ∈ entry.2.sending, event.isNotice = true))
  | .desk (.begin ..) | .desk (.finish ..) | .desk (.control ..) | .desk (.chunk ..)
  | .desk (.refuse ..) | .desk (.pump ..) | .desk (.send ..) | .desk (.endDeviceSessions ..)
  | .desk (.sweep ..) | .desk (.announceFinished ..) | .desk (.deskCreate ..)
  | .desk (.deskClose ..) | .desk (.happens ..) => .isTrue trivial
  | .arrive .. | .step .. | .setAccess .. | .announce .. | .setPassword .. | .relockAll
  | .forgetUnlock .. | .wait .. => .isTrue trivial

/-- Hash functions for runs in which no password is set. -/
def noHashing : Access.Hashing where
  derive _ _ _ := none
  digest _ := []

def attachRequest : Request :=
  .control { action := .attach, terminalId := some 0 } .usable (.ok ())

/-- A phone with access asks to attach to the desk's session, and its
message passes the checks. -/
def askingMoves : List AccessMove :=
  [.desk (.begin phoneWire), .desk (.deskCreate 24 80 (.ok ())), .setAccess "phone" true true,
    .arrive phoneWire attachRequest, .step 0, .step 0, .step 0]

/-- The phone is attached when its access is turned off. It asks again, and
is refused. -/
theorem revoked_stays_out_attached :
    Lib.Alongside (AccessWorld.after blankScreen noHashing) AccessWorld.Idle {}
      (askingMoves ++ [AccessMove.step 0, .setAccess "phone" false true, .desk (.revokeDevice "phone"),
        .arrive phoneWire attachRequest, .step 1, .step 1]) ∧
      AccessWorld.operates
        (AccessWorld.run blankScreen noHashing (askingMoves ++ [AccessMove.step 0, .setAccess "phone" false true,
          .desk (.revokeDevice "phone"), .arrive phoneWire attachRequest, .step 1]))
        "phone" (.step 1) = none := by
  have hidle : Lib.Alongside (AccessWorld.after blankScreen noHashing) AccessWorld.Idle {}
      (askingMoves ++ [AccessMove.step 0, .setAccess "phone" false true, .desk (.revokeDevice "phone"),
        .arrive phoneWire attachRequest, .step 1, .step 1]) := by
    decide +kernel
  exact ⟨hidle, (revoked_stays_out _ hidle
    (askingMoves ++ [AccessMove.step 0, .setAccess "phone" false true])
    [.arrive phoneWire attachRequest, .step 1] [] (.step 1) "phone" rfl (by decide +kernel)
    (by decide +kernel)).1⟩

/-- The message is past its checks when the access is turned off and the
phone is revoked. It attaches all the same, and is sent the output. -/
theorem revoked_attaches :
    "phone" ∉ (AccessWorld.run blankScreen noHashing
        (askingMoves ++ [AccessMove.setAccess "phone" false true])).access ∧
      (AccessWorld.operates
        (AccessWorld.run blankScreen noHashing (askingMoves ++
          [AccessMove.setAccess "phone" false true, .desk (.revokeDevice "phone")]))
        "phone" (.step 0)).isSome ∧
      AccessWorld.sends
        (AccessWorld.run blankScreen noHashing (askingMoves ++
          [AccessMove.setAccess "phone" false true, .desk (.revokeDevice "phone"), .step 0,
            .desk (.happens [(0, .output [104, 105])]), .desk (.pump 1 65536 [0] []),
            .desk (.send 1), .desk (.send 1), .desk (.send 1), .desk (.send 1)]))
        "phone" (.desk (.send 1))
        = some (.sendChunk
            { kind := .output, terminalId := 0, offset := 0, data := [104, 105] }) := by
  decide +kernel

end DeskLink.Terminal
