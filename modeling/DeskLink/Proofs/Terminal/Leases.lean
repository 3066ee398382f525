import DeskLink.Lib.Unwind
import DeskLink.Proofs.Terminal.Registry
import DeskLink.Proofs.Terminal.Sessions

/-!
# `DeskLink.Proofs.Terminal.Leases`: leases belong to attached devices

Attachments are in the bridges, leases and owners in the registry, size
claims in the sessions. `Desk.Sound` is what keeps the first two in
agreement: a writer is attached, and whatever has an owner, a writer or a
reader is still there for it.

One operation changes one bridge. `Held.Next` is the step it takes, with
the attachments of the other devices left free; `Desk.Sound` follows from it
for every step at the desk (`after_sound`).

A size claim is given back with the attachment, so a phone that holds the
claim on a session it is not attached to keeps it. `create` claims the size
without attaching. `Desk.Tidy` is what a step has to be like: a phone that
is cut off is attached to every running session whose size it claims.
`leases_kept` is what then holds along every run.
-/

set_option autoImplicit false

namespace DeskLink.Terminal

variable {P : Type} {vt : Vt100 P}

/-! ### One bridge -/

/-- Who is attached to what, as an operation on one bridge sees it. -/
def Held.attachedBy (held : Held P) (other : String → Nat → Prop) (device : String) (id : Nat) :
    Prop :=
  (device = held.device ∧ (held.bridge.attached[id]?).isSome) ∨
    (device ≠ held.device ∧ other device id)

/-- The registry is kept, and what is attached exists. -/
structure Held.Kept (held : Held P) (other : String → Nat → Prop) : Prop where
  registry : held.registry.Kept held.all.length (held.attachedBy other)
  reach : ∀ id, (held.bridge.attached[id]?).isSome → id < held.all.length

/-- A step of an operation: the bridge serves the same connection, and the
invariant is kept. -/
structure Held.Next (other : String → Nat → Prop) (held held' : Held P) : Prop where
  wire : held'.bridge.wire = held.bridge.wire
  token : held'.bridge.token = held.bridge.token
  grows : held.all.length ≤ held'.all.length
  kept : held.Kept other → held'.Kept other

section OneBridge

variable {other : String → Nat → Prop} {held held' held'' : Held P} {id : Nat}

theorem Held.Next.refl : Held.Next other held held := ⟨rfl, rfl, le_rfl, id⟩

theorem Held.Next.trans (h : Held.Next other held held') (h' : Held.Next other held' held'') :
    Held.Next other held held'' :=
  ⟨h'.wire.trans h.wire, h'.token.trans h.token, h.grows.trans h'.grows,
    fun hkept => h'.kept (h.kept hkept)⟩

/-- A step that changes neither the registry nor what is attached, nor
starts a session. -/
theorem Held.Next.of_like (hwire : held'.bridge.wire = held.bridge.wire)
    (htoken : held'.bridge.token = held.bridge.token)
    (hattached : ∀ id : Nat,
      (held'.bridge.attached[id]?).isSome = (held.bridge.attached[id]?).isSome)
    (hregistry : held'.registry = held.registry) (hlength : held'.all.length = held.all.length) :
    Held.Next other held held' := by
  have hdevice : held'.device = held.device := congrArg WireBinding.peerDeviceId hwire
  have hsame : held'.attachedBy other = held.attachedBy other := by
    funext device id
    unfold Held.attachedBy
    rw [hdevice, hattached]
  refine ⟨hwire, htoken, hlength.ge, fun hkept => ⟨?_, fun id hid => ?_⟩⟩
  · rw [hregistry, hlength, hsame]
    exact hkept.registry
  · rw [hlength]
    exact hkept.reach id (by rwa [← hattached id])

theorem queue_next (events : List TerminalEvent) :
    Held.Next other held (held.queue events).1 := by
  unfold Held.queue TerminalBridge.queue
  dsimp only
  split
  · exact .refl
  · exact .of_like rfl rfl (fun _ => rfl) rfl rfl

theorem refuse_next (terminalId : Option Nat) (message : String) :
    Held.Next other held (held.refuse terminalId message) := queue_next _

theorem modify_next (id : Nat) (change : PtySession P → PtySession P) :
    Held.Next other held (held.modify id change) :=
  .of_like rfl rfl (fun _ => rfl) rfl (List.length_modify ..)

/-- Changing an attachment attaches and detaches nothing. -/
theorem isSome_modify (attached : IdMap Attachment) (id id' : Nat)
    (change : Attachment → Attachment) :
    ((attached.modify id change)[id']?).isSome = (attached[id']?).isSome := by
  rw [Std.ExtTreeMap.getElem?_modify]
  split
  · rename_i heq
    rw [Nat.compare_eq_eq.mp heq, Option.isSome_map]
  · rfl

theorem tellAgain_next (id : Nat) : Held.Next other held (held.tellAgain id) :=
  .of_like rfl rfl (fun _ => isSome_modify ..) rfl rfl

theorem sessionsEvent_next : Held.Next other held held.sessionsEvent.1 :=
  ⟨rfl, rfl, le_rfl, fun hkept => ⟨hkept.registry.reap held.all, hkept.reach⟩⟩

/-- The list is queued, with what goes with it. -/
theorem listed_next (before after : List TerminalEvent) :
    Held.Next other held
      (held.sessionsEvent.1.queue (before ++ held.sessionsEvent.2 :: after)).1 :=
  sessionsEvent_next.trans (queue_next _)

theorem length_createIn_le (registry : TerminalRegistry) (all : Sessions P) (owner : String)
    (rows cols : Nat) (spawned : Except String Unit) :
    all.length ≤ (registry.createIn vt all owner rows cols spawned).2.1.length := by
  unfold TerminalRegistry.createIn
  dsimp only
  split
  · exact le_rfl
  · split
    · exact le_rfl
    · cases spawned with
      | error message => exact le_rfl
      | ok _ => simp

theorem handleCreate_next (control : TerminalControl) (start : Start)
    (spawned : Except String Unit) :
    Held.Next other held (held.handleCreate vt control start spawned).1 := by
  cases start with
  | bad => exact refuse_next ..
  | usable =>
    let made := held.registry.createIn vt held.all held.device (control.rows.getD 24)
      (control.cols.getD 80) spawned
    have hmade : Held.Next other held { held with registry := made.1, all := made.2.1 } := by
      refine ⟨rfl, rfl, length_createIn_le .., fun hkept => ?_⟩
      refine ⟨hkept.registry.createIn .., fun id hid => ?_⟩
      exact Nat.lt_of_lt_of_le (hkept.reach id hid) (length_createIn_le ..)
    refine hmade.trans ?_
    simp only [Held.handleCreate]
    split
    · exact refuse_next ..
    · exact (modify_next _ _).trans (listed_next [_] [])

/-- A new attachment comes with the lease, if the lease is free. -/
theorem Held.Kept.attach (hkept : held.Kept other) (hid : id < held.all.length)
    (attachment : Attachment) : Held.Kept
      { held with
        registry := (held.registry.claimWriter id held.device).1
        bridge :=
          { held.bridge with attached := held.bridge.attached.insert id attachment } } other := by
  have hsome (id' : Nat) : ((held.bridge.attached.insert id attachment)[id']?).isSome ↔
      id = id' ∨ (held.bridge.attached[id']?).isSome := by
    rw [getElem?_idInsert]
    by_cases heq : id = id' <;> simp [heq]
  refine ⟨TerminalRegistry.Kept.claimWriter ?_ (.inl ⟨rfl, (hsome id).mpr (.inl rfl)⟩), ?_⟩
  · refine hkept.registry.mono le_rfl (fun id' device _ hthere => ?_)
    exact hthere.imp (fun h => ⟨h.1, (hsome id').mpr (.inr h.2)⟩) (fun h => h)
  · intro id' hid'
    obtain rfl | hthere := (hsome id').mp hid'
    · exact hid
    · exact hkept.reach id' hthere

theorem get_lt (hkept : held.Kept other) {s : PtySession P}
    (hget : held.registry.get held.all id = some s) : id < held.all.length := by
  unfold TerminalRegistry.get at hget
  split at hget
  · rename_i hlisted
    exact hkept.registry.lt id hlisted
  · cases hget

theorem handleAttach_next (control : TerminalControl) :
    Held.Next other held (held.handleAttach vt control).1 := by
  unfold Held.handleAttach
  cases control.terminalId with
  | none => exact .refl
  | some id =>
    dsimp only
    cases hget : held.registry.get held.all id with
    | none => exact refuse_next ..
    | some s =>
      dsimp only
      -- The list, the screen and the reply are queued first.
      generalize Held.openingEvents _ id s _ = events
      have hqueued : Held.Next other held (held.sessionsEvent.1.queue events).1 :=
        sessionsEvent_next.trans (queue_next events)
      split
      · exact hqueued.trans (refuse_next ..)
      · refine ⟨hqueued.wire, hqueued.token, hqueued.grows, fun hkept => ?_⟩
        have hlength : (held.sessionsEvent.1.queue events).1.all.length = held.all.length := rfl
        have hattached := (hqueued.kept hkept).attach
          (Nat.lt_of_lt_of_eq (get_lt hkept hget) hlength.symm)
        have hdevice : (held.sessionsEvent.1.queue events).1.device = held.device :=
          congrArg WireBinding.peerDeviceId hqueued.wire
        rw [hdevice] at hattached
        exact hattached _

/-- What is detached gives its lease back. -/
theorem Held.Kept.detach (hkept : held.Kept other) (id : Nat) :
    Held.Kept
      { held with
        registry := held.registry.releaseTerminalWriter id held.device
        bridge := { held.bridge with attached := held.bridge.attached.erase id } } other := by
  have hsome (id' : Nat) : ((held.bridge.attached.erase id)[id']?).isSome ↔
      id ≠ id' ∧ (held.bridge.attached[id']?).isSome := by
    rw [getElem?_idErase]
    by_cases heq : id = id' <;> simp [heq]
  refine ⟨hkept.registry.releaseTerminalWriter (fun id' device hne hthere => ?_), ?_⟩
  · obtain ⟨hdevice, hthere⟩ | hthere := hthere
    · refine .inl ⟨hdevice, (hsome id').mpr ⟨fun heq => hne ⟨heq.symm, hdevice⟩, hthere⟩⟩
    · exact .inr hthere
  · intro id' hid'
    exact hkept.reach id' ((hsome id').mp hid').2

/-- Changing sessions changes nothing else. -/
theorem Held.Kept.modify (hkept : held.Kept other) (id : Nat)
    (change : PtySession P → PtySession P) : (held.modify id change).Kept other :=
  (modify_next id change).kept hkept

theorem handleDetach_next (control : TerminalControl) :
    Held.Next other held (held.handleDetach vt control).1 := by
  unfold Held.handleDetach
  cases control.terminalId with
  | none => exact .refl
  | some id =>
    dsimp only
    cases held.bridge.attached[id]? with
    | none => exact ⟨rfl, rfl, le_rfl, fun hkept => hkept.detach id⟩
    | some attachment =>
      exact ⟨rfl, rfl, (List.length_modify ..).ge, fun hkept => (hkept.modify id _).detach id⟩

theorem handleClose_next (control : TerminalControl) :
    Held.Next other held (held.handleClose control).1 := by
  unfold Held.handleClose
  cases control.terminalId with
  | none => exact .refl
  | some id =>
    refine Held.Next.trans ?_ (listed_next [_] [])
    have hsome (id' : Nat) : ((held.bridge.attached.erase id)[id']?).isSome ↔
        id ≠ id' ∧ (held.bridge.attached[id']?).isSome := by
      rw [getElem?_idErase]
      by_cases heq : id = id' <;> simp [heq]
    have hlength : (held.registry.close held.all id).2.length = held.all.length := by
      unfold TerminalRegistry.close
      dsimp only
      split
      · exact List.length_modify ..
      · rfl
    refine ⟨rfl, rfl, hlength.ge, fun hkept => ⟨?_, fun id' hid' => ?_⟩⟩
    · show TerminalRegistry.Kept _ (held.registry.close held.all id).2.length _
      rw [hlength]
      refine hkept.registry.forget id (fun id' device hne hthere => ?_)
      exact hthere.imp (fun h => ⟨h.1, (hsome id').mpr ⟨hne.symm, h.2⟩⟩) (fun h => h)
    · show id' < (held.registry.close held.all id).2.length
      rw [hlength]
      exact hkept.reach id' ((hsome id').mp hid').2

theorem resizeAttached_next (id : Nat) (s : PtySession P) (rows cols : Nat)
    (claimSize : Option Bool) :
    Held.Next other held (held.resizeAttached vt id s rows cols claimSize).1 := by
  unfold Held.resizeAttached
  dsimp only
  split
  · exact modify_next ..
  · exact (modify_next ..).trans (tellAgain_next id)
  · split
    · exact modify_next ..
    · exact modify_next ..
    · exact (modify_next ..).trans (tellAgain_next id)
  · exact tellAgain_next id

theorem handleResize_next (control : TerminalControl) :
    Held.Next other held (held.handleResize vt control).1 := by
  unfold Held.handleResize
  split
  · exact .refl
  · split
    · split
      · refine Held.Next.trans ?_ (resizeAttached_next ..)
        exact .of_like rfl rfl (fun _ => isSome_modify ..) rfl rfl
      · exact .refl
    · exact .refl

theorem handleControlIn_next (control : TerminalControl) (start : Start)
    (spawned : Except String Unit) :
    Held.Next other held (held.handleControlIn vt control start spawned).1 := by
  unfold Held.handleControlIn
  split
  · exact listed_next [] []
  · exact handleCreate_next ..
  · exact handleAttach_next control
  · exact handleDetach_next control
  · exact handleClose_next control
  · exact handleResize_next control
  all_goals exact .refl

theorem typeInto_next (id : Nat) (attachment : Attachment) (s : PtySession P)
    (data : List UInt8) : Held.Next other held (held.typeInto vt id attachment s data) := by
  unfold Held.typeInto
  generalize (held.sizedFor vt attachment s).writeInput data = written
  have hwritten : Held.Next other held (held.modify id (fun _ => written.1)) := modify_next ..
  dsimp only
  split
  · exact hwritten.trans (.of_like rfl rfl (fun _ => rfl) rfl rfl)
  · split
    · exact hwritten
    · refine Held.Next.trans (hwritten.trans ?_) (refuse_next ..)
      exact .of_like rfl rfl (fun _ => rfl) rfl rfl

theorem handleChunk_next (chunk : TerminalChunk) :
    Held.Next other held (held.handleChunk vt chunk).1 := by
  unfold Held.handleChunk
  split
  · exact .refl
  · split
    · rename_i attachment s hattached _
      dsimp only
      split
      · refine Held.Next.trans ?_ (typeInto_next ..)
        refine ⟨rfl, rfl, le_rfl, fun hkept => ⟨hkept.registry.claimWriter ?_, hkept.reach⟩⟩
        exact .inl ⟨rfl, by rw [hattached]; rfl⟩
      · exact .refl
    · exact .refl

/-! ### The pump -/

theorem length_happen (all : Sessions P) (moment : Moment) :
    (happen vt all moment).length = all.length := by
  unfold happen
  induction moment generalizing all with
  | nil => rfl
  | cons event moment ih => rw [List.foldl_cons, ih, List.length_modify]

variable {p : Pumping P}

theorem look_next : Held.Next other p.held (p.look vt).held :=
  .of_like rfl rfl (fun _ => rfl) rfl (length_happen ..)

theorem setAttachment_next (id : Nat) (change : Attachment → Attachment) :
    Held.Next other p.held (p.setAttachment id change).held :=
  .of_like rfl rfl (fun _ => isSome_modify ..) rfl rfl

theorem drain_next (outbox : List TerminalEvent) :
    Held.Next other p.held (Pumping.drain outbox p).held := by
  induction outbox generalizing p with
  | nil => exact .refl
  | cons event outbox ih =>
    unfold Pumping.drain
    split
    · exact .refl
    · refine Held.Next.trans ?_ ih
      exact .of_like rfl rfl (fun _ => rfl) rfl rfl

theorem tellSize_next (id : Nat) (attachment : Attachment) :
    Held.Next other p.held (p.tellSize vt id attachment).held := by
  have hlooked : Held.Next other p.held (((p.look vt).look vt).look vt).held :=
    (look_next.trans look_next).trans look_next
  unfold Pumping.tellSize
  dsimp only
  split
  · split
    · exact hlooked
    · show Held.Next other p.held (Pumping.look vt (Pumping.setAttachment _ id _)).held.sessionsEvent.1
      exact hlooked.trans ((setAttachment_next id _).trans (look_next.trans sessionsEvent_next))
  · exact hlooked

theorem stream_next (id head fuel next : Nat) :
    Held.Next other p.held (p.stream vt id head fuel next).1.held := by
  induction fuel generalizing p next with
  | zero => exact .refl
  | succ fuel ih =>
    unfold Pumping.stream
    split
    · exact .refl
    · dsimp only
      have hlooked : Held.Next other p.held (p.look vt).held := look_next
      refine hlooked.trans ?_
      split
      · split
        · exact .refl
        · rename_i start data _ _
          exact @ih
            { p.look vt with
              remaining := (p.look vt).remaining - data.length
              events := (p.look vt).events ++
                [.sendChunk { kind := .output, terminalId := id, offset := start, data }] }
            (start + data.length)
      · split
        · exact queue_next ..
        · exact .refl
      · exact .refl

theorem conclude_next (id : Nat) (finished : Option Nat) (closed : Bool) :
    Held.Next other p.held (p.conclude id finished closed).held := by
  refine ⟨rfl, rfl, le_rfl, fun hkept => ?_⟩
  have hdetached := hkept.detach id
  exact ⟨hdetached.registry, hdetached.reach⟩

theorem pumpTerminal_next (id : Nat) :
    Held.Next other p.held (p.pumpTerminal vt id).held := by
  unfold Pumping.pumpTerminal
  split
  · exact .refl
  · rename_i attachment _
    dsimp only
    have hlooked : Held.Next other p.held
        (((p.tellSize vt id attachment).look vt).look vt).held :=
      (tellSize_next id attachment).trans (look_next.trans look_next)
    generalize ((p.tellSize vt id attachment).look vt).look vt = q at hlooked ⊢
    have hstreamed : Held.Next other p.held
        (q.stream vt id (((q.session id).map PtySession.head).getD 0) q.remaining
          attachment.next).1.held := hlooked.trans (stream_next ..)
    split
    · exact hstreamed.trans (conclude_next ..)
    · exact hstreamed.trans (setAttachment_next ..)

theorem pumpAll_next (ids : List Nat) :
    Held.Next other p.held (Pumping.pumpAll vt ids p).held := by
  induction ids generalizing p with
  | nil => exact .refl
  | cons id ids ih =>
    unfold Pumping.pumpAll
    split
    · exact .refl
    · exact (pumpTerminal_next id).trans ih

theorem pump_next (budget : Nat) (order : List Nat) (script : Script) :
    Held.Next other held (held.pump vt budget order script).1 := by
  have hdrained : Held.Next other held
      (Pumping.drain held.bridge.outbox { held, script, remaining := budget }).held :=
    @drain_next P other { held, script, remaining := budget } held.bridge.outbox
  unfold Held.pump
  dsimp only
  split
  · exact hdrained
  · exact hdrained.trans (pumpAll_next _)

/-! ### Cutting a device off -/

theorem length_releaseClaims : (held.releaseClaims vt).length = held.all.length := by
  unfold Held.releaseClaims
  generalize held.all = all
  induction held.bridge.attached.keys generalizing all with
  | nil => rfl
  | cons id ids ih => rw [List.foldl_cons, ih, List.length_modify]

theorem wire_foldl_queueAlways (events : List TerminalEvent) (bridge : TerminalBridge) :
    (events.foldl TerminalBridge.queueAlways bridge).wire = bridge.wire ∧
      (events.foldl TerminalBridge.queueAlways bridge).token = bridge.token ∧
      (events.foldl TerminalBridge.queueAlways bridge).attached = bridge.attached := by
  induction events generalizing bridge with
  | nil => exact ⟨rfl, rfl, rfl⟩
  | cons event events ih => exact ih (bridge.queueAlways event)

/-- A device that is attached to nothing has no lease to lose. -/
theorem Held.Kept.cut (hkept : held.Kept other) {bridge : TerminalBridge}
    (hwire : bridge.wire = held.bridge.wire) (hattached : bridge.attached = {}) {all : Sessions P}
    (hlength : all.length = held.all.length) :
    Held.Kept { bridge, all, registry := held.registry.releaseWriter held.device } other where
  registry := by
    have hdevice : Held.device { bridge, all, registry := held.registry.releaseWriter held.device }
        = held.device := congrArg WireBinding.peerDeviceId hwire
    show TerminalRegistry.Kept _ all.length _
    rw [hlength]
    refine hkept.registry.releaseWriter (fun id device hne hthere => ?_)
    obtain ⟨heq, -⟩ | ⟨-, hthere⟩ := hthere
    · exact absurd heq hne
    · exact .inr ⟨by rw [hdevice]; exact hne, hthere⟩
  reach id hid := by
    have hid : (bridge.attached[id]?).isSome := hid
    rw [hattached] at hid
    simp at hid

theorem detachAll_next : Held.Next other held (held.detachAll vt) where
  wire := rfl
  token := rfl
  grows := length_releaseClaims.ge
  kept hkept :=
    hkept.cut (show (held.detachAll vt).bridge.wire = held.bridge.wire from rfl) rfl
      length_releaseClaims

theorem finishWith_next (reason : String) : Held.Next other held (held.finishWith vt reason) := by
  obtain ⟨hwire, htoken, hattached⟩ := wire_foldl_queueAlways
    (held.bridge.attached.keys.map (fun id => TerminalEvent.sendControl
      { action := .closed, terminalId := some id, error := some reason })
      ++ [errorEvent none reason])
    { held.bridge with attached := {}, outbox := [], outboxBytes := 0 }
  exact ⟨hwire, htoken, length_releaseClaims.ge,
    fun hkept => hkept.cut hwire hattached length_releaseClaims⟩

end OneBridge

/-! ### All the bridges -/

/-- The device's bridge is attached to the terminal. -/
def Desk.attachedTo (desk : Desk P) (device : String) (id : Nat) : Prop :=
  ∃ bridge, desk.bridges[device]? = some bridge ∧ (bridge.attached[id]?).isSome

/-- Leases, owners and attachments agree. -/
structure Desk.Sound (desk : Desk P) : Prop where
  registry : desk.registry.Kept desk.all.length desk.attachedTo
  reach : ∀ device id, desk.attachedTo device id → id < desk.all.length
  named : ∀ (device : String) (bridge : TerminalBridge),
    desk.bridges[device]? = some bridge → bridge.device = device

section AllBridges

variable {desk : Desk P} {device : String} {bridge : TerminalBridge} {held' : Held P}
variable {id : Nat} {op : DeskOp}

theorem sound_new : Desk.Sound ({} : Desk P) where
  registry := TerminalRegistry.kept_new
  reach device id h := by
    obtain ⟨bridge, hbridge, -⟩ := h
    simp at hbridge
  named device bridge h := by simp at h

/-- With the locks held, the bridge of the device is one of the two ways to
be attached. -/
theorem Desk.Sound.hold (h : desk.Sound) (hbridge : desk.bridges[device]? = some bridge)
    (elsewhere : List Nat) :
    (desk.hold { bridge with elsewhere }).Kept desk.attachedTo := by
  have hdevice : (desk.hold { bridge with elsewhere }).device = device := h.named device bridge hbridge
  refine ⟨h.registry.mono le_rfl (fun id device' _ hthere => ?_), fun id hid => ?_⟩
  · by_cases heq : device' = device
    · obtain ⟨bridge', hbridge', hthere⟩ := hthere
      rw [heq, hbridge, Option.some.injEq] at hbridge'
      exact .inl ⟨by rw [heq, hdevice], by rw [hbridge']; exact hthere⟩
    · exact .inr ⟨by rw [hdevice]; exact heq, hthere⟩
  · exact h.reach device id ⟨bridge, hbridge, hid⟩

theorem attachedTo_put {device' : String} : (desk.put device held').attachedTo device' id ↔
      (device' = device ∧ (held'.bridge.attached[id]?).isSome) ∨
        (device' ≠ device ∧ desk.attachedTo device' id) := by
  unfold Desk.attachedTo
  show (∃ bridge, (desk.bridges.insert device held'.bridge)[device']? = some bridge ∧ _) ↔ _
  rw [getElem?_keyInsert]
  by_cases heq : device = device'
  · simp [heq]
  · simp [heq, Ne.symm heq]

/-- What an operation leaves behind is put back. -/
theorem Desk.Sound.put (h : desk.Sound) (hdevice : held'.device = device)
    (hgrows : desk.all.length ≤ held'.all.length) (hkept : held'.Kept desk.attachedTo) :
    (desk.put device held').Sound where
  registry := by
    refine hkept.registry.mono le_rfl (fun id device' _ hthere => attachedTo_put.mpr ?_)
    obtain ⟨heq, hthere⟩ | ⟨hne, hthere⟩ := hthere
    · exact .inl ⟨by rw [heq, hdevice], hthere⟩
    · exact .inr ⟨by rw [← hdevice]; exact hne, hthere⟩
  reach device' id hthere := by
    obtain ⟨-, hthere⟩ | ⟨-, hthere⟩ := attachedTo_put.mp hthere
    · exact hkept.reach id hthere
    · exact Nat.lt_of_lt_of_le (h.reach device' id hthere) hgrows
  named device' bridge' hbridge' := by
    have hbridge' : (desk.bridges.insert device held'.bridge)[device']? = some bridge' := hbridge'
    rw [getElem?_keyInsert] at hbridge'
    by_cases heq : device = device'
    · rw [if_pos heq, Option.some.injEq] at hbridge'
      rw [← hbridge', ← heq]
      exact hdevice
    · rw [if_neg heq] at hbridge'
      exact h.named device' bridge' hbridge'

/-- An operation on the bridge of a device. -/
theorem Desk.Sound.operate (h : desk.Sound) (hbridge : desk.bridges[device]? = some bridge)
    (elsewhere : List Nat)
    (hnext : Held.Next desk.attachedTo (desk.hold { bridge with elsewhere }) held') :
    (desk.put device held').Sound := by
  have hdevice : held'.device = device :=
    (congrArg WireBinding.peerDeviceId hnext.wire).trans (h.named device bridge hbridge)
  exact h.put hdevice hnext.grows (hnext.kept (h.hold hbridge elsewhere))

theorem withBridge_sound (h : desk.Sound) (wire : WireBinding)
    {operation : Held P → Held P × Except String Unit}
    (hoperation : ∀ held, Held.Next desk.attachedTo held (operation held).1) :
    (desk.withBridge wire operation).1.Sound := by
  unfold Desk.withBridge
  cases hbridge : desk.bridges[wire.peerDeviceId]? with
  | none => exact h
  | some bridge =>
    dsimp only
    split
    · exact h.operate hbridge _ (hoperation _)
    · exact h

/-- Nothing of the soundness is in the pump threads. -/
theorem Desk.Sound.pumps (h : desk.Sound) (pumps : IdMap PumpThread) (nextToken : Nat) :
    Desk.Sound { desk with pumps, nextToken } := ⟨h.registry, h.reach, h.named⟩

/-- A device without a bridge has no lease. -/
theorem Desk.Sound.no_writer (h : desk.Sound) (hbridge : desk.bridges[device]? = none) (id : Nat) :
    desk.registry.writers[id]? ≠ some device := by
  intro hwriter
  obtain ⟨bridge, hsome, -⟩ := h.registry.leased id device hwriter
  rw [hbridge] at hsome
  cases hsome

/-- The bridges of a desk, changed where nothing is written. -/
theorem Desk.Sound.rebridge (h : desk.Sound) {bridges : KeyMap TerminalBridge}
    (hattached : ∀ id device, desk.registry.writers[id]? = some device →
      desk.attachedTo device id → Desk.attachedTo { desk with bridges } device id)
    (hback : ∀ device id, Desk.attachedTo { desk with bridges } device id →
      desk.attachedTo device id)
    (hnamed : ∀ (device : String) (bridge : TerminalBridge),
      bridges[device]? = some bridge → bridge.device = device) :
    Desk.Sound { desk with bridges } where
  registry := h.registry.mono le_rfl hattached
  reach device id hthere := h.reach device id (hback device id hthere)
  named := hnamed

/-- A device that has no lease starts with nothing attached. -/
theorem Desk.Sound.insert_new (h : desk.Sound) (wire : WireBinding) (token : Nat)
    (hwriter : ∀ id : Nat, desk.registry.writers[id]? ≠ some wire.peerDeviceId) :
    Desk.Sound
      { desk with bridges := desk.bridges.insert wire.peerDeviceId { wire, token } } := by
  refine h.rebridge (fun id device hholder hthere => ?_) (fun device id hthere => ?_) ?_
  · obtain ⟨bridge, hbridge, hthere⟩ := hthere
    refine ⟨bridge, ?_, hthere⟩
    have hne : wire.peerDeviceId ≠ device := fun heq => hwriter id (heq ▸ hholder)
    rw [getElem?_keyInsert, if_neg hne]
    exact hbridge
  · obtain ⟨bridge, hbridge, hthere⟩ := hthere
    rw [getElem?_keyInsert] at hbridge
    split at hbridge
    · cases hbridge
      simp at hthere
    · exact ⟨bridge, hbridge, hthere⟩
  · intro device bridge hbridge
    rw [getElem?_keyInsert] at hbridge
    split at hbridge
    · rename_i heq
      cases hbridge
      exact heq
    · exact h.named device bridge hbridge

/-- A device that has no lease goes. -/
theorem Desk.Sound.erase (h : desk.Sound)
    (hwriter : ∀ id : Nat, desk.registry.writers[id]? ≠ some device) :
    Desk.Sound { desk with bridges := desk.bridges.erase device } := by
  have herase {device' : String} {bridge : TerminalBridge}
      (hbridge : (desk.bridges.erase device)[device']? = some bridge) :
      desk.bridges[device']? = some bridge := by
    rw [getElem?_keyErase] at hbridge
    split at hbridge
    · cases hbridge
    · exact hbridge
  refine h.rebridge (fun id device' hholder hthere => ?_) (fun device' id hthere => ?_) ?_
  · obtain ⟨bridge, hbridge, hthere⟩ := hthere
    refine ⟨bridge, ?_, hthere⟩
    have hne : device ≠ device' := fun heq => hwriter id (heq ▸ hholder)
    rw [getElem?_keyErase, if_neg hne]
    exact hbridge
  · obtain ⟨bridge, hbridge, hthere⟩ := hthere
    exact ⟨bridge, herase hbridge, hthere⟩
  · intro device' bridge hbridge
    exact h.named device' bridge (herase hbridge)

/-- A cut off device has no lease. -/
theorem releaseWriter_ne (registry : TerminalRegistry) (id : Nat) :
    (registry.releaseWriter device).writers[id]? ≠ some device :=
  fun hwriter => (TerminalRegistry.writers_releaseWriter.mp hwriter).2 rfl

theorem detachAll_sound (h : desk.Sound) (hbridge : desk.bridges[device]? = some bridge) :
    (desk.put device ((desk.hold bridge).detachAll vt)).Sound ∧
      ∀ id : Nat, ((desk.hold bridge).detachAll vt).registry.writers[id]? ≠ some device := by
  refine ⟨h.operate hbridge bridge.elsewhere detachAll_next, fun id => ?_⟩
  have hdevice : (desk.hold bridge).device = device := h.named _ _ hbridge
  rw [← hdevice]
  exact releaseWriter_ne desk.registry id

theorem begin_sound (h : desk.Sound) (wire : WireBinding) : (desk.begin vt wire).Sound := by
  unfold Desk.begin
  cases hbridge : desk.bridges[wire.peerDeviceId]? with
  | none => exact (h.insert_new wire _ (h.no_writer hbridge)).pumps _ _
  | some previous =>
    obtain ⟨hreleased, hwriter⟩ := @detachAll_sound P vt _ _ _ h hbridge
    exact (hreleased.insert_new wire _ hwriter).pumps _ _

theorem finish_sound (h : desk.Sound) (device : String) (token : Nat) :
    (desk.finish vt device token).Sound := by
  unfold Desk.finish
  cases hbridge : desk.bridges[device]? with
  | none => exact h
  | some bridge =>
    dsimp only
    split
    · obtain ⟨hreleased, hwriter⟩ := @detachAll_sound P vt _ _ _ h hbridge
      have herased := hreleased.erase hwriter
      -- The bridge is put back and then removed; the code removes it first.
      have hsame : (desk.bridges.insert device ((desk.hold bridge).detachAll vt).bridge).erase device
          = desk.bridges.erase device := by
        apply Std.ExtTreeMap.ext_getElem?
        intro device'
        by_cases heq : device = device' <;> simp [heq]
      have hbridges : (desk.put device ((desk.hold bridge).detachAll vt)).bridges.erase device
          = desk.bridges.erase device := hsame
      rw [hbridges] at herased
      exact herased
    · exact h

theorem pumpOnce_sound (h : desk.Sound) (device : String) (token budget : Nat) (order : List Nat)
    (script : Script) : (desk.pumpOnce vt device token budget order script).1.Sound := by
  unfold Desk.pumpOnce
  cases hbridge : desk.bridges[device]? with
  | none => exact h
  | some bridge =>
    dsimp only
    split
    · exact h.operate hbridge _ (pump_next ..)
    · exact h

theorem pumpThread_sound (h : desk.Sound) (token budget : Nat) (order : List Nat)
    (script : Script) : (desk.pumpThread vt token budget order script).Sound := by
  unfold Desk.pumpThread
  split
  · split
    · exact (pumpOnce_sound h ..).pumps _ _
    · exact h
  · exact h

theorem send_sound (h : desk.Sound) (token : Nat) : (desk.send token).Sound := by
  unfold Desk.send
  split
  · split
    · exact h.pumps _ _
    · exact h
  · exact h

theorem cutOff_sound (h : desk.Sound) (device reason : String) :
    (desk.cutOff vt device reason).Sound := by
  unfold Desk.cutOff
  cases hbridge : desk.bridges[device]? with
  | none =>
    refine ⟨h.registry.releaseWriter (fun _ _ _ hthere => hthere), h.reach, h.named⟩
  | some bridge => exact h.operate hbridge bridge.elsewhere (finishWith_next reason)

/-- Sessions were closed: as many are known as before. -/
theorem Desk.Sound.closed (h : desk.Sound) {registry : TerminalRegistry} {all : Sessions P}
    (hregistry : registry.Kept desk.all.length desk.attachedTo)
    (hlength : all.length = desk.all.length) : Desk.Sound { desk with registry, all } where
  registry := by
    show registry.Kept all.length _
    rw [hlength]
    exact hregistry
  reach device id hthere := by
    show id < all.length
    rw [hlength]
    exact h.reach device id hthere
  named := h.named

theorem length_close (registry : TerminalRegistry) (all : Sessions P) (id : Nat) :
    (registry.close all id).2.length = all.length := by
  unfold TerminalRegistry.close
  dsimp only
  split
  · exact List.length_modify ..
  · rfl

theorem sweep_sound (h : desk.Sound) (idle : List Nat) : (desk.sweep idle).Sound := by
  unfold Desk.sweep TerminalRegistry.reapIdle
  dsimp only
  -- Both the registry and the number of sessions are carried through the closing.
  have hclosing (ids : List Nat) (state : TerminalRegistry × Sessions P)
      (hkept : state.1.Kept desk.all.length desk.attachedTo)
      (hlength : state.2.length = desk.all.length) :
      (ids.foldl (fun state id => state.1.close state.2 id) state).1.Kept desk.all.length
          desk.attachedTo ∧
        (ids.foldl (fun state id => state.1.close state.2 id) state).2.length
          = desk.all.length := by
    induction ids generalizing state with
    | nil => exact ⟨hkept, hlength⟩
    | cons id ids ih =>
      refine ih _ (hkept.forget id (fun _ _ _ hthere => hthere)) ?_
      rw [length_close]
      exact hlength
  obtain ⟨hkept, hlength⟩ := hclosing _ (desk.registry.reap desk.all, desk.all)
    (h.registry.reap desk.all) rfl
  exact h.closed hkept hlength

theorem announceFinished_sound (h : desk.Sound) (id : Nat) (told : List String) :
    (desk.announceFinished id told).Sound := by
  have hmap (device : String) (bridge : TerminalBridge) :
      (desk.announceFinished id told).bridges[device]? = some bridge ↔
        ∃ before, desk.bridges[device]? = some before ∧
          bridge = if device ∈ told then
            before.queueAlways (.sendControl { action := .finished, terminalId := some id })
            else before := by
    show (desk.bridges.map _)[device]? = _ ↔ _
    rw [Std.ExtTreeMap.getElem?_map, Option.map_eq_some_iff]
    exact exists_congr (fun _ => and_congr_right (fun _ => eq_comm))
  have hattached (device : String) (id' : Nat) :
      (desk.announceFinished id told).attachedTo device id' ↔ desk.attachedTo device id' := by
    unfold Desk.attachedTo
    constructor
    · rintro ⟨bridge, hbridge, hthere⟩
      obtain ⟨before, hbefore, rfl⟩ := (hmap device bridge).mp hbridge
      refine ⟨before, hbefore, ?_⟩
      split at hthere <;> exact hthere
    · rintro ⟨before, hbefore, hthere⟩
      refine ⟨_, (hmap device _).mpr ⟨before, hbefore, rfl⟩, ?_⟩
      split <;> exact hthere
  refine h.rebridge (fun id' device _ hthere => (hattached device id').mpr hthere)
    (fun device id' hthere => (hattached device id').mp hthere) (fun device bridge hbridge => ?_)
  obtain ⟨before, hbefore, rfl⟩ := (hmap device bridge).mp hbridge
  have hnamed := h.named device before hbefore
  split <;> exact hnamed

theorem put_hold : desk.put device (desk.hold bridge)
    = { desk with bridges := desk.bridges.insert device bridge } := rfl

theorem refuse_hold_next {other : String → Nat → Prop} {terminalId : Option Nat}
    {reason : String} :
    Held.Next other (desk.hold bridge) (desk.hold (bridge.refuse terminalId reason)) :=
  refuse_next terminalId reason

/-- Every step at the desk keeps leases, owners and attachments in
agreement. -/
theorem after_sound (h : desk.Sound) (op : DeskOp) : (desk.after vt op).Sound := by
  cases op with
  | begin wire => exact begin_sound h wire
  | finish device token => exact finish_sound h device token
  | control wire control start spawned =>
    exact withBridge_sound h wire (fun _ => handleControlIn_next control start spawned)
  | chunk wire chunk => exact withBridge_sound h wire (fun _ => handleChunk_next chunk)
  | refuse wire terminalId reason =>
    show (desk.withOpenBridge wire _).Sound
    unfold Desk.withOpenBridge
    cases hbridge : desk.bridges[wire.peerDeviceId]? with
    | none => exact h
    | some bridge =>
      dsimp only
      split
      · rw [← put_hold]
        exact h.operate hbridge bridge.elsewhere refuse_hold_next
      · exact h
  | pump token budget order script => exact pumpThread_sound h token budget order script
  | send token => exact send_sound h token
  | revokeDevice device => exact cutOff_sound h device _
  | endDeviceSessions device => exact cutOff_sound h device _
  | sweep idle => exact sweep_sound h idle
  | announceFinished id told => exact announceFinished_sound h id told
  | deskCreate rows cols spawned =>
    refine ⟨h.registry.createIn .., fun device id hthere => ?_, h.named⟩
    exact Nat.lt_of_lt_of_le (h.reach device id hthere) (length_createIn_le ..)
  | deskClose id =>
    exact h.closed (h.registry.forget id (fun _ _ _ hthere => hthere)) (length_close ..)
  | happens moment => exact h.closed h.registry (length_happen ..)

/-- The desk after a run of steps. -/
def Desk.run (vt : Vt100 P) (ops : List DeskOp) : Desk P := Lib.applyAll (Desk.after vt) {} ops

theorem run_sound (ops : List DeskOp) : (Desk.run vt ops).Sound :=
  (Lib.allAlong_of_forall sound_new (fun op _ _ h => after_sound h op)).last

/-! ### Size claims -/

/-- The running sessions whose size the device claims. -/
def Desk.claimed (desk : Desk P) (device : String) : List Nat :=
  desk.registry.sessions.toList.filter (fun id =>
    (desk.all[id]?).any (fun s => s.exited.isNone && s.phoneClaim = some device))

/-- The device that a step cuts off: its connection is replaced or ends, or
it is detached from every terminal. -/
def Desk.cuts (desk : Desk P) : DeskOp → Option String
  | .begin wire =>
    if (desk.bridges[wire.peerDeviceId]?).isSome then some wire.peerDeviceId else none
  | .finish device token =>
    if (desk.bridges[device]?).any (fun bridge => bridge.token = token) then some device else none
  | .revokeDevice device => some device
  | .endDeviceSessions device => some device
  | _ => none

/-- A device that is cut off is attached to every running session whose size
it claims. -/
def Desk.Tidy (desk : Desk P) (op : DeskOp) : Prop :=
  ∀ device ∈ desk.cuts op, ∀ id ∈ desk.claimed device, desk.attachedTo device id

theorem mem_claimed : id ∈ desk.claimed device ↔ id ∈ desk.registry.sessions ∧
      ∃ s, desk.all[id]? = some s ∧ s.exited = none ∧ s.phoneClaim = some device := by
  unfold Desk.claimed
  rw [List.mem_filter, Std.ExtTreeSet.mem_toList]
  cases desk.all[id]? <;> simp

/-- The claims on the attached sessions are released, the others are as they
were. -/
theorem getElem?_releaseClaims (held : Held P) (id : Nat) :
    (held.releaseClaims vt)[id]? = if (held.bridge.attached[id]?).isSome
      then (held.all[id]?).map (fun s => s.releasePhoneClaim vt held.device)
      else held.all[id]? := by
  have hkeys : id ∈ held.bridge.attached.keys ↔ (held.bridge.attached[id]?).isSome := by
    rw [Std.ExtTreeMap.mem_keys, Std.ExtTreeMap.mem_iff_isSome_getElem?]
  unfold Held.releaseClaims
  generalize held.device = device at hkeys ⊢
  have hfold (ids : List Nat) (all : Sessions P) :
      (ids.foldl (fun all id => all.modify id (fun s => s.releasePhoneClaim vt device)) all)[id]?
        = if id ∈ ids then (all[id]?).map (fun s => s.releasePhoneClaim vt device)
          else all[id]? := by
    induction ids generalizing all with
    | nil => simp
    | cons first ids ih =>
      rw [List.foldl_cons, ih, List.getElem?_modify]
      by_cases hfirst : first = id
      · -- Released twice is released once.
        subst hfirst
        cases hs : all[first]? with
        | none => simp
        | some s =>
          have htwice : (s.releasePhoneClaim vt device).releasePhoneClaim vt device
              = s.releasePhoneClaim vt device :=
            releasePhoneClaim_of_ne (releasePhoneClaim_ne device)
          by_cases hmem : first ∈ ids <;> simp [hmem, htwice]
      · have hne : id ≠ first := fun heq => hfirst heq.symm
        simp [hfirst, hne]
  rw [hfold]
  by_cases hattached : (held.bridge.attached[id]?).isSome
  · rw [if_pos hattached, if_pos (hkeys.mpr hattached)]
  · rw [if_neg hattached, if_neg (fun hmem => hattached (hkeys.mp hmem))]

/-- What is left after the claims of a device are released: none of its
own, if it was attached to what it claimed. -/
theorem claimed_released {desk' : Desk P} (hdevice : (desk.hold bridge).device = device)
    (hbridge : desk.bridges[device]? = some bridge)
    (htidy : ∀ id ∈ desk.claimed device, desk.attachedTo device id)
    (hsessions : desk'.registry.sessions = desk.registry.sessions)
    (hall : desk'.all = (desk.hold bridge).releaseClaims vt) : desk'.claimed device = [] := by
  rw [List.eq_nil_iff_forall_not_mem]
  intro id hid
  obtain ⟨hlisted, s', hs', hexited, hclaim⟩ := mem_claimed.mp hid
  rw [hall, getElem?_releaseClaims, hdevice] at hs'
  by_cases hattached : ((desk.hold bridge).bridge.attached[id]?).isSome
  · rw [if_pos hattached, Option.map_eq_some_iff] at hs'
    obtain ⟨s, -, rfl⟩ := hs'
    exact releasePhoneClaim_ne device hclaim
  · -- The device is not attached, so it claimed nothing here.
    rw [if_neg hattached] at hs'
    rw [hsessions] at hlisted
    obtain ⟨bridge', hbridge', hthere⟩ :=
      htidy id (mem_claimed.mpr ⟨hlisted, s', hs', hexited, hclaim⟩)
    rw [hbridge, Option.some.injEq] at hbridge'
    exact hattached (hbridge' ▸ hthere)

/-- A device that is cut off has no lease, and no claim if the step is
tidy. -/
theorem after_cut (h : desk.Sound) (htidy : desk.Tidy op) (hcut : device ∈ desk.cuts op) :
    (desk.after vt op).claimed device = [] ∧
      ∀ id : Nat, (desk.after vt op).registry.writers[id]? ≠ some device := by
  have hheld := htidy device hcut
  have hcutOff (reason : String) : (desk.cutOff vt device reason).claimed device = [] ∧
      ∀ id : Nat, (desk.cutOff vt device reason).registry.writers[id]? ≠ some device := by
    unfold Desk.cutOff
    cases hbridge : desk.bridges[device]? with
    | none =>
      refine ⟨?_, fun id => releaseWriter_ne desk.registry id⟩
      rw [List.eq_nil_iff_forall_not_mem]
      intro id hid
      obtain ⟨bridge, hsome, -⟩ := hheld id hid
      rw [hbridge] at hsome
      cases hsome
    | some bridge =>
      have hdevice : (desk.hold bridge).device = device := h.named _ _ hbridge
      refine ⟨claimed_released hdevice hbridge hheld rfl rfl, fun id => ?_⟩
      rw [← hdevice]
      exact releaseWriter_ne desk.registry id
  cases op with
  | revokeDevice device' => cases hcut; exact hcutOff _
  | endDeviceSessions device' => cases hcut; exact hcutOff _
  | begin wire =>
    simp only [Desk.cuts] at hcut
    split at hcut
    · rename_i hsome
      cases hcut
      obtain ⟨bridge, hbridge⟩ := Option.isSome_iff_exists.mp hsome
      have hdevice : (desk.hold bridge).device = wire.peerDeviceId := h.named _ _ hbridge
      simp only [Desk.after, Desk.begin, hbridge]
      refine ⟨claimed_released hdevice hbridge hheld rfl rfl, fun id => ?_⟩
      rw [← hdevice]
      exact releaseWriter_ne desk.registry id
    · cases hcut
  | finish device' token =>
    simp only [Desk.cuts] at hcut
    split at hcut
    · rename_i hcurrent
      cases hcut
      cases hbridge : desk.bridges[device]? with
      | none => simp [hbridge] at hcurrent
      | some bridge =>
        have htoken : bridge.token = token := by simpa [hbridge] using hcurrent
        have hdevice : (desk.hold bridge).device = device := h.named _ _ hbridge
        simp only [Desk.after, Desk.finish, hbridge, if_pos htoken]
        refine ⟨claimed_released hdevice hbridge hheld rfl rfl, fun id => ?_⟩
        rw [← hdevice]
        exact releaseWriter_ne desk.registry id
    · cases hcut
  | _ => cases hcut

/-! ### Input -/

/-- Input that is not of a phone comes with the session itself. -/
def DeskOp.ofSession : DeskOp → Bool
  | .happens _ | .pump .. => true
  | _ => false

/-- Apart from input chunks, no step of a phone or the desk types. -/
theorem after_untyped {op : DeskOp} (hsession : op.ofSession = false)
    (hchunk : ∀ wire chunk, op ≠ .chunk wire chunk) :
    Sessions.Each PtySession.Untyped desk.all (desk.after vt op).all := by
  have hcutOff (device reason : String) :
      Sessions.Each PtySession.Untyped desk.all (desk.cutOff vt device reason).all := by
    unfold Desk.cutOff
    split
    · rename_i bridge _
      exact @releaseClaims_untyped P vt (desk.hold bridge)
    · exact untyped_refl
  cases op with
  | begin wire =>
    show Sessions.Each _ _ (desk.begin vt wire).all
    unfold Desk.begin
    cases desk.bridges[wire.peerDeviceId]? with
    | none => exact untyped_refl
    | some previous => exact @releaseClaims_untyped P vt (desk.hold previous)
  | finish device token =>
    show Sessions.Each _ _ (desk.finish vt device token).all
    unfold Desk.finish
    split
    · split
      · rename_i bridge _ _
        exact @releaseClaims_untyped P vt (desk.hold bridge)
      · exact untyped_refl
    · exact untyped_refl
  | control wire control start spawned =>
    show Sessions.Each _ _ (desk.withBridge wire _).1.all
    unfold Desk.withBridge
    split
    · split
      · exact @handleControlIn_untyped P vt (desk.hold _) control start spawned
      · exact untyped_refl
    · exact untyped_refl
  | chunk wire chunk => exact absurd rfl (hchunk wire chunk)
  | refuse wire terminalId reason =>
    show Sessions.Each _ _ (desk.withOpenBridge wire _).all
    unfold Desk.withOpenBridge
    split
    · split <;> exact untyped_refl
    · exact untyped_refl
  | pump => cases hsession
  | send token =>
    show Sessions.Each _ _ (desk.send token).all
    unfold Desk.send
    split
    · split <;> exact untyped_refl
    · exact untyped_refl
  | revokeDevice device => exact hcutOff device _
  | endDeviceSessions device => exact hcutOff device _
  | sweep idle =>
    show Sessions.Each _ _ (desk.sweep idle).all
    unfold Desk.sweep TerminalRegistry.reapIdle
    dsimp only
    generalize desk.registry.reap desk.all = registry
    generalize desk.all = all
    generalize List.filter _ _ = ids
    induction ids generalizing registry all with
    | nil => exact untyped_refl
    | cons id ids ih => exact untyped_trans (close_untyped registry id) (ih _ _)
  | announceFinished => exact untyped_refl
  | deskCreate rows cols spawned => exact createIn_untyped desk.registry deskOwner rows cols spawned
  | deskClose id => exact close_untyped desk.registry id
  | happens => cases hsession

/-- What waits to be typed into a session. -/
def Desk.inputOf (desk : Desk P) (id : Nat) : Option (List (List UInt8)) :=
  (desk.all[id]?).map PtySession.input

/-- Only the writer of a session types into it. -/
theorem after_typed (hsession : op.ofSession = false) (hid : id < desk.all.length)
    (hchanged : (desk.after vt op).inputOf id ≠ desk.inputOf id) :
    ∃ wire chunk, op = .chunk wire chunk ∧ chunk.terminalId = id ∧
      (desk.after vt op).registry.writers[id]? = some wire.peerDeviceId := by
  obtain ⟨s, hs⟩ : ∃ s, desk.all[id]? = some s := ⟨_, List.getElem?_eq_getElem hid⟩
  by_cases hchunk : ∃ wire chunk, op = .chunk wire chunk
  · obtain ⟨wire, chunk, rfl⟩ := hchunk
    refine ⟨wire, chunk, rfl, ?_⟩
    have hrefused {desk' : Desk P} (hsame : desk'.all = desk.all)
        (h : desk'.inputOf id ≠ desk.inputOf id) : False := h (by unfold Desk.inputOf; rw [hsame])
    simp only [Desk.after, Desk.withBridge] at hchanged ⊢
    cases hbridge : desk.bridges[wire.peerDeviceId]? with
    | none => exact (hrefused rfl (by simpa only [hbridge] using hchanged)).elim
    | some bridge =>
      simp only [hbridge] at hchanged ⊢
      by_cases hwire : bridge.wire = wire
      · rw [if_pos hwire] at hchanged ⊢
        generalize hheld : desk.hold _ = held at hchanged ⊢
        have hall : held.all = desk.all := by rw [← hheld]; rfl
        have hdevice : held.device = wire.peerDeviceId := by rw [← hheld, ← hwire]; rfl
        obtain ⟨hsame, -⟩ | ⟨attachment, s₁, -, hmay, hregistry, hwritten⟩ :=
          @handleChunk_cases P vt held chunk
        · exact (hrefused (hsame.trans hall) hchanged).elim
        · have hterminal : chunk.terminalId = id := by
            by_contra hne
            refine hchanged ?_
            unfold Desk.inputOf
            show ((held.handleChunk vt chunk).1.all[id]?).map _ = _
            rw [hwritten, hall, List.getElem?_modify]
            simp [hne]
          refine ⟨hterminal, ?_⟩
          show (held.handleChunk vt chunk).1.registry.writers[id]? = _
          rw [hregistry, ← hterminal, ← hdevice]
          exact TerminalRegistry.claimWriter_writer hmay
      · rw [if_neg hwire] at hchanged
        exact (hrefused rfl hchanged).elim
  · -- The step leaves the input of every session.
    obtain ⟨s', hs', huntyped⟩ := (@after_untyped P vt desk op hsession
      (fun wire chunk heq => hchunk ⟨wire, chunk, heq⟩)).there id s hs
    refine absurd ?_ hchanged
    unfold Desk.inputOf
    rw [hs, hs', Option.map_some, Option.map_some, huntyped.input]

/-! ### Runs -/

/-- Leases, owners and readers of a desk. A terminal has one writer at most,
because `writers` is a map. -/
structure Desk.Leased (desk : Desk P) : Prop where
  /-- A writer is a phone whose bridge is attached to a session that is
  listed. -/
  writer : ∀ (id : Nat) (device : String), desk.registry.writers[id]? = some device →
    (∃ s, desk.registry.get desk.all id = some s) ∧
      ∃ bridge, desk.bridges[device]? = some bridge ∧ bridge.device = device ∧
        (bridge.attached[id]?).isSome
  /-- What has an owner is listed. -/
  owner : ∀ (id : Nat) (owner : String), desk.registry.owners[id]? = some owner →
    ∃ s, desk.registry.get desk.all id = some s
  /-- What is attached is there to read. -/
  reader : ∀ (device : String) (bridge : TerminalBridge) (id : Nat),
    desk.bridges[device]? = some bridge → (bridge.attached[id]?).isSome →
      ∃ s, desk.all[id]? = some s
  cap : desk.registry.sessions.size ≤ maxSessions
  deviceCap : ∀ owner, countValues desk.registry.owners owner ≤ maxSessionsPerDevice

theorem Desk.Sound.leased (h : desk.Sound) : desk.Leased := by
  have hget (id : Nat) (hlisted : id ∈ desk.registry.sessions) :
      ∃ s, desk.registry.get desk.all id = some s := by
    unfold TerminalRegistry.get
    rw [if_pos hlisted]
    exact ⟨_, List.getElem?_eq_getElem (h.registry.lt id hlisted)⟩
  exact {
    writer := by
      intro id device hwriter
      refine ⟨hget id (h.registry.listed id device hwriter), ?_⟩
      obtain ⟨bridge, hbridge, hthere⟩ := h.registry.leased id device hwriter
      exact ⟨bridge, hbridge, h.named device bridge hbridge, hthere⟩
    owner := fun id owner howner => hget id ((h.registry.owned id).mpr ⟨owner, howner⟩)
    reader := by
      intro device bridge id hbridge hthere
      exact ⟨_, List.getElem?_eq_getElem (h.reach device id ⟨bridge, hbridge, hthere⟩)⟩
    cap := h.registry.cap
    deviceCap := h.registry.deviceCap }

/-- Along every run whose steps are tidy, leases, owners and readers agree in
the state that is reached. After each step that cuts a device off, no running
session is left with its lease or its claim on the size; and whenever a step
of a phone changes what waits to be typed into a session, it is an input
chunk of the writer. -/
theorem leases_kept (ops : List DeskOp)
    (htidy : Lib.Alongside (Desk.after vt) Desk.Tidy ({} : Desk P) ops) :
    (Desk.run vt ops).Leased ∧
      ∀ before op rest, ops = before ++ op :: rest →
        (∀ device ∈ (Desk.run vt before).cuts op,
          (Desk.run vt (before ++ [op])).claimed device = [] ∧
            ∀ id : Nat, (Desk.run vt (before ++ [op])).registry.writers[id]? ≠ some device) ∧
        (∀ id < (Desk.run vt before).all.length, op.ofSession = false →
          (Desk.run vt (before ++ [op])).inputOf id ≠ (Desk.run vt before).inputOf id →
          ∃ wire chunk, op = .chunk wire chunk ∧ chunk.terminalId = id ∧
            (Desk.run vt (before ++ [op])).registry.writers[id]? = some wire.peerDeviceId) := by
  refine ⟨(run_sound ops).leased, fun before op rest hops => ?_⟩
  rw [hops, Lib.alongside_append] at htidy
  have hstep : Desk.run vt (before ++ [op]) = (Desk.run vt before).after vt op := by
    unfold Desk.run
    rw [Lib.applyAll_append]
    rfl
  rw [hstep]
  exact ⟨fun device hcut => after_cut (run_sound before) htidy.2.1 hcut,
    fun id hid hsession hchanged => after_typed hsession hid hchanged⟩

instance (desk : Desk P) (device : String) (id : Nat) : Decidable (desk.attachedTo device id) :=
  decidable_of_iff
    ((desk.bridges[device]?).any (fun bridge => (bridge.attached[id]?).isSome) = true) (by
      unfold Desk.attachedTo
      cases desk.bridges[device]? <;> simp)

instance (desk : Desk P) (op : DeskOp) : Decidable (desk.Tidy op) :=
  inferInstanceAs (Decidable (∀ device ∈ desk.cuts op, ∀ id ∈ desk.claimed device,
    desk.attachedTo device id))

/-- A screen that shows nothing. -/
def blankScreen : Vt100 Unit where
  new _ _ := ()
  process _ _ := ()
  setSize _ _ _ := ()
  alternateScreen _ := false
  stateFormatted _ := []

def phoneWire : WireBinding := { peerDeviceId := "phone", sessionId := 7, generation := 3 }

/-- The phone starts a session, attaches, types, and goes away. -/
def attachedRun : List DeskOp :=
  [.begin phoneWire, .control phoneWire { action := .create } .usable (.ok ()),
    .control phoneWire { action := .attach, terminalId := some 0 } .usable (.ok ()),
    .chunk phoneWire { kind := .input, terminalId := 0, offset := 0, data := [108, 115] },
    .finish "phone" 1]

/-- A phone that goes away leaves nothing behind. -/
theorem leases_kept_attachedRun :
    Lib.Alongside (Desk.after blankScreen) Desk.Tidy ({} : Desk Unit) attachedRun ∧
      (Desk.run blankScreen attachedRun).Leased ∧
      (Desk.run blankScreen attachedRun).claimed "phone" = [] ∧
      (Desk.run blankScreen attachedRun).registry.writers[0]? ≠ some "phone" := by
  have htidy : Lib.Alongside (Desk.after blankScreen) Desk.Tidy ({} : Desk Unit) attachedRun := by
    decide +kernel
  have hkept := leases_kept attachedRun htidy
  have hcut := (hkept.2 (attachedRun.take 4) (.finish "phone" 1) [] rfl).1 "phone" (by decide +kernel)
  exact ⟨htidy, hkept.1, hcut.1, hcut.2 0⟩

/-- A phone that starts a session claims its size. If it goes away before
it attaches, the claim stays. -/
theorem claim_outlives_connection :
    "phone" ∈ (Desk.run blankScreen
        [.begin phoneWire, .control phoneWire { action := .create } .usable (.ok ())]).cuts
          (.finish "phone" 1) ∧
      (Desk.run blankScreen
        [.begin phoneWire, .control phoneWire { action := .create } .usable (.ok ()),
          .finish "phone" 1]).claimed "phone" = [0] := by
  decide +kernel

end AllBridges

end DeskLink.Terminal
