import DeskLink.Proofs.Terminal.Stream

/-!
# `DeskLink.Proofs.Terminal.Unbroken`: a phone's stream has no gap

`Desk.lineOf` is everything a connection was sent of one terminal, with what
is still on its way. An attach request that is answered begins a new stream at
the end of that line (`handleAttach_told`); every other step at the desk leaves
the stream as it is, or adds to it at its end (`after_telling`), as long as the
phone is neither cut off nor attaches again.

`stream_unbroken` follows by induction over the run.
-/

set_option autoImplicit false

namespace DeskLink.Terminal

variable {P : Type} {vt : Vt100 P}

/-! ### The requests of a phone -/

/-- What was sent of the terminal and what is queued. -/
def Held.line (held : Held P) (sent : List TerminalEvent) (id : Nat) : List TerminalEvent :=
  (sent ++ held.bridge.outbox).filter (TerminalEvent.about id)

section Requests

variable {id id' : Nat} {asked : Option Nat} {sent base : List TerminalEvent} {held held' : Held P}
variable {s : PtySession P} {control : TerminalControl} {list : TerminalEvent}

/-- A step beside the stream leaves it as it is. -/
theorem Told.past (h : Told vt id asked base held (held.line sent id))
    (haside : Held.Aside id held held') : Told vt id asked base held' (held'.line sent id) := by
  have hline : held'.line sent id = held.line sent id := by
    unfold Held.line
    rw [List.filter_append, List.filter_append, haside.outbox]
  rw [hline]
  exact h.aside haside

/-- The list is queued, with replies that are not of the terminal. -/
theorem listed_aside (before : List TerminalEvent)
    (hbefore : before.filter (TerminalEvent.about id) = []) :
    Held.Aside id held (held.sessionsEvent.1.queue (before ++ [held.sessionsEvent.2])).1 := by
  refine sessionsEvent_aside.trans (queue_aside _ ?_)
  rw [List.filter_append, hbefore, List.filter_singleton, sessionsEvent_about]
  rfl

theorem handleCreate_aside (control : TerminalControl) (start : Start)
    (spawned : Except String Unit) :
    Held.Aside id held (held.handleCreate vt control start spawned).1 := by
  cases start with
  | bad => exact refuse_aside ..
  | usable =>
    have hmade := @createIn_untyped P vt held.all held.registry held.device
      (control.rows.getD 24) (control.cols.getD 80) spawned
    simp only [Held.handleCreate]
    generalize held.registry.createIn vt held.all held.device (control.rows.getD 24)
      (control.cols.getD 80) spawned = made at hmade ⊢
    have haside : Held.Aside id held { held with registry := made.1, all := made.2.1 } :=
      ⟨rfl, fun a ha => ⟨a, ha, rfl⟩, untyped_grows hmade⟩
    refine haside.trans ?_
    split
    · exact refuse_aside ..
    · refine (modify_aside _ (fun s _ => ?_)).trans (listed_aside [_] ?_)
      · exact (claimForPhone_untyped ..).toSameOutput.grows
      · simp [TerminalEvent.about]

/-- Whatever is detached, no offset moves. -/
theorem next_erase {attached : IdMap Attachment} {a' : Attachment}
    (ha' : (attached.erase id')[id]? = some a') :
    ∃ a, attached[id]? = some a ∧ a'.next = a.next := by
  rw [getElem?_idErase] at ha'
  split at ha'
  · cases ha'
  · exact ⟨a', ha', rfl⟩

theorem handleDetach_aside (control : TerminalControl) :
    Held.Aside id held (held.handleDetach vt control).1 := by
  unfold Held.handleDetach
  cases control.terminalId with
  | none => exact .refl
  | some id' =>
    dsimp only
    cases held.bridge.attached[id']? with
    | none => exact ⟨rfl, fun _ ha => next_erase ha, grows_refl⟩
    | some attachment =>
      refine ⟨rfl, fun _ ha => next_erase ha, each_modify (fun _ => .refl) id' (fun s _ => ?_)⟩
      exact (releasePhoneClaim_untyped _).toSameOutput.grows

/-- A session that an operation read is written back with the same output. -/
theorem write_aside {s' : PtySession P} (hs : held.all[id']? = some s) (h : s.SameOutput s') :
    Held.Aside id held (held.modify id' (fun _ => s')) := by
  refine modify_aside id' (fun s₁ hs₁ => ?_)
  rw [hs, Option.some.injEq] at hs₁
  exact hs₁ ▸ h.grows

theorem resizeAttached_aside (id' : Nat) (hs : held.all[id']? = some s) (rows cols : Nat)
    (claimSize : Option Bool) :
    Held.Aside id held (held.resizeAttached vt id' s rows cols claimSize).1 := by
  unfold Held.resizeAttached
  dsimp only
  split
  · exact write_aside hs (claimForPhone_untyped ..).toSameOutput
  · exact (write_aside hs (releasePhoneClaim_untyped _).toSameOutput).trans (tellAgain_aside id')
  · have hresized : Held.Aside id held
        (held.modify id' (fun _ => (s.resizeUnlessHeld vt held.device rows cols false).1)) :=
      write_aside hs (resizeUnlessHeld_untyped ..).toSameOutput
    split
    · exact hresized
    · exact hresized
    · exact hresized.trans (tellAgain_aside id')
  · exact tellAgain_aside id'

theorem handleResize_aside (control : TerminalControl) :
    Held.Aside id held (held.handleResize vt control).1 := by
  unfold Held.handleResize
  split
  · exact .refl
  · rename_i id' _
    split
    · rename_i rows cols _ _
      split
      · rename_i hs
        have hviewed : Held.Aside id held
            { held with
              bridge :=
                { held.bridge with
                  attached := held.bridge.attached.modify id'
                    (fun a => { a with viewport := some (rows, cols) }) } } := by
          refine ⟨rfl, fun a ha => next_modify ?_ ha, grows_refl⟩
          intro _ a
          rfl
        exact hviewed.trans (resizeAttached_aside id' (by exact hs) ..)
      · exact .refl
    · exact .refl

theorem typeInto_aside (attachment : Attachment) (hs : held.all[id']? = some s)
    (data : List UInt8) : Held.Aside id held (held.typeInto vt id' attachment s data) := by
  have hsame : s.SameOutput ((held.sizedFor vt attachment s).writeInput data).1 :=
    (sizedFor_untyped attachment).toSameOutput.trans (writeInput_sameOutput data)
  unfold Held.typeInto
  generalize (held.sizedFor vt attachment s).writeInput data = written at hsame ⊢
  have hwritten : Held.Aside id held (held.modify id' (fun _ => written.1)) :=
    write_aside hs hsame
  have hreported (reported : Bool) (before : Held P) :
      Held.Aside id before
        { before with bridge := { before.bridge with inputRefusalReported := reported } } :=
    ⟨rfl, fun a ha => ⟨a, ha, rfl⟩, grows_refl⟩
  dsimp only
  split
  · exact hwritten.trans (hreported false _)
  · split
    · exact hwritten
    · exact (hwritten.trans (hreported true _)).trans (refuse_aside ..)

theorem handleChunk_aside (chunk : TerminalChunk) :
    Held.Aside id held (held.handleChunk vt chunk).1 := by
  unfold Held.handleChunk
  split
  · exact .refl
  · split
    · rename_i attachment s _ hs
      dsimp only
      split
      · have hclaimed : Held.Aside id held
            { held with
              registry := (held.registry.claimWriter chunk.terminalId held.device).1 } :=
          ⟨rfl, fun a ha => ⟨a, ha, rfl⟩, grows_refl⟩
        exact hclaimed.trans (typeInto_aside attachment (by exact hs) chunk.data)
      · exact .refl
    · exact .refl

/-! #### Closing and attaching -/

theorem queue_line {events : List TerminalEvent} (h : (held.queue events).2 = .ok ()) :
    (held.queue events).1.line sent id
      = held.line sent id ++ events.filter (TerminalEvent.about id) := by
  unfold Held.line
  rw [outbox_queued h, ← List.append_assoc, List.filter_append]

/-- What does not fit changes nothing. -/
theorem queue_error {events : List TerminalEvent} {message : String}
    (h : (held.queue events).2 = .error message) : (held.queue events).1 = held := by
  unfold Held.queue TerminalBridge.queue at h ⊢
  dsimp only at h ⊢
  split
  · rfl
  · rename_i hfits
    rw [if_neg hfits] at h
    cases h

/-- The reply to a close request goes to the end of the line. -/
theorem Told.answered (h : Told vt id asked base held (held.line sent id))
    (hdetached : held.bridge.attached[id]? = none) (hlist : list.about id = false) :
    Told vt id asked base
      (held.queue [.sendControl { action := .closed, terminalId := some id }, list]).1
      ((held.queue [.sendControl { action := .closed, terminalId := some id }, list]).1.line
        sent id) := by
  cases hqueued : (held.queue
      [.sendControl { action := .closed, terminalId := some id }, list]).2 with
  | error message =>
    rw [queue_error hqueued]
    exact h
  | ok _ =>
    obtain ⟨n, ⟨events, s, hs, hstream, hline⟩, -⟩ := h
    -- The reply has no status, so nothing is asked of where the data ends.
    have hclosed := @Stream.closed P vt s id asked events n
      { action := .closed, terminalId := some id } hstream rfl (fun hstatus => by cases hstatus)
    refine ⟨n, ⟨_, s, hs, hclosed, ?_⟩, fun a ha => ?_⟩
    · rw [queue_line hqueued, hline, List.append_assoc,
        List.filter_cons_of_pos (by simp [TerminalEvent.about]),
        List.filter_cons_of_neg (by rw [hlist]; decide), List.filter_nil]
    · have hsame : (held.queue _).1.bridge.attached = held.bridge.attached := (queue_ok hqueued).2
      rw [hsame, hdetached] at ha
      cases ha

/-- A close request is answered without a status, and the terminal is
detached. -/
theorem handleClose_told (control : TerminalControl)
    (h : Told vt id asked base held (held.line sent id)) :
    Told vt id asked base (held.handleClose control).1
      ((held.handleClose control).1.line sent id) := by
  unfold Held.handleClose
  cases control.terminalId with
  | none => exact h
  | some id' =>
    have hclosing : Held.Aside id held
        { registry := (held.registry.close held.all id').1
          all := (held.registry.close held.all id').2
          bridge := { held.bridge with attached := held.bridge.attached.erase id' } } :=
      ⟨rfl, fun _ ha => next_erase ha, untyped_grows (close_untyped ..)⟩
    by_cases heq : id' = id
    · subst heq
      refine (h.past (hclosing.trans sessionsEvent_aside)).answered ?_ sessionsEvent_about
      show (held.bridge.attached.erase id')[id']? = none
      rw [getElem?_idErase, if_pos rfl]
    · exact h.past (hclosing.trans (listed_aside [_] (by simp [TerminalEvent.about, heq])))

/-- What is queued for an attaching phone, without the list. -/
theorem filter_openingEvents {chunk : TerminalChunk} (hlist : list.about id = false)
    (hchunk : chunk.terminalId = id) :
    (Held.openingEvents list id s chunk).filter (TerminalEvent.about id)
      = splitChunkEvents chunk ++
        [.sendControl
          { action := .attached, terminalId := some id, offset := some chunk.offset
            rows := some s.size.1, cols := some s.size.2 }] := by
  unfold Held.openingEvents
  rw [List.filter_cons_of_neg (by rw [hlist]; decide), List.filter_append,
    List.filter_eq_self.mpr ?_]
  · simp [TerminalEvent.about]
  · intro event hevent
    obtain ⟨sent, rfl, -, hid, -⟩ := mem_splitChunkEvents hevent
    simp [TerminalEvent.about, hid, hchunk]

/-- It begins a stream, at the offset that was asked for or with a
snapshot. -/
theorem opening_stream {s : PtySession P} (hringed : s.Ringed) {list : TerminalEvent}
    (hlist : list.about id = false) :
    Stream vt s id asked
      ((Held.openingEvents list id s (Held.opening id (s.resync vt asked usizeMax)).2).filter
        (TerminalEvent.about id))
      (Held.opening id (s.resync vt asked usizeMax)).1 := by
  have hhead : s.ring.head = s.shown.length := OutputRing.Holds.head_eq hringed
  have hsnapshot (hresync : s.resync vt asked usizeMax = .snapshot s.ring.head (s.snapshot vt)) :
      Stream vt s id asked
        ((Held.openingEvents list id s (Held.opening id (s.resync vt asked usizeMax)).2).filter
          (TerminalEvent.about id))
        (Held.opening id (s.resync vt asked usizeMax)).1 := by
    rw [hresync, Held.opening, filter_openingEvents hlist rfl, hhead]
    exact .attached (.screen .refl) rfl (fun _ _ _ => rfl)
  cases asked with
  | none => exact hsnapshot rfl
  | some offset =>
    cases hsince : s.ring.since offset usizeMax with
    | none => exact hsnapshot (by simp only [PtySession.resync, hsince])
    | some data =>
      obtain ⟨hdata, hle, hlength⟩ := OutputRing.Holds.since_some hringed hsince
      have hresync : s.resync vt (some offset) usizeMax = .bytes offset data := by
        simp only [PtySession.resync, hsince]
      rw [hresync, Held.opening, filter_openingEvents hlist rfl]
      have hstart : Stream vt s id (some offset) [] offset := .start rfl hle
      have hreplay := hstart.split hdata (by omega)
      rw [List.nil_append] at hreplay
      refine .attached hreplay rfl (fun chunk hlast hempty => ?_)
      -- A frame of the replay is no snapshot, and is empty only if nothing is replayed.
      obtain ⟨sent, heq, hkind, -, hnil⟩ := mem_splitChunkEvents (List.mem_of_getLast? hlast)
      cases heq
      obtain hsnap | hnone := hempty
      · rw [hkind] at hsnap
        cases hsnap
      · have hnone : data = [] := hnil hnone
        rw [hnone]
        rfl

/-- An attach that is answered begins a new stream at the end of the line. -/
theorem handleAttach_told {control : TerminalControl} {s : PtySession P} (hringed : s.Ringed)
    (hid : control.terminalId = some id) (hget : held.registry.get held.all id = some s)
    (hqueued : (held.sessionsEvent.1.queue (Held.openingEvents held.sessionsEvent.2 id s
      (Held.opening id (s.resync vt control.offset usizeMax)).2)).2 = .ok ()) :
    Told vt id control.offset (held.line sent id) (held.handleAttach vt control).1
      ((held.handleAttach vt control).1.line sent id) := by
  have hs : held.all[id]? = some s := by
    unfold TerminalRegistry.get at hget
    split at hget
    · exact hget
    · cases hget
  have hstream := @opening_stream P vt id control.offset s hringed held.sessionsEvent.2
    sessionsEvent_about
  have hline := @queue_line P id sent held.sessionsEvent.1 _ hqueued
  unfold Held.handleAttach
  simp only [hid, hget, hqueued]
  refine ⟨_, ⟨_, s, hs, hstream, hline⟩, fun a ha => ?_⟩
  have ha : (Std.ExtTreeMap.insert _ id _)[id]? = some a := ha
  rw [getElem?_idInsert, if_pos rfl, Option.some.injEq] at ha
  rw [← ha]

/-- The reply to an attach request. -/
def TerminalEvent.isAttached : TerminalEvent → Bool
  | .sendControl control => control.action = .attached
  | .sendChunk _ => false

/-- The attach request is answered, and not refused. -/
def Held.attaches (vt : Vt100 P) (held : Held P) (control : TerminalControl) : Bool :=
  ((held.handleAttach vt control).1.bridge.outbox.drop held.bridge.outbox.length).any
    TerminalEvent.isAttached

/-- A refusal is no reply. -/
theorem refuse_attaches (terminalId : Option Nat) (message : String) :
    ((held.refuse terminalId message).bridge.outbox.drop held.bridge.outbox.length).any
      TerminalEvent.isAttached = false := by
  unfold Held.refuse TerminalBridge.refuse TerminalBridge.queue
  dsimp only
  split
  · simp
  · simp [errorEvent, TerminalEvent.isAttached]

/-- What an attach request does: it is refused, beside every stream, or the
session is listed and the reply fits. -/
theorem handleAttach_cases (control : TerminalControl) :
    (held.attaches vt control = false ∧ Held.Aside id held (held.handleAttach vt control).1) ∨
      ∃ id' s, control.terminalId = some id' ∧ held.registry.get held.all id' = some s ∧
        (held.sessionsEvent.1.queue (Held.openingEvents held.sessionsEvent.2 id' s
          (Held.opening id' (s.resync vt control.offset usizeMax)).2)).2 = .ok () := by
  unfold Held.attaches Held.handleAttach
  cases control.terminalId with
  | none =>
    left
    exact ⟨by simp, .refl⟩
  | some id' =>
    dsimp only
    cases hget : held.registry.get held.all id' with
    | none =>
      left
      exact ⟨refuse_attaches .., refuse_aside ..⟩
    | some s =>
      dsimp only
      cases hqueued : (held.sessionsEvent.1.queue (Held.openingEvents held.sessionsEvent.2 id' s
          (Held.opening id' (s.resync vt control.offset usizeMax)).2)).2 with
      | ok _ => exact .inr ⟨id', s, rfl, hget, hqueued⟩
      | error message =>
        left
        rw [queue_error hqueued]
        exact ⟨refuse_attaches .., sessionsEvent_aside.trans (refuse_aside ..)⟩

/-- A reply that fits is queued. -/
theorem attaches_of_queued (hid : control.terminalId = some id')
    (hget : held.registry.get held.all id' = some s)
    (hqueued : (held.sessionsEvent.1.queue (Held.openingEvents held.sessionsEvent.2 id' s
      (Held.opening id' (s.resync vt control.offset usizeMax)).2)).2 = .ok ()) :
    held.attaches vt control = true := by
  have houtbox := outbox_queued hqueued
  unfold Held.attaches Held.handleAttach
  simp only [hid, hget, hqueued]
  rw [List.any_eq_true]
  refine ⟨.sendControl
    { action := .attached, terminalId := some id'
      offset := some (Held.opening id' (s.resync vt control.offset usizeMax)).2.offset
      rows := some s.size.1, cols := some s.size.2 }, ?_, rfl⟩
  rw [houtbox]
  show _ ∈ (held.bridge.outbox ++ _).drop held.bridge.outbox.length
  rw [List.drop_left]
  simp [Held.openingEvents]

/-- An attach to another terminal, or one that is refused. -/
theorem handleAttach_aside
    (hother : held.attaches vt control = true → control.terminalId ≠ some id) :
    Held.Aside id held (held.handleAttach vt control).1 := by
  obtain ⟨-, haside⟩ | ⟨id', s, hid', hget, hqueued⟩ := @handleAttach_cases P vt id held control
  · exact haside
  have hne : id' ≠ id := by
    intro heq
    refine hother (attaches_of_queued hid' hget hqueued) ?_
    rw [hid', heq]
  have hchunk : (Held.opening id' (s.resync vt control.offset usizeMax)).2.terminalId ≠ id := by
    cases s.resync vt control.offset usizeMax <;> exact hne
  have hevents : (Held.openingEvents held.sessionsEvent.2 id' s
      (Held.opening id' (s.resync vt control.offset usizeMax)).2).filter
        (TerminalEvent.about id) = [] := by
    unfold Held.openingEvents
    rw [List.filter_cons_of_neg (by rw [sessionsEvent_about]; decide), List.filter_append,
      filter_splitChunkEvents hchunk]
    simp [TerminalEvent.about, hne]
  have hlisted : Held.Aside id held held.sessionsEvent.1 := sessionsEvent_aside
  have haside := hlisted.trans (queue_aside _ hevents)
  unfold Held.handleAttach
  simp only [hid', hget, hqueued]
  refine ⟨haside.outbox, fun a ha => haside.next a ?_, haside.grows⟩
  have ha : (Std.ExtTreeMap.insert _ id' _)[id]? = some a := ha
  rw [getElem?_idInsert, if_neg hne] at ha
  exact ha

/-- A control message that does not attach to the terminal leaves its stream
as it is, or ends it. -/
theorem handleControlIn_told {start : Start} {spawned : Except String Unit}
    (h : Told vt id asked base held (held.line sent id))
    (hother : control.action = .attach → held.attaches vt control = true →
      control.terminalId ≠ some id) :
    Told vt id asked base (held.handleControlIn vt control start spawned).1
      ((held.handleControlIn vt control start spawned).1.line sent id) := by
  unfold Held.handleControlIn
  split
  · exact h.past (listed_aside [] rfl)
  · exact h.past (handleCreate_aside ..)
  · rename_i hattach
    exact h.past (handleAttach_aside (hother hattach))
  · exact h.past (handleDetach_aside _)
  · exact handleClose_told _ h
  · exact h.past (handleResize_aside _)
  all_goals exact h

end Requests

/-! ### Connections -/

/-- Every bridge has the pump thread of its connection. -/
structure Desk.Linked (desk : Desk P) : Prop where
  fresh : ∀ (token : Nat) (thread : PumpThread),
    desk.pumps[token]? = some thread → token < desk.nextToken
  linked : ∀ (device : String) (bridge : TerminalBridge), desk.bridges[device]? = some bridge →
    ∃ thread, desk.pumps[bridge.token]? = some thread ∧ thread.device = device

/-- A step that begins no connection: bridges keep their tokens and threads
their devices. -/
structure Desk.SameLinks (desk desk' : Desk P) : Prop where
  bridges : ∀ (device : String) (bridge' : TerminalBridge),
    desk'.bridges[device]? = some bridge' →
      ∃ bridge, desk.bridges[device]? = some bridge ∧ bridge'.token = bridge.token
  pumps : ∀ token : Nat,
    (desk'.pumps[token]?).map PumpThread.device = (desk.pumps[token]?).map PumpThread.device
  nextToken : desk'.nextToken = desk.nextToken

section Links

variable {desk desk' desk'' : Desk P} {device : String} {bridge : TerminalBridge}

theorem linked_new : Desk.Linked ({} : Desk P) where
  fresh token thread h := by simp at h
  linked device bridge h := by simp at h

theorem Desk.SameLinks.refl : Desk.SameLinks desk desk :=
  ⟨fun _ bridge h => ⟨bridge, h, rfl⟩, fun _ => rfl, rfl⟩

theorem Desk.SameLinks.trans (h : Desk.SameLinks desk desk') (h' : Desk.SameLinks desk' desk'') :
    Desk.SameLinks desk desk'' where
  bridges device bridge'' hbridge'' := by
    obtain ⟨bridge', hbridge', htoken'⟩ := h'.bridges device bridge'' hbridge''
    obtain ⟨bridge, hbridge, htoken⟩ := h.bridges device bridge' hbridge'
    exact ⟨bridge, hbridge, htoken'.trans htoken⟩
  pumps token := (h'.pumps token).trans (h.pumps token)
  nextToken := h'.nextToken.trans h.nextToken

theorem Desk.Linked.same (h : desk.Linked) (hsame : Desk.SameLinks desk desk') : desk'.Linked where
  fresh token thread' hthread' := by
    have hdevice := hsame.pumps token
    rw [hthread', Option.map_some, eq_comm, Option.map_eq_some_iff] at hdevice
    obtain ⟨thread, hthread, -⟩ := hdevice
    rw [hsame.nextToken]
    exact h.fresh token thread hthread
  linked device bridge' hbridge' := by
    obtain ⟨bridge, hbridge, htoken⟩ := hsame.bridges device bridge' hbridge'
    obtain ⟨thread, hthread, hdevice⟩ := h.linked device bridge hbridge
    have hthere := hsame.pumps bridge.token
    rw [hthread, Option.map_some, Option.map_eq_some_iff] at hthere
    obtain ⟨thread', hthread', heq⟩ := hthere
    exact ⟨thread', by rw [htoken]; exact hthread', heq.trans hdevice⟩

/-- An operation leaves the token of its bridge. -/
theorem put_links {held' : Held P} (hbridge : desk.bridges[device]? = some bridge)
    (htoken : held'.bridge.token = bridge.token) : Desk.SameLinks desk (desk.put device held') := by
  refine ⟨fun device' bridge' hbridge' => ?_, fun _ => rfl, rfl⟩
  have hbridge' : (desk.bridges.insert device held'.bridge)[device']? = some bridge' := hbridge'
  rw [getElem?_keyInsert] at hbridge'
  split at hbridge'
  · rename_i heq
    rw [Option.some.injEq] at hbridge'
    rw [← heq, ← hbridge']
    exact ⟨bridge, hbridge, htoken⟩
  · exact ⟨bridge', hbridge', rfl⟩

theorem withBridge_links (wire : WireBinding) {operation : Held P → Held P × Except String Unit}
    (htoken : ∀ held, (operation held).1.bridge.token = held.bridge.token) :
    Desk.SameLinks desk (desk.withBridge wire operation).1 := by
  unfold Desk.withBridge
  cases hbridge : desk.bridges[wire.peerDeviceId]? with
  | none => exact .refl
  | some bridge =>
    dsimp only
    split
    · exact put_links hbridge (htoken _)
    · exact .refl

/-- A thread that only sends keeps its device. -/
theorem insert_links {token : Nat} {thread thread' : PumpThread}
    (hthread : desk.pumps[token]? = some thread) (hdevice : thread'.device = thread.device) :
    Desk.SameLinks desk { desk with pumps := desk.pumps.insert token thread' } := by
  refine ⟨fun _ bridge h => ⟨bridge, h, rfl⟩, fun token' => ?_, rfl⟩
  show ((desk.pumps.insert token thread')[token']?).map _ = _
  rw [getElem?_idInsert]
  split
  · rename_i heq
    rw [← heq, hthread, Option.map_some, Option.map_some, hdevice]
  · rfl

/-- The other operations on the bridges. -/
theorem finish_links (device : String) (token : Nat) :
    Desk.SameLinks desk (desk.finish vt device token) := by
  unfold Desk.finish
  split
  · split
    · refine ⟨fun device' bridge' hbridge' => ?_, fun _ => rfl, rfl⟩
      have hbridge' : (desk.bridges.erase device)[device']? = some bridge' := hbridge'
      rw [getElem?_keyErase] at hbridge'
      split at hbridge'
      · cases hbridge'
      · exact ⟨bridge', hbridge', rfl⟩
    · exact .refl
  · exact .refl

theorem cutOff_links (device reason : String) :
    Desk.SameLinks desk (desk.cutOff vt device reason) := by
  unfold Desk.cutOff
  cases hbridge : desk.bridges[device]? with
  | none => exact ⟨fun _ bridge h => ⟨bridge, h, rfl⟩, fun _ => rfl, rfl⟩
  | some bridge =>
    have hnext : Held.Next (fun _ _ => False) (desk.hold bridge)
        ((desk.hold bridge).finishWith vt reason) := finishWith_next reason
    exact put_links hbridge hnext.token

theorem withOpenBridge_links (wire : WireBinding) {operation : TerminalBridge → TerminalBridge}
    (htoken : ∀ bridge, (operation bridge).token = bridge.token) :
    Desk.SameLinks desk (desk.withOpenBridge wire operation) := by
  unfold Desk.withOpenBridge
  cases hbridge : desk.bridges[wire.peerDeviceId]? with
  | none => exact .refl
  | some bridge =>
    dsimp only
    split
    · rw [← put_hold]
      exact put_links hbridge (htoken bridge)
    · exact .refl

theorem pumpOnce_links (device : String) (token budget : Nat) (order : List Nat)
    (script : Script) :
    Desk.SameLinks desk (desk.pumpOnce vt device token budget order script).1 := by
  unfold Desk.pumpOnce
  cases hbridge : desk.bridges[device]? with
  | none => exact .refl
  | some bridge =>
    dsimp only
    split
    · have hnext : Held.Next (fun _ _ => False)
          (desk.hold { bridge with elsewhere := desk.attachedElsewhere device })
          (Held.pump vt _ budget order script).1 := pump_next budget order script
      exact put_links hbridge hnext.token
    · exact .refl

theorem pumpThread_links (token budget : Nat) (order : List Nat) (script : Script) :
    Desk.SameLinks desk (desk.pumpThread vt token budget order script) := by
  unfold Desk.pumpThread
  cases hthread : desk.pumps[token]? with
  | none => exact .refl
  | some thread =>
    dsimp only
    split
    · have hpumped := @pumpOnce_links P vt desk thread.device token budget order script
      generalize desk.pumpOnce vt thread.device token budget order script = pumped at hpumped ⊢
      have hthere := hpumped.pumps token
      rw [hthread, Option.map_some, Option.map_eq_some_iff] at hthere
      obtain ⟨thread', hthread', hdevice⟩ := hthere
      exact hpumped.trans (insert_links hthread' hdevice.symm)
    · exact .refl

theorem send_links (token : Nat) : Desk.SameLinks desk (desk.send token) := by
  unfold Desk.send
  cases hthread : desk.pumps[token]? with
  | none => exact .refl
  | some thread =>
    dsimp only
    split
    · exact insert_links hthread rfl
    · exact .refl

theorem announceFinished_links (id : Nat) (told : List String) :
    Desk.SameLinks desk (desk.announceFinished id told) := by
  refine ⟨fun device bridge' hbridge' => ?_, fun _ => rfl, rfl⟩
  have hbridge' : (desk.bridges.map _)[device]? = some bridge' := hbridge'
  rw [Std.ExtTreeMap.getElem?_map, Option.map_eq_some_iff] at hbridge'
  obtain ⟨bridge, hbridge, rfl⟩ := hbridge'
  refine ⟨bridge, hbridge, ?_⟩
  split <;> rfl

theorem bridges_begin (wire : WireBinding) (device : String) :
    (desk.begin vt wire).bridges[device]? = if wire.peerDeviceId = device
      then some { wire, token := desk.nextToken } else desk.bridges[device]? := by
  unfold Desk.begin
  cases desk.bridges[wire.peerDeviceId]? with
  | none => exact getElem?_keyInsert ..
  | some previous =>
    show ((desk.bridges.insert wire.peerDeviceId _).insert wire.peerDeviceId _)[device]? = _
    rw [getElem?_keyInsert, getElem?_keyInsert]
    split <;> rfl

theorem pumps_begin (wire : WireBinding) :
    (desk.begin vt wire).pumps = desk.pumps.insert desk.nextToken { device := wire.peerDeviceId } ∧
      (desk.begin vt wire).nextToken = desk.nextToken + 1 := by
  unfold Desk.begin
  cases desk.bridges[wire.peerDeviceId]? <;> exact ⟨rfl, rfl⟩

/-- A new connection has a new token, and its thread. -/
theorem begin_linked (h : desk.Linked) (wire : WireBinding) : (desk.begin vt wire).Linked := by
  obtain ⟨hpumps, hnext⟩ := @pumps_begin P vt desk wire
  constructor
  · intro token thread hthread
    rw [hpumps, getElem?_idInsert] at hthread
    rw [hnext]
    split at hthread
    · omega
    · exact Nat.lt_succ_of_lt (h.fresh token thread hthread)
  · intro device bridge hbridge
    rw [bridges_begin] at hbridge
    rw [hpumps]
    by_cases heq : wire.peerDeviceId = device
    · rw [if_pos heq, Option.some.injEq] at hbridge
      refine ⟨{ device := wire.peerDeviceId }, ?_, heq⟩
      rw [← hbridge, getElem?_idInsert, if_pos rfl]
    · rw [if_neg heq] at hbridge
      obtain ⟨thread, hthread, hdevice⟩ := h.linked device bridge hbridge
      refine ⟨thread, ?_, hdevice⟩
      have hlt := h.fresh bridge.token thread hthread
      rw [getElem?_idInsert, if_neg (by omega)]
      exact hthread

/-- Every step keeps the bridges linked to their threads. -/
theorem after_linked (h : desk.Linked) (op : DeskOp) : (desk.after vt op).Linked := by
  cases op with
  | begin wire => exact begin_linked h wire
  | finish device token => exact h.same (finish_links device token)
  | control wire control start spawned =>
    refine h.same (withBridge_links wire (fun held => ?_))
    exact (@handleControlIn_next P vt (fun _ _ => False) held control start spawned).token
  | chunk wire chunk =>
    refine h.same (withBridge_links wire (fun held => ?_))
    exact (@handleChunk_next P vt (fun _ _ => False) held chunk).token
  | refuse wire terminalId reason =>
    refine h.same (withOpenBridge_links wire (fun bridge => ?_))
    exact (@refuse_hold_next P desk bridge (fun _ _ => False) terminalId reason).token
  | pump token budget order script => exact h.same (pumpThread_links token budget order script)
  | send token => exact h.same (send_links token)
  | revokeDevice device => exact h.same (cutOff_links device _)
  | endDeviceSessions device => exact h.same (cutOff_links device _)
  | announceFinished id told => exact h.same (announceFinished_links id told)
  | sweep | deskCreate | deskClose | happens => exact ⟨h.fresh, h.linked⟩

end Links

/-! ### The output of the sessions -/

section Rings

variable {desk : Desk P}

theorem pumpAll_grows {p : Pumping P} (ids : List Nat) :
    Sessions.Each PtySession.Grows p.held.all (Pumping.pumpAll vt ids p).held.all := by
  induction ids generalizing p with
  | nil => exact grows_refl
  | cons id rest ih =>
    unfold Pumping.pumpAll
    split
    · exact grows_refl
    · -- Whichever terminal is pumped, it is beside the stream of another one.
      have hbeside : Pumping.Beside (id + 1) p (p.pumpTerminal vt id) :=
        pumpTerminal_beside (by omega)
      exact grows_trans hbeside.aside.grows ih

theorem pump_grows {held : Held P} (budget : Nat) (order : List Nat) (script : Script) :
    Sessions.Each PtySession.Grows held.all (held.pump vt budget order script).1.all := by
  unfold Held.pump
  obtain ⟨-, hall, -, -⟩ :=
    @drain_line P 0 [] { held, script, remaining := budget } held.bridge.outbox rfl
  have hall : (Pumping.drain held.bridge.outbox { held, script, remaining := budget }).held.all
      = held.all := hall
  dsimp only
  split
  · rw [hall]
    exact grows_refl
  · have hpumped := @pumpAll_grows P vt
      (Pumping.drain held.bridge.outbox { held, script, remaining := budget })
      (keysIn (Pumping.drain held.bridge.outbox
        { held, script, remaining := budget }).held.bridge.attached order)
    rw [hall] at hpumped
    exact hpumped

/-- The output of every session only grows, whatever the step. -/
theorem all_grows (op : DeskOp) :
    Sessions.Each PtySession.Grows desk.all (desk.after vt op).all := by
  by_cases hsession : op.ofSession = false
  · by_cases hchunk : ∃ wire chunk, op = .chunk wire chunk
    · obtain ⟨wire, chunk, rfl⟩ := hchunk
      show Sessions.Each _ _ (desk.withBridge wire _).1.all
      unfold Desk.withBridge
      split
      · split
        · exact (@handleChunk_sameOutput P vt (desk.hold _) chunk).imp (fun _ _ h => h.grows)
        · exact grows_refl
      · exact grows_refl
    · have hother : ∀ wire chunk, op ≠ .chunk wire chunk :=
        fun wire chunk heq => hchunk ⟨wire, chunk, heq⟩
      exact untyped_grows (after_untyped hsession hother)
  · cases op with
    | happens moment => exact happen_grows moment
    | pump token budget order script =>
      show Sessions.Each _ _ (desk.pumpThread vt token budget order script).all
      unfold Desk.pumpThread Desk.pumpOnce
      split
      · split
        · split
          · split
            · exact @pump_grows P vt (desk.hold _) budget order script
            · exact grows_refl
          · exact grows_refl
        · exact grows_refl
      · exact grows_refl
    | _ => exact absurd rfl hsession

theorem ringed_run (ops : List DeskOp) : (Desk.run vt ops).all.Ringed := by
  have hall : Lib.AllAlong (Desk.after vt) (fun desk => desk.all.Ringed) ({} : Desk P) ops :=
    Lib.allAlong_of_forall (fun id s hs => by simp at hs) (fun op _ _ h => h.grows (all_grows op))
  exact hall.last

theorem linked_run (ops : List DeskOp) : (Desk.run vt ops).Linked :=
  (Lib.allAlong_of_forall linked_new (fun op _ _ h => after_linked h op)).last

end Rings

/-! ### The line of a connection -/

/-- What is queued for the device. -/
def Desk.outboxOf (desk : Desk P) (device : String) : List TerminalEvent :=
  (desk.bridges[device]?).elim [] TerminalBridge.outbox

/-- The pump thread of the device's connection. -/
def Desk.threadOf (desk : Desk P) (device : String) : Option PumpThread :=
  (desk.bridges[device]?).bind (fun bridge => desk.pumps[bridge.token]?)

/-- What was sent of a terminal over the device's connection. -/
def Desk.sentTo (desk : Desk P) (device : String) (id : Nat) : List TerminalEvent :=
  ((desk.threadOf device).elim [] PumpThread.sent).filter (TerminalEvent.about id)

/-- What was sent of it, and what is still on its way, in order. -/
def Desk.lineOf (desk : Desk P) (device : String) (id : Nat) : List TerminalEvent :=
  ((desk.threadOf device).elim [] (fun thread => thread.sent ++ thread.sending)
    ++ desk.outboxOf device).filter (TerminalEvent.about id)

/-- The attach request of the device that a step answers: the terminal, and
the offset that is asked for. -/
def Desk.attaching (vt : Vt100 P) (desk : Desk P) (device : String) :
    DeskOp → Option (Nat × Option Nat)
  | .control wire control start spawned =>
    if wire.peerDeviceId = device ∧ control.action = .attach ∧
        (((desk.after vt (.control wire control start spawned)).outboxOf device).drop
          (desk.outboxOf device).length).any TerminalEvent.isAttached then
      control.terminalId.map (fun id => (id, control.offset))
    else none
  | _ => none

/-- The connection of the device is sent the stream of a terminal. -/
def Desk.Telling (vt : Vt100 P) (device : String) (id : Nat) (asked : Option Nat)
    (base : List TerminalEvent) (desk : Desk P) : Prop :=
  ∃ bridge thread, desk.bridges[device]? = some bridge ∧
    desk.pumps[bridge.token]? = some thread ∧
    Told vt id asked base (desk.hold bridge)
      ((desk.hold bridge).line (thread.sent ++ thread.sending) id)

section Lines

variable {desk desk' : Desk P} {device device' : String} {id : Nat} {asked : Option Nat}
variable {base : List TerminalEvent} {bridge : TerminalBridge} {held' : Held P}
variable {operation : Held P → Held P × Except String Unit} {wire : WireBinding} {op : DeskOp}

theorem sentTo_prefix : desk.sentTo device id <+: desk.lineOf device id := by
  unfold Desk.sentTo Desk.lineOf
  refine List.IsPrefix.filter _ ?_
  cases desk.threadOf device with
  | none => exact List.nil_prefix
  | some thread => exact ⟨thread.sending ++ desk.outboxOf device, by simp⟩

theorem lineOf_eq {thread : PumpThread} (hbridge : desk.bridges[device]? = some bridge)
    (hthread : desk.pumps[bridge.token]? = some thread) :
    desk.lineOf device id = (desk.hold bridge).line (thread.sent ++ thread.sending) id := by
  have hthere : desk.threadOf device = some thread := by
    unfold Desk.threadOf
    rw [hbridge]
    exact hthread
  have hqueued : desk.outboxOf device = bridge.outbox := by
    unfold Desk.outboxOf
    rw [hbridge]
    rfl
  unfold Desk.lineOf
  rw [hthere, hqueued]
  rfl

/-- A step that leaves the bridge and the thread of the device alone. -/
theorem Desk.Telling.elsewhere (h : desk.Telling vt device id asked base)
    (hbridges : desk'.bridges[device]? = desk.bridges[device]?)
    (hpumps : ∀ bridge, desk.bridges[device]? = some bridge →
      desk'.pumps[bridge.token]? = desk.pumps[bridge.token]?)
    (hgrows : Sessions.Each PtySession.Grows desk.all desk'.all) :
    desk'.Telling vt device id asked base := by
  obtain ⟨bridge, thread, hbridge, hthread, n, hsending, hnext⟩ := h
  exact ⟨bridge, thread, hbridges.trans hbridge, (hpumps bridge hbridge).trans hthread, n,
    hsending.grows hgrows, hnext⟩

/-- A step that changes the bridge of the device, and what it was sent is
carried on. -/
theorem Desk.Telling.put {held' : Held P} {bridge : TerminalBridge} {elsewhere : List Nat}
    (h : desk.Telling vt device id asked base) (hbridge : desk.bridges[device]? = some bridge)
    (htoken : held'.bridge.token = bridge.token)
    (htold : ∀ sent, Told vt id asked base (desk.hold { bridge with elsewhere })
        ((desk.hold { bridge with elsewhere }).line sent id) →
      Told vt id asked base held' (held'.line sent id)) :
    (desk.put device held').Telling vt device id asked base := by
  obtain ⟨bridge', thread, hbridge', hthread, hall⟩ := h
  rw [hbridge, Option.some.injEq] at hbridge'
  subst hbridge'
  refine ⟨held'.bridge, thread, ?_, ?_, htold _ hall⟩
  · show (desk.bridges.insert device held'.bridge)[device]? = _
    rw [getElem?_keyInsert, if_pos rfl]
  · rw [htoken]
    exact hthread

theorem bridges_put_ne {other : String} (hne : other ≠ device) :
    (desk.put other held').bridges[device]? = desk.bridges[device]? := by
  show (desk.bridges.insert other held'.bridge)[device]? = _
  rw [getElem?_keyInsert, if_neg hne]

/-- A request that comes in on some connection. -/
theorem withBridge_telling (wire : WireBinding) (h : desk.Telling vt device id asked base)
    (htoken : ∀ held, (operation held).1.bridge.token = held.bridge.token)
    (hgrows : ∀ held, Sessions.Each PtySession.Grows held.all (operation held).1.all)
    (htold : wire.peerDeviceId = device → ∀ bridge, desk.bridges[device]? = some bridge →
      bridge.wire = wire → ∀ sent,
      Told vt id asked base (desk.hold { bridge with elsewhere := desk.attachedElsewhere device })
        ((desk.hold { bridge with elsewhere := desk.attachedElsewhere device }).line sent id) →
      Told vt id asked base
        (operation (desk.hold { bridge with elsewhere := desk.attachedElsewhere device })).1
        ((operation (desk.hold
          { bridge with elsewhere := desk.attachedElsewhere device })).1.line sent id)) :
    (desk.withBridge wire operation).1.Telling vt device id asked base := by
  unfold Desk.withBridge
  cases hbridge : desk.bridges[wire.peerDeviceId]? with
  | none => exact h
  | some bridge =>
    dsimp only
    by_cases hwire : bridge.wire = wire
    · rw [if_pos hwire]
      by_cases hdevice : wire.peerDeviceId = device
      · subst hdevice
        exact h.put hbridge (htoken _) (htold rfl bridge hbridge hwire)
      · exact h.elsewhere (bridges_put_ne hdevice) (fun _ _ => rfl)
          (hgrows (desk.hold
            { bridge with elsewhere := desk.attachedElsewhere wire.peerDeviceId }))
    · rw [if_neg hwire]
      exact h

/-- The thread of the connection sends what it has taken. -/
theorem send_telling (h : desk.Telling vt device id asked base) (token : Nat) :
    (desk.send token).Telling vt device id asked base := by
  unfold Desk.send
  cases hpump : desk.pumps[token]? with
  | none => exact h
  | some thread =>
    dsimp only
    cases hsending : thread.sending with
    | nil => exact h
    | cons event rest =>
      obtain ⟨bridge, thread', hbridge, hthread, htold⟩ := h
      by_cases htoken : token = bridge.token
      · rw [htoken, hthread, Option.some.injEq] at hpump
        subst hpump
        refine ⟨bridge, { thread' with sending := rest, sent := thread'.sent ++ [event] }, hbridge,
          ?_, ?_⟩
        · show (desk.pumps.insert token _)[bridge.token]? = _
          rw [getElem?_idInsert, if_pos htoken]
        · have hsame : thread'.sent ++ [event] ++ rest = thread'.sent ++ thread'.sending := by
            rw [hsending, List.append_assoc, List.singleton_append]
          show Told vt id asked base _ (Held.line _ (thread'.sent ++ [event] ++ rest) id)
          rw [hsame]
          exact htold
      · refine ⟨bridge, thread', hbridge, ?_, htold⟩
        show (desk.pumps.insert token _)[bridge.token]? = _
        rw [getElem?_idInsert, if_neg htoken]
        exact hthread

/-- The pump of the connection takes what is queued and what is new. -/
theorem pumpThread_telling (hlinked : desk.Linked) (hringed : desk.all.Ringed)
    (h : desk.Telling vt device id asked base) (token budget : Nat) (order : List Nat)
    (script : Script) :
    (desk.pumpThread vt token budget order script).Telling vt device id asked base := by
  unfold Desk.pumpThread
  cases hpump : desk.pumps[token]? with
  | none => exact h
  | some thread =>
    dsimp only
    by_cases hidle : thread.sending = []
    swap
    · rw [if_neg hidle]
      exact h
    rw [if_pos hidle]
    -- A pump that is not of a bridge takes nothing.
    have hnothing : Desk.Telling vt device id asked base
        { desk with pumps := desk.pumps.insert token { thread with sending := [] } } := by
      refine h.elsewhere rfl (fun bridge _ => ?_) grows_refl
      show (desk.pumps.insert token _)[bridge.token]? = _
      rw [getElem?_idInsert]
      split
      · rename_i heq
        rw [← heq, hpump, ← hidle]
      · rfl
    unfold Desk.pumpOnce
    cases hbridge : desk.bridges[thread.device]? with
    | none => exact hnothing
    | some bridge =>
      dsimp only
      by_cases htoken : bridge.token = token
      swap
      · rw [if_neg htoken]
        exact hnothing
      rw [if_pos htoken]
      have hnext : Held.Next (fun _ _ => False)
          (desk.hold { bridge with elsewhere := desk.attachedElsewhere thread.device })
          (Held.pump vt _ budget order script).1 := pump_next budget order script
      by_cases hdevice : thread.device = device
      · obtain ⟨bridge', thread', hbridge', hthread', htold⟩ := h
        rw [← hdevice, hbridge, Option.some.injEq] at hbridge'
        subst hbridge'
        rw [htoken, hpump, Option.some.injEq] at hthread'
        subst hthread'
        rw [hidle, List.append_nil] at htold
        have hpumped := @pump_told P vt id asked thread.sent base
          (desk.hold { bridge with elsewhere := desk.attachedElsewhere thread.device }) hringed
          htold budget order script
        generalize Held.pump vt
          (desk.hold { bridge with elsewhere := desk.attachedElsewhere thread.device })
          budget order script = pumped at hnext hpumped ⊢
        refine ⟨pumped.1.bridge, { thread with sending := pumped.2 }, ?_, ?_, hpumped⟩
        · show (desk.bridges.insert thread.device _)[device]? = _
          rw [getElem?_keyInsert, if_pos hdevice]
        · show (desk.pumps.insert token _)[pumped.1.bridge.token]? = _
          rw [getElem?_idInsert, if_pos (htoken.symm.trans hnext.token.symm)]
          rfl
      · refine h.elsewhere (bridges_put_ne hdevice) (fun bridge' hbridge' => ?_)
          (@pump_grows P vt
            (desk.hold { bridge with elsewhere := desk.attachedElsewhere thread.device })
            budget order script)
        -- The thread of another device is not the one of this connection.
        obtain ⟨thread', hthread', hdevice'⟩ := hlinked.linked device bridge' hbridge'
        show (desk.pumps.insert token _)[bridge'.token]? = _
        rw [getElem?_idInsert, if_neg]
        intro heq
        rw [← heq, hpump, Option.some.injEq] at hthread'
        exact hdevice (by rw [hthread']; exact hdevice')

/-- What is queued for a phone when it is told of a finished job is of no
stream. -/
theorem announceFinished_telling (h : desk.Telling vt device id asked base) (id' : Nat)
    (told : List String) : (desk.announceFinished id' told).Telling vt device id asked base := by
  obtain ⟨bridge, thread, hbridge, hthread, htold⟩ := h
  have hthere : (desk.announceFinished id' told).bridges[device]? = some
      (if device ∈ told then
        bridge.queueAlways (.sendControl { action := .finished, terminalId := some id' })
      else bridge) := by
    show (desk.bridges.map _)[device]? = _
    rw [Std.ExtTreeMap.getElem?_map, hbridge]
    rfl
  by_cases hin : device ∈ told
  · rw [if_pos hin] at hthere
    refine ⟨_, thread, hthere, hthread, htold.past ⟨?_, fun a ha => ⟨a, ha, rfl⟩, grows_refl⟩⟩
    show (bridge.outbox ++ [_]).filter (TerminalEvent.about id) = bridge.outbox.filter _
    rw [List.filter_append]
    simp [TerminalEvent.about]
  · rw [if_neg hin] at hthere
    exact ⟨bridge, thread, hthere, hthread, htold⟩

theorem withBridge_eq (hbridge : desk.bridges[wire.peerDeviceId]? = some bridge)
    (hwire : bridge.wire = wire) :
    (desk.withBridge wire operation).1 = desk.put wire.peerDeviceId (operation (desk.hold
      { bridge with elsewhere := desk.attachedElsewhere wire.peerDeviceId })).1 := by
  unfold Desk.withBridge
  simp only [hbridge, if_pos hwire]

theorem outboxOf_put : (desk.put device held').outboxOf device = held'.bridge.outbox := by
  unfold Desk.outboxOf
  show Option.elim ((desk.bridges.insert device held'.bridge)[device]?) [] _ = _
  rw [getElem?_keyInsert, if_pos rfl]
  rfl

/-- The attach request that a step answers, as the bridge sees it. -/
theorem attaching_control {control : TerminalControl} {start : Start} {spawned : Except String Unit}
    (hbridge : desk.bridges[wire.peerDeviceId]? = some bridge) (hwire : bridge.wire = wire)
    (haction : control.action = .attach) :
    desk.attaching vt wire.peerDeviceId (.control wire control start spawned) =
      if (desk.hold { bridge with elsewhere := desk.attachedElsewhere wire.peerDeviceId }).attaches
          vt control
      then control.terminalId.map (fun id => (id, control.offset)) else none := by
  have hbefore : desk.outboxOf wire.peerDeviceId = bridge.outbox := by
    unfold Desk.outboxOf
    rw [hbridge]
    rfl
  have hafter : (desk.after vt (.control wire control start spawned)).outboxOf wire.peerDeviceId
      = ((desk.hold { bridge with elsewhere := desk.attachedElsewhere wire.peerDeviceId
        }).handleAttach vt control).1.bridge.outbox := by
    show (desk.withBridge wire _).1.outboxOf wire.peerDeviceId = _
    rw [withBridge_eq hbridge hwire, outboxOf_put]
    simp only [Held.handleControlIn, haction]
  dsimp only [Desk.attaching]
  rw [hbefore, hafter]
  simp only [haction, true_and]
  rfl

/-- The device is cut off by none of the steps that are about others. -/
theorem cutOff_telling (h : desk.Telling vt device id asked base) (hne : device' ≠ device)
    (reason : String) : (desk.cutOff vt device' reason).Telling vt device id asked base := by
  unfold Desk.cutOff
  split
  · rename_i bridge _
    exact h.elsewhere (bridges_put_ne hne) (fun _ _ => rfl)
      (untyped_grows (@releaseClaims_untyped P vt (desk.hold bridge)))
  · exact h.elsewhere rfl (fun _ _ => rfl) grows_refl

theorem finish_telling (h : desk.Telling vt device id asked base) {token : Nat}
    (hcut : device ∉ desk.cuts (.finish device' token)) :
    (desk.finish vt device' token).Telling vt device id asked base := by
  unfold Desk.finish
  cases hbridge : desk.bridges[device']? with
  | none => exact h
  | some bridge =>
    dsimp only
    by_cases htoken : bridge.token = token
    · rw [if_pos htoken]
      have hne : device' ≠ device := by
        intro heq
        subst heq
        refine hcut ?_
        simp [Desk.cuts, hbridge, htoken]
      refine h.elsewhere ?_ (fun _ _ => rfl)
        (untyped_grows (@releaseClaims_untyped P vt (desk.hold bridge)))
      show (desk.bridges.erase device')[device]? = _
      rw [getElem?_keyErase, if_neg hne]
    · rw [if_neg htoken]
      exact h

theorem refuse_telling (h : desk.Telling vt device id asked base) (wire : WireBinding)
    (terminalId : Option Nat) (reason : String) :
    (desk.withOpenBridge wire (fun bridge => bridge.refuse terminalId reason)).Telling vt device id
      asked base := by
  unfold Desk.withOpenBridge
  cases hbridge : desk.bridges[wire.peerDeviceId]? with
  | none => exact h
  | some bridge =>
    dsimp only
    split
    · rw [← put_hold]
      by_cases hdevice : wire.peerDeviceId = device
      · subst hdevice
        have hnext : Held.Next (fun _ _ => False) (desk.hold bridge)
          (desk.hold (bridge.refuse terminalId reason)) := refuse_hold_next
        have haside : Held.Aside id (desk.hold bridge)
          (desk.hold (bridge.refuse terminalId reason)) := refuse_aside terminalId reason
        refine @Desk.Telling.put P vt desk wire.peerDeviceId id asked base _ bridge bridge.elsewhere h
          hbridge hnext.token ?_
        intro sent htold
        exact htold.past haside
      · exact h.elsewhere (bridges_put_ne hdevice) (fun _ _ => rfl) grows_refl
    · exact h

/-- Every step of a run carries the stream on, unless the device is cut off or
attaches to the terminal again. -/
theorem after_telling (hlinked : desk.Linked) (hringed : desk.all.Ringed)
    (hcut : device ∉ desk.cuts op)
    (hattach : ∀ asked', desk.attaching vt device op ≠ some (id, asked'))
    (h : desk.Telling vt device id asked base) :
    (desk.after vt op).Telling vt device id asked base := by
  cases op with
  | begin wire =>
    have hne : wire.peerDeviceId ≠ device := by
      intro heq
      obtain ⟨bridge, _, hbridge, -⟩ := h
      refine hcut ?_
      simp [Desk.cuts, heq, hbridge]
    refine h.elsewhere ?_ (fun bridge hbridge => ?_) (all_grows (.begin wire))
    · show (desk.begin vt wire).bridges[device]? = _
      rw [bridges_begin, if_neg hne]
    · show (desk.begin vt wire).pumps[bridge.token]? = _
      obtain ⟨thread, hthread, -⟩ := hlinked.linked device bridge hbridge
      have hlt := hlinked.fresh bridge.token thread hthread
      rw [(pumps_begin wire).1, getElem?_idInsert, if_neg (by omega)]
  | finish device' token => exact finish_telling h hcut
  | control wire control start spawned =>
    refine withBridge_telling wire h (fun held => ?_) (fun held => ?_) ?_
    · exact (@handleControlIn_next P vt (fun _ _ => False) held control start spawned).token
    · exact untyped_grows (handleControlIn_untyped ..)
    · intro hdevice bridge hbridge hwire sent htold
      subst hdevice
      refine handleControlIn_told htold (fun haction hattaches hid => ?_)
      refine hattach control.offset ?_
      rw [attaching_control hbridge hwire haction, if_pos hattaches, hid]
      rfl
  | chunk wire chunk =>
    refine withBridge_telling wire h (fun held => ?_) (fun held => ?_) ?_
    · exact (@handleChunk_next P vt (fun _ _ => False) held chunk).token
    · exact (handleChunk_sameOutput chunk).imp (fun _ _ hsame => hsame.grows)
    · exact fun _ _ _ _ _ htold => htold.past (handleChunk_aside chunk)
  | refuse wire terminalId reason => exact refuse_telling h wire terminalId reason
  | pump token budget order script =>
    exact pumpThread_telling hlinked hringed h token budget order script
  | send token => exact send_telling h token
  | revokeDevice device' =>
    refine cutOff_telling h (fun heq => hcut ?_) terminalNotAllowed
    rw [heq]
    rfl
  | endDeviceSessions device' =>
    refine cutOff_telling h (fun heq => hcut ?_) terminalEnded
    rw [heq]
    rfl
  | announceFinished id' told => exact announceFinished_telling h id' told
  | sweep idle => exact h.elsewhere rfl (fun _ _ => rfl) (all_grows (.sweep idle))
  | deskCreate rows cols spawned =>
    exact h.elsewhere rfl (fun _ _ => rfl) (all_grows (.deskCreate rows cols spawned))
  | deskClose id' => exact h.elsewhere rfl (fun _ _ => rfl) (all_grows (.deskClose id'))
  | happens moment => exact h.elsewhere rfl (fun _ _ => rfl) (all_grows (.happens moment))

/-- The attach request that is answered begins a stream at the end of the
line. -/
theorem attach_telling (hlinked : desk.Linked) (hringed : desk.all.Ringed)
    (hattach : desk.attaching vt device op = some (id, asked)) :
    (desk.after vt op).Telling vt device id asked (desk.lineOf device id) := by
  cases op with
  | control wire control start spawned =>
    have hcond := hattach
    dsimp only [Desk.attaching] at hcond
    split at hcond
    swap
    · cases hcond
    rename_i hanswered
    obtain ⟨hdevice, haction, hanswered⟩ := hanswered
    subst hdevice
    -- Only a bridge that serves the connection answers.
    obtain ⟨bridge, hbridge, hwire⟩ : ∃ bridge, desk.bridges[wire.peerDeviceId]? = some bridge ∧
        bridge.wire = wire := by
      by_contra hnone
      have hsame : desk.after vt (.control wire control start spawned) = desk := by
        show (desk.withBridge wire _).1 = desk
        unfold Desk.withBridge
        split
        · rename_i bridge hbridge
          rw [if_neg (fun hwire => hnone ⟨bridge, hbridge, hwire⟩)]
        · rfl
      rw [hsame, List.drop_length] at hanswered
      cases hanswered
    rw [attaching_control hbridge hwire haction] at hattach
    split at hattach
    swap
    · cases hattach
    rename_i hattaches
    obtain ⟨id', hid, heq⟩ := Option.map_eq_some_iff.mp hattach
    cases heq
    obtain ⟨hrefused, -⟩ | ⟨id', s, hid', hget, hqueued⟩ := @handleAttach_cases P vt id
      (desk.hold { bridge with elsewhere := desk.attachedElsewhere wire.peerDeviceId }) control
    · rw [hrefused] at hattaches
      cases hattaches
    rw [hid, Option.some.injEq] at hid'
    subst hid'
    obtain ⟨thread, hthread, -⟩ := hlinked.linked _ bridge hbridge
    have hs : s.Ringed := by
      unfold TerminalRegistry.get at hget
      split at hget
      · exact hringed id s hget
      · cases hget
    have htold := @handleAttach_told P vt id (thread.sent ++ thread.sending) _ control s hs hid
      hget hqueued
    have hnext := @handleAttach_next P vt (fun _ _ => False)
      (desk.hold { bridge with elsewhere := desk.attachedElsewhere wire.peerDeviceId }) control
    show (desk.withBridge wire _).1.Telling vt _ id _ _
    rw [withBridge_eq hbridge hwire, lineOf_eq hbridge hthread]
    simp only [Held.handleControlIn, haction]
    refine ⟨_, thread, ?_, ?_, htold⟩
    · show (desk.bridges.insert wire.peerDeviceId _)[wire.peerDeviceId]? = _
      rw [getElem?_keyInsert, if_pos rfl]
    · rw [hnext.token]
      exact hthread
  | _ => cases hattach

end Lines

/-- In every run of the desk, and for every attach request of a phone that is
answered: until the phone is cut off or attaches to the terminal again, what it
is sent of the terminal after what it was sent before is one stream, and what
has been sent so far is a part of that from its beginning. -/
theorem stream_unbroken (vt : Vt100 P) (before after : List DeskOp) (op : DeskOp)
    (device : String) (id : Nat) (asked : Option Nat)
    (hattach : (Desk.run vt before).attaching vt device op = some (id, asked))
    (hafter : Lib.Alongside (Desk.after vt)
      (fun desk op => device ∉ desk.cuts op ∧
        (desk.attaching vt device op).map Prod.fst ≠ some id)
      (Desk.run vt (before ++ [op])) after) :
    ∃ events n s, (Desk.run vt (before ++ op :: after)).all[id]? = some s ∧
      Stream vt s id asked events n ∧
      (Desk.run vt (before ++ op :: after)).lineOf device id
        = (Desk.run vt before).lineOf device id ++ events ∧
      (Desk.run vt (before ++ op :: after)).sentTo device id
        <+: (Desk.run vt before).lineOf device id ++ events := by
  have hop : Desk.run vt (before ++ [op]) = (Desk.run vt before).after vt op :=
    Lib.applyAll_append ..
  have hrun : Desk.run vt (before ++ op :: after)
      = Lib.applyAll (Desk.after vt) (Desk.run vt (before ++ [op])) after := by
    rw [hop]
    exact Lib.applyAll_append ..
  have hbegin : (Desk.run vt (before ++ [op])).Telling vt device id asked
      ((Desk.run vt before).lineOf device id) := by
    rw [hop]
    exact attach_telling (linked_run before) (ringed_run before) hattach
  -- The rest of the run keeps the stream, with the links and the rings.
  have hlast := hafter.invariant
    (I := fun desk => desk.Linked ∧ desk.all.Ringed ∧
      desk.Telling vt device id asked ((Desk.run vt before).lineOf device id))
    (fun desk op h hmeets => ⟨after_linked h.1 op, h.2.1.grows (all_grows op),
      after_telling h.1 h.2.1 hmeets.1 (fun asked' heq => hmeets.2 (by rw [heq]; rfl)) h.2.2⟩)
    ⟨linked_run _, ringed_run _, hbegin⟩
  rw [← hrun] at hlast
  obtain ⟨-, -, bridge, thread, hbridge, hthread, n, ⟨events, s, hs, hstream, hline⟩, -⟩ := hlast
  have hwhole := (lineOf_eq hbridge hthread).trans hline
  exact ⟨events, n, s, hs, hstream, hwhole, hwhole ▸ sentTo_prefix⟩

/-- A phone starts a session that writes two bytes. -/
def startedRun : List DeskOp :=
  [.begin phoneWire, .control phoneWire { action := .create } .usable (.ok ()),
    .happens [(0, .output [108, 115])]]

/-- It attaches from the beginning. -/
def attachOp : DeskOp :=
  .control phoneWire { action := .attach, terminalId := some 0, offset := some 0 } .usable (.ok ())

/-- What is queued is sent, then more is written and sent. -/
def pumpedRun : List DeskOp :=
  [.pump 1 4096 [] [], .send 1, .send 1, .send 1, .send 1, .send 1, .happens [(0, .output [10])],
    .pump 1 4096 [] [], .send 1]

/-- The attached phone is sent the stream from its start. -/
theorem stream_unbroken_pumpedRun :
    (Desk.run blankScreen startedRun).attaching blankScreen "phone" attachOp = some (0, some 0) ∧
    ∃ events n s, (Desk.run blankScreen (startedRun ++ attachOp :: pumpedRun)).all[0]? = some s ∧
      Stream blankScreen s 0 (some 0) events n ∧
      (Desk.run blankScreen (startedRun ++ attachOp :: pumpedRun)).lineOf "phone" 0
        = (Desk.run blankScreen startedRun).lineOf "phone" 0 ++ events ∧
      (Desk.run blankScreen (startedRun ++ attachOp :: pumpedRun)).sentTo "phone" 0
        <+: (Desk.run blankScreen startedRun).lineOf "phone" 0 ++ events := by
  have hattach : (Desk.run blankScreen startedRun).attaching blankScreen "phone" attachOp
      = some (0, some 0) := by decide +kernel
  refine ⟨hattach, stream_unbroken blankScreen startedRun pumpedRun attachOp "phone" 0 (some 0)
    hattach ?_⟩
  decide +kernel

/-- The reply to the attach says offset 0, and the output after it goes on at
2. And a phone that closes a terminal itself is told `Closed` with nothing of
the output sent, though all of it was written and read. -/
theorem reply_before_output :
    (Desk.run blankScreen (startedRun ++ attachOp :: pumpedRun)).sentTo "phone" 0
      = [.sendChunk { kind := .output, terminalId := 0, offset := 0, data := [108, 115] },
        .sendControl
          { action := .attached, terminalId := some 0, offset := some 0, rows := some 24
            cols := some 80 },
        .sendChunk { kind := .output, terminalId := 0, offset := 2, data := [10] }] ∧
    (Desk.run blankScreen
        (startedRun ++ attachOp :: [.pump 1 4096 [] [], .send 1, .send 1, .send 1, .send 1, .send 1,
          .happens [(0, .output [10]), (0, .eof), (0, .exit 0)],
          .control phoneWire { action := .close, terminalId := some 0 } .usable (.ok ()),
          .pump 1 4096 [] [], .send 1])).sentTo "phone" 0
      = [.sendChunk { kind := .output, terminalId := 0, offset := 0, data := [108, 115] },
        .sendControl
          { action := .attached, terminalId := some 0, offset := some 0, rows := some 24
            cols := some 80 },
        .sendControl { action := .closed, terminalId := some 0 }] := by
  constructor <;> decide +kernel

end DeskLink.Terminal
