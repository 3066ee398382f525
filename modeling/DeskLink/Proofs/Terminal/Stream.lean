import DeskLink.Proofs.Terminal.Leases
import DeskLink.Proofs.Terminal.Output

/-!
# `DeskLink.Proofs.Terminal.Stream`: the stream of one terminal

`Stream vt s id asked events n` describes what a phone is sent of the
terminal `id` after it attached at `asked`: the output from there, or a whole
snapshot, and then output that always begins where the data before it ended,
interrupted by later snapshots only. `n` is where the data ends. The session
`s` is the one at the end; since its output only grows, the description stays
true (`Stream.mono`).

`Told` says that what was sent and what is queued together are such a stream,
and that the attachment knows where it ends. Most of what a bridge does is
beside the stream (`Held.Aside`, `Pumping.Beside`). The pump of the terminal
itself adds to it (`pumpTerminal_told`).
-/

set_option autoImplicit false

namespace DeskLink.Terminal

variable {P : Type} {vt : Vt100 P}

/-- The event belongs to the stream of the terminal. -/
def TerminalEvent.about (id : Nat) : TerminalEvent → Bool
  | .sendChunk chunk => chunk.terminalId = id
  | .sendControl control =>
    (control.action = .attached ∨ control.action = .closed) ∧ control.terminalId = some id

/-- The whole screen of a session, as it is sent. -/
def snapshotEvents (vt : Vt100 P) (id : Nat) (s : PtySession P) : List TerminalEvent :=
  splitChunkEvents
    { kind := .snapshot, terminalId := id, offset := s.shown.length, data := s.snapshot vt }

/-- What is sent of a terminal after an attach at `asked`, and where the data
ends. -/
inductive Stream (vt : Vt100 P) (s : PtySession P) (id : Nat) (asked : Option Nat) :
    List TerminalEvent → Nat → Prop
  /-- Nothing yet: the output begins at the offset that was asked for. -/
  | start {offset : Nat} (hasked : asked = some offset) (hend : offset ≤ s.shown.length) :
    Stream vt s id asked [] offset
  /-- It begins with the whole screen as it was at some offset. -/
  | screen {s₀ : PtySession P} (hearlier : s₀.Grows s) :
    Stream vt s id asked (snapshotEvents vt id s₀) s₀.shown.length
  /-- Output goes on where the data before it ended. -/
  | output {events : List TerminalEvent} {n : Nat} {data : List UInt8}
      (h : Stream vt s id asked events n)
      (hdata : data = (s.shown.drop n).take data.length)
      (hend : n + data.length ≤ s.shown.length) :
    Stream vt s id asked
      (events ++ [.sendChunk { kind := .output, terminalId := id, offset := n, data }])
      (n + data.length)
  /-- A whole snapshot at a later offset. -/
  | snapshot {events : List TerminalEvent} {n : Nat} {s₀ : PtySession P}
      (h : Stream vt s id asked events n) (hearlier : s₀.Grows s) (hlater : n < s₀.shown.length) :
    Stream vt s id asked (events ++ snapshotEvents vt id s₀) s₀.shown.length
  /-- The reply says where the output goes on, if a snapshot went before it
  or there was nothing to replay. -/
  | attached {events : List TerminalEvent} {n : Nat} {control : TerminalControl}
      (h : Stream vt s id asked events n) (haction : control.action = .attached)
      (hoffset : ∀ chunk, events.getLast? = some (.sendChunk chunk) →
        chunk.kind = .snapshot ∨ chunk.data = [] → control.offset = some n) :
    Stream vt s id asked (events ++ [.sendControl control]) n
  /-- The exit status comes after everything that was shown, unless the
  program was not waited for any longer. -/
  | closed {events : List TerminalEvent} {n : Nat} {control : TerminalControl}
      (h : Stream vt s id asked events n) (haction : control.action = .closed)
      (hend : control.exitStatus.isSome → s.overdue = false →
        s.eof = true ∧ n = s.shown.length) :
    Stream vt s id asked (events ++ [.sendControl control]) n

section Streams

variable {s s' : PtySession P} {id : Nat} {asked : Option Nat} {events : List TerminalEvent}
  {n : Nat}
variable {data : List UInt8}
variable {fuel : Nat} {event : TerminalEvent}

/-- What was a stream of the session stays one while its output grows. -/
theorem Stream.mono (hgrows : s.Grows s') (h : Stream vt s id asked events n) :
    Stream vt s' id asked events n := by
  induction h with
  | start hasked hend => exact .start hasked (hend.trans hgrows.length_le)
  | screen hearlier => exact .screen (hearlier.trans hgrows)
  | output _ hdata hend ih =>
    exact .output ih (hgrows.slice hdata hend) (hend.trans hgrows.length_le)
  | snapshot _ hearlier hlater ih => exact .snapshot ih (hearlier.trans hgrows) hlater
  | attached _ haction hoffset ih => exact .attached ih haction hoffset
  | closed _ haction hend ih =>
    refine .closed ih haction (fun hstatus hoverdue => ?_)
    obtain ⟨heof, hn⟩ := hend hstatus (hgrows.not_overdue hoverdue)
    obtain ⟨heof', hshown⟩ := hgrows.eof heof
    exact ⟨heof', by rw [hshown]; exact hn⟩

/-- The data ends within what was shown. -/
theorem Stream.le (h : Stream vt s id asked events n) : n ≤ s.shown.length := by
  induction h with
  | start _ hend => exact hend
  | screen hearlier => exact hearlier.length_le
  | output _ _ hend _ => exact hend
  | snapshot _ hearlier _ _ => exact hearlier.length_le
  | attached _ _ _ ih => exact ih
  | closed _ _ _ ih => exact ih

/-- A slice of the output cut in two. -/
theorem slice_take (m : Nat) (hdata : data = (s.shown.drop n).take data.length) :
    data.take m = (s.shown.drop n).take (data.take m).length := by
  rw [List.length_take]
  conv_lhs => rw [hdata]
  rw [List.take_take]

theorem slice_drop {m : Nat} (hdata : data = (s.shown.drop n).take data.length) :
    data.drop m = (s.shown.drop (n + m)).take (data.drop m).length := by
  rw [List.length_drop]
  conv_lhs => rw [hdata]
  rw [List.drop_take, List.drop_drop]

/-- The pieces of a slice go on one after the other. -/
theorem Stream.pieces (h : Stream vt s id asked events n) (hfuel : data.length ≤ fuel)
    (hdata : data = (s.shown.drop n).take data.length) (hend : n + data.length ≤ s.shown.length) :
    Stream vt s id asked (events ++ splitPieces .output id fuel n data) (n + data.length) := by
  induction fuel generalizing events n data with
  | zero =>
    have hnil : data = [] := List.eq_nil_of_length_eq_zero (by omega)
    rw [hnil]
    simpa [splitPieces] using h
  | succ fuel ih =>
    unfold splitPieces
    by_cases hnil : data = []
    · rw [if_pos hnil, hnil]
      simpa using h
    · rw [if_neg hnil]
      have hlength : (data.take maxTerminalChunkBytes).length
          = min maxTerminalChunkBytes data.length := List.length_take
      have hpos : 0 < data.length := List.length_pos_of_ne_nil hnil
      have hmax : 0 < maxTerminalChunkBytes := by decide
      have hpiece := Stream.output h (slice_take maxTerminalChunkBytes hdata) (by omega)
      -- The rest of the data begins where the piece ends.
      have hrest : (data.drop maxTerminalChunkBytes).length
          = data.length - maxTerminalChunkBytes := List.length_drop
      have hslice : data.drop maxTerminalChunkBytes
          = (s.shown.drop (n + (data.take maxTerminalChunkBytes).length)).take
            (data.drop maxTerminalChunkBytes).length := by
        by_cases hlong : maxTerminalChunkBytes ≤ data.length
        · rw [hlength, Nat.min_eq_left hlong]
          exact slice_drop hdata
        · rw [List.drop_eq_nil_of_le (by omega)]
          simp
      have hall := ih hpiece (by omega) hslice (by omega)
      rw [List.append_assoc, List.singleton_append] at hall
      have hsum : n + (data.take maxTerminalChunkBytes).length
          + (data.drop maxTerminalChunkBytes).length = n + data.length := by omega
      rw [hsum] at hall
      exact hall

/-- So does the slice as it is split for the wire. -/
theorem Stream.split (h : Stream vt s id asked events n)
    (hdata : data = (s.shown.drop n).take data.length) (hend : n + data.length ≤ s.shown.length) :
    Stream vt s id asked
      (events ++ splitChunkEvents { kind := .output, terminalId := id, offset := n, data })
      (n + data.length) := by
  unfold splitChunkEvents
  dsimp only
  split
  · exact h.output hdata hend
  · exact h.pieces le_rfl hdata hend

theorem mem_splitPieces {kind : ChunkKind} {offset : Nat}
    (hevent : event ∈ splitPieces kind id fuel offset data) :
    ∃ chunk, event = .sendChunk chunk ∧ chunk.kind = kind ∧ chunk.terminalId = id ∧
      chunk.data ≠ [] := by
  induction fuel generalizing offset data with
  | zero => simp [splitPieces] at hevent
  | succ fuel ih =>
    unfold splitPieces at hevent
    by_cases hnil : data = []
    · simp [hnil] at hevent
    · rw [if_neg hnil] at hevent
      rcases List.mem_cons.mp hevent with rfl | hevent
      · refine ⟨_, rfl, rfl, rfl, ?_⟩
        have hmax : maxTerminalChunkBytes ≠ 0 := by decide
        simp [List.take_eq_nil_iff, hnil, hmax]
      · exact ih hevent

/-- Every frame of a payload is of its kind and its terminal, and is empty
only if the payload is. -/
theorem mem_splitChunkEvents {payload : TerminalChunk} (hevent : event ∈ splitChunkEvents payload) :
    ∃ chunk, event = .sendChunk chunk ∧ chunk.kind = payload.kind ∧
      chunk.terminalId = payload.terminalId ∧ (chunk.data = [] → payload.data = []) := by
  unfold splitChunkEvents at hevent
  split at hevent
  · rw [List.mem_singleton] at hevent
    exact ⟨payload, hevent, rfl, rfl, id⟩
  · obtain ⟨chunk, rfl, hkind, hid, hdata⟩ := mem_splitPieces hevent
    exact ⟨chunk, rfl, hkind, hid, fun hnil => absurd hnil hdata⟩

end Streams

/-! ### Beside the stream -/

/-- What was sent and what is queued, `line`, is `base` and then the stream,
which ends at `n`. -/
def Sending (vt : Vt100 P) (id : Nat) (asked : Option Nat) (base : List TerminalEvent)
    (all : Sessions P) (line : List TerminalEvent) (n : Nat) : Prop :=
  ∃ events s, all[id]? = some s ∧ Stream vt s id asked events n ∧ line = base ++ events

/-- The stream goes on where the attachment says. -/
def Told (vt : Vt100 P) (id : Nat) (asked : Option Nat) (base : List TerminalEvent)
    (held : Held P) (line : List TerminalEvent) : Prop :=
  ∃ n, Sending vt id asked base held.all line n ∧
    ∀ a, held.bridge.attached[id]? = some a → a.next = n

/-- A step that is beside the stream of the terminal `id`: it queues nothing
for it, and the attachment, if it is still there, is at the same offset. -/
structure Held.Aside (id : Nat) (held held' : Held P) : Prop where
  outbox : held'.bridge.outbox.filter (TerminalEvent.about id)
    = held.bridge.outbox.filter (TerminalEvent.about id)
  next : ∀ a', held'.bridge.attached[id]? = some a' →
    ∃ a, held.bridge.attached[id]? = some a ∧ a'.next = a.next
  grows : Sessions.Each PtySession.Grows held.all held'.all

section Aside

variable {id : Nat} {asked : Option Nat} {base line : List TerminalEvent} {n : Nat}
  {held held' held'' : Held P} {all all' : Sessions P}

theorem Sending.grows (h : Sending vt id asked base all line n)
    (hgrows : Sessions.Each PtySession.Grows all all') :
    Sending vt id asked base all' line n := by
  obtain ⟨events, s, hs, hstream, hline⟩ := h
  obtain ⟨s', hs', hg⟩ := hgrows.there id s hs
  exact ⟨events, s', hs', hstream.mono hg, hline⟩

theorem Held.Aside.refl : Held.Aside id held held := ⟨rfl, fun a ha => ⟨a, ha, rfl⟩, grows_refl⟩

theorem Held.Aside.trans (h : Held.Aside id held held') (h' : Held.Aside id held' held'') :
    Held.Aside id held held'' where
  outbox := h'.outbox.trans h.outbox
  next a'' ha'' := by
    obtain ⟨a', ha', hnext'⟩ := h'.next a'' ha''
    obtain ⟨a, ha, hnext⟩ := h.next a' ha'
    exact ⟨a, ha, hnext'.trans hnext⟩
  grows := grows_trans h.grows h'.grows

theorem Told.aside (h : Told vt id asked base held line) (haside : Held.Aside id held held') :
    Told vt id asked base held' line := by
  obtain ⟨n, hsending, hnext⟩ := h
  refine ⟨n, hsending.grows haside.grows, fun a' ha' => ?_⟩
  obtain ⟨a, ha, heq⟩ := haside.next a' ha'
  exact heq.trans (hnext a ha)

theorem queue_aside (events : List TerminalEvent)
    (hevents : events.filter (TerminalEvent.about id) = []) :
    Held.Aside id held (held.queue events).1 := by
  unfold Held.queue TerminalBridge.queue
  dsimp only
  split
  · exact .refl
  · refine ⟨?_, fun a ha => ⟨a, ha, rfl⟩, grows_refl⟩
    show (held.bridge.outbox ++ events).filter _ = _
    rw [List.filter_append, hevents, List.append_nil]

theorem refuse_aside (terminalId : Option Nat) (message : String) :
    Held.Aside id held (held.refuse terminalId message) := queue_aside _ rfl

theorem sessionsEvent_aside : Held.Aside id held held.sessionsEvent.1 :=
  ⟨rfl, fun a ha => ⟨a, ha, rfl⟩, grows_refl⟩

/-- The list is not about any terminal. -/
theorem sessionsEvent_about : held.sessionsEvent.2.about id = false := rfl

theorem modify_aside {change : PtySession P → PtySession P} (id' : Nat)
    (hchange : ∀ s, held.all[id']? = some s → s.Grows (change s)) :
    Held.Aside id held (held.modify id' change) :=
  ⟨rfl, fun a ha => ⟨a, ha, rfl⟩, each_modify (fun _ => .refl) id' hchange⟩

/-- The attachments of a bridge, changed without moving the offset. -/
theorem next_modify {attached : IdMap Attachment} {id' : Nat} {change : Attachment → Attachment}
    (hchange : id' = id → ∀ a, (change a).next = a.next) {a' : Attachment}
    (ha' : (attached.modify id' change)[id]? = some a') :
    ∃ a, attached[id]? = some a ∧ a'.next = a.next := by
  rw [Std.ExtTreeMap.getElem?_modify] at ha'
  split at ha'
  · rename_i heq
    obtain ⟨a, ha, rfl⟩ := Option.map_eq_some_iff.mp ha'
    exact ⟨a, by rw [← Nat.compare_eq_eq.mp heq]; exact ha, hchange (Nat.compare_eq_eq.mp heq) a⟩
  · exact ⟨a', ha', rfl⟩

theorem tellAgain_aside (id' : Nat) : Held.Aside id held (held.tellAgain id') := by
  refine ⟨rfl, fun a' ha' => next_modify ?_ ha', grows_refl⟩
  intro _ a
  rfl

end Aside

/-! ### The pump -/

/-- A step of the pump that is beside the stream of the terminal `id`. -/
structure Pumping.Beside (id : Nat) (p q : Pumping P) : Prop where
  aside : Held.Aside id p.held q.held
  events : q.events.filter (TerminalEvent.about id) = p.events.filter (TerminalEvent.about id)

/-- What was sent of the terminal, what the pump has taken, and what is
queued. -/
def Pumping.line (p : Pumping P) (sent : List TerminalEvent) (id : Nat) : List TerminalEvent :=
  (sent ++ p.events ++ p.held.bridge.outbox).filter (TerminalEvent.about id)

section Pump

variable {id id' : Nat} {asked : Option Nat} {sent base : List TerminalEvent} {p q r : Pumping P}
variable {held : Held P} {s : PtySession P} {events : List TerminalEvent} {head : Nat}
variable {n : Nat} {ids : List Nat}

theorem Pumping.Beside.refl : Pumping.Beside id p p := ⟨.refl, rfl⟩

theorem Pumping.Beside.trans (h : Pumping.Beside id p q) (h' : Pumping.Beside id q r) :
    Pumping.Beside id p r := ⟨h.aside.trans h'.aside, h'.events.trans h.events⟩

theorem Pumping.Beside.line (h : Pumping.Beside id p q) : q.line sent id = p.line sent id := by
  unfold Pumping.line
  simp only [List.filter_append, h.events, h.aside.outbox]

theorem Told.beside (h : Told vt id asked base p.held (p.line sent id))
    (hbeside : Pumping.Beside id p q) : Told vt id asked base q.held (q.line sent id) := by
  rw [hbeside.line]
  exact h.aside hbeside.aside

theorem look_beside : Pumping.Beside id p (p.look vt) :=
  ⟨⟨rfl, fun a ha => ⟨a, ha, rfl⟩, happen_grows _⟩, rfl⟩

theorem setAttachment_beside {change : Attachment → Attachment}
    (hchange : id' = id → ∀ a, (change a).next = a.next) :
    Pumping.Beside id p (p.setAttachment id' change) :=
  ⟨⟨rfl, fun _ ha' => next_modify hchange ha', grows_refl⟩, rfl⟩

/-- An event that is not about the terminal is sent. -/
theorem listed_beside (remaining : Nat) :
    Pumping.Beside id p
      { p with
        held := p.held.sessionsEvent.1, remaining, events := p.events ++ [p.held.sessionsEvent.2] } := by
  refine ⟨sessionsEvent_aside, ?_⟩
  rw [List.filter_append, List.filter_singleton, sessionsEvent_about]
  simp

theorem tellSize_beside (attachment : Attachment) :
    Pumping.Beside id p (p.tellSize vt id' attachment) := by
  have hlooked : Pumping.Beside id p (((p.look vt).look vt).look vt) :=
    (look_beside.trans look_beside).trans look_beside
  unfold Pumping.tellSize
  dsimp only
  split
  · split
    · exact hlooked
    · refine hlooked.trans (Pumping.Beside.trans ?_ (listed_beside _))
      refine Pumping.Beside.trans (setAttachment_beside ?_) look_beside
      intro _ a
      rfl
  · exact hlooked

/-! #### The pump of another terminal -/

/-- The frames of another terminal. -/
theorem filter_splitChunkEvents {payload : TerminalChunk} (hne : payload.terminalId ≠ id) :
    (splitChunkEvents payload).filter (TerminalEvent.about id) = [] := by
  rw [List.filter_eq_nil_iff]
  intro event hevent
  obtain ⟨chunk, rfl, -, hid, -⟩ := mem_splitChunkEvents hevent
  simp [TerminalEvent.about, hid, hne]

theorem sentChunk_beside (hne : id' ≠ id) (start remaining : Nat) (data : List UInt8) :
    Pumping.Beside id p
      { p with
        remaining
        events := p.events ++
          [.sendChunk { kind := .output, terminalId := id', offset := start, data }] } := by
  refine ⟨.refl, ?_⟩
  simp [List.filter_append, TerminalEvent.about, hne]

theorem stream_beside (hne : id' ≠ id) (head fuel next : Nat) :
    Pumping.Beside id p (p.stream vt id' head fuel next).1 := by
  induction fuel generalizing p next with
  | zero => exact .refl
  | succ fuel ih =>
    unfold Pumping.stream
    split
    · exact .refl
    · have hlooked : Pumping.Beside id p (p.look vt) := look_beside
      dsimp only
      refine hlooked.trans ?_
      split
      · split
        · exact .refl
        · exact Pumping.Beside.trans (sentChunk_beside hne _ _ _) (ih _)
      · split
        · exact ⟨queue_aside _ (filter_splitChunkEvents hne), rfl⟩
        · exact .refl
      · exact .refl

theorem conclude_beside (hne : id' ≠ id) (finished : Option Nat) (closed : Bool) :
    Pumping.Beside id p (p.conclude id' finished closed) := by
  refine ⟨⟨?_, fun a ha => ?_, grows_refl⟩, rfl⟩
  · show (p.held.bridge.outbox ++ [_]).filter _ = _
    simp [List.filter_append, TerminalEvent.about, hne]
  · have ha : (p.held.bridge.attached.erase id')[id]? = some a := ha
    rw [getElem?_idErase, if_neg hne] at ha
    exact ⟨a, ha, rfl⟩

theorem pumpTerminal_beside (hne : id' ≠ id) : Pumping.Beside id p (p.pumpTerminal vt id') := by
  unfold Pumping.pumpTerminal
  split
  · exact .refl
  · rename_i attachment _
    have hlooked : Pumping.Beside id p (((p.tellSize vt id' attachment).look vt).look vt) :=
      (tellSize_beside attachment).trans (look_beside.trans look_beside)
    dsimp only
    generalize ((p.tellSize vt id' attachment).look vt).look vt = q at hlooked ⊢
    have hstreamed : Pumping.Beside id p (q.stream vt id'
        (((q.session id').map PtySession.head).getD 0) q.remaining attachment.next).1 :=
      hlooked.trans (stream_beside hne ..)
    split
    · exact hstreamed.trans (conclude_beside hne ..)
    · exact hstreamed.trans (setAttachment_beside (fun heq => absurd heq hne))

/-! #### The pump of the terminal itself -/

/-- Nothing of the terminal is queued. -/
def Held.Clear (id : Nat) (held : Held P) : Prop :=
  held.bridge.outbox.filter (TerminalEvent.about id) = []

theorem Held.Aside.clear {held' : Held P} (h : Held.Aside id held held') (hclear : held.Clear id) :
    held'.Clear id := h.outbox.trans hclear

/-- A frame of output is sent. -/
theorem Sending.output {all : Sessions P} {remaining : Nat} {data : List UInt8}
    (h : Sending vt id asked base all (p.line sent id) n) (hclear : p.held.Clear id)
    (hs : all[id]? = some s) (hdata : data = (s.shown.drop n).take data.length)
    (hend : n + data.length ≤ s.shown.length) : Sending vt id asked base all
      (Pumping.line
        { p with
          remaining
          events := p.events ++
            [.sendChunk { kind := .output, terminalId := id, offset := n, data }] } sent id)
      (n + data.length) := by
  obtain ⟨events, s₁, hs₁, hstream, hline⟩ := h
  rw [hs, Option.some.injEq] at hs₁
  subst hs₁
  refine ⟨_, s, hs, hstream.output hdata hend, ?_⟩
  have hclear : p.held.bridge.outbox.filter (TerminalEvent.about id) = [] := hclear
  unfold Pumping.line at hline ⊢
  simp only [List.filter_append, hclear, List.append_nil] at hline ⊢
  rw [← List.append_assoc, hline, List.append_assoc]
  simp [TerminalEvent.about]

/-- A whole snapshot is queued. -/
theorem filter_snapshotEvents (s : PtySession P) :
    (snapshotEvents vt id s).filter (TerminalEvent.about id) = snapshotEvents vt id s := by
  rw [List.filter_eq_self]
  intro event hevent
  obtain ⟨chunk, rfl, -, hid, -⟩ := mem_splitChunkEvents hevent
  simp [TerminalEvent.about, hid]

/-- What fits is queued at the end of the line. -/
theorem queue_ok {bridge : TerminalBridge} (h : (bridge.queue events).2 = .ok ()) :
    (bridge.queue events).1.outbox = bridge.outbox ++ events ∧
      (bridge.queue events).1.attached = bridge.attached := by
  unfold TerminalBridge.queue at h ⊢
  dsimp only at h ⊢
  split
  · rename_i hfull
    rw [if_pos hfull] at h
    cases h
  · exact ⟨rfl, rfl⟩

theorem outbox_queued (h : (held.queue events).2 = .ok ()) :
    (held.queue events).1.bridge.outbox = held.bridge.outbox ++ events := (queue_ok h).1

theorem line_queued (h : (p.held.queue events).2 = .ok ()) :
    Pumping.line { p with held := (p.held.queue events).1 } sent id
      = p.line sent id ++ events.filter (TerminalEvent.about id) := by
  unfold Pumping.line
  dsimp only
  rw [outbox_queued h, ← List.append_assoc, List.filter_append]

/-- What the loop of the pump keeps: the stream goes on at `next`. -/
theorem stream_sending {fuel next : Nat} (hringed : p.held.all.Ringed) (hclear : p.held.Clear id)
    (hhead : ∀ s, p.held.all[id]? = some s → head ≤ s.shown.length)
    (h : Sending vt id asked base p.held.all (p.line sent id) next) :
    Sending vt id asked base (p.stream vt id head fuel next).1.held.all
        ((p.stream vt id head fuel next).1.line sent id) (p.stream vt id head fuel next).2 := by
  induction fuel generalizing p next with
  | zero => exact h
  | succ fuel ih =>
    unfold Pumping.stream
    by_cases hstop : p.remaining = 0 ∨ head ≤ next
    · rw [if_pos hstop]
      exact h
    rw [if_neg hstop]
    have hlooked : Pumping.Beside id p (p.look vt) := look_beside
    have hringed' := hringed.grows hlooked.aside.grows
    have hclear' := hlooked.aside.clear hclear
    have h' : Sending vt id asked base (p.look vt).held.all ((p.look vt).line sent id) next := by
      rw [hlooked.line]
      exact h.grows hlooked.aside.grows
    have hhead' : ∀ s, (p.look vt).held.all[id]? = some s → head ≤ s.shown.length := by
      intro s' hs'
      obtain ⟨events, s, hs, -, -⟩ := h
      obtain ⟨t, ht, hg⟩ := hlooked.aside.grows.there id s hs
      rw [hs', Option.some.injEq] at ht
      rw [ht]
      exact (hhead s hs).trans hg.length_le
    generalize p.look vt = q at hringed' hclear' h' hhead' ⊢
    obtain ⟨events, s, hs, hstream, hline⟩ := h'
    dsimp only
    rw [show q.session id = some s from hs, Option.map_some]
    have hholds := hringed' id s hs
    unfold PtySession.resync
    dsimp only
    cases hsince : s.ring.since next (min q.remaining maxTerminalChunkBytes) with
    | none =>
      -- The offset aged out: it is not past the head, so the head is later.
      dsimp only
      have hlater : next < s.shown.length := by
        have := hhead' s hs
        omega
      have hheadEq : s.ring.head = s.shown.length := hholds.head_eq
      rw [hheadEq]
      split
      · rename_i hqueued
        refine ⟨_, s, hs, hstream.snapshot .refl hlater, ?_⟩
        rw [line_queued hqueued, hline, List.append_assoc, List.append_cancel_left_eq]
        exact congrArg (events ++ ·) (filter_snapshotEvents s)
      · exact ⟨events, s, hs, hstream, hline⟩
    | some data =>
      dsimp only
      by_cases hnil : data = []
      · rw [if_pos hnil]
        exact ⟨events, s, hs, hstream, hline⟩
      · rw [if_neg hnil]
        obtain ⟨hdata, hle, hlength⟩ := hholds.since_some hsince
        refine ih ?_ ?_ ?_ ?_
        · exact hringed'
        · exact hclear'
        · exact hhead'
        · exact Sending.output ⟨events, s, hs, hstream, hline⟩ hclear' hs hdata (by omega)

theorem stream_grows {fuel next : Nat} :
    Sessions.Each PtySession.Grows p.held.all (p.stream vt id head fuel next).1.held.all ∧
      (p.stream vt id head fuel next).1.held.bridge.attached = p.held.bridge.attached := by
  induction fuel generalizing p next with
  | zero => exact ⟨grows_refl, rfl⟩
  | succ fuel ih =>
    unfold Pumping.stream
    split
    · exact ⟨grows_refl, rfl⟩
    · have hlooked : Sessions.Each PtySession.Grows p.held.all (p.look vt).held.all :=
        happen_grows _
      have hattached : (p.look vt).held.bridge.attached = p.held.bridge.attached := rfl
      dsimp only
      split
      · split
        · exact ⟨hlooked, hattached⟩
        · rename_i start data _ _
          obtain ⟨hgrows, hsame⟩ := @ih
            { p.look vt with
              remaining := (p.look vt).remaining - data.length
              events := (p.look vt).events ++
                [.sendChunk { kind := .output, terminalId := id, offset := start, data }] }
            (start + data.length)
          exact ⟨grows_trans hlooked hgrows, hsame⟩
      · split
        · rename_i hqueued
          exact ⟨hlooked, (queue_ok hqueued).2⟩
        · exact ⟨hlooked, hattached⟩
      · exact ⟨hlooked, hattached⟩

/-- A status is reported only if the output was read to its end, or was
waited for long enough. -/
theorem eof_of_finished (h : s.finished.isSome) (hoverdue : s.overdue = false) : s.eof = true := by
  unfold PtySession.finished at h
  cases hexited : s.exited with
  | none => simp [hexited] at h
  | some status => simpa [hexited, hoverdue] using h

/-- The reply that the program is gone is queued last, and the terminal is
detached. -/
theorem conclude_told {finished : Option Nat} {closed : Bool} {s₂ : PtySession P}
    (hs : p.held.all[id]? = some s) (hgrows : s₂.Grows s)
    (h : Sending vt id asked base p.held.all (p.line sent id) n) (hhead : head = s₂.shown.length)
    (hn : head ≤ n) (hfinished : finished.isSome → s₂.overdue = false → s₂.eof = true) :
    Told vt id asked base (p.conclude id finished closed).held
      ((p.conclude id finished closed).line sent id) := by
  obtain ⟨events, s', hs', hstream, hline⟩ := h
  rw [hs, Option.some.injEq] at hs'
  subst hs'
  have hend : (finished.filter (fun _ => !closed)).isSome → s.overdue = false →
      s.eof = true ∧ n = s.shown.length := by
    intro hstatus hoverdue
    have hsome : finished.isSome := by
      cases finished with
      | none => simp at hstatus
      | some status => rfl
    -- Nothing was shown after EOF, so the head that was read is the end.
    obtain ⟨heof, hshown⟩ := hgrows.eof (hfinished hsome (hgrows.not_overdue hoverdue))
    have hle := hstream.le
    rw [← hshown] at hhead
    exact ⟨heof, by omega⟩
  have hclosed := @Stream.closed P vt s id asked events n
    { action := .closed, terminalId := some id, exitStatus := finished.filter (fun _ => !closed) }
    hstream rfl hend
  refine ⟨n, ⟨_, s, hs, hclosed, ?_⟩, fun a ha => ?_⟩
  · show (sent ++ p.events ++ (p.held.bridge.outbox ++ [_])).filter (TerminalEvent.about id) = _
    rw [← List.append_assoc, List.filter_append, ← List.append_assoc]
    unfold Pumping.line at hline
    rw [hline]
    simp [TerminalEvent.about]
  · have ha : (p.held.bridge.attached.erase id)[id]? = some a := ha
    rw [getElem?_idErase, if_pos rfl] at ha
    cases ha

/-- The pump of the terminal adds to its stream. -/
theorem pumpTerminal_told (hringed : p.held.all.Ringed) (hclear : p.held.Clear id)
    (h : Told vt id asked base p.held (p.line sent id)) :
    Told vt id asked base (p.pumpTerminal vt id).held ((p.pumpTerminal vt id).line sent id) := by
  unfold Pumping.pumpTerminal
  cases hattachment : p.held.bridge.attached[id]? with
  | none => exact h
  | some attachment =>
    dsimp only
    obtain ⟨n, hsending, hnext⟩ := h
    have hn : attachment.next = n := hnext attachment hattachment
    -- The exit is read, and then the head.
    have hexit : Pumping.Beside id p ((p.tellSize vt id attachment).look vt) :=
      (tellSize_beside attachment).trans look_beside
    generalize (p.tellSize vt id attachment).look vt = q₁ at hexit ⊢
    have hheadRead : Pumping.Beside id q₁ (q₁.look vt) := look_beside
    generalize q₁.look vt = q₂ at hheadRead ⊢
    have hbeside := hexit.trans hheadRead
    have hsending₂ : Sending vt id asked base q₂.held.all (q₂.line sent id) attachment.next := by
      rw [hbeside.line, hn]
      exact hsending.grows hbeside.aside.grows
    have hringed₂ := hringed.grows hbeside.aside.grows
    have hclear₂ := hbeside.aside.clear hclear
    obtain ⟨s₁, s₂, hs₁, hs₂, hgrows⟩ : ∃ s₁ s₂, q₁.held.all[id]? = some s₁ ∧
        q₂.held.all[id]? = some s₂ ∧ s₁.Grows s₂ := by
      obtain ⟨_, s, hs, -, -⟩ := hsending
      obtain ⟨s₁, hs₁, -⟩ := hexit.aside.grows.there id s hs
      obtain ⟨s₂, hs₂, hgrows⟩ := hheadRead.aside.grows.there id s₁ hs₁
      exact ⟨s₁, s₂, hs₁, hs₂, hgrows⟩
    rw [show q₁.session id = some s₁ from hs₁, show q₂.session id = some s₂ from hs₂]
    have hhead : s₂.head = s₂.shown.length := (hringed₂ id s₂ hs₂).head_eq
    have hread : ((some s₂).map PtySession.head).getD 0 = s₂.shown.length := hhead
    rw [hread]
    have hhead' : ∀ s, q₂.held.all[id]? = some s → s₂.shown.length ≤ s.shown.length := by
      intro s hs
      rw [hs₂, Option.some.injEq] at hs
      rw [hs]
    have hstreamed := @stream_sending P vt id asked sent base q₂ s₂.shown.length q₂.remaining
      attachment.next hringed₂ hclear₂ hhead' hsending₂
    obtain ⟨hgrown, hattached⟩ := @stream_grows P vt id q₂ s₂.shown.length q₂.remaining
      attachment.next
    generalize q₂.stream vt id s₂.shown.length q₂.remaining attachment.next = streamed
      at hstreamed hgrown hattached ⊢
    obtain ⟨s, hs, hgrows'⟩ := hgrown.there id s₂ hs₂
    split
    · rename_i hconclude
      refine conclude_told hs hgrows' hstreamed rfl hconclude.1 (fun hfinished hoverdue => ?_)
      exact (hgrows.eof (eof_of_finished hfinished (hgrows.not_overdue hoverdue))).1
    · refine ⟨streamed.2, hstreamed, fun a ha => ?_⟩
      have ha : (streamed.1.held.bridge.attached.modify id _)[id]? = some a := ha
      rw [Std.ExtTreeMap.getElem?_modify] at ha
      simp only [Nat.compare_eq_eq, if_true] at ha
      obtain ⟨_, -, rfl⟩ := Option.map_eq_some_iff.mp ha
      rfl

theorem pumpAll_beside (hids : id ∉ ids) : Pumping.Beside id p (Pumping.pumpAll vt ids p) := by
  induction ids generalizing p with
  | nil => exact .refl
  | cons id' rest ih =>
    rw [List.mem_cons, not_or] at hids
    unfold Pumping.pumpAll
    split
    · exact .refl
    · exact (pumpTerminal_beside (fun heq => hids.1 heq.symm)).trans (ih hids.2)

/-- Each attached terminal is pumped once, and only then is its stream
added to. -/
theorem pumpAll_told (hids : ids.Nodup) (hringed : p.held.all.Ringed) (hclear : p.held.Clear id)
    (h : Told vt id asked base p.held (p.line sent id)) :
    Told vt id asked base (Pumping.pumpAll vt ids p).held
      ((Pumping.pumpAll vt ids p).line sent id) := by
  induction ids generalizing p with
  | nil => exact h
  | cons id' rest ih =>
    obtain ⟨hrest, hids⟩ := List.nodup_cons.mp hids
    unfold Pumping.pumpAll
    by_cases hspent : p.remaining = 0
    · rw [if_pos hspent]
      exact h
    rw [if_neg hspent]
    by_cases heq : id' = id
    · subst heq
      exact (pumpTerminal_told hringed hclear h).beside (pumpAll_beside hrest)
    · have hbeside : Pumping.Beside id p (p.pumpTerminal vt id') := pumpTerminal_beside heq
      exact ih hids (hringed.grows hbeside.aside.grows) (hbeside.aside.clear hclear)
        (h.beside hbeside)

theorem nodup_keysIn (attached : IdMap Attachment) (order : List Nat) :
    (keysIn attached order).Nodup := by
  unfold keysIn
  have hkeys : attached.keys.Nodup := Std.ExtTreeMap.nodup_keys
  refine List.Nodup.append (List.nodup_dedup _) (hkeys.filter _) ?_
  intro id hfirst hrest
  have hin : id ∈ order := (List.mem_filter.mp (List.mem_dedup.mp hfirst)).1
  have hout := (List.mem_filter.mp hrest).2
  simp [hin] at hout

/-- Draining sends what is queued, in order; the outbox is empty if there
is budget left. -/
theorem drain_line {queued : List TerminalEvent} (hqueued : p.held.bridge.outbox = queued) :
    (Pumping.drain queued p).line sent id = p.line sent id ∧
      (Pumping.drain queued p).held.all = p.held.all ∧
      (Pumping.drain queued p).held.bridge.attached = p.held.bridge.attached ∧
      ((Pumping.drain queued p).remaining ≠ 0 →
        (Pumping.drain queued p).held.bridge.outbox = []) := by
  induction queued generalizing p with
  | nil => exact ⟨rfl, rfl, rfl, fun _ => hqueued⟩
  | cons event rest ih =>
    unfold Pumping.drain
    split
    · rename_i hspent
      exact ⟨rfl, rfl, rfl, fun h => absurd hspent h⟩
    · obtain ⟨hline, hall, hattached, hempty⟩ := @ih
        { p with
          held :=
            { p.held with
              bridge :=
                { p.held.bridge with
                  outbox := rest, outboxBytes := p.held.bridge.outboxBytes - event.cost } }
          remaining := p.remaining - event.cost
          events := p.events ++ [event] } rfl
      refine ⟨hline.trans ?_, hall, hattached, hempty⟩
      show (sent ++ (p.events ++ [event]) ++ rest).filter _ = (sent ++ p.events ++ _).filter _
      rw [hqueued]
      simp

/-- One pump of a bridge. -/
theorem pump_told (hringed : held.all.Ringed)
    (h : Told vt id asked base held ((sent ++ held.bridge.outbox).filter (TerminalEvent.about id)))
    (budget : Nat) (order : List Nat) (script : Script) :
    Told vt id asked base (held.pump vt budget order script).1
      ((sent ++ (held.pump vt budget order script).2
        ++ (held.pump vt budget order script).1.bridge.outbox).filter
          (TerminalEvent.about id)) := by
  unfold Held.pump
  obtain ⟨hline, hall, hattached, hempty⟩ :=
    @drain_line P id sent { held, script, remaining := budget } held.bridge.outbox rfl
  dsimp only
  generalize Pumping.drain held.bridge.outbox { held, script, remaining := budget } = drained
    at hline hall hattached hempty ⊢
  have hdrained : Told vt id asked base drained.held (drained.line sent id) := by
    obtain ⟨n, hsending, hnext⟩ := h
    refine ⟨n, ?_, fun a ha => hnext a (hattached ▸ ha)⟩
    rw [hline, hall]
    simpa [Pumping.line] using hsending
  split
  · exact hdrained
  · rename_i hleft
    have hclear : drained.held.Clear id := by
      show drained.held.bridge.outbox.filter _ = []
      rw [hempty hleft, List.filter_nil]
    exact pumpAll_told (nodup_keysIn _ _) (by rw [hall]; exact hringed) hclear hdrained

end Pump

end DeskLink.Terminal
