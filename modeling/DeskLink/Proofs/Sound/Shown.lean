import DeskLink.Sound.Switch

/-!
# `DeskLink.Proofs.Sound.Shown`: sound flows only while it is shown

A handler settles something in one step and relies on it in a later one. A refusal
takes the session that its id names out of the table and leaves the sound on; and a
session that is stopped or replaced in the middle of its start is started all the
same. `World.careful` says of a step that what it relies on still holds.

`sound_shown`: in every run whose steps are careful, whenever no handler is in
progress, what is sent and what plays is what the table says, the microphone was
asked for while the setting allowed it, and no system sound goes both ways.
-/

set_option autoImplicit false

namespace DeskLink.Sound

/-! ### The table -/

namespace Phone

variable (phone : Phone) (id reason : String)

@[simp]
theorem sending_deny : (phone.deny id reason).1.sending =
    if phone.sending.any (fun session => session.id = id) then none else phone.sending := by
  simp only [deny, message]
  split <;> rfl

@[simp]
theorem hearing_deny : (phone.deny id reason).1.hearing = phone.hearing := by
  simp only [deny, message]
  split <;> rfl

@[simp]
theorem sending_sendingStarted : (phone.sendingStarted id).1.sending =
    phone.sending.map
      (fun session => if session.id = id then { session with live := true } else session) := by
  unfold sendingStarted
  split
  · rename_i hnone
    cases hsending : phone.sending with
    | none => simp
    | some session =>
      have hid : session.id ≠ id := by
        simpa using Option.filter_eq_none_iff.mp hnone session hsending
      rw [Option.map_some, if_neg hid]
  · rename_i session hsome
    obtain ⟨hsending, hid⟩ := Option.filter_eq_some_iff.mp hsome
    rw [hsending, Option.map_some, if_pos (of_decide_eq_true hid)]
    rfl

@[simp]
theorem hearing_sendingStarted : (phone.sendingStarted id).1.hearing = phone.hearing := by
  unfold sendingStarted
  split <;> rfl

@[simp]
theorem sending_stop (sending : Bool) : (phone.stop sending).1.sending =
    if sending then none else phone.sending := by
  unfold stop
  split
  · rename_i hnone
    cases sending with
    | true => simpa using hnone
    | false => rfl
  · cases sending <;> rfl

@[simp]
theorem hearing_stop (sending : Bool) : (phone.stop sending).1.hearing =
    if sending then phone.hearing else none := by
  unfold stop
  split
  · rename_i hnone
    cases sending with
    | true => rfl
    | false => simpa using hnone
  · cases sending <;> rfl

@[simp]
theorem sending_offerDeskSound : (phone.offerDeskSound id).1.sending =
    some { id, source := .system, live := false } := rfl

@[simp]
theorem hearing_offerDeskSound : (phone.offerDeskSound id).1.hearing = phone.hearing := by
  unfold offerDeskSound
  cases hsending : phone.sending <;> rfl

@[simp]
theorem sending_askPhone (source : Source) :
    (phone.askPhone source id).1.sending = phone.sending := by
  unfold askPhone
  cases hhearing : phone.hearing <;> rfl

@[simp]
theorem hearing_askPhone (source : Source) :
    (phone.askPhone source id).1.hearing = some { id, source, live := false } := by
  unfold askPhone
  cases hhearing : phone.hearing <;> rfl

/-- An `audio-ready` makes the session live that plays from then on, or changes
nothing. -/
theorem ready_cases (message : ControlMessage) :
    phone.ready message = (phone, none) ∨
      ∃ session, phone.hearing = some session ∧ phone.ready message =
        ({ phone with hearing := some { session with live := true } }, some session.source) := by
  unfold ready
  split
  · exact .inl rfl
  · split
    · exact .inl rfl
    · rename_i session hsession
      split
      · exact .inl rfl
      · exact .inr ⟨session, (Option.filter_eq_some_iff.mp hsession).1, rfl⟩

/-- An `audio-stop` or `audio-denied` ends one session, or changes nothing. -/
theorem ended_cases (message : ControlMessage) :
    phone.ended message = (phone, .ignored) ∨
      phone.ended message = ({ phone with sending := none }, .stopSending) ∨
      ∃ reason, phone.ended message = ({ phone with hearing := none }, .stopHearing reason) := by
  unfold ended
  dsimp only
  split
  · exact .inr (.inl rfl)
  · split
    · exact .inr (.inr ⟨_, rfl⟩)
    · exact .inl rfl

end Phone

/-! ### What a step relies on -/

namespace World

/-- The session is still in the table. -/
def holdsSession (session : Option Session) (id : String) (source : Source) : Bool :=
  session.any (fun session => session.id = id && session.source = source)

/-- A session that is taken out of the table has its sound off. -/
def silent (world : World) (sending : Bool) : Bool :=
  if sending then world.phone.sending.isNone || world.send.isNone
  else world.phone.hearing.isNone || world.play.isNone

/-- A refusal takes no session out of the table whose sound is on. -/
def refusesSafely (world : World) (id : String) : Bool :=
  world.phone.sending.all (fun session => session.id ≠ id) || world.send.isNone

def carefulWorker (world : World) (ok : Bool) : Bool :=
  match world.worker with
  | .deny id _ | .sendingFailed id => world.refusesSafely id
  -- The phone's own sound still does not play here.
  | .request _ .system => !world.phone.hearingSystem
  | .startSend id source => !ok || holdsSession world.phone.sending id source
  | .startPlayback source =>
    !ok || world.phone.hearing.any (fun session => session.live && session.source = source)
  | _ => true

def carefulDesk (world : World) (ok : Bool) : Bool :=
  match world.desk with
  | .stopOther what => world.silent (!isDeskSound what)
  | .stop sending => world.silent sending
  | .startFailed => world.silent true
  -- The session that is replaced goes on when its stop cannot be sent.
  | .sayReplaced _ _ => ok || world.send.isNone
  | .startSend id => !ok || holdsSession world.phone.sending id .system
  | .ask source => world.play.isNone && (source = .mic || !world.phone.sendingSystem)
  | _ => true

/-- What the step relies on still holds. -/
def careful (world : World) : Event → Bool
  | .worker ok => world.carefulWorker ok
  | .desk ok _ => world.carefulDesk ok
  | _ => true

end World

/-! ### The invariant -/

/-- The step that comes decides what is sent. -/
def Worker.decides : Worker → Bool
  | .startSend _ _ | .stopSend => true
  | _ => false

def Desk.decides : Desk → Bool
  | .sayReplaced _ _ | .startSend _ => true
  | _ => false

structure World.Shown (world : World) : Prop where
  sends : ∀ source, world.send = some source →
    (∃ session, world.phone.sending = some session ∧ session.source = source ∧
      (session.live = true ∨ world.worker = .sendingStarted session.id ∨
        world.desk = .sendingStarted session.id)) ∨
      world.worker.decides = true ∨ world.desk.decides = true
  plays : ∀ source, world.play = some source →
    (∃ session, world.phone.hearing = some session ∧ session.live = true ∧
      session.source = source) ∨ world.worker = .stopPlayback
  oneWay : world.phone.sendingSystem = true → world.phone.hearingSystem = false
  offers : world.desk = .checkSending ∨ world.desk = .offer → world.phone.hearingSystem = false
  granted : ∀ session, world.phone.sending = some session → session.source = .mic →
    world.granted = true
  requested : ∀ id, world.worker = .request id .mic → world.asked = true

namespace World

variable {world : World} {session : Session}

theorem shown_init : Shown {} := by
  constructor <;> simp [Phone.sendingSystem]

/-! ### Changes that keep the invariant -/

theorem Shown.moveWorker (h : Shown world) {worker : Worker}
    (hdecides : world.send ≠ none → world.worker.decides = false)
    (hstarted : world.send ≠ none → ∀ session, world.phone.sending = some session →
      world.worker = .sendingStarted session.id → session.live = true)
    (hplayback : world.play ≠ none → world.worker ≠ .stopPlayback)
    (hrequest : ∀ id, worker = .request id .mic → world.asked = true) :
    Shown { world with worker } where
  sends := by
    intro source hsend
    have hsome : world.send ≠ none := fun hnone => absurd (hnone.symm.trans hsend) (by simp)
    obtain ⟨session, hsending, hsource, hlive⟩ | hworker | hdesk := h.sends source hsend
    · refine .inl ⟨session, hsending, hsource, ?_⟩
      obtain hlive | hworker | hdesk := hlive
      · exact .inl hlive
      · exact .inl (hstarted hsome session hsending hworker)
      · exact .inr (.inr hdesk)
    · exact absurd (hworker.symm.trans (hdecides hsome)) (by simp)
    · exact .inr (.inr hdesk)
  plays := by
    intro source hplay
    have hsome : world.play ≠ none := fun hnone => absurd (hnone.symm.trans hplay) (by simp)
    exact .inl ((h.plays source hplay).resolve_right (hplayback hsome))
  oneWay := h.oneWay
  offers := h.offers
  granted := h.granted
  requested := hrequest

theorem Shown.moveDesk (h : Shown world) {desk : Desk}
    (hdecides : world.send ≠ none → world.desk.decides = true → desk.decides = true)
    (hstarted : world.send ≠ none → ∀ session, world.phone.sending = some session →
      world.desk = .sendingStarted session.id → session.live = true)
    (hoffers : desk = .checkSending ∨ desk = .offer → world.phone.hearingSystem = false) :
    Shown { world with desk } where
  sends := by
    intro source hsend
    have hsome : world.send ≠ none := fun hnone => absurd (hnone.symm.trans hsend) (by simp)
    obtain ⟨session, hsending, hsource, hlive⟩ | hworker | hdesk := h.sends source hsend
    · refine .inl ⟨session, hsending, hsource, ?_⟩
      obtain hlive | hworker | hdesk := hlive
      · exact .inl hlive
      · exact .inr (.inl hworker)
      · exact .inl (hstarted hsome session hsending hdesk)
    · exact .inr (.inl hworker)
    · exact .inr (.inr (hdecides hsome hdesk))
  plays := h.plays
  oneWay := h.oneWay
  offers := hoffers
  granted := h.granted
  requested := h.requested

/-- What the desk remembers of the setting and of its messages says nothing about
sound. -/
theorem Shown.say (h : Shown world) (messages : List ControlMessage) :
    Shown (world.say messages) :=
  ⟨h.sends, h.plays, h.oneWay, h.offers, h.granted, h.requested⟩

theorem Shown.hushSend (h : Shown world) : Shown { world with send := none } :=
  ⟨by simp, h.plays, h.oneWay, h.offers, h.granted, h.requested⟩

theorem Shown.hushPlay (h : Shown world) : Shown { world with play := none } :=
  ⟨h.sends, by simp, h.oneWay, h.offers, h.granted, h.requested⟩

theorem Shown.hush (h : Shown world) (sending : Bool) : Shown (world.hush sending) := by
  cases sending with
  | true => exact h.hushSend
  | false => exact h.hushPlay

/-- Sound starts for the session in the table, and the handler says so next. -/
theorem Shown.startSend (h : Shown world) (hsending : world.phone.sending = some session)
    (hstarted : world.worker = .sendingStarted session.id ∨
      world.desk = .sendingStarted session.id) :
    Shown { world with send := some session.source } where
  sends := by
    intro source hsource
    cases hsource
    exact .inl ⟨session, hsending, rfl, .inr hstarted⟩
  plays := h.plays
  oneWay := h.oneWay
  offers := h.offers
  granted := h.granted
  requested := h.requested

theorem Shown.startPlay (h : Shown world) (hhearing : world.phone.hearing = some session)
    (hlive : session.live = true) : Shown { world with play := some session.source } where
  sends := h.sends
  plays := by
    intro source hsource
    cases hsource
    exact .inl ⟨session, hhearing, hlive, rfl⟩
  oneWay := h.oneWay
  offers := h.offers
  granted := h.granted
  requested := h.requested

section

variable {phone : Phone}

theorem hearingSystem_congr (heq : phone.hearing = world.phone.hearing) :
    phone.hearingSystem = world.phone.hearingSystem := by
  unfold Phone.hearingSystem
  rw [heq]

theorem sendingSystem_congr (heq : phone.sending = world.phone.sending) :
    phone.sendingSystem = world.phone.sendingSystem := by
  unfold Phone.sendingSystem
  rw [heq]

/-- A session is put in or taken out while a step that comes decides what is sent, or
while nothing is sent. -/
theorem Shown.setSending (h : Shown world) {granted : Bool}
    (hhearing : phone.hearing = world.phone.hearing)
    (hsend : world.send = none ∨ world.worker.decides = true ∨ world.desk.decides = true)
    (hsystem : phone.sendingSystem = true → world.phone.hearingSystem = false)
    (hmic : ∀ session, phone.sending = some session → session.source = .mic →
      granted = true) :
    Shown { world with phone, granted } where
  sends := by
    intro source hsource
    exact .inr (hsend.resolve_left (fun hnone => absurd (hnone.symm.trans hsource) (by simp)))
  plays := by
    show ∀ source, _ → (∃ session, phone.hearing = some session ∧ _) ∨ _
    rw [hhearing]
    exact h.plays
  oneWay := by
    show phone.sendingSystem = true → phone.hearingSystem = false
    rw [hearingSystem_congr hhearing]
    exact hsystem
  offers := by
    show _ → phone.hearingSystem = false
    rw [hearingSystem_congr hhearing]
    exact h.offers
  granted := hmic
  requested := h.requested

/-- The session that goes out of the table is none. -/
theorem Shown.endSending (h : Shown world) (hsending : phone.sending = none)
    (hhearing : phone.hearing = world.phone.hearing)
    (hsend : world.send = none ∨ world.worker.decides = true ∨ world.desk.decides = true) :
    Shown { world with phone } := by
  refine h.setSending hhearing hsend ?_ ?_
  · simp [Phone.sendingSystem, hsending]
  · simp [hsending]

/-- A session is put in or taken out while the phone's sound does not play. -/
theorem Shown.setHearing (h : Shown world) (hsending : phone.sending = world.phone.sending)
    (hplay : world.play = none ∨ world.worker = .stopPlayback)
    (hsystem : phone.hearingSystem = true → world.phone.sendingSystem = false ∧
      world.desk ≠ .checkSending ∧ world.desk ≠ .offer) :
    Shown { world with phone } where
  sends := by
    show ∀ source, _ → (∃ session, phone.sending = some session ∧ _) ∨ _
    rw [hsending]
    exact h.sends
  plays := by
    intro source hsource
    exact .inr (hplay.resolve_left (fun hnone => absurd (hnone.symm.trans hsource) (by simp)))
  oneWay := by
    show phone.sendingSystem = true → phone.hearingSystem = false
    rw [sendingSystem_congr hsending, Bool.eq_false_iff]
    intro hsend hhear
    exact absurd (hsend.symm.trans (hsystem hhear).1) (by simp)
  offers := by
    rw [Bool.eq_false_iff]
    rintro (hdesk | hdesk) hhear
    · exact (hsystem hhear).2.1 hdesk
    · exact (hsystem hhear).2.2 hdesk
  granted := by
    show ∀ session, phone.sending = some session → _
    rw [hsending]
    exact h.granted
  requested := h.requested

theorem Shown.endHearing (h : Shown world) (hsending : phone.sending = world.phone.sending)
    (hhearing : phone.hearing = none)
    (hplay : world.play = none ∨ world.worker = .stopPlayback) : Shown { world with phone } := by
  refine h.setHearing hsending hplay ?_
  simp [Phone.hearingSystem, hhearing]

/-- The table says what it said before. -/
theorem Shown.sameSessions (h : Shown world) (hsending : phone.sending = world.phone.sending)
    (hhearing : phone.hearing = world.phone.hearing) : Shown { world with phone } := by
  constructor
  · show ∀ source, _ → (∃ session, phone.sending = some session ∧ _) ∨ _
    rw [hsending]
    exact h.sends
  · show ∀ source, _ → (∃ session, phone.hearing = some session ∧ _) ∨ _
    rw [hhearing]
    exact h.plays
  · show phone.sendingSystem = true → phone.hearingSystem = false
    rw [sendingSystem_congr hsending, hearingSystem_congr hhearing]
    exact h.oneWay
  · show _ → phone.hearingSystem = false
    rw [hearingSystem_congr hhearing]
    exact h.offers
  · show ∀ session, phone.sending = some session → _
    rw [hsending]
    exact h.granted
  · exact h.requested

end

variable {id : String}

/-! ### The sections of the two handlers -/

/-- A refusal that leaves the sound that is on its session. -/
theorem Shown.deny (h : Shown world) (reason : String) (hcareful : world.refusesSafely id = true) :
    Shown { world with phone := (world.phone.deny id reason).1 } := by
  have hsending := world.phone.sending_deny id reason
  have hhearing := world.phone.hearing_deny id reason
  by_cases hany : world.phone.sending.any (fun session => session.id = id) = true
  · -- The session goes, so its sound is off.
    rw [if_pos hany] at hsending
    obtain hother | hoff := Bool.or_eq_true_iff.mp hcareful
    · obtain ⟨session, hsession, hid⟩ := (Option.any_eq_true _ _).mp hany
      have hne := (Option.all_eq_true _ _).mp hother session hsession
      exact absurd (of_decide_eq_true hid) (of_decide_eq_true hne)
    · exact h.endSending hsending hhearing (.inl (Option.isNone_iff_eq_none.mp hoff))
  · rw [if_neg hany] at hsending
    exact h.sameSessions hsending hhearing

theorem sending_started (id : String) : (world.started id).phone.sending =
    world.phone.sending.map
      (fun session => if session.id = id then { session with live := true } else session) :=
  world.phone.sending_sendingStarted id

/-- After `sending_started` the session is live. -/
theorem started_live (hsending : (world.started id).phone.sending = some session)
    (hid : session.id = id) : session.live = true := by
  rw [sending_started, Option.map_eq_some_iff] at hsending
  obtain ⟨before, -, rfl⟩ := hsending
  by_cases hbefore : before.id = id
  · rw [if_pos hbefore]
  · rw [if_neg hbefore] at hid
    exact absurd hid hbefore

theorem Shown.started (h : Shown world) (id : String) : Shown (world.started id) := by
  have hsending := @sending_started world id
  have hhearing : (world.started id).phone.hearing = world.phone.hearing :=
    world.phone.hearing_sendingStarted id
  have hsystem : (world.started id).phone.sendingSystem = world.phone.sendingSystem := by
    unfold Phone.sendingSystem
    rw [hsending, Option.any_map]
    congr 1
    funext session
    show decide ((if session.id = id then { session with live := true } else session).source = _) = _
    split <;> rfl
  constructor
  · intro source hsource
    obtain ⟨session, hsession, hsource, hlive⟩ | hdecides := h.sends source hsource
    · left
      rw [hsending, hsession, Option.map_some]
      by_cases hid : session.id = id
      · exact ⟨_, rfl, by rw [if_pos hid]; exact hsource, .inl (by rw [if_pos hid])⟩
      · exact ⟨session, by rw [if_neg hid], hsource, hlive⟩
    · exact .inr hdecides
  · rw [hhearing]
    exact h.plays
  · rw [hsystem, hearingSystem_congr hhearing]
    exact h.oneWay
  · rw [hearingSystem_congr hhearing]
    exact h.offers
  · intro session hsession hmic
    rw [hsending, Option.map_eq_some_iff] at hsession
    obtain ⟨before, hbefore, rfl⟩ := hsession
    by_cases hid : before.id = id
    · rw [if_pos hid] at hmic
      exact h.granted before hbefore hmic
    · rw [if_neg hid] at hmic
      exact h.granted before hbefore hmic
  · exact h.requested

/-- An `audio-ready` makes a session live, and changes nothing else. -/
theorem Shown.ready (h : Shown world) (message : ControlMessage) :
    Shown { world with phone := (world.phone.ready message).1 } := by
  obtain heq | ⟨session, hsession, heq⟩ := world.phone.ready_cases message
  · rw [heq]
    exact h
  · rw [heq]
    have hsystem : Phone.hearingSystem { world.phone with
        hearing := some { session with live := true } } = world.phone.hearingSystem := by
      simp [Phone.hearingSystem, hsession]
    constructor
    · exact h.sends
    · intro source hplay
      refine (h.plays source hplay).imp_left ?_
      rintro ⟨_, hsession', -, hsource⟩
      cases hsession.symm.trans hsession'
      exact ⟨_, rfl, rfl, hsource⟩
    · exact fun hsend => hsystem.trans (h.oneWay hsend)
    · exact fun hdesk => hsystem.trans (h.offers hdesk)
    · exact h.granted
    · exact h.requested

/-- The session that is stopped has its sound off. -/
theorem Shown.stop (h : Shown world) {sending : Bool} (hsilent : world.silent sending = true) :
    Shown { world with phone := (world.phone.stop sending).1 } := by
  have hsending := world.phone.sending_stop sending
  have hhearing := world.phone.hearing_stop sending
  unfold silent at hsilent
  cases sending with
  | true =>
    obtain hnone | hoff := Bool.or_eq_true_iff.mp hsilent
    · have hnone := Option.isNone_iff_eq_none.mp hnone
      exact h.sameSessions (hsending.trans hnone.symm) hhearing
    · exact h.endSending hsending hhearing (.inl (Option.isNone_iff_eq_none.mp hoff))
  | false =>
    obtain hnone | hoff := Bool.or_eq_true_iff.mp hsilent
    · have hnone := Option.isNone_iff_eq_none.mp hnone
      exact h.sameSessions hsending (hhearing.trans hnone.symm)
    · exact h.endHearing hsending hhearing (.inl (Option.isNone_iff_eq_none.mp hoff))

theorem hush_desk (sending : Bool) : (world.hush sending).desk = world.desk := by
  cases sending <;> rfl

/-- The session a start is for. -/
theorem holdsSession_session {source : Source}
    (hholds : holdsSession world.phone.sending id source = true) :
    ∃ session, world.phone.sending = some session ∧ session.id = id ∧ session.source = source := by
  obtain ⟨session, hsession, hsame⟩ := (Option.any_eq_true _ _).mp hholds
  exact ⟨session, hsession, by simpa using hsame⟩

/-! ### Each step keeps the invariant -/

/-- A careful step of the handler of the phone's messages. -/
theorem Shown.workerStep (h : Shown world) {ok : Bool} (hcareful : world.carefulWorker ok = true) :
    Shown (world.workerStep ok) := by
  unfold carefulWorker at hcareful
  unfold World.workerStep
  cases hworker : world.worker with
  | idle => exact h
  | deny id reason =>
    rw [hworker] at hcareful
    refine ((h.deny reason hcareful).moveWorker ?_ ?_ ?_ ?_).say _ <;> simp [hworker, Worker.decides]
  | checkBusy id =>
    refine h.moveWorker ?_ ?_ ?_ ?_
    · simp [hworker, Worker.decides]
    · simp [hworker]
    · simp [hworker]
    · intro id'
      split <;> simp
  | request id source =>
    rw [hworker] at hcareful
    have hmoved : Shown { world with worker := .startSend id source } := by
      refine h.moveWorker ?_ ?_ ?_ ?_ <;> simp [hworker, Worker.decides]
    refine hmoved.setSending rfl (.inr (.inl rfl)) ?_ ?_
    · intro hsystem
      cases source with
      | system => simpa using hcareful
      | mic => simp [Phone.sendingSystem, Phone.requested] at hsystem
    · intro session hsession hmic
      cases hsession
      cases hmic
      exact h.requested id hworker
  | startSend id source =>
    rw [hworker] at hcareful
    cases ok with
    | true =>
      obtain ⟨session, hsession, rfl, rfl⟩ := holdsSession_session (by simpa using hcareful)
      have hmoved : Shown { world with send := none, worker := .sendingStarted session.id } := by
        refine h.hushSend.moveWorker ?_ ?_ ?_ ?_ <;> simp [hworker]
      exact hmoved.startSend hsession (.inl rfl)
    | false => refine h.hushSend.moveWorker ?_ ?_ ?_ ?_ <;> simp [hworker]
  | sendingStarted id =>
    refine (h.started id).moveWorker ?_ ?_ ?_ ?_
    · show world.send ≠ none → world.worker.decides = false
      simp [hworker, Worker.decides]
    · intro _ session hsession hstarted
      have hid : Worker.sendingStarted id = .sendingStarted session.id := hworker.symm.trans hstarted
      cases hid
      exact started_live hsession rfl
    · show world.play ≠ none → world.worker ≠ .stopPlayback
      simp [hworker]
    · simp
  | stopFailed id => refine h.hushSend.moveWorker ?_ ?_ ?_ ?_ <;> simp [hworker]
  | sendingFailed id =>
    rw [hworker] at hcareful
    refine ((h.deny "unsupported" hcareful).moveWorker ?_ ?_ ?_ ?_).say _ <;>
      simp [hworker, Worker.decides]
  | ready message =>
    show Shown { world with
      phone := (world.phone.ready message).1
      worker := (world.phone.ready message).2.elim .idle .startPlayback }
    refine (h.ready message).moveWorker ?_ ?_ ?_ ?_
    · simp [hworker, Worker.decides]
    · simp [hworker]
    · simp [hworker]
    · intro id
      generalize (world.phone.ready message).2 = plays
      cases plays <;> simp
  | startPlayback source =>
    rw [hworker] at hcareful
    cases ok with
    | true =>
      obtain ⟨session, hsession, hlive⟩ := (Option.any_eq_true _ _).mp
        (show world.phone.hearing.any _ = true from hcareful)
      obtain ⟨hlive', rfl⟩ : session.live = true ∧ session.source = source := by
        simpa using hlive
      refine (h.startPlay hsession hlive').moveWorker ?_ ?_ ?_ ?_ <;> simp [hworker, Worker.decides]
    | false => refine h.hushPlay.moveWorker ?_ ?_ ?_ ?_ <;> simp [hworker, Worker.decides]
  | ended message =>
    dsimp only
    obtain heq | heq | ⟨reason, heq⟩ := world.phone.ended_cases message
    · rw [heq]
      refine h.moveWorker ?_ ?_ ?_ ?_ <;> simp [hworker, Worker.decides]
    · rw [heq]
      have hmoved : Shown { world with worker := .stopSend } := by
        refine h.moveWorker ?_ ?_ ?_ ?_ <;> simp [hworker, Worker.decides]
      exact hmoved.endSending rfl rfl (.inr (.inl rfl))
    · rw [heq]
      have hmoved : Shown { world with worker := .stopPlayback } := by
        refine h.moveWorker ?_ ?_ ?_ ?_ <;> simp [hworker, Worker.decides]
      exact hmoved.endHearing rfl rfl (.inr rfl)
  | stopSend => refine h.hushSend.moveWorker ?_ ?_ ?_ ?_ <;> simp [hworker]
  | stopPlayback => refine h.hushPlay.moveWorker ?_ ?_ ?_ ?_ <;> simp [hworker, Worker.decides]

/-- A switch turns to this computer's sound only when the phone's does not play. -/
theorem switched_offers {what : String} {on : Bool}
    (hquiet : isDeskSound what = true → on = true → world.phone.hearingSystem = false) :
    switched what on = .checkSending ∨ switched what on = .offer →
      world.phone.hearingSystem = false := by
  unfold switched
  cases on with
  | false => simp
  | true =>
    cases hdesk : isDeskSound what with
    | true => exact fun _ => hquiet hdesk rfl
    | false => simp

/-- The stop of what would loop back, before a switch takes effect. -/
theorem Shown.stopOther (h : Shown world) {what : String} {refused : Bool}
    (hdesk : world.desk = .stopOther what) (hsilent : world.silent (!isDeskSound what) = true) :
    Shown (if refused then
        { world with phone := (world.phone.stop (!isDeskSound what)).1, desk := .idle }
      else { world.stopSession (!isDeskSound what) with desk := switched what true }) := by
  have hquiet : isDeskSound what = true →
      (world.stopSession (!isDeskSound what)).phone.hearingSystem = false := by
    intro hsound
    rw [hsound]
    simp [Phone.hearingSystem, stopSession, World.say]
  split
  · refine Shown.moveDesk (h.stop hsilent) ?_ ?_ ?_ <;> simp [hdesk, Desk.decides]
  · refine ((h.stop hsilent).say _).moveDesk ?_ ?_ (switched_offers (fun hsound _ => hquiet hsound))
    · intro _ hdecides
      exact absurd ((congrArg Desk.decides hdesk).symm.trans hdecides) (by simp [Desk.decides])
    · intro _ session _ hstarted
      exact absurd (hdesk.symm.trans hstarted) (by simp)

/-- This computer offers its sound only when the phone's does not play. -/
theorem Shown.offer (h : Shown world) (hdesk : world.desk = .offer) (fresh : String) :
    Shown { world with
      phone := (world.phone.offerDeskSound fresh).1
      desk := (world.phone.offerDeskSound fresh).2.elim (.startSend fresh) (.sayReplaced fresh) } := by
  generalize hnext : (world.phone.offerDeskSound fresh).2.elim (Desk.startSend fresh)
    (Desk.sayReplaced fresh) = next
  have hdecides : next.decides = true := by
    rw [← hnext]
    generalize (world.phone.offerDeskSound fresh).2 = replaced
    cases replaced <;> rfl
  have hquiet := h.offers (.inr hdesk)
  have hmoved : Shown { world with desk := next } := by
    refine h.moveDesk (fun _ _ => hdecides) ?_ (fun _ => hquiet)
    simp [hdesk]
  refine hmoved.setSending (world.phone.hearing_offerDeskSound fresh) (.inr (.inr hdecides))
    (fun _ => hquiet) ?_
  intro session hsession hmic
  rw [world.phone.sending_offerDeskSound fresh] at hsession
  cases hsession
  cases hmic

/-- The phone is asked for a sound while nothing plays. -/
theorem Shown.ask (h : Shown world) {source : Source} (hdesk : world.desk = .ask source)
    (fresh : String)
    (hcareful : (world.play.isNone && (source = .mic || !world.phone.sendingSystem)) = true) :
    Shown ({ world with phone := (world.phone.askPhone source fresh).1, desk := .idle }.say
      (world.phone.askPhone source fresh).2) := by
  obtain ⟨hoff, hsource⟩ := Bool.and_eq_true_iff.mp hcareful
  have hasked : Shown { world with phone := (world.phone.askPhone source fresh).1 } := by
    refine h.setHearing (world.phone.sending_askPhone fresh source)
      (.inl (Option.isNone_iff_eq_none.mp hoff)) ?_
    intro hsystem
    have hsystem : source = .system := by
      simpa [Phone.hearingSystem, world.phone.hearing_askPhone] using hsystem
    subst hsystem
    exact ⟨by simpa using hsource, by simp [hdesk], by simp [hdesk]⟩
  refine (hasked.moveDesk ?_ ?_ ?_).say _ <;> simp [hdesk, Desk.decides]

/-- A careful step of what this computer's own switches ask for. -/
theorem Shown.deskStep (h : Shown world) {ok : Bool} (fresh : String)
    (hcareful : world.carefulDesk ok = true) : Shown (world.deskStep ok fresh) := by
  unfold carefulDesk at hcareful
  unfold World.deskStep
  cases hdesk : world.desk with
  | idle => exact h
  | checkLoops what on =>
    refine h.moveDesk ?_ ?_ ?_
    · simp [hdesk, Desk.decides]
    · simp [hdesk]
    · split
      · simp
      · rename_i hloops
        refine switched_offers ?_
        intro hsound hon
        simpa [loops, hsound, hon] using hloops
  | quietOther what =>
    refine (h.hush _).moveDesk ?_ ?_ ?_
    · rw [hush_desk, hdesk]
      simp [Desk.decides]
    · rw [hush_desk, hdesk]
      simp
    · simp
  | stopOther what =>
    rw [hdesk] at hcareful
    exact h.stopOther hdesk hcareful
  | quiet sending =>
    refine (h.hush _).moveDesk ?_ ?_ ?_
    · rw [hush_desk, hdesk]
      simp [Desk.decides]
    · rw [hush_desk, hdesk]
      simp
    · simp
  | stop sending =>
    rw [hdesk] at hcareful
    refine ((h.stop hcareful).say _).moveDesk ?_ ?_ ?_
    · intro _ hdecides
      exact absurd ((congrArg Desk.decides hdesk).symm.trans hdecides) (by simp [Desk.decides])
    · intro _ session _ hstarted
      exact absurd (hdesk.symm.trans hstarted) (by simp)
    · simp
  | checkSending =>
    refine h.moveDesk ?_ ?_ ?_
    · simp [hdesk, Desk.decides]
    · simp [hdesk]
    · exact fun _ => h.offers (.inl hdesk)
  | offer => exact h.offer hdesk fresh
  | sayReplaced id stop =>
    rw [hdesk] at hcareful
    cases ok with
    | true => refine (h.say [stop]).moveDesk ?_ ?_ ?_ <;> simp [hdesk, Desk.decides, World.say]
    | false =>
      have hoff : world.send = none := Option.isNone_iff_eq_none.mp hcareful
      refine h.moveDesk ?_ ?_ ?_ <;> simp [hoff]
  | startSend id =>
    rw [hdesk] at hcareful
    cases ok with
    | true =>
      obtain ⟨session, hsession, rfl, hsystem⟩ := holdsSession_session (by simpa using hcareful)
      have hmoved : Shown { world with send := none, desk := .sendingStarted session.id } := by
        refine h.hushSend.moveDesk ?_ ?_ ?_ <;> simp
      have hstart := hmoved.startSend hsession (.inr rfl)
      rw [hsystem] at hstart
      exact hstart
    | false => refine h.hushSend.moveDesk ?_ ?_ ?_ <;> simp
  | startFailed =>
    rw [hdesk] at hcareful
    refine Shown.moveDesk (h.stop hcareful) ?_ ?_ ?_ <;> simp [hdesk, Desk.decides]
  | sendingStarted id =>
    refine (h.started id).moveDesk ?_ ?_ ?_
    · intro _ hdecides
      exact absurd ((congrArg Desk.decides hdesk).symm.trans hdecides) (by simp [Desk.decides])
    · intro _ session hsession hstarted
      have hid : Desk.sendingStarted id = .sendingStarted session.id := hdesk.symm.trans hstarted
      cases hid
      exact started_live hsession rfl
    · simp
  | checkNegotiated source =>
    cases ok with
    | true => refine h.hushPlay.moveDesk ?_ ?_ ?_ <;> simp [hdesk, Desk.decides]
    | false => refine h.moveDesk ?_ ?_ ?_ <;> simp [hdesk, Desk.decides]
  | ask source =>
    rw [hdesk] at hcareful
    exact h.ask hdesk fresh hcareful

/-- The microphone is asked for only while the setting allows it. -/
theorem firstStep_request {message : ControlMessage}
    (hrequest : world.firstStep message = .request id .mic) : world.deskMicToPhone = true := by
  unfold firstStep at hrequest
  dsimp only at hrequest
  split at hrequest
  · split at hrequest
    · cases hrequest
    · split at hrequest
      · split at hrequest
        · assumption
        · cases hrequest
      · cases hrequest
  all_goals cases hrequest

theorem Shown.arrive (h : Shown world) (hidle : world.worker = .idle) (message : ControlMessage) :
    Shown (world.arrive message) := by
  have hasked : Shown { world with asked := world.deskMicToPhone } := by
    refine ⟨h.sends, h.plays, h.oneWay, h.offers, h.granted, ?_⟩
    intro id hrequest
    exact absurd (hidle.symm.trans hrequest) (by simp)
  refine hasked.moveWorker ?_ ?_ ?_ ?_
  · simp [hidle, Worker.decides]
  · simp [hidle]
  · simp [hidle]
  · exact fun id hrequest => firstStep_request hrequest

theorem Shown.after (h : Shown world) (event : Event) (hcareful : world.careful event = true) :
    Shown (world.after event) := by
  unfold World.after
  cases event with
  | message message =>
    dsimp only
    split
    · rename_i hidle
      exact h.arrive hidle message
    · exact h
  | switch what on =>
    dsimp only
    split
    · rename_i hidle
      refine h.moveDesk ?_ ?_ ?_ <;> simp [hidle, Desk.decides]
    · exact h
  | setDeskMicToPhone on =>
    exact ⟨h.sends, h.plays, h.oneWay, h.offers, h.granted, h.requested⟩
  | worker ok => exact h.workerStep hcareful
  | desk ok fresh => exact h.deskStep fresh hcareful
  | close =>
    constructor <;> simp [Phone.sendingSystem, Phone.hearingSystem]
    exact h.requested

theorem run_shown {events : List Event}
    (hcareful : Lib.Alongside World.after (fun world event => world.careful event = true) {}
      events) : Shown (World.run events) :=
  hcareful.invariant (fun _ event h => h.after event) shown_init

end World

/-- In every run whose steps are careful, whenever no handler is in progress: what
goes to the phone is the source of a live session, and what plays here that of
another; the microphone is sent only for a request that came while the setting
allowed it; and this computer's system sound is not sent while the phone's plays. -/
theorem sound_shown (events : List Event)
    (hcareful : Lib.Alongside World.after (fun world event => world.careful event = true) {}
      events)
    (hworker : (World.run events).worker = .idle) (hdesk : (World.run events).desk = .idle) :
    (∀ source, (World.run events).send = some source →
      ∃ session, (World.run events).phone.sending = some session ∧ session.live = true ∧
        session.source = source) ∧
    (∀ source, (World.run events).play = some source →
      ∃ session, (World.run events).phone.hearing = some session ∧ session.live = true) ∧
    ((World.run events).send = some .mic → (World.run events).granted = true) ∧
    ¬ ((World.run events).send = some .system ∧ (World.run events).play = some .system) := by
  have h := World.run_shown hcareful
  have hsends (source : Source) (hsend : (World.run events).send = some source) :
      ∃ session, (World.run events).phone.sending = some session ∧ session.live = true ∧
        session.source = source := by
    obtain ⟨session, hsending, hsource, hlive⟩ | hdecides := h.sends source hsend
    · exact ⟨session, hsending, by simpa [hworker, hdesk] using hlive, hsource⟩
    · simp [hworker, hdesk, Worker.decides, Desk.decides] at hdecides
  have hplays (source : Source) (hplay : (World.run events).play = some source) :
      ∃ session, (World.run events).phone.hearing = some session ∧ session.live = true ∧
        session.source = source :=
    (h.plays source hplay).resolve_right (by simp [hworker])
  refine ⟨hsends, ?_, ?_, ?_⟩
  · intro source hplay
    obtain ⟨session, hhearing, hlive, -⟩ := hplays source hplay
    exact ⟨session, hhearing, hlive⟩
  · intro hmic
    obtain ⟨session, hsending, -, hsource⟩ := hsends .mic hmic
    exact h.granted session hsending hsource
  · rintro ⟨hsend, hplay⟩
    obtain ⟨session, hsending, -, hsystem⟩ := hsends .system hsend
    obtain ⟨heard, hhearing, -, hheard⟩ := hplays .system hplay
    have hone := h.oneWay (by simp [Phone.sendingSystem, hsending, hsystem])
    simp [Phone.hearingSystem, hhearing, hheard] at hone

/-- The phone asks for this computer's sound under the id `a`. -/
def askForSound (source : String) : ControlMessage :=
  { kind := .audioRequest, remoteSessionId := "a", audioDirection := some deskToPhone
    source := some source }

/-- The phone asks for the microphone, and gets it. -/
def micEvents : List Event :=
  [.setDeskMicToPhone true, .message (askForSound "mic"), .worker true, .worker true, .worker true]

/-- The microphone is sent, as the setting allowed it. -/
theorem sound_shown_micEvents :
    (World.run micEvents).send = some .mic ∧ (World.run micEvents).granted = true := by
  have hshown := sound_shown micEvents (by decide) (by decide) (by decide)
  exact ⟨by decide, hshown.2.2.1 (by decide)⟩

/-- The phone asks for this computer's sound, and gets it. -/
def systemEvents : List Event :=
  [.message (askForSound "system"), .worker true, .worker true, .worker true, .worker true]

/-- The phone asks for this computer's sound; when the request is in the table and
sound does not flow yet, the switch at the desk is turned off; and then the start
goes on. -/
def stoppedEvents : List Event :=
  [.message (askForSound "system"), .worker true, .worker true, .switch "desk-sound" false,
    .desk true "", .desk true "", .desk true "", .worker true, .worker true]

/-- Sound flows and the table says nothing, with no handler in progress: after a
request that is refused, and that has the id of the session whose sound flows; and
after a stop in the middle of a start. -/
theorem sound_not_shown :
    ((World.run (systemEvents ++ [Event.message (askForSound "mic"), .worker true])).worker = .idle ∧
      (World.run (systemEvents ++ [Event.message (askForSound "mic"), .worker true])).desk = .idle ∧
      (World.run (systemEvents ++ [Event.message (askForSound "mic"), .worker true])).send =
        some .system ∧
      (World.run (systemEvents ++ [Event.message (askForSound "mic"), .worker true])).phone.sending =
        none) ∧
    ((World.run stoppedEvents).worker = .idle ∧ (World.run stoppedEvents).desk = .idle ∧
      (World.run stoppedEvents).send = some .system ∧
      (World.run stoppedEvents).phone.sending = none) := by
  decide

end DeskLink.Sound
