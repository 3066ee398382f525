import DeskLink.Lib.Unwind
import DeskLink.Proofs.Session.Binding
import DeskLink.Session.Reader

/-!
# `DeskLink.Proofs.Session.Reader`: a dead socket and a live transport

`Carried` says once what a call can do to the links: no session gets a link
that was there before, a socket is swapped only in a link whose peer is
ready for features, and a peer becomes ready only in a handover step.
`Waiting` is what holds of a socket's end between its two sections, as long
as no handover step makes the peer of its link ready (`Reading.Quiet`): the
link carries the reader's socket, and its peer is not ready.

* `after_carried`: every call.
* `section_settled`: one section of anything.
* `reader_spares`: the run.
* `reader_kills`: what happens otherwise.
-/

set_option autoImplicit false

namespace DeskLink.Session

/-! ### What a call can do to a link -/

/-- The number of sockets that a link has carried. -/
def DeviceManager.epochOf (m : DeviceManager) (link : Nat) : Option UInt64 :=
  m.links[link]?.map (·.epoch)

/-- What a step does to the links. The peer of a link in `risen` may become
ready. -/
structure Carried (risen : Nat → Prop) (m m' : DeviceManager) : Prop where
  length : m.links.length ≤ m'.links.length
  /-- A socket is swapped only while the peer is ready. -/
  epoch : ∀ link < m.links.length, m'.epochOf link = m.epochOf link ∨
    ∃ (d : String) (s : DeviceSession), m.sessions[d]? = some s ∧ s.activeLink = some link ∧
      s.featuresReady = true
  /-- The link of a session is the new one, or the one it had. -/
  session : ∀ (d : String) (s' : DeviceSession) (link : Nat), m'.sessions[d]? = some s' →
    s'.activeLink = some link →
    (link = m.links.length ∧ m.links.length < m'.links.length ∧
      ∀ d' ≠ d, m'.sessions[d']? = m.sessions[d']?) ∨
    ∃ s, m.sessions[d]? = some s ∧ s.activeLink = some link ∧
      (s'.featuresReady = true → s.featuresReady = true ∨ risen link)

section
variable {risen : Nat → Prop} {m : DeviceManager} {b : SessionBinding} {R : Type}
variable {cancelled : List Nat} {d : String} {s' : DeviceSession}

theorem Carried.refl (m : DeviceManager) : Carried risen m m where
  length := le_rfl
  epoch _ _ := .inl rfl
  session _ s' _ hs' hlink := .inr ⟨s', hs', hlink, .inl⟩

/-- A session is replaced by one with its link, or with none. -/
theorem carried_insert {s : DeviceSession} (hs : m.sessions[d]? = some s)
    (hlink : s'.activeLink = s.activeLink ∨ s'.activeLink = none)
    (hready : ∀ link, s'.activeLink = some link → s'.featuresReady = true →
      s.featuresReady = true ∨ risen link) :
    Carried risen m { m with sessions := m.sessions.insert d s', cancelled } where
  length := le_rfl
  epoch _ _ := .inl rfl
  session e s'' link hs'' hlink'' := by
    rw [getElem?_keyInsert] at hs''
    by_cases hd : d = e
    · subst hd
      rw [if_pos rfl] at hs''
      obtain rfl := Option.some.inj hs''
      refine .inr ⟨s, hs, ?_, hready link hlink''⟩
      rcases hlink with hsame | hnone
      · rw [← hsame]
        exact hlink''
      · rw [hnone] at hlink''
        cases hlink''
    · rw [if_neg hd] at hs''
      exact .inr ⟨s'', hs'', hlink'', .inl⟩

/-- The session keeps its link, and its peer does not become ready. -/
structure Calm (s s' : DeviceSession) : Prop where
  link : s'.activeLink = s.activeLink
  ready : s'.featuresReady = true → s.featuresReady = true

theorem Calm.refl (s : DeviceSession) : Calm s s := ⟨rfl, id⟩

theorem calm_insert {s : DeviceSession} (hs : m.sessions[d]? = some s) (h : Calm s s') :
    Carried risen m { m with sessions := m.sessions.insert d s' } :=
  carried_insert hs (.inl h.link) (fun _ _ hready => .inl (h.ready hready))

theorem withSession_calm {operation : DeviceSession → DeviceSession × R}
    (h : ∀ s, Calm s (operation s).1) : Carried risen m (m.withSession b operation).1 := by
  rcases withSession_cases operation with heq | ⟨s, hs, -, heq⟩
  · rw [heq]
    exact .refl m
  · rw [heq]
    exact calm_insert hs (h s)

theorem trySession_calm {operation : DeviceSession → DeviceSession × Except SessionError R}
    (h : ∀ s, Calm s (operation s).1) : Carried risen m (m.trySession b operation).1 :=
  withSession_calm h

/-- The sessions are changed one by one. -/
theorem carried_map {change : DeviceSession → DeviceSession}
    (hlink : ∀ s, (change s).activeLink = s.activeLink ∨ (change s).activeLink = none)
    (hready : ∀ s, (change s).featuresReady = true → s.featuresReady = true) :
    Carried risen m { m with sessions := m.sessions.map (fun _ => change), cancelled } where
  length := le_rfl
  epoch _ _ := .inl rfl
  session d s' link hs' hlink' := by
    have hs' : (m.sessions.map (fun _ => change))[d]? = some s' := hs'
    rw [Std.ExtTreeMap.getElem?_map] at hs'
    obtain ⟨s, hs, rfl⟩ := Option.map_eq_some_iff.mp hs'
    refine .inr ⟨s, hs, ?_, fun h => .inl (hready s h)⟩
    rcases hlink s with hsame | hnone
    · rw [← hsame]
      exact hlink'
    · rw [hnone] at hlink'
      cases hlink'

theorem epochOf_closeLink (m : DeviceManager) (link other : Nat) :
    (m.closeLink link).epochOf other = m.epochOf other := by
  show (m.links.modify link ({ · with closed := true }))[other]?.map (·.epoch) = _
  rw [List.getElem?_modify]
  show _ = m.links[other]?.map (·.epoch)
  cases m.links[other]? with
  | none => rfl
  | some l =>
    show some (if link = other then ({ l with closed := true } : SessionLink) else l).epoch = _
    split <;> rfl

theorem Carried.closeLink {m' : DeviceManager} (h : Carried risen m m') (link : Nat) :
    Carried risen m (m'.closeLink link) where
  length := by
    show m.links.length ≤ (m'.links.modify link _).length
    rw [List.length_modify]
    exact h.length
  epoch other hother := by
    rw [epochOf_closeLink]
    exact h.epoch other hother
  session d s' l hs' hl := by
    rcases h.session d s' l hs' hl with ⟨hnew, hlt, hothers⟩ | hold
    · refine .inl ⟨hnew, ?_, hothers⟩
      show m.links.length < (m'.links.modify link _).length
      rw [List.length_modify]
      exact hlt
    · exact .inr hold

/-- A new link is put into the session of a device. -/
theorem carried_register {link : SessionLink} {tokens nextSessionId : Nat}
    (hlink : s'.activeLink = some m.links.length) :
    Carried risen m
      { links := m.links ++ [link]
        sessions := m.sessions.insert d s'
        tokens
        nextSessionId
        cancelled } where
  length := by simp
  epoch other hother := by
    refine .inl ?_
    show (m.links ++ [link])[other]?.map (·.epoch) = m.links[other]?.map (·.epoch)
    rw [List.getElem?_append_left hother]
  session e s'' l hs'' hl := by
    have hs'' : (m.sessions.insert d s')[e]? = some s'' := hs''
    rw [getElem?_keyInsert] at hs''
    by_cases hd : d = e
    · subst hd
      rw [if_pos rfl] at hs''
      obtain rfl := Option.some.inj hs''
      refine .inl ⟨Option.some.inj (hl.symm.trans hlink), by simp, fun d' hd' => ?_⟩
      show (m.sessions.insert d s')[d']? = _
      rw [getElem?_keyInsert, if_neg (Ne.symm hd')]
    · rw [if_neg hd] at hs''
      exact .inr ⟨s'', hs'', hl, .inl⟩

variable (m)

theorem register_carried (d : String) (link : SessionLink) (paired : Bool) (now : Nat) :
    Carried risen m (m.registerLink d link paired now).1 := by
  unfold DeviceManager.registerLink
  cases hs : m.sessions[d]? with
  | none => exact carried_register rfl
  | some s =>
    by_cases hstate : s.state = .terminated
    · simp only [hstate, if_true]
      exact .refl m
    · simp only [if_neg hstate]
      cases hlink : s.activeLink with
      | none => exact carried_register rfl
      | some replaced => exact (carried_register rfl).closeLink replaced

/-- An adoption leaves everything as it is, or swaps the socket of a link
whose peer is ready. -/
theorem adopt_swaps (d : String) (transport : Nat) (pem : String) (within now : Nat) :
    (m.adoptOrKeep d transport pem within now).1 = m ∨
      ∃ (s : DeviceSession) (id : Nat) (l : SessionLink), m.sessions[d]? = some s ∧
        s.activeLink = some id ∧ s.featuresReady = true ∧
        (m.adoptOrKeep d transport pem within now).1 =
          { m with
            links := m.links.set id l
            sessions := m.sessions.insert d { s with
              state := .ready
              webrtcRecoveryAttempt := 0
              lastDisconnectReason := none
              lastInboundAt := now } } := by
  unfold DeviceManager.adoptOrKeep
  cases hs : m.sessions[d]? with
  | none => exact .inl rfl
  | some s =>
    simp only
    split
    · exact .inl rfl
    · rename_i hgone
      split
      · exact .inl rfl
      · rename_i id hlink
        split
        · exact .inl rfl
        · split
          · exact .inl rfl
          · split
            · exact .inl rfl
            · have hready : s.featuresReady = true := by
                simpa using fun h => hgone (.inr h)
              exact .inr ⟨s, id, _, rfl, hlink, hready, rfl⟩

theorem adopt_carried (d : String) (transport : Nat) (pem : String) (within now : Nat) :
    Carried risen m (m.adoptOrKeep d transport pem within now).1 := by
  rcases adopt_swaps m d transport pem within now with heq | ⟨s, link, l, hs, hlink, hready, heq⟩
  · rw [heq]
    exact .refl m
  · rw [heq]
    have hcalm : Carried risen m { m with
        sessions := m.sessions.insert d { s with
          state := .ready
          webrtcRecoveryAttempt := 0
          lastDisconnectReason := none
          lastInboundAt := now } } := calm_insert hs ⟨rfl, id⟩
    refine ⟨?_, ?_, ?_⟩
    · show m.links.length ≤ (m.links.set link l).length
      rw [List.length_set]
    · intro other _
      by_cases hother : link = other
      · subst hother
        exact .inr ⟨d, s, hs, hlink, hready⟩
      · refine .inl ?_
        show (m.links.set link l)[other]?.map (·.epoch) = m.links[other]?.map (·.epoch)
        rw [List.getElem?_set_ne hother]
    · intro e s' link' hs' hlink'
      rcases hcalm.session e s' link' hs' hlink' with ⟨-, hlt, -⟩ | hold
      · exact absurd hlt (Nat.lt_irrefl _)
      · exact .inr hold

theorem disconnect_carried (b : SessionBinding) (reason : String) :
    Carried risen m (m.disconnectIfCurrent b reason).1 := by
  unfold DeviceManager.disconnectIfCurrent
  cases hs : m.sessions[b.deviceId]? with
  | none => exact .refl m
  | some s =>
    simp only
    split
    · exact .refl m
    · exact carried_insert hs (.inr rfl) nofun

theorem lost_carried (b : SessionBinding) (epoch : Option UInt64) :
    Carried risen m (m.bootstrapLost b epoch).1 := by
  unfold DeviceManager.bootstrapLost
  cases hs : m.sessions[b.deviceId]? with
  | none => exact .refl m
  | some s =>
    simp only
    split
    · exact .refl m
    · split
      · exact calm_insert hs ⟨rfl, id⟩
      · exact .refl m

/-- A handover step makes the peer of its binding's link ready, if any. -/
theorem handover_carried {T : Type} (b : SessionBinding) (attempt : String)
    (operation : HandoverRuntime → HandoverRuntime × Except String T)
    (hrisen : ∀ (s : DeviceSession) (handover : HandoverRuntime),
      m.sessions[b.deviceId]? = some s → s.webrtcHandover = some handover →
      (operation handover).1.featuresReady = true → risen b.link) :
    Carried risen m (m.withWebrtcHandover b attempt operation).1 := by
  unfold DeviceManager.withWebrtcHandover
  show Carried risen m (m.withSession b _).1
  rcases withSession_cases _ with heq | ⟨s, hs, hcurrent, heq⟩
  · rw [heq]
    exact .refl m
  · obtain ⟨s₀, hs₀, -, -, hlink₀, -⟩ := isCurrent_holds hcurrent
    obtain rfl := Option.some.inj (hs.symm.trans hs₀)
    rw [heq]
    by_cases hattempt : s.webrtcAttemptId ≠ some attempt
    · simp only [if_pos hattempt]
      exact calm_insert hs (.refl s)
    · simp only [if_neg hattempt]
      cases hhandover : s.webrtcHandover with
      | none => exact calm_insert hs (.refl s)
      | some handover =>
        refine carried_insert hs (.inl rfl) (fun link hlink hready => .inr ?_)
        obtain rfl : b.link = link := by
          have hlink : s.activeLink = some link := hlink
          rw [hlink₀] at hlink
          exact Option.some.inj hlink
        exact hrisen s handover hs hhandover (by simpa [DeviceSession.featuresReady] using hready)

end

/-- The call makes the peer of the link ready for features. -/
def Call.raises (m : DeviceManager) (link : Nat) : Call → Bool
  | .handover b _ operation => b.link = link ∧
      ((m.sessions[b.deviceId]?.bind (·.webrtcHandover)).any
        (fun handover => (operation handover).1.featuresReady)) = true
  | _ => false

/-- Every call that takes the lock once. -/
theorem after_carried (m : DeviceManager) {call : Call} (hsingle : call.single = true) :
    Carried (fun link => call.raises m link = true) m (m.after call) := by
  cases call with
  | register d link paired now => exact register_carried m d link paired now
  | adopt d transport pem within now => exact adopt_carried m d transport pem within now
  | closeLink link => exact (Carried.refl m).closeLink link
  | disconnect b reason => exact disconnect_carried m b reason
  | bootstrapDisconnected b reason => cases hsingle
  | readerDisconnected b epoch reason => cases hsingle
  | install b attempt wire peer transfers onlyIfNone =>
    show Carried _ m (m.installWebrtcPeerWith b attempt wire peer transfers onlyIfNone).1
    refine trySession_calm (fun s => ?_)
    split
    · exact .refl s
    · split
      · exact .refl s
      · exact ⟨rfl, nofun⟩
  | clearWebrtc b attempt reason =>
    show Carried _ m (m.clearWebrtcIfCurrent b attempt reason).1
    refine trySession_calm (fun s => ?_)
    split
    · exact .refl s
    · exact ⟨rfl, nofun⟩
  | handover b attempt operation =>
    refine handover_carried m b attempt operation (fun s handover hs hhandover hready => ?_)
    exact decide_eq_true ⟨rfl, by simp [hs, hhandover, hready]⟩
  | acceptSignal b attempt request =>
    show Carried _ m (m.acceptWebrtcSignal b attempt request).1
    refine trySession_calm (fun s => ?_)
    split
    · exact .refl s
    · split
      · exact .refl s
      · simp only
        split
        · exact ⟨rfl, id⟩
        · split <;> exact ⟨rfl, id⟩
  | noteSignal b request =>
    show Carried _ m (m.noteSignalRequest b request).1
    refine trySession_calm (fun s => ?_)
    split
    all_goals exact ⟨rfl, id⟩
  | acceptEnvelope b attempt message =>
    show Carried _ m (m.acceptWebrtcEnvelope b attempt message).1
    refine trySession_calm (fun s => ?_)
    split
    all_goals exact ⟨rfl, id⟩
  | queueFeature b packet now =>
    refine withSession_calm (fun s => ?_)
    split
    all_goals exact ⟨rfl, id⟩
  | takePending b now => exact withSession_calm (fun s => ⟨rfl, id⟩)
  | revoke b reason => exact withSession_calm (fun s => ⟨rfl, nofun⟩)
  | changePairing b change => exact withSession_calm (fun s => ⟨rfl, id⟩)
  | changeRecovery b change => exact withSession_calm (fun s => ⟨rfl, id⟩)
  | restart b change => exact withSession_calm (fun s => ⟨rfl, nofun⟩)
  | forgetPairing d =>
    show Carried _ m (m.forgetPairing d).1
    unfold DeviceManager.forgetPairing
    cases hs : m.sessions[d]? with
    | none => exact .refl m
    | some s => exact calm_insert hs ⟨rfl, nofun⟩
  | expirePairing now => exact carried_map (fun _ => .inl rfl) (fun _ => id)
  | claimNotice b interval now =>
    show Carried _ m (m.claimNotPairedNotice b interval now).1
    unfold DeviceManager.claimNotPairedNotice
    cases hs : m.sessions[b.deviceId]? with
    | none => exact .refl m
    | some s =>
      simp only
      split
      · exact .refl m
      · split
        · exact .refl m
        · exact calm_insert hs ⟨rfl, id⟩
  | noteInbound d now =>
    show Carried _ m (m.noteInbound d now)
    unfold DeviceManager.noteInbound
    cases hs : m.sessions[d]? with
    | none => exact .refl m
    | some s => exact calm_insert hs ⟨rfl, id⟩
  | terminateAll => exact carried_map (fun _ => .inr rfl) (fun _ h => by cases h)

/-! ### Between the two sections -/

/-- A link is in one session, and was made. -/
structure Linked (m : DeviceManager) : Prop where
  made : ∀ (d : String) (s : DeviceSession) (link : Nat), m.sessions[d]? = some s →
    s.activeLink = some link → link < m.links.length
  one : ∀ (d d' : String) (s s' : DeviceSession) (link : Nat), m.sessions[d]? = some s →
    m.sessions[d']? = some s' → s.activeLink = some link → s'.activeLink = some link → d = d'

section
variable {risen : Nat → Prop} {m m' : DeviceManager}

theorem empty_linked : Linked {} where
  made _ _ _ h := by simp at h
  one _ _ _ _ _ h := by simp at h

theorem Carried.linked (h : Carried risen m m') (hm : Linked m) : Linked m' where
  made d s' link hs' hlink := by
    have hle := h.length
    rcases h.session d s' link hs' hlink with ⟨rfl, hlt, -⟩ | ⟨s, hs, hold, -⟩
    · exact hlt
    · have hmade := hm.made d s link hs hold
      omega
  one d d' s' s₂' link hs' hs₂' hlink hlink₂ := by
    rcases h.session d s' link hs' hlink with ⟨rfl, -, hothers⟩ | ⟨s, hs, hold, -⟩
    · -- The new link is in no session that was left alone.
      by_contra hne
      rw [hothers d' (Ne.symm hne)] at hs₂'
      exact absurd (hm.made d' s₂' _ hs₂' hlink₂) (Nat.lt_irrefl _)
    · rcases h.session d' s₂' link hs₂' hlink₂ with ⟨rfl, -, -⟩ | ⟨s₂, hs₂, hold₂, -⟩
      · exact absurd (hm.made d s _ hs hold) (Nat.lt_irrefl _)
      · exact hm.one d d' s s₂ link hs hs₂ hold hold₂

/-- The link carries the reader's socket, and its peer is not ready. -/
structure Waiting (m : DeviceManager) (t : Teardown) : Prop where
  made : t.binding.link < m.links.length
  epoch : ∀ e ∈ t.epoch, m.epochOf t.binding.link = some e
  unready : ∀ (d : String) (s : DeviceSession), m.sessions[d]? = some s →
    s.activeLink = some t.binding.link → s.featuresReady = false

theorem Carried.waiting {t : Teardown} (h : Carried risen m m') (hm : Waiting m t)
    (hquiet : ¬risen t.binding.link) : Waiting m' t where
  made := by
    have hle := h.length
    have hmade := hm.made
    omega
  epoch e he := by
    rcases h.epoch t.binding.link hm.made with hsame | ⟨d, s, hs, hlink, hready⟩
    · rw [hsame]
      exact hm.epoch e he
    · rw [hm.unready d s hs hlink] at hready
      cases hready
  unready d s' hs' hlink := by
    rcases h.session d s' _ hs' hlink with ⟨hnew, -, -⟩ | ⟨s, hs, hold, hready⟩
    · have hmade := hm.made
      omega
    · have hunready := hm.unready d s hs hold
      by_contra hne
      rcases hready (Bool.of_not_eq_false hne) with hready | hrisen
      · rw [hunready] at hready
        cases hready
      · exact hquiet hrisen

/-- The first section goes on to the second only for a link that carries the
reader's socket, with a peer that is not ready. -/
theorem lost_waiting {t : Teardown} (hm : Linked m)
    (hlost : (m.bootstrapLost t.binding t.epoch).2 = none) :
    (m.bootstrapLost t.binding t.epoch).1 = m ∧ Waiting m t := by
  unfold DeviceManager.bootstrapLost at hlost ⊢
  cases hs : m.sessions[t.binding.deviceId]? with
  | none =>
    rw [hs] at hlost
    cases hlost
  | some s =>
    rw [hs] at hlost
    simp only at hlost ⊢
    split at hlost
    · cases hlost
    · rename_i hcurrent
      split at hlost
      · cases hlost
      · rename_i hunready
        have hholds : DeviceManager.holds s t.binding = true := by
          by_contra hne
          exact hcurrent (.inl (by simpa using hne))
        have hlink : s.activeLink = some t.binding.link := (of_decide_eq_true hholds).2.2.1
        rw [if_neg hcurrent, if_neg hunready]
        refine ⟨rfl, hm.made _ s _ hs hlink, fun e he => ?_, fun d s' hs' hlink' => ?_⟩
        · by_contra hne
          have he : t.epoch = some e := he
          exact hcurrent (.inr (.inl (by rw [he]; exact decide_eq_true hne)))
        · obtain rfl := hm.one _ d s s' _ hs hs' hlink hlink'
          obtain rfl := Option.some.inj (hs.symm.trans hs')
          simpa using hunready

end

/-! ### One section -/

/-- No step between the two sections of a socket's end makes the peer of its
link ready. -/
def Reading.Quiet (w : Reading) : ReadMove → Prop
  | .call call => ∀ t ∈ w.pending, call.raises w.manager t.binding.link = false
  | _ => True

structure Reading.Settled (w : Reading) : Prop where
  linked : Linked w.manager
  pending : ∀ t ∈ w.pending, Waiting w.manager t

/-- One section of a handler. -/
theorem section_settled {w : Reading} {move : ReadMove} (h : w.Settled) (hquiet : w.Quiet move) :
    (w.after move).Settled := by
  cases move with
  | lost t =>
    have hcarried : Carried (fun _ => False) w.manager
        (w.manager.bootstrapLost t.binding t.epoch).1 := lost_carried ..
    refine ⟨hcarried.linked h.linked, fun t' ht' => ?_⟩
    have ht' : t' ∈ if (w.manager.bootstrapLost t.binding t.epoch).2 = none
      then w.pending ++ [t] else w.pending := ht'
    have hold : t' ∈ w.pending → Waiting (w.manager.bootstrapLost t.binding t.epoch).1 t' :=
      fun hmem => hcarried.waiting (h.pending t' hmem) id
    split at ht'
    · rename_i hlost
      rcases List.mem_append.mp ht' with hmem | hnew
      · exact hold hmem
      · obtain rfl := List.mem_singleton.mp hnew
        obtain ⟨heq, hwaiting⟩ := lost_waiting h.linked hlost
        show Waiting (w.manager.bootstrapLost t'.binding t'.epoch).1 t'
        rw [heq]
        exact hwaiting
    · exact hold ht'
  | teardown i =>
    cases ht : w.pending[i]? with
    | none =>
      simp only [Reading.after, ht]
      exact h
    | some t =>
      simp only [Reading.after, ht]
      have hcarried : Carried (fun _ => False) w.manager
          (w.manager.disconnectIfCurrent t.binding t.reason).1 := disconnect_carried ..
      refine ⟨hcarried.linked h.linked, fun t' ht' => ?_⟩
      exact hcarried.waiting (h.pending t' (List.mem_of_mem_eraseIdx ht')) id
  | call call =>
    show Reading.Settled (if call.single = true then _ else w)
    split
    · rename_i hsingle
      have hcarried := after_carried w.manager hsingle
      refine ⟨hcarried.linked h.linked, fun t ht => ?_⟩
      refine hcarried.waiting (h.pending t ht) ?_
      rw [hquiet t ht]
      exact Bool.false_ne_true
    · exact h

/-! ### The run -/

/-- The manager after the moves. -/
def read (moves : List ReadMove) : Reading := Lib.applyAll Reading.after {} moves

/-- The step takes the link out of a session. -/
def Removes (m m' : DeviceManager) (link : Nat) : Prop :=
  ∃ (d : String) (s : DeviceSession), m.sessions[d]? = some s ∧ s.activeLink = some link ∧
    ∀ s', m'.sessions[d]? = some s' → s'.activeLink ≠ some link

/-- The step clears a peer that is ready for features. -/
def ClearsReady (m m' : DeviceManager) : Prop :=
  ∃ (d : String) (s : DeviceSession), m.sessions[d]? = some s ∧ s.featuresReady = true ∧
    ∀ s', m'.sessions[d]? = some s' → s'.activeWebrtc ≠ s.activeWebrtc ∨ s'.featuresReady = false

/-- The move is a section of the end of a socket, with the reader's epoch. -/
def Reading.reads (w : Reading) (epoch : UInt64) : ReadMove → Prop
  | .lost t => t.epoch = some epoch
  | .teardown i => ∃ t, w.pending[i]? = some t ∧ t.epoch = some epoch
  | .call _ => False

section
variable {m : DeviceManager}

/-- The first section takes nothing down. -/
theorem lost_spares (b : SessionBinding) (epoch : Option UInt64) (d : String)
    (s : DeviceSession) (hs : m.sessions[d]? = some s) :
    ∃ s', (m.bootstrapLost b epoch).1.sessions[d]? = some s' ∧ s'.activeLink = s.activeLink ∧
      s'.activeWebrtc = s.activeWebrtc ∧ s'.featuresReady = s.featuresReady := by
  have hsame : ∃ s', m.sessions[d]? = some s' ∧ s'.activeLink = s.activeLink ∧
      s'.activeWebrtc = s.activeWebrtc ∧ s'.featuresReady = s.featuresReady :=
    ⟨s, hs, rfl, rfl, rfl⟩
  unfold DeviceManager.bootstrapLost
  cases hb : m.sessions[b.deviceId]? with
  | none => exact hsame
  | some sb =>
    simp only
    split
    · exact hsame
    · split
      · rw [getElem?_keyInsert]
        by_cases hd : b.deviceId = d
        · subst hd
          obtain rfl := Option.some.inj (hb.symm.trans hs)
          rw [if_pos rfl]
          exact ⟨_, rfl, rfl, rfl, rfl⟩
        · rw [if_neg hd]
          exact hsame
      · exact hsame

/-- The second section changes one session, which the binding's link is in. -/
theorem disconnect_changes (b : SessionBinding) (reason : String) {d : String}
    {s : DeviceSession} (hs : m.sessions[d]? = some s) :
    (m.disconnectIfCurrent b reason).1.sessions[d]? = some s ∨ s.activeLink = some b.link := by
  unfold DeviceManager.disconnectIfCurrent
  cases hb : m.sessions[b.deviceId]? with
  | none => exact .inl hs
  | some sb =>
    simp only
    split
    · exact .inl hs
    · rename_i hcurrent
      rw [getElem?_keyInsert]
      by_cases hd : b.deviceId = d
      · subst hd
        obtain rfl := Option.some.inj (hb.symm.trans hs)
        have hholds : DeviceManager.holds sb b = true := by
          by_contra hne
          exact hcurrent (.inl (by simpa using hne))
        exact .inr (of_decide_eq_true hholds).2.2.1
      · rw [if_neg hd]
        exact .inl hs

end

/-- A dead socket takes down no live transport. Take any run of sections and
calls in which no handover step makes a peer ready between the two sections
of the end of a socket of its link. Then neither section of a reader takes
out a link that carries another socket than the reader's, or clears a peer
that is ready for features. -/
theorem reader_spares (moves : List ReadMove)
    (hquiet : Lib.Alongside Reading.after Reading.Quiet {} moves) (epoch : UInt64)
    (move : ReadMove) (hreads : (read moves).reads epoch move) :
    (∀ link, Removes (read moves).manager ((read moves).after move).manager link →
      (read moves).manager.epochOf link = some epoch) ∧
    ¬ClearsReady (read moves).manager ((read moves).after move).manager := by
  have hstart : Reading.Settled {} := ⟨empty_linked, nofun⟩
  have h : (read moves).Settled :=
    hquiet.invariant (fun w move h hC => section_settled h hC) hstart
  generalize read moves = w at hreads h ⊢
  cases move with
  | call call => exact hreads.elim
  | lost t =>
    refine ⟨?_, ?_⟩
    · rintro link ⟨d, s, hs, hlink, hgone⟩
      obtain ⟨s', hs', hlink', -⟩ := lost_spares t.binding t.epoch d s hs
      exact absurd (hlink'.trans hlink) (hgone s' hs')
    · rintro ⟨d, s, hs, hready, hcleared⟩
      obtain ⟨s', hs', -, hpeer', hready'⟩ := lost_spares t.binding t.epoch d s hs
      rcases hcleared s' hs' with hpeer | hunready
      · exact hpeer hpeer'
      · rw [hready', hready] at hunready
        cases hunready
  | teardown i =>
    obtain ⟨t, ht, hepoch⟩ := hreads
    have hwaiting := h.pending t (List.mem_of_getElem? ht)
    have hafter : (w.after (.teardown i)).manager
        = (w.manager.disconnectIfCurrent t.binding t.reason).1 := by
      simp only [Reading.after, ht]
    rw [hafter]
    refine ⟨?_, ?_⟩
    · rintro link ⟨d, s, hs, hlink, hgone⟩
      rcases disconnect_changes t.binding t.reason hs with hsame | hown
      · exact absurd hlink (hgone s hsame)
      · obtain rfl := Option.some.inj (hlink.symm.trans hown)
        exact hwaiting.epoch epoch hepoch
    · rintro ⟨d, s, hs, hready, hcleared⟩
      rcases disconnect_changes t.binding t.reason hs with hsame | hown
      · rcases hcleared s hsame with hpeer | hunready
        · exact hpeer rfl
        · rw [hready] at hunready
          cases hunready
      · rw [hwaiting.unready d s hs hown] at hready
        cases hready

instance (w : Reading) : (move : ReadMove) → Decidable (w.Quiet move)
  | .call call => inferInstanceAs
      (Decidable (∀ t ∈ w.pending, call.raises w.manager t.binding.link = false))
  | .lost _ | .teardown _ => .isTrue trivial

/-- A paired phone on a link, and its peer, which is not ready yet. -/
def installedPhone : List ReadMove :=
  [.call (.register "phone" { certificatePem := "" } true 0),
    .call (.install ⟨"phone", 1, 1, 0, 0⟩ "attempt" "wire" 7 8 false)]

/-- The end of the socket that the link carries first. -/
def firstSocket : Teardown := ⟨⟨"phone", 1, 1, 0, 0⟩, some 0, "socket closed"⟩

/-- The end of the first socket leaves the ready peer. -/
theorem reader_spares_installed :
    Lib.Alongside Reading.after Reading.Quiet {} (installedPhone ++ [ReadMove.lost firstSocket]) ∧
    (read (installedPhone ++ [ReadMove.lost firstSocket])).reads 0 (.teardown 0) ∧
    ¬ClearsReady (read (installedPhone ++ [ReadMove.lost firstSocket])).manager
      ((read (installedPhone ++ [ReadMove.lost firstSocket])).after (.teardown 0)).manager := by
  have hquiet : Lib.Alongside Reading.after Reading.Quiet {}
      (installedPhone ++ [ReadMove.lost firstSocket]) := by
    decide +kernel
  have hreads : (read (installedPhone ++ [ReadMove.lost firstSocket])).reads 0 (.teardown 0) :=
    ⟨firstSocket, by decide +kernel, rfl⟩
  exact ⟨hquiet, hreads, (reader_spares _ hquiet 0 _ hreads).2⟩

/-- The phone's features become ready, and its new socket is adopted,
between the two sections of the end of the old one. -/
def overtaken : List ReadMove :=
  installedPhone ++
  [ReadMove.lost firstSocket,
    .call (.handover ⟨"phone", 1, 1, 0, 0⟩ "attempt"
      (fun h => ({ h with featuresReady := true }, .ok ()))),
    .call (.adopt "phone" 5 "" 30000 40000)]

/-- The second section takes out the link, which carries the new socket, and
clears the peer, which is ready. -/
theorem reader_kills :
    (read overtaken).reads 0 (.teardown 0) ∧
    Removes (read overtaken).manager ((read overtaken).after (.teardown 0)).manager 0 ∧
    (read overtaken).manager.epochOf 0 = some 1 ∧
    ClearsReady (read overtaken).manager ((read overtaken).after (.teardown 0)).manager := by
  have hreads : (read overtaken).reads 0 (.teardown 0) := ⟨firstSocket, by decide +kernel, rfl⟩
  have hbefore : (read overtaken).manager.sessions["phone"]?.map
      (fun s => (s.activeLink, s.featuresReady)) = some (some 0, true) := by
    decide +kernel
  have hafter : ((read overtaken).after (.teardown 0)).manager.sessions["phone"]?.map
      (fun s => (s.activeLink, s.featuresReady)) = some (none, false) := by
    decide +kernel
  obtain ⟨s, hs, hfound⟩ := Option.map_eq_some_iff.mp hbefore
  obtain ⟨s', hs', hleft⟩ := Option.map_eq_some_iff.mp hafter
  refine ⟨hreads, ⟨"phone", s, hs, congrArg Prod.fst hfound, fun s₁ hs₁ => ?_⟩, by decide +kernel,
    ⟨"phone", s, hs, congrArg Prod.snd hfound, fun s₁ hs₁ => ?_⟩⟩
  · obtain rfl := Option.some.inj (hs'.symm.trans hs₁)
    rw [show s'.activeLink = none from congrArg Prod.fst hleft]
    nofun
  · obtain rfl := Option.some.inj (hs'.symm.trans hs₁)
    exact .inr (congrArg Prod.snd hleft)

end DeskLink.Session
