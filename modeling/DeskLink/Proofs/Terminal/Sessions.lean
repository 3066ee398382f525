import DeskLink.Proofs.Terminal.Ring
import DeskLink.Terminal.Desk

/-!
# `DeskLink.Proofs.Terminal.Sessions`: what the bridges leave of a session

A control message changes sizes and claims, closes sessions and starts new
ones. Of a session that is there it leaves the output and the input alone
(`handleControlIn_untyped`). An input chunk leaves the output alone
(`handleChunk_sameOutput`), and what it types goes into one session, which
the phone may type into (`handleChunk_cases`).
-/

set_option autoImplicit false

namespace DeskLink.Terminal

variable {P : Type} {vt : Vt100 P}

/-- The output of a session is as before. -/
structure PtySession.SameOutput (s s' : PtySession P) : Prop where
  ring : s'.ring = s.ring
  shown : s'.shown = s.shown
  eof : s'.eof = s.eof
  overdue : s'.overdue = s.overdue
  exited : s'.exited = s.exited

/-- Neither the output nor the input of a session is touched. -/
structure PtySession.Untyped (s s' : PtySession P) : Prop extends s.SameOutput s' where
  input : s'.input = s.input

variable {s s' s'' : PtySession P}

theorem PtySession.SameOutput.refl : s.SameOutput s := ⟨rfl, rfl, rfl, rfl, rfl⟩

theorem PtySession.SameOutput.trans (h : s.SameOutput s') (h' : s'.SameOutput s'') :
    s.SameOutput s'' where
  ring := h'.ring.trans h.ring
  shown := h'.shown.trans h.shown
  eof := h'.eof.trans h.eof
  overdue := h'.overdue.trans h.overdue
  exited := h'.exited.trans h.exited

theorem PtySession.Untyped.refl : s.Untyped s := ⟨.refl, rfl⟩

theorem PtySession.Untyped.trans (h : s.Untyped s') (h' : s'.Untyped s'') : s.Untyped s'' :=
  ⟨h.toSameOutput.trans h'.toSameOutput, h'.input.trans h.input⟩

theorem resize_untyped (rows cols : Nat) : s.Untyped (s.resize vt rows cols).1 := by
  unfold PtySession.resize
  split
  · exact ⟨⟨rfl, rfl, rfl, rfl, rfl⟩, rfl⟩
  · exact .refl

theorem resize_phoneClaim (rows cols : Nat) :
    (s.resize vt rows cols).1.phoneClaim = s.phoneClaim := by
  unfold PtySession.resize
  split <;> rfl

theorem claimForPhone_untyped (device : String) (rows cols : Nat) :
    s.Untyped (s.claimForPhone vt device rows cols).1 := by
  refine PtySession.Untyped.trans ?_ (resize_untyped rows cols)
  exact ⟨⟨rfl, rfl, rfl, rfl, rfl⟩, rfl⟩

theorem resizeUnlessHeld_untyped (device : String) (rows cols : Nat) (onlyIfChanged : Bool) :
    s.Untyped (s.resizeUnlessHeld vt device rows cols onlyIfChanged).1 := by
  unfold PtySession.resizeUnlessHeld
  dsimp only
  split
  · exact .refl
  · split
    · exact .refl
    · exact resize_untyped ..

theorem releasePhoneClaim_untyped (device : String) :
    s.Untyped (s.releasePhoneClaim vt device) := by
  unfold PtySession.releasePhoneClaim
  split
  · have hreleased : s.Untyped { s with phoneClaim := none } := ⟨⟨rfl, rfl, rfl, rfl, rfl⟩, rfl⟩
    dsimp only
    split
    · exact hreleased.trans (resize_untyped ..)
    · exact hreleased
  · exact .refl

/-- A device that released its claim has none. -/
theorem releasePhoneClaim_ne (device : String) :
    (s.releasePhoneClaim vt device).phoneClaim ≠ some device := by
  unfold PtySession.releasePhoneClaim
  split
  · dsimp only
    split
    · rw [resize_phoneClaim]
      nofun
    · nofun
  · assumption

/-- Releasing a claim that is not there changes nothing. -/
theorem releasePhoneClaim_of_ne {device : String} (h : s.phoneClaim ≠ some device) :
    s.releasePhoneClaim vt device = s := by
  unfold PtySession.releasePhoneClaim
  exact if_neg h

/-! ### All sessions -/

/-- The ring of the session holds the end of what was shown. -/
def PtySession.Ringed (s : PtySession P) : Prop := s.ring.Holds s.shown

theorem PtySession.SameOutput.ringed (h : s.SameOutput s') (hs : s.Ringed) : s'.Ringed := by
  unfold PtySession.Ringed
  rw [h.ring, h.shown]
  exact hs

/-- Every session that was there still is, and has changed by `R`. A new one
starts with a ring that holds what it has shown. -/
structure Sessions.Each (R : PtySession P → PtySession P → Prop) (all all' : Sessions P) :
    Prop where
  there : ∀ (id : Nat) (s : PtySession P), all[id]? = some s →
    ∃ s', all'[id]? = some s' ∧ R s s'
  new : ∀ (id : Nat) (s' : PtySession P), all[id]? = none → all'[id]? = some s' → s'.Ringed

section Each

variable {R : PtySession P → PtySession P → Prop} {all all' all'' : Sessions P}

theorem Sessions.Each.refl (hrefl : ∀ s, R s s) : Sessions.Each R all all where
  there _ s hs := ⟨s, hs, hrefl s⟩
  new id s' hnone hs' := by
    rw [hnone] at hs'
    cases hs'

theorem Sessions.Each.trans (htrans : ∀ {s s' s''}, R s s' → R s' s'' → R s s'')
    (hringed : ∀ {s s'}, R s s' → s.Ringed → s'.Ringed)
    (h : Sessions.Each R all all') (h' : Sessions.Each R all' all'') :
    Sessions.Each R all all'' where
  there id s hs := by
    obtain ⟨s', hs', hR⟩ := h.there id s hs
    obtain ⟨s'', hs'', hR'⟩ := h'.there id s' hs'
    exact ⟨s'', hs'', htrans hR hR'⟩
  new id s'' hnone hs'' := by
    -- It came with the one step or with the other.
    cases hs' : all'[id]? with
    | none => exact h'.new id s'' hs' hs''
    | some s' =>
      obtain ⟨t, ht, hR⟩ := h'.there id s' hs'
      rw [hs'', Option.some.injEq] at ht
      rw [ht]
      exact hringed hR (h.new id s' hnone hs')

theorem each_modify (hrefl : ∀ s, R s s) (id : Nat) {change : PtySession P → PtySession P}
    (hchange : ∀ s, all[id]? = some s → R s (change s)) :
    Sessions.Each R all (all.modify id change) where
  there id' s hs := by
    rw [List.getElem?_modify, hs]
    by_cases heq : id = id'
    · rw [heq] at hchange
      exact ⟨change s, by simp [heq], hchange s hs⟩
    · exact ⟨s, by simp [heq], hrefl s⟩
  new id' s' hnone hs' := by
    rw [List.getElem?_modify, hnone] at hs'
    cases hs'

theorem each_append (hrefl : ∀ s, R s s) {more : Sessions P} (hmore : ∀ s ∈ more, s.Ringed) :
    Sessions.Each R all (all ++ more) where
  there id s hs := by
    refine ⟨s, ?_, hrefl s⟩
    obtain ⟨hlt, -⟩ := List.getElem?_eq_some_iff.mp hs
    rw [List.getElem?_append_left hlt]
    exact hs
  new id s' hnone hs' := by
    rw [List.getElem?_append_right (List.getElem?_eq_none_iff.mp hnone)] at hs'
    exact hmore s' (List.mem_of_getElem? hs')

theorem Sessions.Each.imp {R' : PtySession P → PtySession P → Prop}
    (himp : ∀ s s', R s s' → R' s s') (h : Sessions.Each R all all') :
    Sessions.Each R' all all' where
  there id s hs := by
    obtain ⟨s', hs', hR⟩ := h.there id s hs
    exact ⟨s', hs', himp s s' hR⟩
  new := h.new

end Each

section Untyped

variable {all all' all'' : Sessions P} {held : Held P}

theorem untyped_refl : Sessions.Each PtySession.Untyped all all := .refl (fun _ => .refl)

theorem untyped_trans (h : Sessions.Each PtySession.Untyped all all')
    (h' : Sessions.Each PtySession.Untyped all' all'') :
    Sessions.Each PtySession.Untyped all all'' :=
  .trans (fun h h' => h.trans h') (fun h hs => h.toSameOutput.ringed hs) h h'

theorem untyped_modify (id : Nat) {change : PtySession P → PtySession P}
    (hchange : ∀ s, all[id]? = some s → s.Untyped (change s)) :
    Sessions.Each PtySession.Untyped all (all.modify id change) :=
  each_modify (fun _ => .refl) id hchange

theorem close_untyped (registry : TerminalRegistry) (id : Nat) :
    Sessions.Each PtySession.Untyped all (registry.close all id).2 := by
  unfold TerminalRegistry.close
  dsimp only
  split
  · exact untyped_modify id (fun _ _ => ⟨⟨rfl, rfl, rfl, rfl, rfl⟩, rfl⟩)
  · exact untyped_refl

theorem createIn_untyped (registry : TerminalRegistry) (owner : String) (rows cols : Nat)
    (spawned : Except String Unit) :
    Sessions.Each PtySession.Untyped all
      (registry.createIn vt all owner rows cols spawned).2.1 := by
  unfold TerminalRegistry.createIn
  dsimp only
  split
  · exact untyped_refl
  · split
    · exact untyped_refl
    · cases spawned with
      | error message => exact untyped_refl
      | ok _ =>
        refine each_append (fun _ => .refl) (fun s hs => ?_)
        rw [List.mem_singleton.mp hs]
        exact holds_new

@[simp] theorem all_queue (events : List TerminalEvent) :
    (held.queue events).1.all = held.all := rfl

@[simp] theorem all_refuse (terminalId : Option Nat) (message : String) :
    (held.refuse terminalId message).all = held.all := rfl

@[simp] theorem all_sessionsEvent : held.sessionsEvent.1.all = held.all := rfl

theorem handleCreate_untyped (control : TerminalControl) (start : Start)
    (spawned : Except String Unit) :
    Sessions.Each PtySession.Untyped held.all
      (held.handleCreate vt control start spawned).1.all := by
  cases start with
  | bad =>
    simp only [Held.handleCreate, all_refuse]
    exact untyped_refl
  | usable =>
    simp only [Held.handleCreate]
    have hmade := @createIn_untyped P vt held.all held.registry held.device
      (control.rows.getD 24) (control.cols.getD 80) spawned
    split
    · rw [all_refuse]
      exact hmade
    · rw [all_queue, all_sessionsEvent]
      exact untyped_trans hmade (untyped_modify _ (fun _ _ => claimForPhone_untyped ..))

theorem handleAttach_untyped (control : TerminalControl) :
    (held.handleAttach vt control).1.all = held.all := by
  unfold Held.handleAttach
  cases control.terminalId with
  | none => rfl
  | some id =>
    dsimp only
    cases held.registry.get held.all id with
    | none => rw [all_refuse]
    | some s =>
      dsimp only
      split
      · rw [all_refuse, all_queue, all_sessionsEvent]
      · rw [all_queue, all_sessionsEvent]

theorem handleDetach_untyped (control : TerminalControl) :
    Sessions.Each PtySession.Untyped held.all (held.handleDetach vt control).1.all := by
  unfold Held.handleDetach
  cases control.terminalId with
  | none => exact untyped_refl
  | some id =>
    dsimp only
    cases held.bridge.attached[id]? with
    | none => exact untyped_refl
    | some _ => exact untyped_modify id (fun _ _ => releasePhoneClaim_untyped _)

theorem handleClose_untyped (control : TerminalControl) :
    Sessions.Each PtySession.Untyped held.all (held.handleClose control).1.all := by
  unfold Held.handleClose
  cases control.terminalId with
  | none => exact untyped_refl
  | some id => exact close_untyped held.registry id

/-- A session that was read is written back changed. -/
theorem untyped_write {id : Nat} {s s' : PtySession P} (hs : held.all[id]? = some s)
    (h : s.Untyped s') : Sessions.Each PtySession.Untyped held.all (held.modify id (fun _ => s')).all := by
  refine untyped_modify id (fun s₁ hs₁ => ?_)
  rw [hs, Option.some.injEq] at hs₁
  exact hs₁ ▸ h

theorem resizeAttached_untyped {id : Nat} (hs : held.all[id]? = some s) (rows cols : Nat)
    (claimSize : Option Bool) :
    Sessions.Each PtySession.Untyped held.all
      (held.resizeAttached vt id s rows cols claimSize).1.all := by
  unfold Held.resizeAttached
  dsimp only
  split
  · exact untyped_write hs (claimForPhone_untyped ..)
  · exact untyped_write hs (releasePhoneClaim_untyped _)
  · have hresized := untyped_write hs (@resizeUnlessHeld_untyped P vt s held.device rows cols false)
    split
    · exact hresized
    · exact hresized
    · exact hresized
  · exact untyped_refl

theorem handleResize_untyped (control : TerminalControl) :
    Sessions.Each PtySession.Untyped held.all (held.handleResize vt control).1.all := by
  unfold Held.handleResize
  cases control.terminalId with
  | none => exact untyped_refl
  | some id =>
    cases control.rows with
    | none => exact untyped_refl
    | some rows =>
      cases control.cols with
      | none => exact untyped_refl
      | some cols =>
        dsimp only
        cases held.bridge.attached[id]? with
        | none => exact untyped_refl
        | some _ =>
          cases hs : held.all[id]? with
          | none => exact untyped_refl
          | some s =>
            let viewed : Held P :=
              { held with
                bridge :=
                  { held.bridge with
                    attached := held.bridge.attached.modify id
                      (fun a => { a with viewport := some (rows, cols) }) } }
            exact @resizeAttached_untyped P vt s viewed id hs rows cols control.claimSize

/-- A control message leaves the output and the input of every session. -/
theorem handleControlIn_untyped (control : TerminalControl) (start : Start)
    (spawned : Except String Unit) :
    Sessions.Each PtySession.Untyped held.all
      (held.handleControlIn vt control start spawned).1.all := by
  unfold Held.handleControlIn
  split
  · exact untyped_refl
  · exact handleCreate_untyped control start spawned
  · rw [handleAttach_untyped]
    exact untyped_refl
  · exact handleDetach_untyped control
  · exact handleClose_untyped control
  · exact handleResize_untyped control
  all_goals exact untyped_refl

theorem releaseClaims_untyped : Sessions.Each PtySession.Untyped held.all (held.releaseClaims vt) := by
  unfold Held.releaseClaims
  generalize held.all = all
  induction held.bridge.attached.keys generalizing all with
  | nil => exact untyped_refl
  | cons id ids ih =>
    rw [List.foldl_cons]
    exact untyped_trans (untyped_modify id (fun _ _ => releasePhoneClaim_untyped _)) (ih _)

end Untyped

/-! ### Input -/

theorem writeInput_sameOutput (bytes : List UInt8) : s.SameOutput (s.writeInput bytes).1 := by
  unfold PtySession.writeInput
  split
  · exact .refl
  · split
    · exact .refl
    · exact ⟨rfl, rfl, rfl, rfl, rfl⟩

variable {held : Held P}

theorem sizedFor_untyped (attachment : Attachment) : s.Untyped (held.sizedFor vt attachment s) := by
  unfold Held.sizedFor
  split
  · exact resizeUnlessHeld_untyped ..
  · exact .refl

/-- Typing writes back the one session. -/
theorem all_typeInto (id : Nat) (attachment : Attachment) (data : List UInt8) :
    (held.typeInto vt id attachment s data).all
      = held.all.modify id (fun _ => ((held.sizedFor vt attachment s).writeInput data).1) := by
  unfold Held.typeInto
  dsimp only
  split
  · rfl
  · split
    · rfl
    · rw [all_refuse]
      rfl

theorem registry_typeInto (id : Nat) (attachment : Attachment) (data : List UInt8) :
    (held.typeInto vt id attachment s data).registry = held.registry := by
  unfold Held.typeInto
  dsimp only
  split
  · rfl
  · split <;> rfl

/-- What an input chunk does to the sessions: nothing, or the phone may type
and the one session takes it. -/
theorem handleChunk_cases (chunk : TerminalChunk) :
    ((held.handleChunk vt chunk).1.all = held.all ∧
        (held.handleChunk vt chunk).1.registry = held.registry) ∨
      ∃ attachment s, held.all[chunk.terminalId]? = some s ∧
        (held.registry.claimWriter chunk.terminalId held.device).2 = true ∧
        (held.handleChunk vt chunk).1.registry
          = (held.registry.claimWriter chunk.terminalId held.device).1 ∧
        (held.handleChunk vt chunk).1.all = held.all.modify chunk.terminalId
          (fun _ => ((held.sizedFor vt attachment s).writeInput chunk.data).1) := by
  unfold Held.handleChunk
  by_cases hkind : chunk.kind ≠ .input
  · rw [if_pos hkind]
    exact .inl ⟨rfl, rfl⟩
  rw [if_neg hkind]
  cases held.bridge.attached[chunk.terminalId]? with
  | none => exact .inl ⟨rfl, rfl⟩
  | some attachment =>
    cases hs : held.all[chunk.terminalId]? with
    | none => exact .inl ⟨rfl, rfl⟩
    | some s =>
      dsimp only
      by_cases hmay : (held.registry.claimWriter chunk.terminalId held.device).2 = true
      · rw [if_pos hmay]
        refine .inr ⟨attachment, s, rfl, hmay, ?_, ?_⟩
        · exact registry_typeInto ..
        · exact all_typeInto ..
      · rw [if_neg hmay]
        exact .inl ⟨rfl, rfl⟩

theorem handleChunk_sameOutput (chunk : TerminalChunk) :
    Sessions.Each PtySession.SameOutput held.all (held.handleChunk vt chunk).1.all := by
  obtain ⟨hall, -⟩ | ⟨attachment, s, hs, -, -, hall⟩ := @handleChunk_cases P vt held chunk
  · rw [hall]
    exact .refl (fun _ => .refl)
  · rw [hall]
    refine each_modify (fun _ => .refl) _ (fun s₁ hs₁ => ?_)
    rw [hs, Option.some.injEq] at hs₁
    rw [← hs₁]
    exact (sizedFor_untyped attachment).toSameOutput.trans (writeInput_sameOutput _)

end DeskLink.Terminal
