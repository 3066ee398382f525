import DeskLink.Proofs.Terminal.Ring
import DeskLink.Proofs.Terminal.Sessions

/-!
# `DeskLink.Proofs.Terminal.Output`: what becomes of a session's output

`PtySession.Grows` is how the output of a session changes along any step:
bytes are added at its end, none after EOF, and the ring goes on holding the
end of it. It holds of every event of a session (`after_grows`), of whatever
happens between two reads of a pump (`happen_grows`), and of every operation
of a bridge, since those leave the output alone.
-/

set_option autoImplicit false

namespace DeskLink.Terminal

variable {P : Type} {vt : Vt100 P}

/-- The output of `s'` is that of `s` with more at its end. -/
structure PtySession.Grows (s s' : PtySession P) : Prop where
  shown : ∃ more, s'.shown = s.shown ++ more
  eof : s.eof = true → s'.eof = true ∧ s'.shown = s.shown
  overdue : s.overdue = true → s'.overdue = true
  ring : s.Ringed → s'.Ringed

variable {s s' s'' : PtySession P}

theorem PtySession.Grows.refl : s.Grows s := ⟨⟨[], by simp⟩, fun h => ⟨h, rfl⟩, id, id⟩

theorem PtySession.Grows.trans (h : s.Grows s') (h' : s'.Grows s'') : s.Grows s'' where
  shown := by
    obtain ⟨more, hmore⟩ := h.shown
    obtain ⟨more', hmore'⟩ := h'.shown
    exact ⟨more ++ more', by rw [hmore', hmore, List.append_assoc]⟩
  eof heof := by
    obtain ⟨heof', hshown⟩ := h.eof heof
    obtain ⟨heof'', hshown'⟩ := h'.eof heof'
    exact ⟨heof'', hshown'.trans hshown⟩
  overdue hoverdue := h'.overdue (h.overdue hoverdue)
  ring hring := h'.ring (h.ring hring)

theorem PtySession.SameOutput.grows (h : s.SameOutput s') : s.Grows s' where
  shown := ⟨[], by rw [h.shown, List.append_nil]⟩
  eof heof := ⟨by rw [h.eof]; exact heof, h.shown⟩
  overdue hoverdue := by rw [h.overdue]; exact hoverdue
  ring hring := h.ringed hring

theorem PtySession.Grows.length_le (h : s.Grows s') : s.shown.length ≤ s'.shown.length := by
  obtain ⟨more, hmore⟩ := h.shown
  rw [hmore, List.length_append]
  omega

/-- What is not waited for any longer is never waited for again. -/
theorem PtySession.Grows.not_overdue (h : s.Grows s') (hoverdue : s'.overdue = false) :
    s.overdue = false := by
  cases hbefore : s.overdue with
  | false => rfl
  | true =>
    rw [h.overdue hbefore] at hoverdue
    exact hoverdue

/-- A slice of the output stays one. -/
theorem PtySession.Grows.slice (h : s.Grows s') {offset : Nat} {data : List UInt8}
    (hdata : data = (s.shown.drop offset).take data.length)
    (hlength : offset + data.length ≤ s.shown.length) :
    data = (s'.shown.drop offset).take data.length := by
  obtain ⟨more, hmore⟩ := h.shown
  rw [hmore, List.drop_append_of_le_length (by omega), List.take_append_of_le_length]
  · exact hdata
  · rw [List.length_drop]
    omega

theorem deskWindowSize_sameOutput (rows cols : Nat) (acted : Bool) :
    s.SameOutput (s.deskWindowSize vt rows cols acted) := by
  have hset (deskSize : Option (Nat × Nat)) (phoneClaim : Option String) :
      s.SameOutput { s with deskSize, phoneClaim } := ⟨rfl, rfl, rfl, rfl, rfl⟩
  unfold PtySession.deskWindowSize
  dsimp only
  generalize (if acted = true then none else s.phoneClaim) = phoneClaim
  split
  · exact (hset _ _).trans (resize_untyped ..).toSameOutput
  · exact hset _ _

theorem after_grows (event : SessionEvent) : s.Grows (s.after vt event) := by
  cases event with
  | output bytes =>
    by_cases heof : s.eof = true
    · simp only [PtySession.after, if_pos heof]
      exact .refl
    · simp only [PtySession.after, if_neg heof]
      exact ⟨⟨bytes, rfl⟩, fun h => absurd h heof, id, fun hring => hring.push bytes⟩
  | eof => exact ⟨⟨[], by simp [PtySession.after]⟩, fun _ => ⟨rfl, rfl⟩, id, id⟩
  | exit status => exact ⟨⟨[], by simp [PtySession.after]⟩, fun h => ⟨h, rfl⟩, id, id⟩
  | graceOver =>
    simp only [PtySession.after]
    split
    · exact ⟨⟨[], by simp⟩, fun h => ⟨h, rfl⟩, fun _ => rfl, id⟩
    · exact .refl
  | deskWindowOpened => exact ⟨⟨[], by simp [PtySession.after]⟩, fun h => ⟨h, rfl⟩, id, id⟩
  | deskWindowClosed => exact ⟨⟨[], by simp [PtySession.after]⟩, fun h => ⟨h, rfl⟩, id, id⟩
  | deskWindowSize rows cols acted => exact (deskWindowSize_sameOutput rows cols acted).grows
  | deskInput bytes => exact (writeInput_sameOutput bytes).grows
  | written => exact ⟨⟨[], by simp [PtySession.after]⟩, fun h => ⟨h, rfl⟩, id, id⟩
  | writerEnds => exact ⟨⟨[], by simp [PtySession.after]⟩, fun h => ⟨h, rfl⟩, id, id⟩
  | masterFails => exact ⟨⟨[], by simp [PtySession.after]⟩, fun h => ⟨h, rfl⟩, id, id⟩

variable {all all' all'' : Sessions P}

theorem grows_refl : Sessions.Each PtySession.Grows all all := .refl (fun _ => .refl)

theorem grows_trans (h : Sessions.Each PtySession.Grows all all')
    (h' : Sessions.Each PtySession.Grows all' all'') : Sessions.Each PtySession.Grows all all'' :=
  .trans (fun h h' => h.trans h') (fun h hs => h.ring hs) h h'

theorem untyped_grows (h : Sessions.Each PtySession.Untyped all all') :
    Sessions.Each PtySession.Grows all all' := h.imp (fun _ _ hsame => hsame.toSameOutput.grows)

theorem happen_grows (moment : Moment) :
    Sessions.Each PtySession.Grows all (happen vt all moment) := by
  unfold happen
  induction moment generalizing all with
  | nil => exact grows_refl
  | cons event moment ih =>
    rw [List.foldl_cons]
    exact grows_trans (each_modify (fun _ => .refl) event.1 (fun _ _ => after_grows event.2)) ih

/-- Every ring holds the end of what was shown. -/
def Sessions.Ringed (all : Sessions P) : Prop :=
  ∀ (id : Nat) (s : PtySession P), all[id]? = some s → s.Ringed

theorem Sessions.Ringed.grows (h : all.Ringed) (hgrows : Sessions.Each PtySession.Grows all all') :
    all'.Ringed := by
  intro id s' hs'
  cases hs : all[id]? with
  | none => exact hgrows.new id s' hs hs'
  | some s =>
    obtain ⟨t, ht, hg⟩ := hgrows.there id s hs
    rw [hs', Option.some.injEq] at ht
    rw [ht]
    exact hg.ring (h id s hs)

end DeskLink.Terminal
