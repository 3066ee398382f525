import DeskLink.Proofs.Notes.Merge

/-!
# `DeskLink.Proofs.Notes.Wire`: what a packet does

What the splitting loops keep, and what `handleFrom` does to the notes.

* `splitItems_flatten`, `splitIndex_flatten`, `chunksOf_flatten`: the
  parts, put together, are the list (less the values that fit no packet).
* `sentTo_notes`, `acknowledgeAll_notes`: bookkeeping never moves a note.
* `handleFrom_one_note`: a packet with one note, by its outcome.
-/

set_option autoImplicit false

namespace DeskLink.Notes

/-! ### Splitting -/

section Split
variable {α : Type}

/-- The value fits a packet. -/
def fitsPacket (length : α → Nat) (value : α) : Bool :=
  decide (length value + 1 ≤ maxPacketBytes - packetOverhead)

theorem splitItems_flatten (length : α → Nat) (values batch : List α) (size : Nat) :
    (splitItems length values batch size).flatten
      = batch ++ values.filter (fitsPacket length) := by
  induction values generalizing batch size with
  | nil =>
    cases batch <;> simp [splitItems]
  | cons value rest ih =>
    unfold splitItems
    simp only []
    split
    · rename_i hbig
      have : fitsPacket length value = false := by simp [fitsPacket]; omega
      rw [ih, List.filter_cons, this]
      simp
    · rename_i hbig
      have hfits : fitsPacket length value = true := by simp [fitsPacket]; omega
      split
      · rw [List.flatten_append, ih, List.filter_cons, hfits]
        cases batch <;> simp
      · rw [ih, List.filter_cons, hfits]
        simp

theorem splitIndex_flatten (length : α → Nat) (entries part : List α) (size : Nat) :
    (splitIndex length entries part size).flatten = part ++ entries := by
  induction entries generalizing part size with
  | nil => simp [splitIndex]
  | cons entry rest ih =>
    unfold splitIndex
    simp only []
    split <;> simp [ih]

theorem chunksFrom_flatten (n : Nat) (l part : List α) :
    (chunksFrom n l part).flatten = part ++ l := by
  induction l generalizing part with
  | nil => cases part <;> simp [chunksFrom]
  | cons x rest ih =>
    unfold chunksFrom
    split <;> simp [ih]

theorem chunksOf_flatten (n : Nat) (l : List α) : (chunksOf n l).flatten = l := by
  simpa [chunksOf] using chunksFrom_flatten n l []

@[simp] theorem chunksOf_nil (n : Nat) : chunksOf n ([] : List α) = [] := rfl

@[simp] theorem chunksOf_singleton (x : α) : chunksOf fetchIds [x] = [[x]] := rfl

end Split

/-- One note goes out in one packet, unless it fits none. -/
theorem notePackets_singleton (n : Note) :
    notePackets [n] = [] ∨ notePackets [n] = [.noteItems [n]] := by
  unfold notePackets
  by_cases hbig : maxPacketBytes - packetOverhead < n.jsonLength + 1
  · left
    simp [splitItems, hbig]
  · right
    simp [splitItems, hbig]

@[simp] theorem notePackets_nil : notePackets [] = [] := rfl

/-! ### Bookkeeping -/

@[simp] theorem sentTo_notes (s : Shelf) (kind : Kind) (ids : List String) (peer : String) :
    (sentTo s kind ids peer).notes = s.notes := by
  unfold sentTo
  split
  · rfl
  · induction ids generalizing s with
    | nil => rfl
    | cons id rest ih =>
      rw [List.foldl_cons, ih]
      cases s.notes[id]? <;> rfl

@[simp] theorem acknowledge_notes (s : Shelf) (id : String) (modified : Int) (peer : String) :
    (acknowledge s id modified peer).1.notes = s.notes := by
  unfold acknowledge
  split
  · rfl
  · split
    · rfl
    · simp only []
      split <;> split <;> rfl

theorem acknowledge_foldl_notes (entries : List (String × Int)) (peer : String)
    (st : Shelf × Bool) :
    (entries.foldl (fun (s, changed) entry =>
      let (s, moved) := acknowledge s entry.1 entry.2 peer
      (s, changed || moved)) st).1.notes = st.1.notes := by
  induction entries generalizing st with
  | nil => rfl
  | cons entry rest ih => rw [List.foldl_cons, ih, acknowledge_notes]

@[simp] theorem acknowledgeAll_notes (s : Shelf) (entries : List (String × Int)) (peer : String) :
    (acknowledgeAll s entries peer).1.notes = s.notes :=
  acknowledge_foldl_notes entries peer (s, false)

/-! ### A packet with one note -/

/-- What handling a packet with the one note `n` does to the notes, and
what it answers. -/
inductive OneNote (s : Shelf) (n : Note) (peer : String) : KeyMap Note → List Packet → Prop
  /-- Refused: not valid, or no room. -/
  | refused : OneNote s n peer s.notes []
  /-- The local version goes back. -/
  | answered : (mergeNoteFrom s n peer).2 = .keptOurs ∨ (mergeNoteFrom s n peer).2 = .conflict →
      OneNote s n peer (mergeNoteFrom s n peer).1.notes
        (notePackets ([n.id].filterMap ((mergeNoteFrom s n peer).1.notes[·]?)))
  /-- The version is here now, and the sender is told. -/
  | acked : (mergeNoteFrom s n peer).2 = .same ∨ (mergeNoteFrom s n peer).2 = .taken →
      OneNote s n peer (mergeNoteFrom s n peer).1.notes [.ack [(n.id, n.modified)]]

theorem handleFrom_one_note (s : Shelf) (n : Note) (peer : String) :
    OneNote s n peer (handleFrom s (.noteItems [n]) peer).1.notes
      (handleFrom s (.noteItems [n]) peer).2.1 := by
  have hfold : handleFrom s (.noteItems [n]) peer
      = answerItems .notes peer (takeNote peer { shelf := s } n) := rfl
  have hrefused : OneNote s n peer (answerItems .notes peer { shelf := s }).1.notes
      (answerItems .notes peer { shelf := s }).2.1 := by
    have hnothing : OneNote s n peer s.notes [] := .refused
    simpa [answerItems, itemsPackets] using hnothing
  rw [hfold]
  unfold takeNote
  split
  · exact hrefused
  · split
    · exact hrefused
    · rcases hmerge : mergeNoteFrom s n peer with ⟨s', outcome⟩
      cases outcome with
      | keptOurs =>
        have hcase : OneNote s n peer _ _ := .answered (Or.inl (by rw [hmerge]))
        simpa [answerItems, hmerge, itemsPackets] using hcase
      | conflict =>
        have hcase : OneNote s n peer _ _ := .answered (Or.inr (by rw [hmerge]))
        simpa [answerItems, hmerge, itemsPackets] using hcase
      | same =>
        have hcase : OneNote s n peer _ _ := .acked (Or.inl (by rw [hmerge]))
        simpa [answerItems, hmerge, itemsPackets] using hcase
      | taken =>
        have hcase : OneNote s n peer _ _ := .acked (Or.inr (by rw [hmerge]))
        simpa [answerItems, hmerge, itemsPackets] using hcase

end DeskLink.Notes
