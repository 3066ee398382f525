import DeskLink.Proofs.Notes.Wire

/-!
# `DeskLink.Proofs.Notes.Steps`: what a step of the world can do

* `handleFrom_keeps`: a packet does nothing to a shelf but merge the notes
  it carries and keep the marks. What those keep, `handleFrom` keeps.
* `handleFrom_answers`: the notes it sends back are on the shelf.
* `editFromInShelf_cases` and `step_cases` say once what an edit and a
  step can do.
-/

set_option autoImplicit false

namespace DeskLink.Notes

variable {n : Note} {packet : Packet} {s : Shelf}

/-! ### The notes in a packet -/

/-- The notes a packet carries. -/
def Packet.notes : Packet → List Note
  | .noteItems items => items
  | .index .. | .fetch .. | .snippetItems .. | .ack .. => []

theorem mem_notePackets {values : List Note} (hp : packet ∈ notePackets values)
    (hn : n ∈ packet.notes) : n ∈ values := by
  obtain ⟨items, hitems, rfl⟩ := List.mem_map.mp hp
  have hflat : n ∈ (splitItems Note.jsonLength values [] 0).flatten :=
    List.mem_flatten.mpr ⟨items, hitems, hn⟩
  rw [splitItems_flatten, List.nil_append] at hflat
  exact List.mem_of_mem_filter hflat

/-- The notes of an `items` packet are on the shelf it was made from. -/
theorem mem_itemsPackets {kind : Kind} {ids : List String} (hp : packet ∈ itemsPackets s kind ids)
    (hn : n ∈ packet.notes) : ∃ id ∈ ids, s.notes[id]? = some n := by
  cases kind with
  | snippets =>
    obtain ⟨items, -, rfl⟩ := List.mem_map.mp hp
    cases hn
  | notes =>
    have := mem_notePackets hp hn
    exact List.mem_filterMap.mp this

/-! ### Handling a packet -/

section Keeps
variable {P : Shelf → Prop} {peer : String} {s : Shelf} {st : ItemsState} {items : List Note}
variable {packet : Packet}

theorem sentTo_keeps (hsent : ∀ s id n, s.notes[id]? = some n → P s →
    P (s.recordSent id peer n.modified)) (h : P s) (kind : Kind) (ids : List String) :
    P (sentTo s kind ids peer) := by
  unfold sentTo
  split
  · exact h
  · induction ids generalizing s with
    | nil => exact h
    | cons id rest ih =>
      rw [List.foldl_cons]
      cases hn : s.notes[id]? with
      | none => exact ih h
      | some n => exact ih (hsent s id n hn h)

theorem acknowledgeAll_keeps (hack : ∀ s id m, P s → P (acknowledge s id m peer).1) (h : P s)
    (entries : List (String × Int)) : P (acknowledgeAll s entries peer).1 := by
  unfold acknowledgeAll
  generalize false = changed
  induction entries generalizing s changed with
  | nil => exact h
  | cons entry rest ih =>
    rw [List.foldl_cons]
    exact ih (hack s entry.1 entry.2 h) _

/-- The loop over an `items` packet. A note is merged only when it is valid
and the shelf has room. -/
theorem takeNotes_keeps_checked
    (hmerge : ∀ s n, n ∈ items → validNote n = true → s.notes.size < maxNoteEntries → P s →
      P (mergeNoteFrom s n peer).1) (h : P st.shelf) :
    P (items.foldl (takeNote peer) st).shelf := by
  induction items generalizing st with
  | nil => exact h
  | cons n rest ih =>
    rw [List.foldl_cons]
    refine ih (fun s m hm => hmerge s m (List.mem_cons_of_mem _ hm)) ?_
    unfold takeNote
    split
    · exact h
    · rename_i hvalid
      split
      · exact h
      · rename_i hroom
        have hn := hmerge st.shelf n (List.mem_cons_self ..) (by simpa using hvalid)
          (Nat.lt_of_not_le hroom) h
        split <;> rename_i hcase <;> rw [hcase] at hn <;> exact hn

theorem takeNotes_keeps (hmerge : ∀ s n, n ∈ items → P s →
    P (mergeNoteFrom s n peer).1) (h : P st.shelf) : P (items.foldl (takeNote peer) st).shelf :=
  takeNotes_keeps_checked (fun s n hn _ _ hs => hmerge s n hn hs) h

/-- A snippet is merged only when it is valid, and a new one only when the
shelf has room. -/
theorem takeSnippets_keeps_checked {items : List Snippet}
    (hmerge : ∀ s n, n ∈ items → validSnippet n = true →
      (s.snippets[n.id]? = none → s.snippets.size < maxSnippetEntries) → P s →
      P (mergeSnippet s n).1) (h : P st.shelf) :
    P (items.foldl takeSnippet st).shelf := by
  induction items generalizing st with
  | nil => exact h
  | cons n rest ih =>
    rw [List.foldl_cons]
    refine ih (fun s m hm => hmerge s m (List.mem_cons_of_mem _ hm)) ?_
    unfold takeSnippet
    split
    · exact h
    · rename_i hvalid
      split
      · exact h
      · rename_i hroom
        have hn : P (mergeSnippet st.shelf n).1 := by
          refine hmerge st.shelf n (List.mem_cons_self ..) (by simpa using hvalid) ?_ h
          intro hnone
          rw [Bool.and_eq_true, not_contains_iff, decide_eq_true_eq] at hroom
          exact Nat.lt_of_not_le (fun hfull => hroom ⟨hnone, hfull⟩)
        simp only
        split
        · exact hn
        · split <;> exact h

/-- What merging what passes the checks and the marks keep, a packet keeps. -/
theorem handleFrom_keeps_checked
    (hmerge : ∀ s n, n ∈ packet.notes → validNote n = true → s.notes.size < maxNoteEntries →
      P s → P (mergeNoteFrom s n peer).1) (hack : ∀ s id m, P s → P (acknowledge s id m peer).1)
    (hsent : ∀ s id n, s.notes[id]? = some n → P s → P (s.recordSent id peer n.modified))
    (hsnippet : ∀ s n, validSnippet n = true →
      (s.snippets[n.id]? = none → s.snippets.size < maxSnippetEntries) → P s →
      P (mergeSnippet s n).1) (h : P s) : P (handleFrom s packet peer).1 := by
  cases packet with
  | index kind items =>
    cases kind with
    | snippets => exact h
    | notes => exact acknowledgeAll_keeps hack h _
  | fetch kind ids => exact sentTo_keeps hsent h _ _
  | snippetItems items =>
    have htaken : P ((items.take maxItemsPerPacket).foldl takeSnippet { shelf := s }).shelf :=
      takeSnippets_keeps_checked (fun s n _ => hsnippet s n) h
    exact sentTo_keeps hsent htaken .snippets
      ((items.take maxItemsPerPacket).foldl takeSnippet { shelf := s }).sendBack
  | noteItems items =>
    have htaken : P ((items.take maxItemsPerPacket).foldl (takeNote peer) { shelf := s }).shelf := by
      refine takeNotes_keeps_checked ?_ h
      intro s n hn
      exact hmerge s n (List.mem_of_mem_take hn)
    show P (sentTo _ .notes _ peer)
    exact sentTo_keeps hsent htaken _ _
  | ack items => exact acknowledgeAll_keeps hack h _

/-- What changing the snippets keeps, merging one does. -/
theorem mergeSnippet_keeps (hsnippets : ∀ s snippets, P s → P { s with snippets := snippets })
    (h : P s) (n : Snippet) : P (mergeSnippet s n).1 := by
  unfold mergeSnippet
  split
  · split
    · exact h
    · exact hsnippets _ _ h
  · exact hsnippets _ _ h

/-- What merging and the marks keep, a packet keeps. -/
theorem handleFrom_keeps (hmerge : ∀ s n, n ∈ packet.notes → P s → P (mergeNoteFrom s n peer).1)
    (hack : ∀ s id m, P s → P (acknowledge s id m peer).1)
    (hsent : ∀ s id n, s.notes[id]? = some n → P s → P (s.recordSent id peer n.modified))
    (hsnippets : ∀ s snippets, P s → P { s with snippets := snippets }) (h : P s) :
    P (handleFrom s packet peer).1 :=
  handleFrom_keeps_checked (fun s n hn _ _ hs => hmerge s n hn hs) hack hsent
    (fun _ n _ _ hs => mergeSnippet_keeps hsnippets hs n) h

end Keeps

variable {id : String} {loaded : Option Int} {now : Int} {s' : Shelf}

/-- The notes after a packet: those of its loop over the notes it carries. -/
theorem handleFrom_notes (s : Shelf) (packet : Packet) (peer : String) :
    (handleFrom s packet peer).1.notes
      = ((packet.notes.take maxItemsPerPacket).foldl (takeNote peer) { shelf := s }).shelf.notes := by
  cases packet with
  | index kind items =>
    cases kind with
    | snippets => rfl
    | notes => exact acknowledgeAll_notes s _ peer
  | fetch kind ids => exact sentTo_notes s kind _ peer
  | snippetItems items =>
    have htaken : ((items.take maxItemsPerPacket).foldl takeSnippet { shelf := s }).shelf.notes
        = s.notes := by
      refine takeSnippets_keeps_checked (P := fun t => t.notes = s.notes) ?_ rfl
      intro t n _ _ _ ht
      exact mergeSnippet_keeps (P := fun t => t.notes = s.notes) (fun _ _ h => h) ht n
    exact htaken
  | noteItems items => exact sentTo_notes _ .notes _ peer
  | ack items => exact acknowledgeAll_notes s _ peer

/-- The notes a packet is answered with are on the shelf. -/
theorem handleFrom_answers {answer : Packet} {peer : String}
    (ha : answer ∈ (handleFrom s packet peer).2.1) (hn : n ∈ answer.notes) :
    ∃ id : String, (handleFrom s packet peer).1.notes[id]? = some n := by
  have hitems : ∀ (kind : Kind) (st : ItemsState), answer ∈ (answerItems kind peer st).2.1 →
      ∃ id : String, (answerItems kind peer st).1.notes[id]? = some n := by
    intro kind st hmem
    rcases List.mem_append.mp hmem with hmem | hmem
    · obtain ⟨id, -, hid⟩ := mem_itemsPackets hmem hn
      exact ⟨id, hid⟩
    · obtain ⟨items, -, rfl⟩ := List.mem_map.mp hmem
      cases hn
  cases packet with
  | index kind items =>
    obtain ⟨ids, -, rfl⟩ := List.mem_map.mp ha
    cases hn
  | fetch kind ids =>
    obtain ⟨id, -, hid⟩ := mem_itemsPackets ha hn
    exact ⟨id, hid⟩
  | snippetItems items => exact hitems _ _ ha
  | noteItems items => exact hitems _ _ ha
  | ack items => cases ha

/-! ### Edits -/

/-- The version `n` is stored under `id`. -/
def Shelf.put (s : Shelf) (id : String) (n : Note) : Shelf :=
  { s with notes := s.notes.insert id n }

@[simp] theorem put_notes (s : Shelf) (id : String) (n : Note) :
    (s.put id n).notes = s.notes.insert id n := rfl

/-- What a saved edit did: the stored version `before` is replaced by one
with other content, and kept as a copy when it was overtaken and that copy
is not already there. -/
structure Saved (s : Shelf) (id : String) (loaded : Option Int) (now : Int) (before : Note)
    (c : Content) (s' : Shelf) : Prop where
  stored : s.notes[id]? = some before
  differs : (before.withContent c).sameContent before = false
  shelf : s' = s.put id (editedNote before (s.baseOf id) (s.mustKeep id) c now) ∨
    (overtaken before loaded = true ∧
      (s.put id (editedNote before (s.baseOf id) (s.mustKeep id) c now)).notes[before.copyOf.id]?
        = none ∧
      s' = (s.put id (editedNote before (s.baseOf id) (s.mustKeep id) c now)).keepCopy before)
  kept : overtaken before loaded = true → s'.notes.contains before.copyOf.id = true

theorem editFromInShelf_cases {change : Content → Content} {copy : Option String}
    (h : editFromInShelf s id loaded change now = .saved s' copy) :
    ∃ before c, Saved s id loaded now before c s' := by
  unfold editFromInShelf at h
  split at h
  · cases h
  · rename_i before hbefore
    simp only at h
    split at h
    · cases h
    · split at h
      · cases h
      · rename_i hdiffers
        have hdiffers' : (before.withContent (editedContent before change)).sameContent before
            = false := by simpa using hdiffers
        split at h
        · rename_i hcopy
          cases h
          rw [Bool.and_eq_true] at hcopy
          refine ⟨before, _, hbefore, hdiffers', Or.inr ⟨hcopy.1, ?_, rfl⟩, ?_⟩
          · exact (not_contains_iff _ _).mp hcopy.2
          · intro _
            simp [Shelf.keepCopy]
        · rename_i hcopy
          cases h
          refine ⟨before, _, hbefore, hdiffers', Or.inl rfl, ?_⟩
          intro hover
          rw [hover, Bool.true_and, Bool.not_eq_true, Bool.not_eq_false'] at hcopy
          exact hcopy

/-! ### Steps -/

/-- What a step can do to a world. -/
inductive StepCase (w : World) : Action → World → Prop
  | create (side : Side) (id : String) (now : Int) (body : String) :
      freshId w id = true → clockReads now = true →
      StepCase w (.create side id now body)
        ((w.setShelf side ((w.shelf side).put id (createdNote id now body))).record
          (.created side (createdNote id now body)))
  | edit (side : Side) (id : String) (loaded : Option Int) (change : Content → Content)
      (now : Int) (before : Note) (c : Content) (s : Shelf) (after : Note) :
      Saved (w.shelf side) id loaded now before c s → clockReads now = true →
      s.notes[id]? = some after →
      StepCase w (.edit side id loaded change now)
        ((w.setShelf side s).record
          (.saved side before loaded after (s.notes.contains before.copyOf.id)))
  | push (side : Side) (ids : List String) : pushable (w.shelf side) ids = true →
      StepCase w (.push side ids)
        ((w.setShelf side (sentTo (w.shelf side) .notes ids side.other.id)).post side
          (itemsPackets (w.shelf side) .notes ids))
  | sendIndex (side : Side) :
      StepCase w (.sendIndex side) (w.post side (indexPackets (w.shelf side) .notes))
  | deliver (side : Side) (packet : Packet) (rest : List Packet) :
      w.inbox side = packet :: rest →
      StepCase w (.deliver side)
        (((w.setInbox side rest).setShelf side
          (handleFrom (w.shelf side) packet side.other.id).1).post side
            (handleFrom (w.shelf side) packet side.other.id).2.1)
  | lose (side : Side) (place : Nat) : place < (w.inbox side).length →
      StepCase w (.lose side place) (w.setInbox side ((w.inbox side).eraseIdx place))

theorem step_cases {w w' : World} {a : Action} (h : step w a = some w') : StepCase w a w' := by
  cases a with
  | create side id now body =>
    simp only [step] at h
    split at h
    · rename_i hfresh
      rw [Bool.and_eq_true] at hfresh
      obtain ⟨s, hs, rfl⟩ := Option.map_eq_some_iff.mp h
      unfold createInShelf at hs
      split at hs
      · cases hs
      · cases hs
        exact .create side id now body hfresh.1 hfresh.2
    · cases h
  | edit side id loaded change now =>
    simp only [step] at h
    split at h
    · cases h
    · rename_i before hbefore
      split at h
      · rename_i s copy hsaved
        split at h
        · rename_i hclock
          obtain ⟨after, hafter, rfl⟩ := Option.map_eq_some_iff.mp h
          obtain ⟨before', c, hcase⟩ := editFromInShelf_cases hsaved
          obtain rfl : before = before' := Option.some.inj (hbefore.symm.trans hcase.stored)
          exact .edit side id loaded change now before c s after hcase hclock hafter
        · cases h
      · cases h
      · cases h
  | push side ids =>
    simp only [step] at h
    split at h
    · rename_i hpush
      cases h
      exact .push side ids hpush
    · cases h
  | sendIndex side =>
    cases h
    exact .sendIndex side
  | deliver side =>
    simp only [step, deliver] at h
    split at h
    · cases h
    · rename_i packet rest hinbox
      cases h
      exact .deliver side packet rest hinbox
  | lose side place =>
    simp only [step] at h
    split at h
    · rename_i hplace
      cases h
      exact .lose side place hplace
    · cases h

/-- The version a saved edit stores. -/
theorem Saved.after_eq {before after : Note} {c : Content} (h : Saved s id loaded now before c s')
    (hid : before.id = id) (hafter : s'.notes[id]? = some after) :
    after = editedNote before (s.baseOf id) (s.mustKeep id) c now := by
  rcases h.shelf with rfl | ⟨-, -, rfl⟩
  · simpa [eq_comm] using hafter
  · have hne : copyId before.id before.modified ≠ id := hid ▸ copyId_ne _ _
    rw [keepCopy_notes, put_notes, getElem?_keyInsert, copyOf_id, if_neg hne,
      getElem?_keyInsert, if_pos rfl] at hafter
    exact (Option.some.inj hafter).symm

end DeskLink.Notes
