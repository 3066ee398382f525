import DeskLink.Notes.World

/-!
# `DeskLink.Proofs.Notes.Merge`: what a merge can do

`mergeNoteFrom_cases` says once what `mergeNoteFrom` can do to a shelf;
every invariant of the notes is derived from it. `MergeCase` names the
branches with the guards the source tests.

The lookup lemmas give each field of the shelf after each branch.
-/

set_option autoImplicit false

namespace DeskLink.Notes

/-! ### Lookups -/

@[simp] theorem recordHeld_notes (s : Shelf) (id peer : String) (v : Int) :
    (s.recordHeld id peer v).notes = s.notes := rfl

@[simp] theorem recordHeld_synced (s : Shelf) (id peer : String) (v : Int) :
    (s.recordHeld id peer v).synced = s.synced := rfl

@[simp] theorem recordSent_notes (s : Shelf) (id peer : String) (v : Int) :
    (s.recordSent id peer v).notes = s.notes := rfl

@[simp] theorem recordSent_synced (s : Shelf) (id peer : String) (v : Int) :
    (s.recordSent id peer v).synced = s.synced := rfl

@[simp] theorem recordSent_held (s : Shelf) (id peer : String) (v : Int) :
    (s.recordSent id peer v).held = s.held := rfl

@[simp] theorem keepCopy_notes (s : Shelf) (loser : Note) :
    (s.keepCopy loser).notes = s.notes.insert loser.copyOf.id loser.copyOf := rfl

@[simp] theorem keepCopy_held (s : Shelf) (loser : Note) : (s.keepCopy loser).held = s.held := rfl

@[simp] theorem take_notes (s : Shelf) (incoming : Note) (peer : String) :
    (s.take incoming peer).notes = s.notes.insert incoming.id incoming := rfl

/-! ### Copies -/

@[simp] theorem copyOf_id (n : Note) : n.copyOf.id = copyId n.id n.modified := rfl

@[simp] theorem copyOf_modified (n : Note) : n.copyOf.modified = n.modified := rfl

@[simp] theorem copyOf_parent (n : Note) : n.copyOf.parent = n.modified := rfl

@[simp] theorem copyOf_ancestors (n : Note) : n.copyOf.ancestors = n.ancestors := rfl

/-- A copy is never filed under the id it was copied from. -/
theorem copyId_ne (id : String) (m : Int) : copyId id m ≠ id := by
  intro h
  have hlen := congrArg String.length h
  simp only [copyId, String.length_append] at hlen
  have : ("~" : String).length = 1 := rfl
  omega

theorem names_iff (n : Note) (m : Int) :
    n.names m = true ↔ n.parent = m ∨ m ∈ n.ancestors := by
  simp [Note.names]

theorem sameContent_iff (a b : Note) :
    a.sameContent b = true ↔
      a.title = b.title ∧ a.body = b.body ∧ a.pinned = b.pinned ∧ a.deleted = b.deleted := by
  simp [Note.sameContent, and_assoc]

theorem sameContent_comm (a b : Note) : a.sameContent b = b.sameContent a := by
  rw [Bool.eq_iff_iff, sameContent_iff, sameContent_iff]
  constructor <;> rintro ⟨h1, h2, h3, h4⟩ <;> exact ⟨h1.symm, h2.symm, h3.symm, h4.symm⟩

/-! ### The branches of a merge -/

/-- The shelf and outcome of each branch of `mergeNoteFrom`, with what the
source tested to get there. -/
inductive MergeCase (s : Shelf) (incoming : Note) (peer : String) : Shelf × Merged → Prop
  | absent : s.notes[incoming.id]? = none →
      MergeCase s incoming peer (s.take incoming peer, .taken)
  | same (mine : Note) : s.notes[incoming.id]? = some mine →
      mine.modified = incoming.modified → mine.sameContent incoming = true →
      MergeCase s incoming peer
        (({ s with synced := s.synced.insert mine.id mine.modified }).recordHeld
          mine.id peer mine.modified, .same)
  | newer (mine : Note) : s.notes[incoming.id]? = some mine →
      incoming.names mine.modified = true →
      MergeCase s incoming peer (s.take incoming peer, .taken)
  | older (mine : Note) : s.notes[incoming.id]? = some mine →
      ¬(mine.modified = incoming.modified ∧ mine.sameContent incoming = true) →
      incoming.names mine.modified = false → mine.names incoming.modified = true →
      MergeCase s incoming peer (s.recordHeld mine.id peer incoming.modified, .keptOurs)
  | sibling (mine : Note) : s.notes[incoming.id]? = some mine →
      ¬(mine.modified = incoming.modified ∧ mine.sameContent incoming = true) →
      incoming.names mine.modified = false → mine.names incoming.modified = false →
      MergeCase s incoming peer (mergeSiblings s mine incoming peer)

theorem mergeNoteFrom_cases (s : Shelf) (incoming : Note) (peer : String) :
    MergeCase s incoming peer (mergeNoteFrom s incoming peer) := by
  unfold mergeNoteFrom
  split
  · rename_i hnone
    exact .absent hnone
  · rename_i mine hmine
    split
    · rename_i hsame
      exact .same mine hmine hsame.1 hsame.2
    · rename_i hdiff
      split
      · rename_i hnames
        exact .newer mine hmine hnames
      · rename_i hnames
        split
        · rename_i hnamed
          exact .older mine hmine hdiff (by simpa using hnames) hnamed
        · rename_i hnamed
          exact .sibling mine hmine hdiff (by simpa using hnames) (by simpa using hnamed)

/-- A sibling merge, told by who wins and whether a copy is made. -/
theorem mergeSiblings_eq (s : Shelf) (mine incoming : Note) (peer : String) :
    mergeSiblings s mine incoming peer =
      match incomingWins mine incoming, makesCopy s mine incoming with
      | false, false => (s, .keptOurs)
      | false, true =>
        ({ s.keepCopy incoming with
            synced := (s.keepCopy incoming).synced.insert mine.id mine.modified
            notes := (s.keepCopy incoming).notes.insert mine.id mine }, .conflict)
      | true, false => (s.take incoming peer, .taken)
      | true, true => ((s.keepCopy mine).take incoming peer, .conflict) := by
  unfold mergeSiblings siblingWinner siblingLoser
  cases incomingWins mine incoming <;> cases makesCopy s mine incoming <;> rfl

/-- The notes after a sibling merge: the winner under the id, the loser's
copy where one is made, and everything else as it was. -/
theorem mergeSiblings_notes (s : Shelf) (mine incoming : Note) (peer k : String)
    (hmine : s.notes[incoming.id]? = some mine) (hid : mine.id = incoming.id) :
    (mergeSiblings s mine incoming peer).1.notes[k]? =
      if k = incoming.id then some (siblingWinner mine incoming)
      else if makesCopy s mine incoming = true
          ∧ k = (siblingLoser mine incoming).copyOf.id then
        some (siblingLoser mine incoming).copyOf
      else s.notes[k]? := by
  rw [mergeSiblings_eq]
  unfold siblingWinner siblingLoser
  by_cases hk : k = incoming.id
  · subst hk
    cases incomingWins mine incoming <;> cases makesCopy s mine incoming <;>
      simp [hid, hmine]
  · have hk' : incoming.id ≠ k := Ne.symm hk
    cases incomingWins mine incoming <;> cases makesCopy s mine incoming <;>
      simp [hid, hk, hk', eq_comm]

end DeskLink.Notes
