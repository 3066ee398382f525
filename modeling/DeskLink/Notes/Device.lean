import DeskLink.Notes.Duplicates

/-!
# `DeskLink.Notes.Device`: everything that changes one shelf

`editNoteInShelf` is `edit_from_in_shelf` for any closure over the note,
with the shelf and the answer of every way out. `editFromInShelf` is what
it comes to for a closure over the four fields a person can change
(`editNoteInShelf_content`).

The rest of what changes a shelf is here too: the snippets' local edits,
marking what is relayed, unpairing, dropping old tombstones, and merging
what was typed while the file could not be read. `ShelfOp` lists the
operations and `Reachable` the shelves they come to from the empty one.

An `i64` read from a packet is within its range (`Packet.inI64`), a clock
reads from 0 on, and a new id is a v4 uuid.
-/

set_option autoImplicit false

namespace DeskLink.Notes

/-! ### Editing a note -/

/-- What the closure leaves, with the tombstone brought back that text was
typed over, and the title cut. -/
def changedNote (before : Note) (change : Note → Note) : Note :=
  let note := change before
  let revived := before.deleted && note.deleted && !(note.title == "" && note.body == "")
  { note with
    deleted := if revived then false else note.deleted
    title := String.ofList (note.title.toList.take maxNoteTitleChars) }

/-- The new version: a deletion is cleared, and the bookkeeping is set. -/
def versionOf (note before : Note) (base : Int) (keep : List Int) (now : Int) : Note :=
  let note := if note.deleted then { note with title := "", body := "" } else note
  { note with
    parent := base
    ancestors := ancestorsAfter before keep
    modified := max now (i64SaturatingSucc before.modified) }

/-- What `edit_from_in_shelf` answers: `TOO_LONG`, or whether the note was
changed and the id of the copy made. -/
inductive EditAnswer where
  | tooLong
  | done (changed : Bool) (copy : Option String)
deriving DecidableEq, Repr

/-- `edit_from_in_shelf`. -/
def editNoteInShelf (s : Shelf) (id : String) (loaded : Option Int) (change : Note → Note)
    (now : Int) : Shelf × EditAnswer :=
  match s.notes[id]? with
  | none => (s, .done false none)
  | some before =>
    let note := changedNote before change
    if maxNoteBytes < note.body.utf8ByteSize || !note.fitsOnePacket then
      -- The note is put back as it was.
      ({ s with notes := s.notes.insert id before }, .tooLong)
    else if note.sameContent before then
      ({ s with notes := s.notes.insert id note }, .done false none)
    else
      let s' := { s with
        notes := s.notes.insert id (versionOf note before (s.baseOf id) (s.mustKeep id) now) }
      if overtaken before loaded && !s'.notes.contains before.copyOf.id then
        (s'.keepCopy before, .done true (some before.copyOf.id))
      else (s', .done true none)

/-- A change of the content only, as every caller makes it. -/
def ofContent (change : Content → Content) (n : Note) : Note := n.withContent (change n.content)

/-- The `deleted = true` of the delete button. -/
def deleteNote (n : Note) : Note := { n with deleted := true }

/-! ### Snippets -/

def liveSnippets (s : Shelf) : Nat :=
  ((s.snippets.toList.map (·.2)).filter (fun n => !n.deleted)).length

/-- The live snippet that says `text`, the first in key order. -/
def snippetSaying (s : Shelf) (text : String) : Option String :=
  ((s.snippets.toList.map (·.2)).find? (fun n => !n.deleted && n.text == text)).map (·.id)

/-- `add_in_shelf`: `fresh` is the new uuid. An identical snippet is moved
to the top; a new one is refused at `maxSnippets` live. -/
def addInShelf (s : Shelf) (text fresh : String) (now : Int) : Option (Shelf × String) :=
  let existing := snippetSaying s text
  if existing.isNone && decide (liveSnippets s ≥ maxSnippets) then none
  else
    let id := existing.getD fresh
    some ({ s with
      snippets := s.snippets.insert id
        { id := id, text := text, title := "", modified := now, deleted := false } }, id)

/-- `delete_snippet`: whether it was there, live. -/
def deleteSnippet (s : Shelf) (id : String) (now : Int) : Option Shelf :=
  match s.snippets[id]? with
  | none => none
  | some snippet =>
    if snippet.deleted then none
    else some { s with
      snippets := s.snippets.insert id
        { snippet with deleted := true, text := "", title := "", modified := now } }

/-! ### Housekeeping -/

/-- `mark_relayed`, for one device. -/
def markRelayed (s : Shelf) (device : String) (versions : List (String × Int)) : Shelf :=
  versions.foldl (fun s version => s.recordSent version.1 device version.2) s

/-- The marks without those of a phone. A note with no marks left goes. -/
def forgetMarks (marks : Marks) (device : String) : Marks :=
  (marks.map (fun _ peers => peers.erase device)).filter (fun _ peers => !peers.isEmpty)

/-- `forget_phone`. -/
def Shelf.forgetPhone (s : Shelf) (device : String) : Shelf :=
  { s with held := forgetMarks s.held device, sent := forgetMarks s.sent device }

/-- 90 days. -/
def tombstoneMs : Int := 90 * 24 * 3600 * 1000

/-- Drops the tombstones of 90 days ago, and the marks of notes that are
gone. -/
def prune (s : Shelf) (now : Int) : Shelf :=
  let cutoff := now - tombstoneMs
  let notes := s.notes.filter (fun _ n => !n.deleted || decide (n.modified > cutoff))
  { snippets := s.snippets.filter (fun _ n => !n.deleted || decide (n.modified > cutoff))
    notes := notes
    synced := s.synced.filter (fun id _ => notes.contains id)
    held := s.held.filter (fun id _ => notes.contains id)
    sent := s.sent.filter (fun id _ => notes.contains id) }

/-- `retry_blocked`: what was typed is merged into what the file holds. -/
def mergeTyped (disk typed : Shelf) : Shelf :=
  let s := typed.snippets.toList.foldl (fun s entry => (mergeSnippet s entry.2).1) disk
  typed.notes.toList.foldl (fun s entry => (mergeNoteFrom s entry.2 "").1) s

/-! ### The shelves that come about -/

def i64Min : Int := -9223372036854775808

def inI64 (n : Int) : Bool := decide (i64Min ≤ n) && decide (n ≤ i64Max)

def Note.inI64 (n : Note) : Bool :=
  Notes.inI64 n.created && Notes.inI64 n.modified && Notes.inI64 n.parent
    && n.ancestors.all Notes.inI64

/-- The numbers of a packet are `i64`s. -/
def Packet.inI64 : Packet → Bool
  | .index _ items => items.all (fun e => Notes.inI64 e.modified)
  | .fetch _ _ => true
  | .snippetItems items => items.all (fun n => Notes.inI64 n.modified)
  | .noteItems items => items.all Note.inI64
  | .ack items => items.all (fun e => Notes.inI64 e.2)

/-- What `now_ms` reads: 0 before 1970. -/
def nowReads (now : Int) : Bool := decide (0 ≤ now) && decide (now ≤ i64Max)

/-- A hyphenated v4 uuid, as far as sizes and characters go. -/
def isUuid (id : String) : Bool :=
  id.length == 36 && id.toList.all (fun c => c == '-' || c.isDigit || ('a' ≤ c && c ≤ 'f'))

inductive ShelfOp where
  | create (id : String) (now : Int) (body : String)
  | edit (id : String) (loaded : Option Int) (change : Content → Content) (now : Int)
  | removeDuplicates (everywhere : Bool) (clock : String → Int)
  | receive (packet : Packet) (peer : String)
  /-- The notes `ids` go to a phone. -/
  | send (ids : List String) (peer : String)
  | relay (device : String) (versions : List (String × Int))
  | forget (device : String)
  | prune (now : Int)
  | addSnippet (text fresh : String) (now : Int)
  | deleteSnippet (id : String) (now : Int)

/-- The clock, the ids and the numbers of an operation are what the code
can get. -/
def ShelfOp.real : ShelfOp → Prop
  | .create id now _ => isUuid id = true ∧ nowReads now = true
  | .edit _ _ _ now => nowReads now = true
  | .removeDuplicates _ clock => ∀ id, nowReads (clock id) = true
  | .receive packet _ => packet.inI64 = true
  | .send _ _ => True
  | .relay _ versions => ∀ v ∈ versions, Notes.inI64 v.2 = true
  | .forget _ => True
  | .prune _ => True
  | .addSnippet _ fresh now => isUuid fresh = true ∧ nowReads now = true
  | .deleteSnippet _ now => nowReads now = true

/-- The shelf after an operation; a refused one leaves it as it was. -/
def ShelfOp.run (s : Shelf) : ShelfOp → Shelf
  | .create id now body => (createInShelf s id now body).getD s
  | .edit id loaded change now => (editNoteInShelf s id loaded (ofContent change) now).1
  | .removeDuplicates everywhere clock => (removeDuplicatesIn s everywhere clock).1
  | .receive packet peer => (handleFrom s packet peer).1
  | .send ids peer => sentTo s .notes ids peer
  | .relay device versions => markRelayed s device versions
  | .forget device => s.forgetPhone device
  | .prune now => Notes.prune s now
  | .addSnippet text fresh now => ((addInShelf s text fresh now).map (·.1)).getD s
  | .deleteSnippet id now => (Notes.deleteSnippet s id now).getD s

/-- A shelf that the code can come to hold. -/
inductive Reachable : Shelf → Prop where
  | empty : Reachable {}
  | op {s : Shelf} (hs : Reachable s) (op : ShelfOp) (hop : op.real) : Reachable (op.run s)
  | retry {disk typed : Shelf} (hdisk : Reachable disk) (htyped : Reachable typed) :
      Reachable (mergeTyped disk typed)

/-! ### Edits of the content -/

theorem changedNote_content (before : Note) (change : Content → Content) :
    changedNote before (ofContent change)
      = before.withContent (editedContent before change) := rfl

theorem versionOf_content (before : Note) (c : Content) (base : Int) (keep : List Int) (now : Int) :
    versionOf (before.withContent c) before base keep now = editedNote before base keep c now := by
  unfold versionOf editedNote Note.withContent
  cases c.deleted <;> rfl

/-- The shelf and answer of an edit, told by its result for a change of the
content. -/
def EditResult.toAnswer (s : Shelf) : EditResult → Shelf × EditAnswer
  | .tooLong => (s, .tooLong)
  | .unchanged => (s, .done false none)
  | .saved s' copy => (s', .done true copy)

theorem withContent_sameContent (n : Note) (c : Content) :
    (n.withContent c).sameContent n = true ↔ n.withContent c = n := by
  obtain ⟨title, body, pinned, deleted⟩ := c
  unfold Note.sameContent Note.withContent
  cases n
  simp [and_assoc]

theorem editNoteInShelf_content (s : Shelf) (id : String) (loaded : Option Int)
    (change : Content → Content) (now : Int) :
    editNoteInShelf s id loaded (ofContent change) now
      = (editFromInShelf s id loaded change now).toAnswer s := by
  unfold editNoteInShelf editFromInShelf
  cases hbefore : s.notes[id]? with
  | none => rfl
  | some before =>
    have hback : { s with notes := s.notes.insert id before } = s := by
      rw [insert_of_getElem? s.notes hbefore]
    simp only [changedNote_content, versionOf_content]
    by_cases hlong : (decide (maxNoteBytes < (editedContent before change).body.utf8ByteSize) ||
        !(before.withContent (editedContent before change)).fitsOnePacket) = true
    · rw [if_pos hlong]
      refine (if_pos hlong).trans ?_
      rw [hback]
      rfl
    · rw [if_neg hlong]
      refine (if_neg hlong).trans ?_
      split
      · rename_i hsame
        rw [(withContent_sameContent before _).mp hsame, hback]
        rfl
      · split <;> rfl

end DeskLink.Notes
