import DeskLink.Notes.Wire

/-!
# `DeskLink.Notes.Edit`: local changes

`create_in_shelf` and `edit_from_in_shelf`. An edit changes the four
fields a person can change (`Content`). `loaded` is the version the
editor had loaded: when the stored note has moved on since, the stored
version is kept as a conflicted copy.

The clock reading and the new id are arguments.
-/

set_option autoImplicit false

namespace DeskLink.Notes

/-- What a person can change of a note. -/
structure Content where
  title : String
  body : String
  pinned : Bool
  deleted : Bool
deriving DecidableEq, Repr

def Note.content (n : Note) : Content := ⟨n.title, n.body, n.pinned, n.deleted⟩

def Note.withContent (n : Note) (c : Content) : Note :=
  { n with title := c.title, body := c.body, pinned := c.pinned, deleted := c.deleted }

def liveNotes (s : Shelf) : Nat := ((s.notes.toList.map (·.2)).filter (fun n => !n.deleted)).length

/-- A note as `create_in_shelf` makes it. -/
def createdNote (id : String) (now : Int) (body : String) : Note where
  id := id
  title := ""
  body := body
  pinned := false
  created := now
  modified := now
  parent := 0
  ancestors := []
  deleted := false

/-- A new note under the fresh id `id`; refused at `maxNotes` live notes. -/
def createInShelf (s : Shelf) (id : String) (now : Int) (body : String) : Option Shelf :=
  if liveNotes s ≥ maxNotes then none
  else some { s with notes := s.notes.insert id (createdNote id now body) }

/-- What an edit came to. -/
inductive EditResult where
  /-- Refused: the note would be too long. -/
  | tooLong
  /-- Nothing changed. -/
  | unchanged
  /-- Saved; the copy made of an overtaken version, if one was. -/
  | saved (shelf : Shelf) (copy : Option String)

/-- The content the change asks for: text typed over a deleted note
brings it back, and a title is cut to its bound. -/
def editedContent (before : Note) (change : Content → Content) : Content :=
  let c := change before.content
  let revived := before.deleted && c.deleted && !(c.title == "" && c.body == "")
  { c with
    deleted := if revived then false else c.deleted
    title := String.ofList (c.title.toList.take maxNoteTitleChars) }

/-- The version an edit of `before` makes, edited from the version `base`
and keeping the stamps `keep` among its ancestors. A deletion clears the
text. The stamp is strictly later, even within one millisecond. -/
def editedNote (before : Note) (base : Int) (keep : List Int) (c : Content) (now : Int) : Note :=
  { before with
    title := if c.deleted then "" else c.title
    body := if c.deleted then "" else c.body
    pinned := c.pinned
    deleted := c.deleted
    parent := base
    ancestors := ancestorsAfter before keep
    modified := max now (i64SaturatingSucc before.modified) }

/-- The version the person typed over is not the one stored now. -/
def overtaken (before : Note) (loaded : Option Int) : Bool :=
  loaded.any (fun l => l ≠ before.modified && !before.deleted)

def editFromInShelf (s : Shelf) (id : String) (loaded : Option Int)
    (change : Content → Content) (now : Int) : EditResult :=
  match s.notes[id]? with
  | none => .unchanged
  | some before =>
    let c := editedContent before change
    -- The bound on what crosses the wire, escapes included.
    if maxNoteBytes < c.body.utf8ByteSize || !(before.withContent c).fitsOnePacket then .tooLong
    else if (before.withContent c).sameContent before then .unchanged
    else
      let s' := { s with
        notes := s.notes.insert id (editedNote before (s.baseOf id) (s.mustKeep id) c now) }
      -- Never over a copy that is already here.
      if overtaken before loaded && !s'.notes.contains before.copyOf.id then
        .saved (s'.keepCopy before) (some before.copyOf.id)
      else .saved s' none

end DeskLink.Notes
