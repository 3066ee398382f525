import DeskLink.Notes.Edit

/-!
# `DeskLink.Notes.Duplicates`: conflicted copies that say nothing new

`duplicate_copies` and `remove_duplicates_in` of `src/device_links/notes.rs`. A
live copy goes when something that stays says the same: with `everywhere` any
other live note, or the lowest-id one of identical copies; without it only the
note the copy was made from, or an identical copy of the same note.

The copies are deleted as the person would delete them, by an edit, and an edit
can be refused. Each note is edited at most once, so `clock` gives what the clock
reads then for each id. The map of groups is a filter of the live notes, which it
was filled from in key order.
-/

set_option autoImplicit false

namespace DeskLink.Notes

/-- The note a conflicted copy was made from: copies are `<id>~<modified>`. -/
def copyBase (id : String) : Option String :=
  let reversed := id.toList.reverse
  let modified := reversed.takeWhile (· ≠ '~')
  match reversed.dropWhile (· ≠ '~') with
  | [] => none
  | _ :: base =>
    if !base.isEmpty && !modified.isEmpty && modified.all Char.isDigit then
      some (String.ofList base.reverse)
    else none

def Note.isCopy (n : Note) : Bool :=
  (copyBase n.id).isSome && copySuffix.toList.isSuffixOf n.title.toList

/-- The `while` of `content_key`: a title without its copy suffixes. -/
def withoutSuffixes : Nat → List Char → List Char
  | 0, title => title
  | fuel + 1, title =>
    match title.dropSuffix? copySuffix.toList with
    | some rest => withoutSuffixes fuel (trimNote rest)
    | none => title

/-- What a note says, for telling duplicates. -/
def Note.contentKey (n : Note) : String × String :=
  if n.isCopy then (String.ofList (withoutSuffixes n.title.length n.title.toList), n.body)
  else
    let title := trimNote n.title.toList
    (if title.isEmpty then n.label else String.ofList title, n.body)

/-- `other` is no copy, and `copy` goes for it. -/
def Note.isOriginalFor (everywhere : Bool) (copy other : Note) : Bool :=
  !other.isCopy && other.id ≠ copy.id && (everywhere || other.id = (copyBase copy.id).getD "")

/-- `other` is a copy with a lower id, and `copy` goes for it. -/
def Note.isSiblingFor (everywhere : Bool) (copy other : Note) : Bool :=
  other.isCopy && other.id < copy.id &&
    (everywhere || copyBase other.id = some ((copyBase copy.id).getD ""))

namespace Shelf

variable (s : Shelf)

/-- The live notes, in key order. -/
def live : List Note := (s.notes.toList.map Prod.snd).filter (fun n => !n.deleted)

def liveCopies : List Note := s.live.filter Note.isCopy

/-- The live notes that say what `copy` says. Only those are asked whose body is
as long as some copy's. -/
def group (copy : Note) : List Note :=
  s.live.filter (fun n =>
    (s.liveCopies.map (fun copy => copy.body.utf8ByteSize)).contains n.body.utf8ByteSize &&
      n.contentKey == copy.contentKey)

/-- Something that is not itself a copy says it too. -/
def byOriginal (everywhere : Bool) (copy : Note) : Option Note :=
  (s.group copy).find? (Note.isOriginalFor everywhere copy)

/-- An identical copy with a lower id stays. -/
def bySibling (everywhere : Bool) (copy : Note) : Option Note :=
  (s.group copy).find? (Note.isSiblingFor everywhere copy)

def survivorOf (everywhere : Bool) (copy : Note) : Option Note :=
  (s.byOriginal everywhere copy).or (s.bySibling everywhere copy)

/-- Which live copies to delete, each with the note that stays and says the
same. -/
def duplicateCopies (everywhere : Bool) : List (String × String) :=
  s.liveCopies.filterMap (fun copy =>
    (s.survivorOf everywhere copy).map (fun survivor => (copy.id, survivor.id)))

def doomed (everywhere : Bool) : KeyMap String :=
  Std.ExtTreeMap.ofList (s.duplicateCopies everywhere) compare

/-- The survivor may itself be going: follow to what stays. -/
def follow (doomed : KeyMap String) : Nat → String → String
  | 0, stays => stays
  | fuel + 1, stays =>
    match doomed[stays]? with
    | some next => follow doomed fuel next
    | none => stays

def isPinned (id : String) : Bool := s.notes[id]?.any Note.pinned

/-- The notes that a pinned copy leaves its pin to. -/
def toPin (doomed : KeyMap String) : KeySet :=
  doomed.toList.foldl (fun pins entry =>
    let stays := follow doomed doomed.size entry.2
    if s.isPinned entry.1 && !s.isPinned stays then pins.insert stays else pins) {}

end Shelf

def pin (c : Content) : Content := { c with pinned := true }

def delete (c : Content) : Content := { c with deleted := true }

/-- Edits one more note, and lists it if it changed. -/
def editNext (change : Content → Content) (clock : String → Int) (done : Shelf × List String)
    (id : String) : Shelf × List String :=
  match editFromInShelf done.1 id none change (clock id) with
  | .saved s' _ => (s', done.2 ++ [id])
  | _ => done

def editEach (change : Content → Content) (clock : String → Int) (s : Shelf)
    (ids : List String) : Shelf × List String :=
  ids.foldl (editNext change clock) (s, [])

/-- Deletes the copies `duplicateCopies` lists. A pinned copy pins the note that
stays. The ids changed. -/
def removeDuplicatesIn (s : Shelf) (everywhere : Bool) (clock : String → Int) :
    Shelf × List String :=
  let doomed := s.doomed everywhere
  let pinned := editEach pin clock s (s.toPin doomed).toList
  let deleted := editEach delete clock pinned.1 doomed.keys
  (deleted.1, pinned.2 ++ deleted.2)

end DeskLink.Notes
