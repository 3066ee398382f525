import DeskLink.Lib.KeyMap
import DeskLink.Notes.Note

/-!
# `DeskLink.Notes.Shelf`: the shelf, its marks and the merge

`Shelf` of `src/device_links/notes.rs`: the notes and snippets, the
`modified` both sides last had (`synced`), and per note and phone the
version that phone is known to hold (`held`) or was last sent (`sent`).

* `mergeNoteFrom` is N2: what a received note does to the shelf.
* `acknowledge`: a phone took, or listed, a version of ours.
* `mergeSnippet` is S2: the newer snippet wins.
-/

set_option autoImplicit false

namespace DeskLink.Notes

/-- Per note, per phone: a version. -/
abbrev Marks := KeyMap (KeyMap Int)

structure Shelf where
  snippets : KeyMap Snippet := ∅
  notes : KeyMap Note := ∅
  /-- Per note: the `modified` both sides last had. -/
  synced : KeyMap Int := ∅
  /-- Per note, per phone: the version that phone is known to hold. -/
  held : Marks := ∅
  /-- Per note, per phone: the latest version we sent it. -/
  sent : Marks := ∅

/-- The phone with the oldest version, the first such in key order. -/
def oldestPeer (peers : KeyMap Int) : Option String :=
  (peers.toList.foldl (fun best entry =>
    match best with
    | none => some entry
    | some known => if entry.2 < known.2 then some entry else some known) none).map (·.1)

/-- The `while` of `record_peer`: the phones holding the oldest versions
go until at most `maxPeersPerNote` are left. -/
def evictPeers : Nat → KeyMap Int → KeyMap Int
  | 0, peers => peers
  | fuel + 1, peers =>
    if maxPeersPerNote < peers.size then
      match oldestPeer peers with
      | some oldest => evictPeers fuel (peers.erase oldest)
      | none => peers
    else peers

def recordPeer (marks : Marks) (id peer : String) (v : Int) : Marks :=
  if peer = "" then marks
  else
    let peers := (marks.getD id ∅).insert peer v
    marks.insert id (evictPeers peers.size peers)

namespace Shelf

def recordHeld (s : Shelf) (id peer : String) (version : Int) : Shelf :=
  { s with held := recordPeer s.held id peer version }

def recordSent (s : Shelf) (id peer : String) (version : Int) : Shelf :=
  { s with sent := recordPeer s.sent id peer version }

/-- The `parent` of the next edit of `id`: the oldest version a phone is
known to hold, else the version both sides last had. -/
def baseOf (s : Shelf) (id : String) : Int :=
  ((s.held[id]?.bind (fun peers => (peers.toList.map (·.2)).min?)).or s.synced[id]?).getD 0

/-- The versions of `id` that must stay among its ancestors. -/
def mustKeep (s : Shelf) (id : String) : List Int :=
  ((s.held[id]?.map (fun peers => peers.toList.map (·.2))).getD [])
    ++ ((s.sent[id]?.map (fun peers => peers.toList.map (·.2))).getD [])

end Shelf

/-- S2: the newer snippet wins. Whether `incoming` was taken. -/
def mergeSnippet (s : Shelf) (incoming : Snippet) : Shelf × Bool :=
  let taken := ({ s with snippets := s.snippets.insert incoming.id incoming }, true)
  match s.snippets[incoming.id]? with
  | some mine => if mine.modified ≥ incoming.modified then (s, false) else taken
  | none => taken

/-- What a received note did. -/
inductive Merged where
  /-- Ours stays; the peer has an older version. -/
  | keptOurs
  | taken
  /-- Already the same. -/
  | same
  /-- Siblings: both are kept now. -/
  | conflict
deriving DecidableEq, Repr

/-- The incoming version becomes the stored one, and `peer` holds it. -/
def Shelf.take (s : Shelf) (incoming : Note) (peer : String) : Shelf :=
  let s := { s with synced := s.synced.insert incoming.id incoming.modified }
  let s := s.recordHeld incoming.id peer incoming.modified
  { s with notes := s.notes.insert incoming.id incoming }

/-- Which of two siblings keeps the id. -/
def incomingWins (mine incoming : Note) : Bool :=
  if mine.sameContent incoming || mine.deleted != incoming.deleted then
    if mine.deleted != incoming.deleted then
      -- A deletion never beats a concurrent edit.
      mine.deleted
    else decide (incoming.modified > mine.modified)
  else
    decide (incoming.modified > mine.modified ∨
      (incoming.modified = mine.modified ∧ incoming.body > mine.body))

def siblingWinner (mine incoming : Note) : Note :=
  if incomingWins mine incoming then incoming else mine

def siblingLoser (mine incoming : Note) : Note :=
  if incomingWins mine incoming then mine else incoming

/-- Both siblings say something, and not the same: the loser is kept. -/
def inConflict (winner loser : Note) : Bool :=
  !winner.sameContent loser && !winner.deleted && !loser.deleted

/-- A copy of `loser` is to be made: there is a conflict, and the copy is
not already here (as it was, edited or deleted). -/
def makesCopy (s : Shelf) (mine incoming : Note) : Bool :=
  inConflict (siblingWinner mine incoming) (siblingLoser mine incoming)
    && !s.notes.contains (siblingLoser mine incoming).copyOf.id

/-- The copy of `loser` is put on the shelf. -/
def Shelf.keepCopy (s : Shelf) (loser : Note) : Shelf :=
  { s with
    synced := s.synced.insert loser.copyOf.id loser.copyOf.modified
    notes := s.notes.insert loser.copyOf.id loser.copyOf }

/-- The sibling half of `merge_note_from`: the winner keeps the id, the
loser is kept as a copy unless that copy is already here. -/
def mergeSiblings (s : Shelf) (mine incoming : Note) (peer : String) : Shelf × Merged :=
  let wins := incomingWins mine incoming
  let winner := siblingWinner mine incoming
  let fresh := makesCopy s mine incoming
  if !wins && !fresh then (s, .keptOurs)
  else
    let s := if fresh then s.keepCopy (siblingLoser mine incoming) else s
    let s := { s with synced := s.synced.insert winner.id winner.modified }
    let s := if wins then s.recordHeld winner.id peer incoming.modified else s
    ({ s with notes := s.notes.insert winner.id winner }, if fresh then .conflict else .taken)

/-- N2: `incoming` came from phone `peer` (empty: unknown), which
therefore holds it. -/
def mergeNoteFrom (s : Shelf) (incoming : Note) (peer : String) : Shelf × Merged :=
  match s.notes[incoming.id]? with
  | none => (s.take incoming peer, .taken)
  | some mine =>
    if mine.modified = incoming.modified ∧ mine.sameContent incoming then
      let s := { s with synced := s.synced.insert mine.id mine.modified }
      (s.recordHeld mine.id peer mine.modified, .same)
    -- Edited from what we hold (directly, or some edits ago).
    else if incoming.names mine.modified then (s.take incoming peer, .taken)
    -- Its version is an ancestor of ours: that phone holds it.
    else if mine.names incoming.modified then
      (s.recordHeld mine.id peer incoming.modified, .keptOurs)
    else mergeSiblings s mine incoming peer

/-- The place of `version` in `chain`; `none` stands for `usize::MAX`. -/
def positionIn (chain : List Int) (version : Option Int) : Option Nat :=
  version.bind (fun v => chain.findIdx? (· == v))

/-- `at < position`, with `none` as `usize::MAX`. -/
def isBefore (place : Nat) : Option Nat → Bool
  | some known => place < known
  | none => true

/-- Phone `peer` holds `modified` of note `id`. Whether anything moved. -/
def acknowledge (s : Shelf) (id : String) (modified : Int) (peer : String) : Shelf × Bool :=
  match s.notes[id]? with
  | none => (s, false)
  | some note =>
    match note.chain.findIdx? (· == modified) with
    | none => (s, false)
    | some place =>
      let syncs := isBefore place (positionIn note.chain s.synced[id]?)
      let holds := peer ≠ "" &&
        isBefore place (positionIn note.chain (s.held[id]?.bind (·[peer]?)))
      let s := if syncs then { s with synced := s.synced.insert id modified } else s
      let s := if holds then s.recordHeld id peer modified else s
      (s, syncs || holds)

end DeskLink.Notes
