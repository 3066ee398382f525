import DeskLink.Lib.Run
import DeskLink.Notes.Edit

/-!
# `DeskLink.Notes.World`: a desk shelf and a phone shelf

Two shelves running the same code, and the packets on their way to each
(`World` of `src/device_links/notes/sync_scenarios.rs`, with the packets
in flight made explicit). A packet is handled when it is first in the
inbox of its side, so packets are delivered in order; any of them may be
lost.

`log` is not read by any step: it lists the versions people made, by
`create` and by saved edits, each edit with the version it replaced, the
version its editor had loaded, and whether a copy of the replaced version
is on the shelf then. A clock reads a time after 1970 that fits an `i64`.
-/

set_option autoImplicit false

namespace DeskLink.Notes

inductive Side where
  | desk
  | phone
deriving DecidableEq, Repr

namespace Side

/-- The id the other side knows this one by. -/
def id : Side → String
  | desk => "desk"
  | phone => "phone"

def other : Side → Side
  | desk => phone
  | phone => desk

@[simp] theorem other_other (side : Side) : side.other.other = side := by cases side <;> rfl

@[simp] theorem other_ne (side : Side) : side.other ≠ side := by cases side <;> decide

@[simp] theorem ne_other (side : Side) : side ≠ side.other := (other_ne side).symm

theorem eq_or_eq_other (side t : Side) : t = side ∨ t = side.other := by
  cases side <;> cases t <;> simp [other]

@[simp] theorem id_ne_empty (side : Side) : side.id ≠ "" := by cases side <;> decide

end Side

/-- A version a person made. -/
inductive Made where
  | created (side : Side) (note : Note)
  | saved (side : Side) (before : Note) (loaded : Option Int) (after : Note) (kept : Bool)
deriving DecidableEq, Repr

/-- The version itself. -/
def Made.note : Made → Note
  | .created _ note => note
  | .saved _ _ _ after _ => after

structure World where
  shelf : Side → Shelf
  /-- The packets on their way to each side, oldest first. -/
  inbox : Side → List Packet
  log : List Made

namespace World

def empty : World := ⟨fun _ => {}, fun _ => [], []⟩

def setShelf (w : World) (side : Side) (s : Shelf) : World :=
  { w with shelf := Function.update w.shelf side s }

def setInbox (w : World) (side : Side) (packets : List Packet) : World :=
  { w with inbox := Function.update w.inbox side packets }

/-- `packets` leave for the other side. -/
def post (w : World) (side : Side) (packets : List Packet) : World :=
  w.setInbox side.other (w.inbox side.other ++ packets)

def record (w : World) (made : Made) : World := { w with log := made :: w.log }

end World

inductive Action where
  | create (side : Side) (id : String) (now : Int) (body : String)
  | edit (side : Side) (id : String) (loaded : Option Int) (change : Content → Content)
      (now : Int)
  /-- The current notes `ids` go to the peer. -/
  | push (side : Side) (ids : List String)
  /-- The whole index goes to the peer. -/
  | sendIndex (side : Side)
  /-- The first packet on its way to `side` is handled there. -/
  | deliver (side : Side)
  /-- A packet on its way to `side` is lost. -/
  | lose (side : Side) (place : Nat)

/-- A fresh v4 uuid: no `~` in it, and no note had it before. -/
def freshId (w : World) (id : String) : Bool :=
  !id.toList.contains '~' && !w.log.any (fun made => made.note.id == id)

/-- What `now_ms` reads. -/
def clockReads (now : Int) : Bool := decide (0 < now) && decide (now ≤ i64Max)

/-- `push` sends only notes somebody wrote in. -/
def pushable (s : Shelf) (ids : List String) : Bool :=
  ids.all (fun id => (s.notes[id]?).all (fun n => !n.isBlankNew))

def deliver (w : World) (side : Side) : Option World :=
  match w.inbox side with
  | [] => none
  | packet :: rest =>
    let (s, answers, _) := handleFrom (w.shelf side) packet side.other.id
    some (((w.setInbox side rest).setShelf side s).post side answers)

/-- What delivering does: the first packet is handled, the rest stays, and
the answers go to the end of the other inbox. -/
theorem deliver_cases {w w' : World} {side : Side} (h : deliver w side = some w') :
    ∃ packet rest, w.inbox side = packet :: rest ∧ w'.inbox side = rest ∧
      w'.shelf side = (handleFrom (w.shelf side) packet side.other.id).1 ∧
      w'.shelf side.other = w.shelf side.other ∧
      w'.inbox side.other
        = w.inbox side.other ++ (handleFrom (w.shelf side) packet side.other.id).2.1 ∧
      w'.log = w.log := by
  unfold deliver at h
  split at h
  · cases h
  · rename_i packet rest hinbox
    refine ⟨packet, rest, hinbox, ?_⟩
    generalize handleFrom (w.shelf side) packet side.other.id = handled at h ⊢
    rw [← Option.some.inj h]
    simp [World.post, World.setInbox, World.setShelf]

def step (w : World) : Action → Option World
  | .create side id now body =>
    if freshId w id && clockReads now then
      (createInShelf (w.shelf side) id now body).map (fun s =>
        (w.setShelf side s).record (.created side (createdNote id now body)))
    else none
  | .edit side id loaded change now =>
    match (w.shelf side).notes[id]? with
    | none => none
    | some before =>
      match editFromInShelf (w.shelf side) id loaded change now with
      | .saved s _ =>
        if clockReads now then
          (s.notes[id]?).map (fun after =>
            (w.setShelf side s).record
              (.saved side before loaded after (s.notes.contains before.copyOf.id)))
        else none
      | .tooLong | .unchanged => none
  | .push side ids =>
    if pushable (w.shelf side) ids then
      some ((w.setShelf side (sentTo (w.shelf side) .notes ids side.other.id)).post side
        (itemsPackets (w.shelf side) .notes ids))
    else none
  | .sendIndex side => some (w.post side (indexPackets (w.shelf side) .notes))
  | .deliver side => deliver w side
  | .lose side place =>
    if place < (w.inbox side).length then
      some (w.setInbox side ((w.inbox side).eraseIdx place))
    else none

/-- The world after `actions` from the empty one. -/
def runWorld (actions : List Action) : Option World := Lib.runFrom step World.empty actions

end DeskLink.Notes
