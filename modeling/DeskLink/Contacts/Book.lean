import DeskLink.Lib.IdMap
import DeskLink.Lib.KeyMap
import DeskLink.Notes.Note

/-!
# `DeskLink.Contacts.Book`: the phone's contacts on this computer

`contacts.rs`: the snapshots of a phone (K1), which may come in parts, what
one changes in the phone's book, and the vCards that are asked for and come.
A phone sends a snapshot of all its contacts, and those it does not list are
deleted.

A packet is its body. Of an array there is what `as_str` gives of its items,
and of a number its text and what `as_i64` gives. Instants are nanoseconds.
`parse_vcard` is the parameter `parse`. Saving a book is left out.
-/

set_option autoImplicit false

namespace DeskLink.Contacts

open Notes (jsonStringLength)

/-- More contacts than anyone keeps. -/
def maxContacts : Nat := 20000
/-- The uids asked for in one request. -/
def uidsPerRequest : Nat := 200
def maxUidBytes : Nat := 256
def maxVcardBytes : Nat := 256 * 1024
/-- Photos kept per phone in all. -/
def maxPhotosTotalBytes : Nat := 16 * 1024 * 1024
/-- Parts one snapshot may come in. -/
def maxSnapshotParts : Nat := 64
/-- A snapshot not complete this long after its first part is dropped. -/
def snapshotTimeout : Nat := 30 * 10 ^ 9
def maxSnapshotIdChars : Nat := 128
/-- What fits one data-channel message, `MAX_FEATURE_PACKET_BYTES`. -/
def maxFeaturePacketBytes : Nat := 40 * 1024

/-! ### Packets -/

inductive Value where
  | str (text : String)
  | num (text : String) (asI64 : Option Int)
  | bool (value : Bool)
  | arr (items : List (Option String))
  | other
deriving DecidableEq, Repr

structure Packet where
  body : KeyMap Value

namespace Packet

def getStr (packet : Packet) (key : String) : Option String :=
  match packet.body[key]? with
  | some (.str text) => some text
  | _ => none

def getI64 (packet : Packet) (key : String) : Option Int :=
  match packet.body[key]? with
  | some (.num _ asI64) => asI64
  | _ => none

def getBool (packet : Packet) (key : String) : Option Bool :=
  match packet.body[key]? with
  | some (.bool value) => some value
  | _ => none

/-- The texts in the array `uids`, if there is one. -/
def uids (packet : Packet) : Option (List String) :=
  match packet.body["uids"]? with
  | some (.arr items) => some (items.filterMap id)
  | _ => none

end Packet

/-! ### Snapshots -/

def validUid (uid : String) : Bool :=
  uid != "" && uid.utf8ByteSize ≤ maxUidBytes && !uid.toList.any Lib.isControl

/-- The timestamp a snapshot gives for a uid. -/
def stampOf (packet : Packet) (uid : String) : String :=
  match packet.body[uid]? with
  | some (.str stamp) => String.ofList (stamp.toList.take 32)
  | some (.num text _) => text
  | _ => ""

/-- `collect` into a map: the last of two entries for one key is kept. -/
def collect {V : Type} (entries : List (String × V)) : KeyMap V :=
  entries.foldl (fun m e => m.insert e.1 e.2) ∅

/-- A snapshot: the timestamp of each uid, and whether the phone shares. -/
def parseSnapshot (packet : Packet) : Option (KeyMap String × Bool) :=
  packet.uids.map (fun uids =>
    (collect (((uids.filter validUid).take maxContacts).map (fun uid => (uid, stampOf packet uid))),
      (packet.getBool "sharing").getD true))

/-- A snapshot being put together. -/
structure Pending where
  id : String
  parts : Nat
  got : IdMap (KeyMap String)
  uids : Nat
  started : Nat

/-- The id, the number and the total of a part, when they are in range. -/
def partNumbers (packet : Packet) : Option (String × Nat × Nat) :=
  match packet.getStr "snapshot", packet.getI64 "part", packet.getI64 "parts" with
  | some id, some part, some parts =>
    if part < 0 ∨ parts < 0 then none
    else if id = "" ∨ maxSnapshotIdChars < id.length
        ∨ ¬(1 ≤ parts.toNat ∧ parts.toNat ≤ maxSnapshotParts)
        ∨ ¬(1 ≤ part.toNat ∧ part.toNat ≤ parts.toNat) then none
    else some (id, part.toNat, parts.toNat)
  | _, _, _ => none

/-- Another snapshot is pending, or this one for too long. -/
def Pending.stale (known : Pending) (id : String) (parts now : Nat) : Bool :=
  known.id != id || known.parts != parts || snapshotTimeout < now - known.started

/-- The maps of the parts, in the order of their numbers, in one. -/
def Pending.union (done : Pending) : KeyMap String :=
  collect (done.got.toList.flatMap (fun e => e.2.toList))

/-- The end of `assemble`: the snapshot is complete, or still pending. -/
def settle (pending : KeyMap Pending) (deviceId : String) (entry : Pending) :
    KeyMap Pending × Option (KeyMap String × Bool) :=
  if entry.got.size ≠ entry.parts then (pending.insert deviceId entry, none)
  else (pending.erase deviceId, some (entry.union, true))

/-- A part is put to those that are there. -/
def place (pending : KeyMap Pending) (deviceId id : String) (part parts : Nat)
    (stamps : KeyMap String) (now : Nat) : KeyMap Pending × Option (KeyMap String × Bool) :=
  let entry := ((pending[deviceId]?).filter (fun known => !known.stale id parts now)).getD
    { id, parts, got := ∅, uids := 0, started := now }
  if entry.got.contains part then settle pending deviceId entry
  else
    let uids := entry.uids + stamps.size
    if maxContacts < uids then (pending.erase deviceId, none)
    else settle pending deviceId { entry with uids, got := entry.got.insert part stamps }

/-- One packet for `deviceId`: the complete snapshot once every part of it is
here. A packet without the three fields is a whole snapshot. -/
def assemble (pending : KeyMap Pending) (deviceId : String) (packet : Packet) (now : Nat) :
    KeyMap Pending × Option (KeyMap String × Bool) :=
  match parseSnapshot packet with
  | none => (pending, none)
  | some (stamps, sharing) =>
    if !sharing || ((packet.getStr "snapshot").isNone && (packet.getI64 "part").isNone
        && (packet.getI64 "parts").isNone) then
      (pending.erase deviceId, some (stamps, sharing))
    else
      match partNumbers packet with
      | none => (pending, none)
      | some (id, part, parts) => place pending deviceId id part parts stamps now

/-! ### The book -/

structure Phone where
  kind : String
  number : String
deriving DecidableEq, Repr

structure Contact where
  uid : String
  name : String
  phones : List Phone := []
  emails : List String := []
  org : Option String := none
  note : Option String := none
  /-- The JPEG thumbnail, base64. -/
  photo : Option String := none
deriving DecidableEq, Repr

/-- One phone's cache. -/
structure Book where
  contacts : KeyMap Contact := ∅
  /-- The phone's timestamp of each cached vCard. -/
  stamps : KeyMap String := ∅
  /-- Asked for, not yet received. -/
  wanted : KeyMap String := ∅

/-- Whether the book has this contact as the snapshot lists it. -/
def Book.isCurrent (book : Book) (uid stamp : String) : Bool :=
  book.contacts.contains uid && (book.stamps[uid]?).any (· == stamp)

/-- The contacts that the snapshot lists. -/
def Book.keep (book : Book) (snapshot : KeyMap String) : Book where
  contacts := book.contacts.filter (fun uid _ => snapshot.contains uid)
  stamps := book.stamps.filter (fun uid _ => snapshot.contains uid)
  wanted := ∅

/-- One entry of the snapshot: it is asked for unless it is current. -/
def askFor (state : Book × List String) (entry : String × String) : Book × List String :=
  if state.1.isCurrent entry.1 entry.2 then state
  else ({ state.1 with wanted := state.1.wanted.insert entry.1 entry.2 }, state.2 ++ [entry.1])

/-- What a snapshot changes in the book, and the uids to ask for. -/
def applySnapshot (book : Book) (snapshot : KeyMap String) : Book × List String :=
  snapshot.toList.foldl askFor (book.keep snapshot, [])

/-- The loop of `vcard_requests`: `chunk` is what the next request has. -/
def requestChunks : List String → Nat → List String → List (List String)
  | chunk, _, [] => if chunk = [] then [] else [chunk]
  | chunk, size, uid :: uids =>
    -- Quoted and escaped, with its comma.
    let length := jsonStringLength uid + 1
    if uidsPerRequest ≤ chunk.length ∨ maxFeaturePacketBytes - 256 < size + length then
      (if chunk = [] then [] else [chunk]) ++ requestChunks [uid] length uids
    else requestChunks (chunk ++ [uid]) (size + length) uids

/-- The `uids` of the requests for them. -/
def vcardRequests (uids : List String) : List (List String) := requestChunks [] 0 uids

section
variable (parse : String → String → Option Contact)

/-- The bytes of a contact's photo. -/
def Contact.photoSize (contact : Contact) : Nat := (contact.photo.map String.utf8ByteSize).getD 0

/-- A loop state of `apply_vcards`. -/
structure Applying where
  book : Book
  photos : Nat
  changed : Bool

/-- One uid of a reply: only one that was asked for. -/
def applyVcard (packet : Packet) (state : Applying) (uid : String) : Applying :=
  match state.book.wanted[uid]? with
  | none => state
  | some stamp =>
    let book := { state.book with wanted := state.book.wanted.erase uid }
    match (packet.getStr uid).filter (fun card => card.utf8ByteSize ≤ maxVcardBytes) with
    | none => { state with book }
    | some card =>
      match parse uid card with
      | none => { state with book }
      | some contact =>
        let replaced := ((book.contacts[uid]?).map Contact.photoSize).getD 0
        let contact :=
          if maxPhotosTotalBytes < state.photos - replaced + contact.photoSize then
            { contact with photo := none }
          else contact
        { book := { book with
            contacts := book.contacts.insert uid contact
            stamps := book.stamps.insert uid stamp }
          photos := state.photos - replaced + contact.photoSize
          changed := true }

/-- A reply into the book, and whether anything changed. -/
def applyVcards (book : Book) (packet : Packet) : Book × Bool :=
  match packet.uids with
  | none => (book, false)
  | some uids =>
    let photos := (book.contacts.toList.map (fun e => e.2.photoSize)).sum
    let done := uids.foldl (applyVcard parse packet) ⟨book, photos, false⟩
    (done.book, done.changed)

end

end DeskLink.Contacts
