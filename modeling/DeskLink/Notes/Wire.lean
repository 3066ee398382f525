import DeskLink.Notes.Shelf

/-!
# `DeskLink.Notes.Wire`: the packets and `handle_from`

A `desklink.snippets` or `desklink.notes` packet is an `index`, a
`fetch`, the `items` of its kind, or (notes only) an `ack`. Its JSON
values are the records they parse to; a value that does not parse is
skipped by the source and has no place here.

* `indexPackets` and `itemsPackets` split a list under a byte budget.
* `wanted`: the ids of a peer's index to fetch.
* `handleFrom`: one packet from phone `peer`, and what to send back.
-/

set_option autoImplicit false

namespace DeskLink.Notes

inductive Kind where
  | snippets
  | notes
deriving DecidableEq, Repr

structure IndexEntry where
  id : String
  modified : Int
  deleted : Bool
deriving DecidableEq, Repr

inductive Packet where
  | index (kind : Kind) (items : List IndexEntry)
  | fetch (kind : Kind) (ids : List String)
  | snippetItems (items : List Snippet)
  | noteItems (items : List Note)
  | ack (items : List (String × Int))
deriving DecidableEq, Repr

def IndexEntry.jsonLength (e : IndexEntry) : Nat :=
  jsonGroupLength
    [jsonFieldLength "id" (jsonStringLength e.id),
      jsonFieldLength "modified" (jsonIntLength e.modified),
      jsonFieldLength "deleted" (jsonBoolLength e.deleted)]

/-! ### Splitting -/

section Split
variable {α : Type}

/-- The loop of `index_packets`: a part is closed when the next entry
would take it past `indexBudget`. `part` is the open part, `size` its
bytes. -/
def splitIndex (length : α → Nat) : List α → List α → Nat → List (List α)
  | [], part, _ => [part]
  | entry :: rest, part, size =>
    let cost := length entry + 1
    if indexBudget < size + cost ∧ part ≠ [] then
      part :: splitIndex length rest [entry] cost
    else splitIndex length rest (part ++ [entry]) (size + cost)

/-- The loop of `items_packets`. A value that fits no packet is skipped;
an empty batch is not a packet. -/
def splitItems (length : α → Nat) : List α → List α → Nat → List (List α)
  | [], batch, _ => if batch.isEmpty then [] else [batch]
  | value :: rest, batch, size =>
    let cost := length value + 1
    if maxPacketBytes - packetOverhead < cost then splitItems length rest batch size
    else if maxPacketBytes - packetOverhead < size + cost then
      (if batch.isEmpty then [] else [batch]) ++ splitItems length rest [value] cost
    else splitItems length rest (batch ++ [value]) (size + cost)

/-- `slice::chunks`; `part` is the open chunk. -/
def chunksFrom (n : Nat) : List α → List α → List (List α)
  | [], part => if part.isEmpty then [] else [part]
  | x :: rest, part =>
    if part.length + 1 = n then (part ++ [x]) :: chunksFrom n rest []
    else chunksFrom n rest (part ++ [x])

def chunksOf (n : Nat) (l : List α) : List (List α) := chunksFrom n l []

end Split

def indexEntries (s : Shelf) : Kind → List IndexEntry
  | .snippets => s.snippets.toList.map (fun e => ⟨e.2.id, e.2.modified, e.2.deleted⟩)
  -- A note made with "+" and never written in stays here until its first edit.
  | .notes => ((s.notes.toList.map (·.2)).filter (fun n => !n.isBlankNew)).map
      (fun n => ⟨n.id, n.modified, n.deleted⟩)

/-- The index of `kind` as one or more packets. -/
def indexPackets (s : Shelf) (kind : Kind) : List Packet :=
  (splitIndex IndexEntry.jsonLength (indexEntries s kind) [] 0).map (Packet.index kind)

def snippetPackets (values : List Snippet) : List Packet :=
  (splitItems Snippet.jsonLength values [] 0).map Packet.snippetItems

def notePackets (values : List Note) : List Packet :=
  (splitItems Note.jsonLength values [] 0).map Packet.noteItems

/-- `items_packets(kind, item_values(shelf, kind, ids))`. -/
def itemsPackets (s : Shelf) (kind : Kind) (ids : List String) : List Packet :=
  match kind with
  | .snippets => snippetPackets (ids.filterMap (s.snippets[·]?))
  | .notes => notePackets (ids.filterMap (s.notes[·]?))

/-! ### Handling -/

/-- The ids in a peer's index we should fetch. -/
def wanted (s : Shelf) (kind : Kind) (index : List IndexEntry) : List String :=
  (index.filter (fun e =>
    validId e.id &&
      match kind with
      | .snippets => (s.snippets[e.id]?).all (fun mine => decide (e.modified > mine.modified))
      | .notes => (s.notes[e.id]?).all (fun mine => decide (e.modified ≠ mine.modified)))).map
    (·.id)

/-- Notes `ids` are going to phone `peer`. -/
def sentTo (s : Shelf) (kind : Kind) (ids : List String) (peer : String) : Shelf :=
  if kind ≠ .notes ∨ peer = "" then s
  else ids.foldl (fun s id =>
    match s.notes[id]? with
    | some note => s.recordSent id peer note.modified
    | none => s) s

/-- `acknowledge` for each entry in turn. -/
def acknowledgeAll (s : Shelf) (entries : List (String × Int)) (peer : String) : Shelf × Bool :=
  entries.foldl (fun (s, changed) entry =>
    let (s, moved) := acknowledge s entry.1 entry.2 peer
    (s, changed || moved)) (s, false)

/-- What the loop over an `items` packet carries. -/
structure ItemsState where
  shelf : Shelf
  changed : Bool := false
  sendBack : List String := []
  held : List (String × Int) := []

def takeSnippet (st : ItemsState) (snippet : Snippet) : ItemsState :=
  if !validSnippet snippet then st
  else if !st.shelf.snippets.contains snippet.id
      && decide (st.shelf.snippets.size ≥ maxSnippetEntries) then st
  else
    let older := (st.shelf.snippets[snippet.id]?).any
      (fun mine => decide (mine.modified > snippet.modified))
    let (shelf, taken) := mergeSnippet st.shelf snippet
    if taken then { st with shelf := shelf, changed := true }
    else if older then { st with sendBack := st.sendBack ++ [snippet.id] }
    else st

def takeNote (peer : String) (st : ItemsState) (note : Note) : ItemsState :=
  if !validNote note then st
  -- A new id, or a conflict copy, needs room.
  else if st.shelf.notes.size ≥ maxNoteEntries then st
  else
    match mergeNoteFrom st.shelf note peer with
    | (shelf, .keptOurs) =>
      { st with shelf := shelf, sendBack := st.sendBack ++ [note.id] }
    | (shelf, .same) =>
      { st with shelf := shelf, held := st.held ++ [(note.id, note.modified)] }
    | (shelf, .taken) =>
      { st with
        shelf := shelf, changed := true, held := st.held ++ [(note.id, note.modified)] }
    -- The peer resolves it alike once it has ours.
    | (shelf, .conflict) =>
      { st with shelf := shelf, changed := true, sendBack := st.sendBack ++ [note.id] }

/-- The end of an `items` packet: what lost is sent back, and the sender
is told which of its versions are here now. -/
def answerItems (kind : Kind) (peer : String) (st : ItemsState) : Shelf × List Packet × Bool :=
  let shelf := sentTo st.shelf kind st.sendBack peer
  (shelf, itemsPackets shelf kind st.sendBack ++ (chunksOf fetchIds st.held).map Packet.ack,
    st.changed)

/-- A packet from phone `peer`: the shelf, what to send back, and
whether the shelf changed. -/
def handleFrom (s : Shelf) (packet : Packet) (peer : String) : Shelf × List Packet × Bool :=
  match packet with
  | .index kind items =>
    let index := items.take maxIndexEntries
    -- What the peer lists exactly as we hold it, it holds.
    let (s, changed) := match kind with
      | .notes => acknowledgeAll s (index.map (fun e => (e.id, e.modified))) peer
      | .snippets => (s, false)
    (s, (chunksOf fetchIds (wanted s kind index)).map (Packet.fetch kind), changed)
  | .ack items =>
    let (s, changed) := acknowledgeAll s (items.take maxItemsPerPacket) peer
    (s, [], changed)
  | .fetch kind ids =>
    let ids := ids.take fetchIds
    let s := sentTo s kind ids peer
    (s, itemsPackets s kind ids, false)
  | .snippetItems items =>
    answerItems .snippets peer ((items.take maxItemsPerPacket).foldl takeSnippet { shelf := s })
  | .noteItems items =>
    answerItems .notes peer ((items.take maxItemsPerPacket).foldl (takeNote peer) { shelf := s })

end DeskLink.Notes
