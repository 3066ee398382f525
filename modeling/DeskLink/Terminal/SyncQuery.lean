import DeskLink.Terminal.Ring

/-!
# `DeskLink.Terminal.SyncQuery`: the query that DeskLink answers itself

`SyncQueryFilter` of `pty/session.rs`, and the loop of `spawn_reader` that
feeds it: what is read from the terminal is filtered and shown, and a held
head of a query is released when nothing more comes for a while, and at the
end. Sending the replies is left out but for how many are sent.
-/

set_option autoImplicit false

namespace DeskLink.Terminal

/-- `CSI ? 2026 $ p`. -/
def syncQuery : List UInt8 := [0x1b, 0x5b, 0x3f, 0x32, 0x30, 0x32, 0x36, 0x24, 0x70]

structure SyncQueryFilter where
  held : List UInt8 := []
deriving DecidableEq, Repr

/-- What the loop of `filter` makes of `data[i..]`. -/
structure Scanned where
  out : List UInt8
  found : Nat
  held : List UInt8
deriving DecidableEq, Repr

namespace SyncQueryFilter

/-- The loop of `filter` over `data[i..]`. Each round takes a byte at least,
so the length of the data is fuel enough. -/
def scan : Nat → List UInt8 → Scanned
  | 0, _ => ⟨[], 0, []⟩
  | _ + 1, [] => ⟨[], 0, []⟩
  | fuel + 1, b :: rest =>
    if b ≠ 0x1b then
      let next := scan fuel rest
      { next with out := b :: next.out }
    else if syncQuery.isPrefixOf (b :: rest) then
      let next := scan fuel ((b :: rest).drop syncQuery.length)
      { next with found := next.found + 1 }
    else if (b :: rest).length < syncQuery.length && (b :: rest).isPrefixOf syncQuery then
      -- The head of a query, cut by the end of the read.
      ⟨[], 0, b :: rest⟩
    else
      let next := scan fuel rest
      { next with out := 0x1b :: next.out }

/-- The filter after `input`, the bytes to show, and how many queries were
removed. -/
def filter (f : SyncQueryFilter) (input : List UInt8) :
    SyncQueryFilter × List UInt8 × Nat :=
  let data := f.held ++ input
  let scanned := scan data.length data
  (⟨scanned.held⟩, scanned.out, scanned.found)

def holding (f : SyncQueryFilter) : Bool := f.held != []

/-- The held head of a query, to be shown as output after all. -/
def release (f : SyncQueryFilter) : SyncQueryFilter × List UInt8 := (⟨[]⟩, f.held)

end SyncQueryFilter

/-- What happens to the reader. -/
inductive ReadEvent where
  | read (bytes : List UInt8)
  /-- Nothing came for a while. -/
  | quiet
deriving DecidableEq, Repr

/-- The reader of a terminal: its filter, what it showed and how many
queries it answered. -/
structure Reader where
  queries : SyncQueryFilter := {}
  shown : List UInt8 := []
  asked : Nat := 0
deriving DecidableEq, Repr

namespace Reader

def after (r : Reader) : ReadEvent → Reader
  | .read bytes =>
    let filtered := r.queries.filter bytes
    { queries := filtered.1, shown := r.shown ++ filtered.2.1, asked := r.asked + filtered.2.2 }
  | .quiet =>
    if r.queries.holding then
      { r with queries := r.queries.release.1, shown := r.shown ++ r.queries.release.2 }
    else r

def run (r : Reader) (events : List ReadEvent) : Reader := events.foldl after r

/-- All that is shown when the terminal ends: a held head is output like any
other. -/
def ended (r : Reader) : List UInt8 := r.shown ++ r.queries.release.2

end Reader

/-- The output that the events read. -/
def ReadEvent.stream (events : List ReadEvent) : List UInt8 :=
  events.flatMap (fun event => match event with
    | .read bytes => bytes
    | .quiet => [])

end DeskLink.Terminal
