import DeskLink.Lib.KeyMap

/-!
# `DeskLink.Desk.Dnd`: Do Not Disturb shared with the phones

`src/device_links/dnd.rs`. `Engine.onPhone` takes a phone's report. `Engine.look` decides
whether the desk is to be in Do Not Disturb for a phone, and lists the writes to the
banner setting and to the note that it makes, in their order. `Engine.quit` and
`repairAfterCrash` put the setting back.

`World.step` plays reports, looks, the person's changes and ends. A crash comes after any
number of the writes, also of those that repair.

Times are nanoseconds.
-/

set_option autoImplicit false

namespace DeskLink.Dnd

/-- A phone out of the feature-ready state this long no longer counts. -/
def goneAfter : Nat := 60 * 1000000000

/-! ### The engine -/

structure Phone where
  /-- Its Do Not Disturb, as last reported. -/
  dnd : Option Bool := none
  unreadySince : Option Nat := none
  /-- It is in Do Not Disturb because the desk said so. -/
  follow : Bool := false
deriving DecidableEq, Repr

def Phone.active (phone : Phone) (now : Nat) : Bool :=
  phone.unreadySince.all (fun since => now - since < goneAfter)

structure Outcome where
  /-- This desk's Do Not Disturb changed: tell the phones. -/
  deskChanged : Option Bool := none
  error : Option String := none
deriving DecidableEq, Repr

/-- A write to the banner setting or to the note for a crash. -/
inductive Write where
  | setShown (shown : Bool)
  | save (previousShown writtenShown : Bool)
  | clear
deriving DecidableEq, Repr

structure Engine where
  phones : KeyMap Phone := ∅
  /-- The phone whose Do Not Disturb the desk is following. -/
  owner : Option String := none
  /-- The banners value from before DeskLink first changed it. -/
  previous : Option Bool := none
  /-- The banners value DeskLink last wrote and still owns. -/
  written : Option Bool := none
  applied : Bool := false
  /-- The desk's Do Not Disturb as last told to the phones. -/
  told : Option Bool := none

/-- A phone's report of `dnd` on top of what is known of it. -/
def Phone.reported (phone : Phone) (dnd : Option Bool) : Phone :=
  { phone with
    dnd := dnd.or phone.dnd
    follow := if dnd = some false then false else phone.follow }

/-- A phone that a look finds ready or not. Back after being given up on, what it said is
stale. -/
def Phone.seen (phone : Phone) (now : Nat) (ready : Bool) : Phone :=
  if ready then
    if phone.unreadySince.any (fun since => goneAfter ≤ now - since) then
      { dnd := none, unreadySince := none, follow := false }
    else { phone with unreadySince := none }
  else { phone with unreadySince := some (phone.unreadySince.getD now) }

/-- The sharing phones, each known and seen. -/
def refresh (now : Nat) (shared ready : KeySet) (phones : KeyMap Phone) : KeyMap Phone :=
  let phones := phones.filter (fun id _ => shared.contains id)
  let phones := shared.toList.foldl (fun phones id => phones.insertIfNew id {}) phones
  phones.map (fun id phone => phone.seen now (ready.contains id))

/-- The phone is there and in Do Not Disturb. -/
def Phone.on (phone : Phone) (now : Nat) : Bool := phone.active now && phone.dnd = some true

/-- The owner while it holds, else the first phone that put itself there. -/
def nextOwner (phones : KeyMap Phone) (now : Nat) (owner : Option String) : Option String :=
  match owner.filter (fun owner => phones[owner]?.any (fun phone => phone.on now)) with
  | some owner => some owner
  | none =>
    ((phones.toList.filter (fun entry => entry.2.on now && !entry.2.follow)).head?).map Prod.fst

namespace Engine

def onPhone (e : Engine) (id : String) (dnd : Option Bool) : Engine :=
  { e with phones := e.phones.insert id ((e.phones[id]?.getD {}).reported dnd) }

/-- The person changed what DeskLink wrote: it is theirs now. -/
def notice (e : Engine) (shown : Bool) : Engine × List Write :=
  if e.written.any (fun written => shown ≠ written) then
    ({ e with written := none, previous := none }, [.clear])
  else (e, [])

/-- What a change of `applied` does: the engine, the writes, and what went wrong. -/
def share (e : Engine) (shown : Bool) (saving : Except String Unit) :
    Engine × List Write × Option String :=
  if e.owner.isSome = e.applied then (e, [], none)
  else if e.owner.isSome then
    let e := { e with
      applied := true
      phones := e.phones.map (fun id phone => { phone with follow := some id ≠ e.owner }) }
    if shown then
      let previous := e.previous.getD shown
      match saving with
      | .ok () =>
        ({ e with previous := some previous, written := some false },
          [.save previous false, .setShown false], none)
      | .error error =>
        (e, [], some ("Could not share Do Not Disturb (the safety note could not be written: "
          ++ error ++ "); banners were left as they are"))
    else (e, [], none)
  else if e.written.isSome then
    ({ e with applied := false, written := none, previous := none },
      [.setShown (e.previous.getD true), .clear], none)
  else ({ e with applied := false }, [], none)

/-- What the phones should be told. `changed` says that DeskLink wrote the setting. -/
def tell (e : Engine) (shown changed : Bool) : Engine × Option Bool :=
  if e.told ≠ some (!shown) then
    ({ e with told := some (!shown) }, if e.told.isSome || changed then some (!shown) else none)
  else (e, if changed then some (!shown) else none)

/-- The setting after some writes. -/
def shownAfter (shown : Bool) (writes : List Write) : Bool :=
  writes.foldl (fun shown write =>
    match write with
    | .setShown shown => shown
    | .save _ _ | .clear => shown) shown

/-- One look. `shown` is the setting, `none` on a desktop without it, and `saving` what
comes of writing the note. -/
def look (e : Engine) (now : Nat) (shared ready : KeySet) (shown : Option Bool)
    (saving : Except String Unit) : Engine × List Write × Outcome :=
  match shown with
  | none => (e, [], {})
  | some shown =>
    let phones := refresh now shared ready e.phones
    let (e, cleared) := { e with phones }.notice shown
    let (e, writes, error) := { e with owner := nextOwner phones now e.owner }.share shown saving
    let (e, deskChanged) := e.tell (shownAfter shown writes) (!writes.isEmpty)
    (e, cleared ++ writes, { deskChanged, error })

/-- DeskLink quits: what it changed is put back, if it is still as it left it. -/
def quit (e : Engine) (shown : Option Bool) : Engine × List Write :=
  match e.written with
  | none => (e, [])
  | some written =>
    if shown = some written then
      ({ e with written := none, previous := none, applied := false, owner := none },
        [.setShown (e.previous.getD true), .clear])
    else ({ e with written := none, applied := false, owner := none }, [.clear])

end Engine

/-- At start: what an earlier run changed is put back, if it is still as it left it. -/
def repairAfterCrash (shown : Option Bool) (note : Option (Bool × Bool)) : List Write :=
  match note with
  | none => []
  | some (previous, written) =>
    (if shown = some written then [.setShown previous] else []) ++ [.clear]

/-! ### The desk and the person -/

/-- The banner setting, and the note on disk. -/
structure Desk where
  shown : Bool
  note : Option (Bool × Bool) := none
deriving DecidableEq, Repr

def Desk.apply (desk : Desk) : Write → Desk
  | .setShown shown => { desk with shown }
  | .save previous written => { desk with note := some (previous, written) }
  | .clear => { desk with note := none }

/-- The desk after the writes. -/
def Desk.after (desk : Desk) (writes : List Write) : Desk := writes.foldl Desk.apply desk

structure Look where
  now : Nat
  shared : KeySet
  ready : KeySet
  saving : Except String Unit

structure World where
  engine : Engine := {}
  desk : Desk
  /-- The value that the person last gave the setting. -/
  person : Bool
  /-- The person changed the setting since the last look. -/
  unseen : Bool := false
  /-- The phone turned Do Not Disturb on by itself, and has not reported it off since. -/
  own : String → Bool := fun _ => false
  /-- It has newly reported it on since the last look. -/
  fresh : String → Bool := fun _ => false
  clock : Nat := 0

/-- What a crash interrupts. -/
inductive During where
  | nothing
  | look (look : Look)
  | quit

inductive DndStep where
  /-- A report. `itself` says that the phone turned Do Not Disturb on by itself, and does
  not copy the desk's. -/
  | report (id : String) (dnd : Option Bool) (itself : Bool)
  | look (look : Look)
  /-- The person changes the setting. -/
  | change
  | quit
  /-- A crash after so many of the writes, the next start's repair cut short after so many
  of its own, and the repair of the start after that. -/
  | crash (during : During) (done repaired : Nat)

namespace World

/-- The writes of a look or of the quit. -/
def writes (w : World) : During → List Write
  | .nothing => []
  | .look l => (w.engine.look l.now l.shared l.ready (some w.desk.shown) l.saving).2.1
  | .quit => (w.engine.quit (some w.desk.shown)).2

def repaired (desk : Desk) : Desk := desk.after (repairAfterCrash (some desk.shown) desk.note)

/-- The desk after a crash and the repair. -/
def crashed (w : World) (during : During) (done repairs : Nat) : Desk :=
  let desk := w.desk.after ((w.writes during).take done)
  let desk := desk.after ((repairAfterCrash (some desk.shown) desk.note).take repairs)
  repaired desk

/-- DeskLink starts anew. -/
def restarted (w : World) (desk : Desk) : World :=
  { w with engine := {}, desk, own := fun _ => false, fresh := fun _ => false }

def step (w : World) : DndStep → Option World
  | .report id dnd itself =>
    let before := (w.engine.phones[id]?.bind Phone.dnd) = some true
    some { w with
      engine := w.engine.onPhone id dnd
      own :=
        if dnd = some true then Function.update w.own id (itself || (before && w.own id))
        else if dnd = some false then Function.update w.own id false
        else w.own
      fresh :=
        if dnd = some true ∧ !before then Function.update w.fresh id true
        else if dnd = some false then Function.update w.fresh id false
        else w.fresh }
  | .look l =>
    if w.clock ≤ l.now then
      some { w with
        engine := (w.engine.look l.now l.shared l.ready (some w.desk.shown) l.saving).1
        desk := w.desk.after (w.writes (.look l))
        unseen := false
        fresh := fun _ => false
        clock := l.now }
    else none
  | .change =>
    if w.unseen then none
    else some { w with desk := { w.desk with shown := !w.desk.shown }
                       person := !w.desk.shown
                       unseen := true }
  | .quit => some (w.restarted (w.desk.after (w.writes .quit)))
  | .crash during done repairs => some (w.restarted (w.crashed during done repairs))

/-- DeskLink starts, with nothing left to repair. -/
def start (shown : Bool) : World := { desk := { shown }, person := shown }

end World

end DeskLink.Dnd
