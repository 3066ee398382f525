import DeskLink.Lib.KeyMap
import DeskLink.Lib.Trim

/-!
# `DeskLink.Desk.Notifications`: this computer's notifications on the phones

`src/device_links/desk_notifications.rs`. `observe` reads one message of the session bus:
a `Notify` call or its reply, a closing, a GTK notification added or removed. It changes
the list of open notifications and sends the phones what changed. `closeFromPhone` is the
dismissal on a phone.

`Mirror` is the desk with the phones: each holds what the packets sent to it say.
-/

set_option autoImplicit false

namespace DeskLink.DeskNotifications

def appId : String := "derx06.desklink.com"
def idPrefix : String := "desk:"

/-- Notifications kept. The oldest goes first. -/
def kept : Nat := 50
def maxTitle : Nat := 256
def maxText : Nat := 4096

/-- Who closes a notification here. -/
inductive Origin where
  /-- `org.freedesktop.Notifications`, with the server's id once its reply is seen (0
  before). -/
  | fdo (sender : String) (serverId : Nat)
  /-- `org.gtk.Notifications`, with the app and its own id. -/
  | gtk (appId : String) (id : String)
deriving DecidableEq, Repr

structure DeskNote where
  id : String
  /-- What the allowlist is keyed by. -/
  appKey : String
  appName : String
  title : String
  text : String
  time : Int
  origin : Origin
deriving DecidableEq, Repr

structure State where
  notes : List DeskNote := []
  next : Nat := 0
  /-- `Notify` calls that wait for their reply: sender and serial, with the desk's id. -/
  pending : List ((String × Nat) × String) := []
  /-- Apps seen since the start. -/
  seen : KeyMap String := ∅

/-! ### Reading the two notification calls -/

def stripTags : Bool → List Char → List Char
  | _, [] => []
  | inTag, c :: text =>
    if c = '<' then stripTags true text
    else if c = '>' ∧ inTag = true then stripTags false text
    else if inTag then stripTags inTag text
    else c :: stripTags inTag text

/-- `str::replace`, with the number of characters of a match still to skip. -/
def replaceAll (mark into : List Char) : Nat → List Char → List Char
  | _, [] => []
  | skip + 1, _ :: text => replaceAll mark into skip text
  | 0, c :: text =>
    if mark.isPrefixOf (c :: text) then into ++ replaceAll mark into (mark.length - 1) text
    else c :: replaceAll mark into 0 text

/-- Plain text: markup and entities removed, capped. -/
def plain (text : String) (max : Nat) : String :=
  let out := stripTags false text.toList
  let out := replaceAll "&lt;".toList "<".toList 0 out
  let out := replaceAll "&gt;".toList ">".toList 0 out
  let out := replaceAll "&quot;".toList "\"".toList 0 out
  let out := replaceAll "&apos;".toList "'".toList 0 out
  let out := replaceAll "&amp;".toList "&".toList 0 out
  String.ofList ((Lib.trim out).take max)

def eqIgnoreAsciiCase (a b : String) : Bool := a.toList.map Char.toLower == b.toList.map Char.toLower

/-- DeskLink's own notification, which is never sent to the phone. -/
def isOurs (appKey appName : String) : Bool :=
  appKey == appId || eqIgnoreAsciiCase appName "DeskLink"

/-- The arguments of `Notify`, each where it has its type. -/
structure NotifyArgs where
  appName : Option String
  replaces : Option Nat
  summary : Option String
  body : Option String
  /-- The `transient` hint. -/
  transient : Option Bool
  /-- The `desktop-entry` hint. -/
  desktopEntry : Option String

def fromNotify (args : NotifyArgs) (sender : String) (now : Int) : Option (DeskNote × Nat) := do
  let appName ← args.appName
  let replaces ← args.replaces
  let title := plain (← args.summary) maxTitle
  let text := plain (← args.body) maxText
  if args.transient = some true then none
  else
    let appKey := (args.desktopEntry.filter (fun entry => !entry.isEmpty)).getD appName
    if isOurs appKey appName || (title.isEmpty && text.isEmpty) then none
    else
      let appName := if appName.isEmpty then appKey else appName
      some ({ id := "", appKey, appName, title, text, time := now, origin := .fdo sender replaces },
        replaces)

/-- The arguments of `AddNotification`. -/
structure AddArgs where
  appId : Option String
  id : Option String
  title : Option String
  body : Option String

/-- `nameOf` reads an installed app's name. -/
def fromGtk (args : AddArgs) (nameOf : String → Option String) (now : Int) : Option DeskNote := do
  let appId ← args.appId
  let id ← args.id
  let title := plain (args.title.getD "") maxTitle
  let text := plain (args.body.getD "") maxText
  if isOurs appId "" || (title.isEmpty && text.isEmpty) then none
  else
    some { id := "", appName := (nameOf appId).getD appId, appKey := appId, title, text, time := now
           origin := .gtk appId id }

/-! ### The list -/

/-- `note` is an update of `known`. -/
def same (known note : DeskNote) : Bool :=
  match known.origin, note.origin with
  | .gtk _ _, .gtk _ _ => known.origin = note.origin
  | .fdo _ a, .fdo _ b => a ≠ 0 && a = b
  | .gtk _ _, .fdo _ _ | .fdo _ _, .gtk _ _ => false

/-- Puts `note` in the place of the first one that it updates, under that one's id. -/
def update (note : DeskNote) : List DeskNote → Option (List DeskNote × DeskNote)
  | [] => none
  | known :: notes =>
    if same known note then
      let note := { note with id := known.id }
      some (note :: notes, note)
    else (update note notes).map (fun updated => (known :: updated.1, updated.2))

/-- Adds `note`, or replaces the one it updates. Returns the stored copy with its id. -/
def upsert (state : State) (note : DeskNote) : State × DeskNote :=
  let state := { state with seen := state.seen.insert note.appKey note.appName }
  match update note state.notes with
  | some (notes, note) => ({ state with notes }, note)
  | none =>
    let next := state.next + 1
    let note := { note with id := idPrefix ++ Nat.repr next }
    let notes := state.notes ++ [note]
    ({ state with next, notes := if kept < notes.length then notes.eraseIdx 0 else notes }, note)

/-! ### What goes to the phones -/

/-- What a phone shows of a notification. -/
structure Body where
  appName : String
  title : String
  text : String
  time : Int
deriving DecidableEq, Repr

def DeskNote.body (note : DeskNote) : Body :=
  { appName := note.appName, title := note.title, text := note.text, time := note.time }

inductive Packet where
  | body (id : String) (body : Body) (silent : Bool)
  | cancel (id : String)
  | snapshot (ids : List String)
deriving DecidableEq, Repr

def bodyPacket (note : DeskNote) (silent : Bool) : Packet := .body note.id note.body silent

structure AppSettings where
  forwardNotifications : Bool
  forwardApps : List String

/-- Whether `note` goes to phones: the feature on and its app allowed. -/
def allowed (settings : AppSettings) (note : DeskNote) : Bool :=
  settings.forwardNotifications && note.appKey ∈ settings.forwardApps

/-- What the phone should hold now: the snapshot, then every allowed body. -/
def snapshotFor (settings : AppSettings) (state : State) : List Packet :=
  let notes := state.notes.filter (allowed settings)
  .snapshot (notes.map DeskNote.id) :: notes.map (fun note => bodyPacket note true)

def forward (settings : AppSettings) (note : DeskNote) : List Packet :=
  if allowed settings note then [bodyPacket note false] else []

def added (settings : AppSettings) (state : State) : Option DeskNote → State × List Packet
  | none => (state, [])
  | some note =>
    let (state, note) := upsert state note
    (state, forward settings note)

def removed (settings : AppSettings) (state : State) (gone : Origin → Bool) : State × List Packet :=
  ({ state with notes := state.notes.filter (fun note => !gone note.origin) },
    ((state.notes.filter (fun note => gone note.origin)).filter (allowed settings)).map
      (fun note => .cancel note.id))

/-- The call that closes a notification on the bus. -/
inductive Close where
  | fdo (serverId : Nat)
  | gtk (appId : String) (id : String)
deriving DecidableEq, Repr

/-- The phone dismissed `id`: closed here too, if it is still open. -/
def closeFromPhone (state : State) (id : String) : State × Option Close :=
  if !idPrefix.toList.isPrefixOf id.toList then (state, none)
  else
    match state.notes.find? (fun note => note.id = id) with
    | none => (state, none)
    | some note =>
      ({ state with notes := state.notes.eraseP (fun note => note.id = id) },
        match note.origin with
        | .fdo _ serverId => if serverId = 0 then none else some (.fdo serverId)
        | .gtk appId id => some (.gtk appId id))

/-! ### The bus -/

/-- What the monitor saw. -/
inductive Message where
  | notify (destination : Option String) (sender : String) (serial : Nat) (args : NotifyArgs)
      (now : Int)
  | reply (destination : Option String) (serial : Nat) (serverId : Option Nat)
  | closed (serverId : Option Nat)
  | addNotification (args : AddArgs) (nameOf : String → Option String) (now : Int)
  | removeNotification (app id : Option String)

/-- Whether a `Notify` is an app's own call to the notification server. -/
def toServer (server destination : Option String) : Bool :=
  destination.any (fun destination =>
    destination = "org.freedesktop.Notifications" || server = some destination)

def insertPending (pending : List ((String × Nat) × String)) (call : String × Nat) (id : String) :
    List ((String × Nat) × String) :=
  let pending := pending.filter (fun known => known.1 ≠ call) ++ [(call, id)]
  if 200 < pending.length then [] else pending

/-- The server's id for the notification under `id`. -/
def setServerId (id : String) (serverId : Nat) : List DeskNote → List DeskNote
  | [] => []
  | note :: notes =>
    if note.id = id then
      match note.origin with
      | .fdo sender _ => { note with origin := .fdo sender serverId } :: notes
      | .gtk _ _ => note :: notes
    else note :: setServerId id serverId notes

def reply (state : State) (call : String × Nat) (serverId : Nat) : State :=
  match state.pending.find? (fun known => known.1 = call) with
  | none => state
  | some (_, id) =>
    { state with
      pending := state.pending.filter (fun known => known.1 ≠ call)
      notes := setServerId id serverId state.notes }

/-- One message. `server` is the notification server's name, once known. -/
def observe (settings : AppSettings) (server : Option String) (state : State) :
    Message → State × List Packet
  | .notify destination sender serial args now =>
    if toServer server destination then
      match fromNotify args sender now with
      | none => (state, [])
      | some (note, _) =>
        let (state, note) := upsert state note
        ({ state with pending := insertPending state.pending (sender, serial) note.id },
          forward settings note)
    else (state, [])
  | .reply destination serial serverId =>
    match destination, serverId with
    | some destination, some serverId => (reply state (destination, serial) serverId, [])
    | some _, none | none, _ => (state, [])
  | .closed serverId =>
    match serverId with
    | none => (state, [])
    | some closed => removed settings state (fun origin =>
        match origin with
        | .fdo _ serverId => serverId = closed
        | .gtk _ _ => false)
  | .addNotification args nameOf now => added settings state (fromGtk args nameOf now)
  | .removeNotification app id =>
    match app, id with
    | some app, some id => removed settings state (fun origin =>
        match origin with
        | .gtk appId known => appId = app && known = id
        | .fdo _ _ => false)
    | some _, none | none, _ => (state, [])

/-! ### The phones -/

/-- What a phone holds, by id. -/
abbrev View := String → Option Body

def View.apply (view : View) : Packet → View
  | .body id body _ => Function.update view id (some body)
  | .cancel id => Function.update view id none
  | .snapshot ids => fun id => if id ∈ ids then view id else none

structure Mirror (Phone : Type) where
  desk : State := {}
  views : Phone → View := fun _ _ => none

inductive MirrorStep (Phone : Type) where
  | observe (server : Option String) (message : Message)
  /-- The phone removes a notification and asks for its closing. -/
  | dismiss (phone : Phone) (id : String)
  /-- The snapshot goes to one phone or to every one. -/
  | snapshot (phone : Option Phone)

variable {Phone : Type} [DecidableEq Phone]

/-- One step, with every phone's packets applied. -/
def Mirror.step (settings : AppSettings) (m : Mirror Phone) : MirrorStep Phone → Option (Mirror Phone)
  | .observe server message =>
    let (desk, packets) := DeskNotifications.observe settings server m.desk message
    some { desk, views := fun phone => packets.foldl View.apply (m.views phone) }
  | .dismiss phone id =>
    some { desk := (closeFromPhone m.desk id).1
           views := Function.update m.views phone (Function.update (m.views phone) id none) }
  | .snapshot phone =>
    some { m with
      views := fun known =>
        if phone.all (· = known) then
          (snapshotFor settings m.desk).foldl View.apply (m.views known)
        else m.views known }

end DeskLink.DeskNotifications
