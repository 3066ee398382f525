import DeskLink.Lib.Trim
import DeskLink.Lib.Unwind

/-!
# `DeskLink.Pointer.Glide`: the pointer glides onto the phone

`Glide` of `src/device_links/glide.rs`, with every call that the worker makes on it.
The pointer crosses a barrier at an edge of the screen, the phone is told where and
has to accept, and then what the mouse and the keyboard do goes to the phone until
the pointer comes back.

Numbers are exact: a coordinate is a rational, and a captured one that is not finite
is `none`. Times are in milliseconds. A key is what the keymap says of it: the
number the phone knows it by, and the character it types.
-/

set_option autoImplicit false

namespace DeskLink.Pointer

def pendingMax : Nat := 256

def pendingFresh : Nat := 300

def enterWait : Nat := 300

def refusedBackoff : Nat := 5000

def heldMax : Nat := 64

def motionEvery : Nat := 4

/-! ### The barrier -/

inductive Edge where
  | left | right | top | bottom
deriving DecidableEq, Repr

/-- The desk's edge as the wire's `exitEdge`. -/
def Edge.qt : Edge → Int
  | .top => 1
  | .left => 2
  | .right => 4
  | .bottom => 8

def Edge.vertical : Edge → Bool
  | .left | .right => true
  | .top | .bottom => false

structure Zone where
  x : Int
  y : Int
  width : Int
  height : Int
deriving DecidableEq, Repr

/-- The barrier's edge and start, and the zone it borders. -/
structure Barrier where
  edge : Edge
  x1 : Int
  y1 : Int
  zone : Zone
deriving DecidableEq, Repr

/-- Rounds half away from zero. -/
def round (q : Rat) : Int := if 0 ≤ q then (q + 1 / 2).floor else -(-q + 1 / 2).floor

inductive Click where
  | singlehold | singlerelease | rightclick | middleclick | backclick | forwardclick
deriving DecidableEq, Repr

/-- What a key press types: a special key's number, or text. -/
inductive Typed where
  | specialKey (number : Nat)
  | key (text : String)
deriving DecidableEq, Repr

inductive Packet where
  /-- The pointer enters the phone. -/
  | enter (exitEdge deltax deltay edgeLength : Int)
  /-- The desk takes the pointer back: `exitEdge` 0. -/
  | takenBack
  | motion (dx dy : Rat)
  | click (click : Click)
  | scroll (dx dy : Rat)
  | key (typed : Typed) (shift ctrl alt super : Bool)
deriving DecidableEq, Repr

namespace Barrier

variable (barrier : Barrier)

def length : Int := if barrier.edge.vertical then barrier.zone.height else barrier.zone.width

/-- Where the pointer crossed, from the barrier's start. -/
def enterPacket (cursor : Rat × Rat) : Packet :=
  let along (offset : Rat) : Int := max 0 (min barrier.length (round offset))
  let dx := cursor.1 - barrier.x1
  let dy := cursor.2 - barrier.y1
  if barrier.edge.vertical then
    .enter barrier.edge.qt (round dx) (along dy) barrier.length
  else .enter barrier.edge.qt (along dx) (round dy) barrier.length

/-- A point just inside the zone, at `(x, y)` along the edge. -/
def inside (x y : Rat) : Rat × Rat :=
  let zone := barrier.zone
  let clamp (value : Rat) (low high : Int) : Rat := max (low : Rat) (min (high : Rat) value)
  let x := clamp x zone.x (zone.x + zone.width - 1)
  let y := clamp y zone.y (zone.y + zone.height - 1)
  match barrier.edge with
  | .left => (((zone.x + 2 : Int) : Rat), y)
  | .right => (((zone.x + zone.width - 1 - 2 : Int) : Rat), y)
  | .top => (x, ((zone.y + 2 : Int) : Rat))
  | .bottom => (x, ((zone.y + zone.height - 1 - 2 : Int) : Rat))

/-- The barrier's start plus the phone's release deltas. -/
def releasePoint (dx dy : Rat) : Rat × Rat := barrier.inside (barrier.x1 + dx) (barrier.y1 + dy)

end Barrier

/-! ### Keys -/

structure Mods where
  shift : Bool := false
  ctrl : Bool := false
  alt : Bool := false
  altgr : Bool := false
  metaKey : Bool := false
  caps : Bool := false
deriving DecidableEq, Repr

def keyEsc : Nat := 1

def btnLeft : Nat := 0x110

def btnRight : Nat := 0x111

def btnMiddle : Nat := 0x112

def btnSide : Nat := 0x113

def btnExtra : Nat := 0x114

/-- Updates for a modifier key; false when `code` is not one. -/
def Mods.update (mods : Mods) (code : Nat) (pressed : Bool) : Mods × Bool :=
  if code = 42 ∨ code = 54 then ({ mods with shift := pressed }, true)
  else if code = 29 ∨ code = 97 then ({ mods with ctrl := pressed }, true)
  else if code = 56 then ({ mods with alt := pressed }, true)
  else if code = 100 then ({ mods with altgr := pressed }, true)
  else if code = 125 ∨ code = 126 then ({ mods with metaKey := pressed }, true)
  -- Caps Lock: its state comes as `locked`.
  else if code = 58 then (mods, true)
  else (mods, false)

structure Key where
  /-- 0 when the phone knows it by no number. -/
  special : Nat
  unicode : Option Char
deriving DecidableEq, Repr

/-- A key press for the phone, with the modifiers held. -/
def keyPacket (key : Key) (mods : Mods) : Option Packet :=
  let text := (key.unicode.filter (fun c => !Lib.isControl c)).map (fun c => String.ofList [c])
  let typed := if key.special ≠ 0 then some (.specialKey key.special) else text.map Typed.key
  typed.map (fun typed => .key typed mods.shift mods.ctrl mods.alt mods.metaKey)

/-- The key a code types, through this desktop's keymap. -/
abbrev Keys := Nat → Mods → Option Key

inductive Captured where
  | start (sequence : Nat)
  | motion (dx dy : Option Rat)
  | button (code : Nat) (pressed : Bool)
  | scroll (dx dy : Option Rat)
  | discrete (dx dy : Int)
  | key (code : Nat) (pressed : Bool)
  | locked (mask : Nat)
  | closed
deriving DecidableEq, Repr

/-! ### The state machine -/

/-- What the state machine asks the worker to do. -/
inductive Out where
  | send (packet : Packet)
  | clipboard
  | release (activation : Nat) (x y : Rat)
  | gliding (on : Bool)
  | refused
deriving DecidableEq, Repr

structure Glide where
  barrier : Barrier
  /-- The portal's activation id while the pointer is on the phone. -/
  active : Option Nat := none
  crossed : Rat × Rat := (0, 0)
  /-- Captured before the Activated signal arrived. -/
  pending : List (Nat × Captured) := []
  mods : Mods := {}
  /-- Motion not sent yet. -/
  motion : Rat × Rat := (0, 0)
  motionSent : Option Nat := none
  dropped : Nat := 0
  /-- The left button is down on the phone. -/
  leftDown : Bool := false
  /-- The phone has not accepted yet, since when. -/
  entering : Option Nat := none
  held : List Captured := []
  acceptNeeded : Bool := true
  backoffUntil : Option Nat := none
  told : Bool := false
deriving DecidableEq, Repr

namespace Glide

def new (barrier : Barrier) : Glide := { barrier }

variable (glide : Glide)

/-- The release of a held left button. -/
def letGo : Glide × List Out :=
  ({ glide with leftDown := false },
    if glide.leftDown then [.send (.click .singlerelease)] else [])

/-- The compositor ended the capture itself. -/
def deactivated : Glide × List Out :=
  let cleared := { glide with pending := [], held := [], entering := none }
  match cleared.active with
  | none => (cleared, [])
  | some _ =>
    let (glide, out) := { cleared with active := none }.letGo
    (glide, out ++ [.send .takenBack, .gliding false])

/-- The desk takes the pointer back, where it crossed. -/
def takeBack : Glide × List Out :=
  let cleared := { glide with pending := [], held := [], entering := none }
  match cleared.active with
  | none => (cleared, [])
  | some activation =>
    let (x, y) := cleared.barrier.inside cleared.crossed.1 cleared.crossed.2
    let (glide, out) := { cleared with active := none }.letGo
    (glide, out ++ [.send .takenBack, .release activation x y, .gliding false])

/-- The phone did not accept: the pointer is released where it crossed, and the edge
is left alone for a while. -/
def refused (now : Nat) (tellPhone : Bool) : Glide × List Out :=
  let cleared := { glide with
    pending := [], held := [], entering := none, motion := (0, 0)
    backoffUntil := some (now + refusedBackoff) }
  match cleared.active with
  | none => (cleared, [])
  | some activation =>
    let (x, y) := cleared.barrier.inside cleared.crossed.1 cleared.crossed.2
    ({ cleared with active := none, told := true },
      (if tellPhone then [.send .takenBack] else []) ++
        [.release activation x y, .gliding false] ++ (if cleared.told then [] else [.refused]))

/-- The phone hands the pointer back. -/
def phoneReleased (dx dy : Rat) (now : Nat) : Glide × List Out :=
  let cleared := { glide with pending := [] }
  -- Before it accepted, a hand-back is a refusal.
  if cleared.entering.isSome then cleared.refused now false
  else
    match cleared.active with
    | none => (cleared, [])
    | some activation =>
      let (x, y) := cleared.barrier.releasePoint dx dy
      let (glide, out) := { cleared with active := none }.letGo
      (glide, out ++ [.release activation x y, .gliding false])

/-- The phone says it no longer allows glide. -/
def disallowed (now : Nat) : Glide × List Out :=
  if glide.entering.isSome then glide.refused now false else glide.takeBack

def flushMotion (now : Nat) : Glide × List Out :=
  let (dx, dy) := glide.motion
  let cleared := { glide with motion := (0, 0) }
  if dx = 0 ∧ dy = 0 then (cleared, [])
  else ({ cleared with motionSent := some now }, [.send (.motion dx dy)])

/-- Motion that waited long enough goes out. -/
def tick (now : Nat) : Glide × List Out :=
  match glide.entering with
  -- No answer in time is a refusal.
  | some since => if enterWait ≤ now - since then glide.refused now true else (glide, [])
  | none =>
    if glide.motionSent.all (fun sent => motionEvery ≤ now - sent) then glide.flushMotion now
    else (glide, [])

/-- Input while the pointer is here: it may belong to the next crossing. -/
def early (captured : Captured) (now : Nat) : Glide :=
  match captured with
  | .start _ | .closed => glide
  | _ =>
    if glide.pending.length < pendingMax then
      { glide with pending := glide.pending ++ [(now, captured)] }
    else { glide with dropped := glide.dropped + 1 }

def keep (captured : Captured) : Glide :=
  if glide.held.length < heldMax then { glide with held := glide.held ++ [captured] }
  else { glide with dropped := glide.dropped + 1 }

/-- Input before the phone accepts: nothing streams, and Esc with Super still works. -/
def hold (captured : Captured) : Glide × List Out :=
  match captured with
  | .key code pressed =>
    let (mods, isMod) := glide.mods.update code pressed
    let updated := { glide with mods }
    if !isMod && pressed && code = keyEsc && mods.metaKey then updated.takeBack
    else (updated.keep captured, [])
  | _ => (glide.keep captured, [])

def clickOf (code : Nat) (pressed : Bool) : Option Click :=
  if code = btnLeft then some (if pressed then .singlehold else .singlerelease)
  else if !pressed then none
  else if code = btnRight then some .rightclick
  else if code = btnMiddle then some .middleclick
  else if code = btnSide then some .backclick
  else if code = btnExtra then some .forwardclick
  else none

/-- A click, a scroll or a key, once the phone accepted. -/
def act (captured : Captured) (keys : Keys) : Glide × List Out :=
  match captured with
  | .button code pressed =>
    match clickOf code pressed with
    | none => (glide, [])
    | some click =>
      ({ glide with leftDown := if code = btnLeft then pressed else glide.leftDown },
        [.send (.click click)])
  | .scroll (some dx) (some dy) => (glide, [.send (.scroll dx dy)])
  -- 15° per click, y inverted.
  | .discrete dx dy => (glide, [.send (.scroll (dx * (15 / 120)) (-(dy * (15 / 120))))])
  | .locked mask => ({ glide with mods := { glide.mods with caps := mask.testBit 1 } }, [])
  | .key code pressed =>
    let (mods, isMod) := glide.mods.update code pressed
    let updated := { glide with mods }
    if isMod || !pressed then (updated, [])
    else if code = keyEsc && mods.metaKey then updated.takeBack
    else
      (updated, (((keys code mods).bind (fun key => keyPacket key mods)).map Out.send).toList)
  | _ => (glide, [])

def input (captured : Captured) (keys : Keys) (now : Nat) : Glide × List Out :=
  if glide.active.isNone then (glide.early captured now, [])
  else if glide.entering.isSome then glide.hold captured
  else
    match captured with
    | .motion dx dy =>
      let moved := match dx, dy with
        | some dx, some dy =>
          { glide with motion := (glide.motion.1 + dx, glide.motion.2 + dy) }
        | _, _ => glide
      moved.tick now
    | _ =>
      -- Order matters: motion first, then the click or key.
      let (glide, flushed) := glide.flushMotion now
      let (glide, out) := glide.act captured keys
      (glide, flushed ++ out)

/-- One input after another. -/
def inputs (glide : Glide) (keys : Keys) (now : Nat) : List Captured → Glide × List Out
  | [] => (glide, [])
  | captured :: rest =>
    let (glide, out) := glide.input captured keys now
    let (glide, outs) := inputs glide keys now rest
    (glide, out ++ outs)

/-- The phone accepted the pointer: what was held goes out, in order. -/
def accepted (keys : Keys) (now : Nat) : Glide × List Out :=
  if glide.entering.isNone then (glide, [])
  else
    let (glide, out) :=
      { glide with entering := none, told := false, mods := {}, held := [] }.inputs keys now
        glide.held
    let (glide, flushed) := glide.flushMotion now
    (glide, out ++ flushed)

/-- The portal's Activated: tell the phone where, then what came early. -/
def activated (activation : Nat) (cursor : Rat × Rat) (keys : Keys) (now : Nat) :
    Glide × List Out :=
  -- A refusal just now: the pointer goes straight back.
  if glide.backoffUntil.any (fun until' => now < until') then
    let (x, y) := glide.barrier.inside cursor.1 cursor.2
    ({ glide with pending := [] }, [.release activation x y])
  else
    let waiting := glide.active.isNone || glide.entering.isSome
    let entered := { glide with
      active := some activation, crossed := cursor, mods := {}, motion := (0, 0), held := []
      entering := if glide.acceptNeeded && waiting then some now else none, pending := [] }
    let fresh := (glide.pending.filter (fun early => now - early.1 ≤ pendingFresh)).map Prod.snd
    let (entered, outs) := entered.inputs keys now fresh
    (entered, .send (glide.barrier.enterPacket cursor) ::
      (if glide.active.isNone then [.gliding true, .clipboard] else []) ++ outs)

end Glide

/-- A call of the worker. -/
inductive Call where
  | activated (activation : Nat) (cursor : Rat × Rat) (keys : Keys) (now : Nat)
  | input (captured : Captured) (keys : Keys) (now : Nat)
  | tick (now : Nat)
  | accepted (keys : Keys) (now : Nat)
  | phoneReleased (dx dy : Rat) (now : Nat)
  | disallowed (now : Nat)
  | takeBack
  | deactivated

/-- What a call does. -/
def Glide.call (glide : Glide) : Call → Glide × List Out
  | .activated activation cursor keys now => glide.activated activation cursor keys now
  | .input captured keys now => glide.input captured keys now
  | .tick now => glide.tick now
  | .accepted keys now => glide.accepted keys now
  | .phoneReleased dx dy now => glide.phoneReleased dx dy now
  | .disallowed now => glide.disallowed now
  | .takeBack => glide.takeBack
  | .deactivated => glide.deactivated

end DeskLink.Pointer
