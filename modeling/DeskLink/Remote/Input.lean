import DeskLink.Lib.Trim
import Mathlib.Data.Finset.Basic
import Mathlib.Tactic

/-!
# `DeskLink.Remote.Input`: what a phone's input does on the desktop

`type_text` and `apply` of `src/device_links/webrtc/remote_desktop_portal.rs`, and
`coalesce_motion` of `src/device_links/webrtc/coordinator.rs`. Numbers are exact.

What an action asks of the portal is a list of calls (`PortalInputAction.calls`), made in order
until one fails; only a call that presses or lets go of a key or button is told apart.
-/

set_option autoImplicit false

namespace DeskLink.Remote

inductive PortalInputAction where
  | relativeMotion (dx dy : ℚ)
  | absoluteMotion (x y : ℚ)
  /-- A place as fractions of the active screen. -/
  | normalizedMotion (x y : ℚ)
  | button (evdevCode : Int) (pressed : Bool)
  | scroll (dx dy : ℚ)
  | key (keysym : Int) (pressed : Bool)
  | typeText (text : String) (modifiers : Nat)
deriving DecidableEq

/-! ### Merging motion -/

/-- The next action is merged into the last one, or put behind it. -/
def mergeMotion (merged : List PortalInputAction) (action : PortalInputAction) :
    List PortalInputAction :=
  match merged.getLast?, action with
  | some (.absoluteMotion _ _), .absoluteMotion nx ny =>
    merged.dropLast ++ [.absoluteMotion nx ny]
  | some (.relativeMotion dx dy), .relativeMotion ndx ndy =>
    merged.dropLast ++ [.relativeMotion (dx + ndx) (dy + ndy)]
  | some (.scroll dx dy), .scroll ndx ndy =>
    merged.dropLast ++ [.scroll (dx + ndx) (dy + ndy)]
  | _, action => merged ++ [action]

/-- Runs of pointer motion are merged: the latest absolute position wins, relative moves and
scrolls add up. -/
def coalesceMotion (actions : List PortalInputAction) : List PortalInputAction :=
  actions.foldl mergeMotion []

/-! ### Keys -/

/-- The keysyms of a mask of modifiers. -/
def modifierKeysyms (mask : Nat) : List Int :=
  [((0 : Nat), (0xffe3 : Int)), (1, 0xffe9), (2, 0xffe1), (3, 0xffeb)].filterMap
    (fun entry => if mask.testBit entry.1 then some entry.2 else none)

/-- The keysyms that type `text`. -/
def textKeysyms (text : String) : List Int :=
  text.toList.filterMap (fun c =>
    if c = '\n' ∨ c = '\r' then some 0xff0d
    else if c = '\t' then some 0xff09
    else if Lib.isControl c then none
    else if c.toNat ≤ 0xff then some c.toNat
    else some (Nat.lor 0x1000000 c.toNat))

/-! ### Calls of the portal -/

/-- A key or a button: whether it is a key, and its code. -/
abbrev Held := Bool × Int

inductive PortalCall where
  /-- A call that presses nothing. -/
  | motion
  | stroke (held : Held) (pressed : Bool)
deriving DecidableEq

/-- What is held after a call that succeeds. -/
def PortalCall.press (held : Finset Held) : PortalCall → Finset Held
  | .motion => held
  | .stroke key pressed => if pressed then insert key held else held.erase key

/-- What is held after calls that all succeed. -/
def pressAll (held : Finset Held) (calls : List PortalCall) : Finset Held :=
  calls.foldl PortalCall.press held

/-- The keysyms of `type_text`, each with its modifiers around it. -/
def typeText (text : String) (modifiers : Nat) : List PortalCall :=
  (textKeysyms text).flatMap (fun keysym =>
    (modifierKeysyms modifiers).map (fun modifier => .stroke (true, modifier) true)
      ++ [.stroke (true, keysym) true, .stroke (true, keysym) false]
      ++ (modifierKeysyms modifiers).reverse.map (fun modifier => .stroke (true, modifier) false))

namespace PortalInputAction

/-- The calls that `apply` makes, one after another while they succeed. -/
def calls : PortalInputAction → List PortalCall
  | .relativeMotion .. | .absoluteMotion .. | .normalizedMotion .. | .scroll .. => [.motion]
  | .button evdevCode pressed => [.stroke (false, evdevCode) pressed]
  | .key keysym pressed => [.stroke (true, keysym) pressed]
  | .typeText text modifiers => Remote.typeText text modifiers

/-- What the worker remembers of an action that was applied. -/
def stroke : PortalInputAction → Option (Held × Bool)
  | .button evdevCode pressed => some ((false, evdevCode), pressed)
  | .key keysym pressed => some ((true, keysym), pressed)
  | .relativeMotion .. | .absoluteMotion .. | .normalizedMotion .. | .scroll .. | .typeText .. =>
    none

end PortalInputAction

end DeskLink.Remote
