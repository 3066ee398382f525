import DeskLink.Lib.KeyMap

/-!
# `DeskLink.Access.WalkAway`: the walk-away lock

`Watch` of `src/device_links/walk_away.rs`: the computer locks when a phone that was
connected has been out of reach for a while, after a warning.

Times are nanoseconds. Whether the desk is idle is asked at most once in a look, so its
answer is an argument of the look.
-/

set_option autoImplicit false

namespace DeskLink.WalkAway

def second : Nat := 1000000000

/-- Out of reach this long, a warning shows. -/
def warnAfter : Nat := 50 * second
/-- The warning stays up this long before the lock. -/
def warnFor : Nat := 10 * second
def lockAfter : Nat := 60 * second
/-- The same for a phone whose last heartbeat said it was dozing. -/
def dozingWarnAfter : Nat := 170 * second
def dozingLockAfter : Nat := 180 * second

/-- What is known of one phone right now. -/
structure Seen where
  enabled : Bool
  reachable : Bool
  /-- Its encrypted connection was fully up. -/
  ready : Bool
  dozing : Bool
  /-- This computer has a network of its own. -/
  networkUp : Bool
deriving DecidableEq, Repr

inductive Step where
  | warn
  | clearWarning
  | lock
deriving DecidableEq, Repr

structure Phone where
  /-- It was feature-ready since the count last had nothing to count. -/
  armed : Bool := false
  awaySince : Option Nat := none
  warnedAt : Option Nat := none
  /-- Locked, or cancelled, for this absence. -/
  done : Bool := false
  /-- A reset took the warning back: the next look says to clear it. -/
  clearPending : Bool := false
deriving DecidableEq, Repr

def clears (phone : Phone) : Option Step := if phone.warnedAt.isSome then some .clearWarning else none

/-- How long a phone is away before the warning. -/
def Seen.warnAfter (seen : Seen) : Nat :=
  if seen.dozing then dozingWarnAfter else WalkAway.warnAfter

/-- How long a phone is away before the lock. -/
def Seen.lockAfter (seen : Seen) : Nat :=
  if seen.dozing then dozingLockAfter else WalkAway.lockAfter

namespace Phone

/-- A look at a phone that is out of reach and counted. -/
def count (phone : Phone) (seen : Seen) (now : Nat) (idle : Bool) : Phone × Option Step :=
  let since := phone.awaySince.getD now
  let phone := { phone with awaySince := some since }
  let away := now - since
  match phone.warnedAt with
  | none =>
    if seen.warnAfter ≤ away then
      -- A dozing phone counts only while the desk is idle.
      if seen.dozing && !idle then (phone, none)
      else ({ phone with warnedAt := some now }, some .warn)
    else (phone, none)
  | some warned =>
    if seen.lockAfter ≤ away ∧ warnFor ≤ now - warned then
      if seen.dozing && !idle then
        -- Someone is at the keyboard after all.
        ({ phone with warnedAt := none, awaySince := some now }, some .clearWarning)
      else ({ phone with warnedAt := none, done := true }, some .lock)
    else (phone, none)

/-- A look at a phone for which the lock is on. -/
def look (phone : Phone) (seen : Seen) (now : Nat) (idle : Bool) : Phone × Option Step :=
  if phone.clearPending then ({ phone with clearPending := false }, some .clearWarning)
  else if seen.reachable then ({ armed := phone.armed || seen.ready }, clears phone)
  else if !phone.armed || phone.done then (phone, none)
  else if !seen.networkUp then ({ phone with awaySince := none, warnedAt := none }, clears phone)
  else phone.count seen now idle

end Phone

abbrev Watch := KeyMap Phone

namespace Watch

def observeWhenIdle (watch : Watch) (id : String) (seen : Seen) (now : Nat) (idle : Bool) :
    Watch × Option Step :=
  if !seen.enabled then (watch.erase id, watch[id]?.bind clears)
  else
    let (phone, step) := ((watch[id]?).getD {}).look seen now idle
    (watch.insert id phone, step)

/-- The person chose Cancel. `true` when a warning was showing. -/
def cancel (watch : Watch) (id : String) : Watch × Bool :=
  match (watch[id]?).filter (fun phone => phone.warnedAt.isSome) with
  | none => (watch, false)
  | some phone => (watch.insert id { phone with warnedAt := none, done := true }, true)

/-- A network change, or the computer woke. -/
def reset (watch : Watch) : Watch :=
  watch.map (fun _ phone =>
    { phone with clearPending := phone.clearPending || phone.warnedAt.isSome,
                 warnedAt := none, awaySince := none })

end Watch

/-! ### Runs -/

inductive WatchOp where
  | look (id : String) (seen : Seen) (now : Nat) (idle : Bool)
  | cancel (id : String)
  | reset
deriving DecidableEq, Repr

def Watch.after (watch : Watch) : WatchOp → Watch × Option Step
  | .look id seen now idle => watch.observeWhenIdle id seen now idle
  | .cancel id => ((watch.cancel id).1, none)
  | .reset => (watch.reset, none)

/-- What was done and what each look answered. -/
abbrev Entry := WatchOp × Option Step

/-- A watch, with what was done so far. -/
structure Watching where
  watch : Watch := ∅
  log : List Entry := []

def Watching.after (w : Watching) (op : WatchOp) : Watching :=
  let (watch, step) := w.watch.after op
  { watch, log := w.log ++ [(op, step)] }

def run (ops : List WatchOp) : Watching := ops.foldl Watching.after {}

end DeskLink.WalkAway
